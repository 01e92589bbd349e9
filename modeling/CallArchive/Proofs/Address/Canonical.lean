import CallArchive.Proofs.Address.Parse

/-!
# What canonicalisation keeps of an address

The parts of an address are put in normal form one by one, and the delimiters between them stay
(`coordinatesOf_normalize`), so what is read back has the same scheme, authority and coordinates
(`canonicalize_eq`). There is one exception: without its dot segments the path of an address without
an authority may begin with two slashes, and those are read as the start of one
(`canonicalize_keeps_iff`).
-/

namespace CallArchive.Address

open Text

/-! ## The parts in normal form -/

def Coordinates.normal (c : Coordinates) : Coordinates :=
  ⟨c.forge.map normalize, c.product.map normalize, c.version.map normalize⟩

theorem splitProduct_normalize (forge : Option (List Char)) {s : List Char} (hs : WellFormed s) :
    splitProduct (forge.map normalize) (normalize s) = (splitProduct forge s).normal := by
  rw [splitProduct, splitProduct, cutAt_normalize delimits_dollar hs]
  cases cutAt '$' s with
  | none => simp [Coordinates.normal, nonEmpty?_normalize]
  | some p => simp [Coordinates.normal, nonEmpty?_normalize]

theorem splitCoordinates_normalize {x : List Char} (hx : WellFormed x) {c : Coordinates}
    (h : splitCoordinates x = .ok c) : splitCoordinates (normalize x) = .ok c.normal := by
  rw [splitCoordinates] at h ⊢
  rw [cutAt_normalize delimits_bang hx]
  cases hcut : cutAt '!' x with
  | none =>
    rw [hcut] at h
    obtain rfl := Except.ok.inj h
    exact congrArg Except.ok (splitProduct_normalize none hx)
  | some p =>
    obtain ⟨forge, rest⟩ := p
    have hwf : WellFormed forge ∧ WellFormed rest := by
      rw [(cutAt_eq_some_iff.mp hcut).1] at hx
      exact (wellFormed_append_delimiter delimits_bang).mp hx
    simp only [hcut] at h
    simp only [Option.map_some, mem_normalize_iff delimits_bang hwf.2]
    split at h
    · cases h
    · next hbang =>
      obtain rfl := Except.ok.inj h
      rw [if_neg hbang, nonEmpty?_normalize, splitProduct_normalize _ hwf.2]

theorem coordinatesOf_normalize {authority : Option (List Char)}
    (hwf : ∀ x ∈ authority, WellFormed x) {c : Coordinates} (h : coordinatesOf authority = .ok c) :
    coordinatesOf (authority.map normalize) = .ok c.normal := by
  cases authority with
  | none =>
    obtain rfl := Except.ok.inj h
    rfl
  | some x => exact splitCoordinates_normalize (hwf x rfl) h

/-- No escape goes across the parts of an address. -/
theorem wellFormed_assemble {scheme authority : Option (List Char)} {path : List Char}
    (hpath : isPath path = true) :
    WellFormed (assemble scheme authority path) ↔
      (∀ n ∈ scheme, WellFormed n) ∧ (∀ x ∈ authority, WellFormed x) ∧ WellFormed path := by
  have hauthority : WellFormed (authorityText authority ++ path) ↔
      (∀ x ∈ authority, WellFormed x) ∧ WellFormed path := by
    cases authority with
    | none => simp [authorityText]
    | some x =>
      have hslash : '/' ≠ '%' := by decide
      rw [authorityText, List.cons_append, List.cons_append, wellFormed_char hslash,
        wellFormed_char hslash]
      rcases isPath_iff.mp hpath with rfl | ⟨body, rfl⟩
      · simp [WellFormed]
      · rw [wellFormed_append_delimiter delimits_slash, wellFormed_char hslash]
        simp
  cases scheme with
  | none => simpa [assemble, schemeText] using hauthority
  | some n =>
    rw [assemble, schemeText, List.append_assoc, List.singleton_append,
      wellFormed_append_delimiter delimits_colon, hauthority]
    simp

theorem isPath_removeDotSegments {path : List Char} (h : isPath path = true) :
    isPath (removeDotSegments path) = true := by
  rcases isPath_iff.mp h with rfl | ⟨body, rfl⟩
  · rfl
  · obtain ⟨pieces, heq, -⟩ := exists_removeDotSegments body
    rw [heq]
    rfl

theorem isPath_normalize {path : List Char} (h : isPath path = true) :
    isPath (normalize path) = true := by
  rcases isPath_iff.mp h with rfl | ⟨body, rfl⟩
  · rfl
  · rw [normalize_char (by decide)]
    rfl

/-! ## Canonicalisation -/

variable {s : List Char} {a : Address}

/-- The path without its dot segments begins like an authority, and the address has none. -/
def ExposesAuthority (a : Address) : Prop :=
  a.authority = none ∧ ['/', '/'] <+: removeDotSegments (normalize a.path)

/-- The same parts are there, and the coordinates of `c` are those of `a` in normal form. -/
structure SameStructure (a c : Address) : Prop where
  scheme : c.scheme.isSome = a.scheme.isSome
  authority : c.authority.isSome = a.authority.isSome
  forge : c.forge = a.forge.map normalize
  product : c.product = a.product.map normalize
  version : c.version = a.version.map normalize

theorem Parsed.named_canonical (h : Parsed s a) :
    ∀ n ∈ a.scheme.map toLower, n = schemeName.toList := fun n hn => by
  obtain ⟨name, hname, rfl⟩ := Option.map_eq_some_iff.mp hn
  exact h.shaped.named name hname

theorem Parsed.rooted_canonical (h : Parsed s a) :
    isPath (removeDotSegments (normalize a.path)) = true :=
  isPath_removeDotSegments (isPath_normalize h.shaped.rooted)

theorem Parsed.wellFormed_parts (h : Parsed s a) :
    (∀ x ∈ a.authority, WellFormed x) ∧ WellFormed a.path :=
  ((wellFormed_assemble h.shaped.rooted).mp (h.text ▸ h.wellFormed)).2

theorem Parsed.lower_canonical (h : Parsed s a) :
    ∀ n ∈ a.scheme.map toLower, toLower n = schemeName.toList := fun n hn => by
  rw [h.named_canonical n hn]
  decide

theorem Parsed.closed_canonical (h : Parsed s a) : ∀ x ∈ a.authority.map normalize, '/' ∉ x :=
  fun x hx => by
    obtain ⟨text, htext, rfl⟩ := Option.map_eq_some_iff.mp hx
    exact mt (mem_normalize_iff delimits_slash (h.wellFormed_parts.1 text htext)).mp
      (h.shaped.closed text htext)

theorem Parsed.wellFormed_canonicalForm (h : Parsed s a) : WellFormed a.canonicalForm := by
  obtain ⟨hauthority, hpath⟩ := h.wellFormed_parts
  rw [canonicalForm_eq]
  refine (wellFormed_assemble h.rooted_canonical).mpr ⟨fun n hn => ?_, fun x hx => ?_, ?_⟩
  · rw [h.named_canonical n hn]
    simp [schemeName, WellFormed]
  · obtain ⟨text, htext, rfl⟩ := Option.map_eq_some_iff.mp hx
    exact wellFormed_normalize (hauthority text htext)
  · exact wellFormed_removeDotSegments (wellFormed_normalize hpath)

theorem Parsed.splitScheme_canonicalForm (h : Parsed s a) :
    splitScheme a.canonicalForm = (a.scheme.map toLower,
      authorityText (a.authority.map normalize) ++ removeDotSegments (normalize a.path)) := by
  rw [canonicalForm_eq]
  exact splitScheme_assemble h.lower_canonical h.rooted_canonical

/-- The canonical form has parts of good shape unless it exposes an authority. -/
theorem Parsed.wellShaped_canonical (h : Parsed s a) (hpath : ¬ ExposesAuthority a) :
    WellShaped (a.scheme.map toLower) (a.authority.map normalize)
      (removeDotSegments (normalize a.path)) where
  named := h.lower_canonical
  closed := h.closed_canonical
  rooted := h.rooted_canonical
  bare hnone := not_and.mp hpath (Option.map_eq_none_iff.mp hnone)

/-- The canonical form is read back into the normal forms of the parts. -/
theorem Parsed.canonicalize_eq (h : Parsed s a) (hpath : ¬ ExposesAuthority a) :
    canonicalize a = .ok (withParts (a.scheme.map toLower) (a.authority.map normalize)
      (removeDotSegments (normalize a.path))
      (Coordinates.normal ⟨a.forge, a.product, a.version⟩)) := by
  have hwf := h.wellFormed_canonicalForm
  rw [canonicalForm_eq] at hwf
  rw [canonicalize, canonicalForm_eq, parse_assemble (h.wellShaped_canonical hpath) hwf,
    coordinatesOf_normalize h.wellFormed_parts.1 h.coordinates]
  rfl

/-- Two slashes that come to lead the path are read as the start of an authority. -/
theorem Parsed.authority_of_exposed (h : Parsed s a) (hpath : ExposesAuthority a) {c : Address}
    (hc : canonicalize a = .ok c) : c.authority.isSome = true := by
  have hread := Parsed.of_ok hc
  have hsplit := h.splitScheme_canonicalForm
  rw [hread.text, splitScheme_assemble hread.shaped.named hread.shaped.rooted, hpath.1] at hsplit
  have hrest : authorityText c.authority ++ c.path = removeDotSegments (normalize a.path) :=
    (Prod.mk.inj hsplit).2
  by_contra hnone
  have hnone : c.authority = none := Option.not_isSome_iff_eq_none.mp hnone
  have hslashes := hpath.2
  rw [← hrest, hnone] at hslashes
  exact hread.shaped.bare hnone hslashes

/-! ## Canonical addresses -/

theorem removeDotSegments_normalize_eq_self_iff {path : List Char} (hpath : isPath path = true)
    (hwf : WellFormed path) : removeDotSegments (normalize path) = path ↔
      normalize path = path ∧ ∀ p ∈ segments '/' path, ¬ IsDotSegment p := by
  have hplain : removeDotSegments path = path ↔ ∀ p ∈ segments '/' path, ¬ IsDotSegment p := by
    rcases isPath_iff.mp hpath with rfl | ⟨body, rfl⟩
    · simp [removeDotSegments, segments, not_isDotSegment_nil]
    · rw [removeDotSegments_eq_self_iff, segments, if_pos rfl, List.forall_mem_cons]
      exact (and_iff_right not_isDotSegment_nil).symm
  constructor
  · intro heq
    have hnormal : normalize path = path := by
      have hescapes := normalEscapes_removeDotSegments (normalEscapes_normalize hwf)
      rw [heq] at hescapes
      exact hescapes.normalize_eq
    rw [hnormal] at heq
    exact ⟨hnormal, hplain.mp heq⟩
  · rintro ⟨hnormal, hdots⟩
    rw [hnormal]
    exact hplain.mpr hdots

theorem toLower_eq_self_of_named {n : List Char} (h : toLower n = schemeName.toList) :
    toLower n = n ↔ n = schemeName.toList :=
  ⟨fun hself => hself.symm.trans h, fun heq => h.trans heq.symm⟩

/-- Parts that can be told apart in one text. -/
theorem assemble_inj {scheme scheme' x x' : Option (List Char)} {path path' : List Char}
    (hscheme : ∀ n ∈ scheme, toLower n = schemeName.toList)
    (hscheme' : ∀ n ∈ scheme', toLower n = schemeName.toList)
    (hx : ∀ y ∈ x, '/' ∉ y) (hx' : ∀ y ∈ x', '/' ∉ y) (hsome : x.isSome = x'.isSome)
    (hpath : isPath path = true) (hpath' : isPath path' = true)
    (h : assemble scheme x path = assemble scheme' x' path') :
    scheme = scheme' ∧ x = x' ∧ path = path' := by
  have hsplit := congrArg splitScheme h
  rw [splitScheme_assemble hscheme hpath, splitScheme_assemble hscheme' hpath'] at hsplit
  obtain ⟨hs, hrest⟩ := Prod.mk.inj hsplit
  refine ⟨hs, ?_⟩
  match x, x', hsome with
  | none, none, _ => exact ⟨rfl, hrest⟩
  | some y, some y', _ =>
    have hauthority := congrArg splitAuthority hrest
    simp only [authorityText, List.cons_append] at hauthority
    rw [splitAuthority_some (hx y rfl) hpath, splitAuthority_some (hx' y' rfl) hpath'] at hauthority
    exact Prod.mk.inj hauthority

/-- A scheme has no escapes. -/
theorem normalEscapes_of_named {n : List Char} (h : toLower n = schemeName.toList) :
    NormalEscapes n :=
  normalEscapes_of_not_mem (not_mem_of_isSchemeShaped (isSchemeShaped_of_toLower h) (by decide))

theorem normalize_assemble {scheme authority : Option (List Char)} {path : List Char}
    (hscheme : ∀ n ∈ scheme, toLower n = schemeName.toList) (hwf : ∀ x ∈ authority, WellFormed x) :
    normalize (assemble scheme authority path) =
      assemble scheme (authority.map normalize) (normalize path) := by
  have hslash : '/' ≠ '%' := by decide
  have hauthority : normalize (authorityText authority ++ path) =
      authorityText (authority.map normalize) ++ normalize path := by
    cases authority with
    | none => rfl
    | some x =>
      rw [authorityText, List.cons_append, List.cons_append, normalize_char hslash,
        normalize_char hslash, normalize_append (hwf x rfl)]
      rfl
  cases scheme with
  | none => exact hauthority
  | some n =>
    have hn := normalEscapes_of_named (hscheme n rfl)
    simp only [assemble, schemeText, List.append_assoc, List.singleton_append]
    rw [normalize_append hn.wellFormed, hn.normalize_eq, normalize_char (by decide), hauthority]

/-- No escape goes across the parts. -/
theorem normalEscapes_assemble {scheme authority : Option (List Char)} {path : List Char}
    (hscheme : ∀ n ∈ scheme, toLower n = schemeName.toList) (hpath : isPath path = true) :
    NormalEscapes (assemble scheme authority path) ↔
      (∀ x ∈ authority, NormalEscapes x) ∧ NormalEscapes path := by
  have hauthority : NormalEscapes (authorityText authority ++ path) ↔
      (∀ x ∈ authority, NormalEscapes x) ∧ NormalEscapes path := by
    cases authority with
    | none => simp [authorityText]
    | some x =>
      rw [authorityText, List.cons_append, List.cons_append,
        normalEscapes_cons_delimiter delimits_slash, normalEscapes_cons_delimiter delimits_slash]
      rcases isPath_iff.mp hpath with rfl | ⟨body, rfl⟩
      · simp [normalEscapes_nil]
      · rw [normalEscapes_append_delimiter delimits_slash,
          normalEscapes_cons_delimiter delimits_slash]
        simp
  cases scheme with
  | none => simpa [assemble, schemeText] using hauthority
  | some n =>
    have hn := normalEscapes_of_named (hscheme n rfl)
    rw [assemble, schemeText, List.append_assoc, List.singleton_append,
      normalEscapes_append_delimiter delimits_colon, hauthority]
    exact and_iff_right hn

/-- An address is compared with its canonical form part by part. -/
theorem Parsed.isCanonical_iff_parts (h : Parsed s a) :
    a.isCanonical = true ↔ (∀ n ∈ a.scheme, n = schemeName.toList) ∧
      (∀ x ∈ a.authority, NormalEscapes x) ∧ NormalEscapes a.path ∧
      ∀ p ∈ segments '/' a.path, ¬ IsDotSegment p := by
  obtain ⟨hauthority, hpath⟩ := h.wellFormed_parts
  have hform : a.isCanonical = true ↔ a.scheme.map toLower = a.scheme ∧
      a.authority.map normalize = a.authority ∧ removeDotSegments (normalize a.path) = a.path := by
    rw [isCanonical, beq_iff_eq, h.raw, canonicalForm_eq]
    constructor
    · intro heq
      exact assemble_inj h.lower_canonical h.shaped.named h.closed_canonical h.shaped.closed
        (by simp) h.rooted_canonical h.shaped.rooted (heq.symm.trans h.text)
    · rintro ⟨hs, hx, hp⟩
      rw [hs, hx, hp]
      exact h.text
  have hscheme : a.scheme.map toLower = a.scheme ↔ ∀ n ∈ a.scheme, n = schemeName.toList := by
    cases hn : a.scheme with
    | none => simp
    | some n => simp [toLower_eq_self_of_named (h.shaped.named n hn)]
  have hescapes : a.authority.map normalize = a.authority ↔ ∀ x ∈ a.authority, NormalEscapes x := by
    cases hx : a.authority with
    | none => simp
    | some x => simp [normalize_eq_self_iff (hauthority x hx)]
  rw [hform, hscheme, hescapes, removeDotSegments_normalize_eq_self_iff h.shaped.rooted hpath,
    normalize_eq_self_iff hpath]

/-- A text is in canonical form if its scheme is in lower case, its escapes are in normal form and
its path has no dot segments. -/
theorem Parsed.isCanonical_iff (h : Parsed s a) :
    a.isCanonical = true ↔ (∀ n ∈ a.scheme, n = schemeName.toList) ∧ NormalEscapes s ∧
      ∀ p ∈ segments '/' a.path, ¬ IsDotSegment p := by
  rw [h.isCanonical_iff_parts, h.text, normalEscapes_assemble h.shaped.named h.shaped.rooted,
    and_assoc]

/-- Every address keeps its structure, except for those that expose an authority. -/
theorem canonicalize_keeps_iff (h : parse s = .ok a) :
    (∃ c, canonicalize a = .ok c ∧ SameStructure a c) ↔ ¬ ExposesAuthority a := by
  have hread := Parsed.of_ok h
  constructor
  · rintro ⟨c, hc, hsame⟩ hpath
    have hsome := hread.authority_of_exposed hpath hc
    rw [hsame.authority, hpath.1] at hsome
    cases hsome
  · intro hpath
    exact ⟨_, hread.canonicalize_eq hpath, by simp [withParts], by simp [withParts], rfl, rfl, rfl⟩

/-- The scheme, a dot segment and an escape change; the structure does not. -/
theorem canonicalize_keeps_iff_spelled :
    ∃ a c, parse "FASTEN://mvn!p$1/a/../n/C.m()%56".toList = .ok a ∧ canonicalize a = .ok c ∧
      SameStructure a c := by
  obtain ⟨a, ha⟩ := ok_of_isSome (x := parse "FASTEN://mvn!p$1/a/../n/C.m()%56".toList)
    (by decide +kernel)
  have hauthority : ((parse "FASTEN://mvn!p$1/a/../n/C.m()%56".toList).toOption.bind
      Address.authority).isSome = true := by decide +kernel
  rw [ha] at hauthority
  obtain ⟨c, hc, hsame⟩ := (canonicalize_keeps_iff ha).mpr fun hpath => by
    rw [Except.toOption, Option.bind_some, hpath.1] at hauthority
    cases hauthority
  exact ⟨a, c, ha, hc, hsame⟩

/-- An internal address whose canonical form names a product, and one whose canonical form is no
address. -/
theorem canonicalize_exposes :
    (∃ a c, parse "/.//p/n/m()".toList = .ok a ∧ canonicalize a = .ok c ∧ a.authority = none ∧
      a.product = none ∧ c.authority = some "p".toList ∧ c.product = some "p".toList) ∧
    ∃ a, parse "/.//a!b!c/n".toList = .ok a ∧
      canonicalize a = .error (.multipleForgeSeparators "a!b!c".toList) := by
  refine ⟨⟨_, _, rfl, rfl, ?_⟩, ⟨_, rfl, rfl⟩⟩
  decide +kernel

end CallArchive.Address
