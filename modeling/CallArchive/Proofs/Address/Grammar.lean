import CallArchive.Proofs.Address.Parse
import Mathlib.Data.List.Count

/-!
# Which texts are addresses

Four conditions on a text, in the order in which the reader looks at them: its escapes, its scheme,
the path after it, and the forge of its authority (`IsAddress`). They speak of the text alone. The
reader accepts the texts that meet them all, refuses the others for the first that they do not meet
(`FirstViolation`), and what it accepts it cuts into pieces that give the text again (`PiecesOf`).
-/

namespace CallArchive.Address

open Text

/-! ## The grammar -/

def StartsEscape (after : List Char) : Prop :=
  ∃ a b rest, after = a :: b :: rest ∧ isHexDigit a = true ∧ isHexDigit b = true

def EscapesHold (s : List Char) : Prop := ∀ after, '%' :: after <:+ s → StartsEscape after

/-- After `before` stands a percent sign that starts no escape, and none in `before` is like that. -/
def FirstBadEscape (s before : List Char) : Prop :=
  ∃ after, s = before ++ '%' :: after ∧ ¬ StartsEscape after ∧
    ∀ mid, '%' :: mid <:+ before → StartsEscape (mid ++ '%' :: after)

/-- A letter, and letters, digits, plus signs, hyphens and dots after it. -/
def SchemeShaped (name : List Char) : Prop :=
  ∃ c rest, name = c :: rest ∧ c.isAlpha = true ∧
    ∀ d ∈ rest, d.isAlphanum = true ∨ d = '+' ∨ d = '-' ∨ d = '.'

/-- The text before the first colon looks like a scheme. -/
def HasScheme (s name rest : List Char) : Prop :=
  s = name ++ ':' :: rest ∧ ':' ∉ name ∧ SchemeShaped name

def SchemeHolds (s : List Char) : Prop :=
  ∀ name rest, HasScheme s name rest → toLower name = schemeName.toList

/-- What is left without the scheme. -/
def Remainder (s rest : List Char) : Prop :=
  (∃ name, HasScheme s name rest) ∨ (∀ name after, ¬ HasScheme s name after) ∧ rest = s

def Rooted (rest : List Char) : Prop := rest = [] ∨ ∃ body, rest = '/' :: body

/-- After two slashes stands the authority, up to the next slash or to the end. -/
def HasAuthority (s x path : List Char) : Prop :=
  Remainder s ('/' :: '/' :: (x ++ path)) ∧ '/' ∉ x ∧ Rooted path

def PathHolds (s : List Char) : Prop := ∀ rest, Remainder s rest → Rooted rest

def ForgeHolds (s : List Char) : Prop := ∀ x path, HasAuthority s x path → x.count '!' ≤ 1

structure IsAddress (s : List Char) : Prop where
  escapes : EscapesHold s
  scheme : SchemeHolds s
  path : PathHolds s
  forge : ForgeHolds s

/-- The condition of which the error tells is not met, and those before it are. An escape is reported
with the number of bytes before it. -/
def FirstViolation (s : List Char) : AddressError → Prop
  | .invalidEscape offset =>
    ∃ before, FirstBadEscape s before ∧ offset = (String.ofList before).utf8ByteSize
  | .unsupportedScheme name =>
    EscapesHold s ∧ ∃ rest, HasScheme s name rest ∧ toLower name ≠ schemeName.toList
  | .relativePath path =>
    EscapesHold s ∧ SchemeHolds s ∧ Remainder s path ∧ ¬ Rooted path
  | .multipleForgeSeparators x =>
    EscapesHold s ∧ SchemeHolds s ∧ PathHolds s ∧ ∃ path, HasAuthority s x path ∧ 1 < x.count '!'

/-- Nothing of the text is lost: its scheme, its authority and its path with their delimiters. -/
structure PiecesOf (s : List Char) (a : Address) : Prop where
  raw : a.raw = s
  text : schemeText a.scheme ++ authorityText a.authority ++ a.path = s
  scheme : ∀ name, a.scheme = some name ↔ ∃ rest, HasScheme s name rest
  authority : ∀ x, a.authority = some x ↔ ∃ path, HasAuthority s x path

variable {s : List Char}

/-! ## Escapes -/

theorem escapesHold_iff : EscapesHold s ↔ WellFormed s := wellFormed_iff.symm

theorem utf8ByteSize_cons (c : Char) (s : List Char) :
    (String.ofList (c :: s)).utf8ByteSize = (String.ofList s).utf8ByteSize + c.utf8Size := by
  rw [String.ofList_cons, String.utf8ByteSize_append, String.utf8ByteSize_singleton, Nat.add_comm]

theorem FirstBadEscape.head {after : List Char} (h : ¬ StartsEscape after) :
    FirstBadEscape ('%' :: after) [] := by
  refine ⟨after, rfl, h, ?_⟩
  intro mid hmid
  cases List.suffix_nil.mp hmid

theorem FirstBadEscape.cons {before : List Char} {c : Char} (h : FirstBadEscape s before)
    (hc : c = '%' → StartsEscape s) : FirstBadEscape (c :: s) (c :: before) := by
  obtain ⟨after, rfl, hbad, hgood⟩ := h
  refine ⟨after, rfl, hbad, ?_⟩
  intro mid hmid
  rcases List.suffix_cons_iff.mp hmid with heq | hmid
  · obtain ⟨rfl, rfl⟩ := List.cons.inj heq
    exact hc rfl
  · exact hgood mid hmid

theorem exists_firstBadEscape {offset : Nat} (h : firstBadEscape s = some offset) :
    ∃ before, FirstBadEscape s before ∧ offset = (String.ofList before).utf8ByteSize := by
  fun_induction firstBadEscape s generalizing offset with
  | case1 => cases h
  | case2 a b rest hab ih =>
    obtain ⟨ha, hb⟩ := Bool.and_eq_true_iff.mp hab
    obtain ⟨later, hlater, rfl⟩ := Option.map_eq_some_iff.mp h
    obtain ⟨before, hbefore, rfl⟩ := ih hlater
    have hdigits : FirstBadEscape (a :: b :: rest) (a :: b :: before) :=
      (hbefore.cons (absurd · (percent_ne_hexDigit hb).symm)).cons
        (absurd · (percent_ne_hexDigit ha).symm)
    refine ⟨'%' :: a :: b :: before, hdigits.cons fun _ => ⟨a, b, rest, rfl, ha, hb⟩, ?_⟩
    have hone : ∀ {d : Char}, isHexDigit d = true → d.utf8Size = 1 :=
      forall_hexDigit (p := fun d => d.utf8Size = 1) (by decide)
    rw [utf8ByteSize_cons, utf8ByteSize_cons, utf8ByteSize_cons, hone ha, hone hb]
    rfl
  | case3 a b rest hab =>
    obtain rfl := Option.some.inj h
    refine ⟨[], .head ?_, rfl⟩
    rintro ⟨a', b', rest', heq, ha, hb⟩
    obtain ⟨rfl, rfl, rfl⟩ := by simpa only [List.cons.injEq] using heq
    exact hab (Bool.and_eq_true_iff.mpr ⟨ha, hb⟩)
  | case4 rest hshort =>
    obtain rfl := Option.some.inj h
    refine ⟨[], .head ?_, rfl⟩
    rintro ⟨a, b, rest', rfl, -, -⟩
    exact hshort a b rest' rfl rfl
  | case5 c rest _ hc ih =>
    obtain ⟨later, hlater, rfl⟩ := Option.map_eq_some_iff.mp h
    obtain ⟨before, hbefore, rfl⟩ := ih hlater
    exact ⟨c :: before, hbefore.cons (absurd · hc), (utf8ByteSize_cons c before).symm⟩

/-- The first bad escape has no other in front of it. -/
theorem FirstBadEscape.eq_of_prefix {before before' : List Char} (h : FirstBadEscape s before)
    (h' : FirstBadEscape s before') (hle : before' <+: before) : before = before' := by
  obtain ⟨mid, rfl⟩ := hle
  obtain ⟨after, hs, -, hgood⟩ := h
  obtain ⟨after', hs', hbad, -⟩ := h'
  rw [hs', List.append_assoc] at hs
  have hrest : '%' :: after' = mid ++ '%' :: after := List.append_cancel_left hs
  cases mid with
  | nil => exact List.append_nil before'
  | cons c mid =>
    obtain ⟨rfl, rfl⟩ := List.cons.inj hrest
    exact absurd (hgood mid (List.suffix_append _ _)) hbad

theorem FirstBadEscape.unique {before before' : List Char} (h : FirstBadEscape s before)
    (h' : FirstBadEscape s before') : before = before' := by
  have hbefore : before <+: s := by
    obtain ⟨after, rfl, -⟩ := h
    exact List.prefix_append _ _
  have hbefore' : before' <+: s := by
    obtain ⟨after, rfl, -⟩ := h'
    exact List.prefix_append _ _
  rcases List.prefix_or_prefix_of_prefix hbefore hbefore' with hle | hle
  · exact (h'.eq_of_prefix h hle).symm
  · exact h.eq_of_prefix h' hle

theorem firstBadEscape_eq_some_iff {offset : Nat} : firstBadEscape s = some offset ↔
    ∃ before, FirstBadEscape s before ∧ offset = (String.ofList before).utf8ByteSize := by
  refine ⟨exists_firstBadEscape, ?_⟩
  rintro ⟨before, hbefore, rfl⟩
  cases hfirst : firstBadEscape s with
  | none =>
    obtain ⟨after, rfl, hbad, -⟩ := hbefore
    have hwf := (firstBadEscape_eq_none_iff _).mp hfirst
    exact absurd (escapesHold_iff.mpr hwf after (List.suffix_append _ _)) hbad
  | some offset =>
    obtain ⟨before', hbefore', rfl⟩ := exists_firstBadEscape hfirst
    rw [hbefore.unique hbefore']

/-! ## Schemes -/

theorem isSchemeShaped_iff {name : List Char} : isSchemeShaped name = true ↔ SchemeShaped name := by
  unfold SchemeShaped
  cases name with
  | nil => simp [isSchemeShaped]
  | cons c rest => simp [isSchemeShaped, isSchemeChar, or_assoc]

theorem hasScheme_iff {name rest : List Char} :
    HasScheme s name rest ↔ splitScheme s = (some name, rest) := by
  constructor
  · rintro ⟨rfl, -, hshape⟩
    exact splitScheme_some (isSchemeShaped_iff.mpr hshape) rest
  · intro h
    unfold splitScheme at h
    split at h
    · next hcut =>
      split at h
      · next hshape =>
        obtain ⟨rfl, rfl⟩ := by simpa using h
        obtain ⟨heq, hcolon⟩ := cutAt_eq_some_iff.mp hcut
        exact ⟨heq, hcolon, isSchemeShaped_iff.mp hshape⟩
      · cases h
    · cases h

theorem schemeHolds_iff :
    SchemeHolds s ↔ ∀ n ∈ (splitScheme s).1, toLower n = schemeName.toList := by
  constructor
  · intro h n hn
    exact h n (splitScheme s).2 (hasScheme_iff.mpr (Prod.ext hn rfl))
  · intro h name rest hscheme
    apply h
    rw [hasScheme_iff.mp hscheme]
    rfl

theorem remainder_iff {rest : List Char} : Remainder s rest ↔ rest = (splitScheme s).2 := by
  have htext := splitScheme_text s
  cases hn : (splitScheme s).1 with
  | none =>
    have hnone : ∀ name after, ¬ HasScheme s name after := by
      intro name after h
      rw [hasScheme_iff.mp h] at hn
      cases hn
    rw [hn] at htext
    have hrest : (splitScheme s).2 = s := htext
    simp [Remainder, hnone, hrest]
  | some n =>
    have hscheme : HasScheme s n (splitScheme s).2 := hasScheme_iff.mpr (Prod.ext hn rfl)
    constructor
    · rintro (⟨name, h⟩ | ⟨hnone, -⟩)
      · rw [hasScheme_iff.mp h]
      · exact absurd hscheme (hnone _ _)
    · rintro rfl
      exact .inl ⟨n, hscheme⟩

/-! ## Paths and authorities -/

theorem isPath_dropWhile (s : List Char) : isPath (s.dropWhile (· != '/')) = true := by
  induction s with
  | nil => rfl
  | cons c s ih =>
    rw [List.dropWhile_cons]
    split
    · exact ih
    · next hc => simpa [isPath] using hc

theorem isPath_splitAuthority (rest : List Char) :
    isPath (splitAuthority rest).2 = isPath rest := by
  unfold splitAuthority
  split
  · exact isPath_dropWhile _
  · rfl

theorem pathHolds_iff : PathHolds s ↔ isPath (splitScheme s).2 = true := by
  rw [isPath_iff]
  constructor
  · intro h
    exact h _ (remainder_iff.mpr rfl)
  · intro h rest hrest
    rw [remainder_iff.mp hrest]
    exact h

theorem hasAuthority_iff {x path : List Char} :
    HasAuthority s x path ↔ splitAuthority (splitScheme s).2 = (some x, path) := by
  constructor
  · rintro ⟨hrest, hx, hpath⟩
    rw [← remainder_iff.mp hrest]
    exact splitAuthority_some hx (isPath_iff.mpr hpath)
  · intro h
    have htext := splitAuthority_text (splitScheme s).2
    have hclosed := (splitAuthority_shape (splitScheme s).2).1
    rw [h] at htext hclosed
    refine ⟨remainder_iff.mpr htext, hclosed x rfl, isPath_iff.mp ?_⟩
    have hpath := isPath_splitAuthority (splitScheme s).2
    rw [h, ← htext] at hpath
    exact hpath

theorem splitCoordinates_of_count_le {x : List Char} (h : x.count '!' ≤ 1) :
    ∃ c, splitCoordinates x = .ok c := by
  unfold splitCoordinates
  split
  · next forge rest hcut =>
    obtain ⟨rfl, -⟩ := cutAt_eq_some_iff.mp hcut
    rw [List.count_append, List.count_cons_self] at h
    have hrest : '!' ∉ rest := List.count_eq_zero.mp (by omega)
    rw [if_neg hrest]
    exact ⟨_, rfl⟩
  · exact ⟨_, rfl⟩

theorem splitCoordinates_of_lt_count {x : List Char} (h : 1 < x.count '!') :
    splitCoordinates x = .error (.multipleForgeSeparators x) := by
  unfold splitCoordinates
  split
  · next forge rest hcut =>
    obtain ⟨rfl, hforge⟩ := cutAt_eq_some_iff.mp hcut
    rw [List.count_append, List.count_cons_self, List.count_eq_zero.mpr hforge] at h
    have hrest : '!' ∈ rest := List.count_pos_iff.mp (by omega)
    exact if_pos hrest
  · next hcut =>
    rw [List.count_eq_zero.mpr (cutAt_eq_none_iff.mp hcut)] at h
    omega

/-! ## The reader follows the grammar -/

theorem IsAddress.parse_ok (h : IsAddress s) : ∃ a, parse s = .ok a := by
  rcases hs : splitScheme s with ⟨scheme, rest⟩
  rcases hr : splitAuthority rest with ⟨authority, path⟩
  have hscheme := schemeHolds_iff.mp h.scheme
  have hpath := (isPath_splitAuthority _).trans (pathHolds_iff.mp h.path)
  rw [hs] at hscheme hpath
  rw [hr] at hpath
  rw [parse_of_split (escapesHold_iff.mp h.escapes) hs hr hscheme hpath]
  cases authority with
  | none => exact ⟨_, rfl⟩
  | some x =>
    have hx : HasAuthority s x path := hasAuthority_iff.mpr (by rw [hs]; exact hr)
    obtain ⟨c, hc⟩ := splitCoordinates_of_count_le (h.forge x path hx)
    rw [coordinatesOf, hc]
    exact ⟨_, rfl⟩

theorem FirstViolation.parse_error {e : AddressError} (h : FirstViolation s e) :
    parse s = .error e := by
  cases e with
  | invalidEscape offset => exact parse_badEscape (firstBadEscape_eq_some_iff.mpr h)
  | unsupportedScheme name =>
    obtain ⟨hescapes, rest, hscheme, hname⟩ := h
    exact parse_unknownScheme (escapesHold_iff.mp hescapes) (hasScheme_iff.mp hscheme) hname
  | relativePath path =>
    obtain ⟨hescapes, hscheme, hrest, hpath⟩ := h
    have hbare : ¬ ['/', '/'] <+: path := by
      rintro ⟨after, rfl⟩
      exact hpath (.inr ⟨_, rfl⟩)
    have hsplit : splitAuthority (splitScheme s).2 = (none, path) := by
      rw [← remainder_iff.mp hrest]
      exact splitAuthority_none hbare
    exact parse_relativePath (escapesHold_iff.mp hescapes) rfl hsplit (schemeHolds_iff.mp hscheme)
      (Bool.eq_false_iff.mpr (mt isPath_iff.mp hpath))
  | multipleForgeSeparators x =>
    obtain ⟨hescapes, hscheme, hpath, path, hx, hcount⟩ := h
    have hpath := (isPath_splitAuthority _).trans (pathHolds_iff.mp hpath)
    have hsplit := hasAuthority_iff.mp hx
    rw [hsplit] at hpath
    rw [parse_of_split (escapesHold_iff.mp hescapes) rfl hsplit (schemeHolds_iff.mp hscheme) hpath,
      coordinatesOf, splitCoordinates_of_lt_count hcount]
    rfl

/-- Of a text that does not meet the conditions there is a first that it does not meet. -/
theorem exists_firstViolation (h : ¬ IsAddress s) : ∃ e, FirstViolation s e := by
  by_cases hescapes : EscapesHold s
  swap
  · obtain ⟨offset, hoffset⟩ := Option.ne_none_iff_exists'.mp
      (mt (firstBadEscape_eq_none_iff s).mp (mt escapesHold_iff.mpr hescapes))
    exact ⟨.invalidEscape offset, exists_firstBadEscape hoffset⟩
  by_cases hscheme : SchemeHolds s
  swap
  · unfold SchemeHolds at hscheme
    push Not at hscheme
    obtain ⟨name, rest, hhas, hname⟩ := hscheme
    exact ⟨.unsupportedScheme name, hescapes, rest, hhas, hname⟩
  by_cases hpath : PathHolds s
  swap
  · unfold PathHolds at hpath
    push Not at hpath
    obtain ⟨rest, hrest, hrooted⟩ := hpath
    exact ⟨.relativePath rest, hescapes, hscheme, hrest, hrooted⟩
  have hforge : ¬ ForgeHolds s := fun hforge => h ⟨hescapes, hscheme, hpath, hforge⟩
  unfold ForgeHolds at hforge
  push Not at hforge
  obtain ⟨x, path, hx, hcount⟩ := hforge
  exact ⟨.multipleForgeSeparators x, hescapes, hscheme, hpath, path, hx, hcount⟩

theorem parse_error_iff_firstViolation {e : AddressError} :
    parse s = .error e ↔ FirstViolation s e := by
  refine ⟨fun h => ?_, FirstViolation.parse_error⟩
  have hnot : ¬ IsAddress s := by
    intro hs
    obtain ⟨a, ha⟩ := hs.parse_ok
    cases ha.symm.trans h
  obtain ⟨e', he'⟩ := exists_firstViolation hnot
  obtain rfl := Except.error.inj (he'.parse_error.symm.trans h)
  exact he'

theorem Parsed.pieces {a : Address} (h : Parsed s a) : PiecesOf s a := by
  have hscheme : splitScheme (assemble a.scheme a.authority a.path) = _ :=
    splitScheme_assemble h.shaped.named h.shaped.rooted
  have hauthority := splitAuthority_assemble h.shaped
  rw [← h.text] at hscheme
  refine ⟨h.raw, ?_, fun name => ?_, fun x => ?_⟩
  · rw [List.append_assoc]
    exact h.text.symm
  · simp [hasScheme_iff, hscheme]
  · simp [hasAuthority_iff, hscheme, hauthority]

/-- The reader accepts the addresses, and refuses another text for the first condition that it does
not meet. -/
theorem parse_grammar (s : List Char) :
    ((∃ a, parse s = .ok a) ↔ IsAddress s) ∧
      (∀ e, parse s = .error e ↔ FirstViolation s e) ∧
      ∀ a, parse s = .ok a → PiecesOf s a := by
  refine ⟨⟨?_, IsAddress.parse_ok⟩, fun e => parse_error_iff_firstViolation,
    fun a ha => (Parsed.of_ok ha).pieces⟩
  rintro ⟨a, ha⟩
  by_contra hnot
  obtain ⟨e, he⟩ := exists_firstViolation hnot
  cases he.parse_error.symm.trans ha

example : parse "é//%4".toList = .error (.invalidEscape 4) := by decide

end CallArchive.Address
