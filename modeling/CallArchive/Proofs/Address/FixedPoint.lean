import CallArchive.Proofs.Address.Canonical

/-!
# Canonical forms are canonical

The canonical form of an address has a scheme in lower case, escapes in normal form and a path
without dot segments. Read again it may be split elsewhere, for an authority that its path exposes
takes the first segment from it; but then the path that is left is the end of one without dot
segments (`Parsed.path_suffix`). So whenever a canonical form is read again, the address is
canonical (`canonicalize_canonical`).
-/

namespace CallArchive.Address

open Text

variable {s : List Char} {a c : Address}

/-! ## Escapes -/

theorem Parsed.normalEscapes_canonicalForm (h : Parsed s a) : NormalEscapes a.canonicalForm := by
  obtain ⟨hauthority, hpath⟩ := h.wellFormed_parts
  have hnormal : (a.authority.map normalize).map normalize = a.authority.map normalize := by
    rw [Option.map_map]
    exact Option.map_congr fun x hx => normalize_normalize (hauthority x hx)
  refine (normalize_eq_self_iff h.wellFormed_canonicalForm).mp ?_
  rw [canonicalForm_eq, normalize_assemble h.lower_canonical, hnormal,
    (normalEscapes_removeDotSegments (normalEscapes_normalize hpath)).normalize_eq]
  intro x hx
  obtain ⟨y, hy, rfl⟩ := Option.map_eq_some_iff.mp hx
  exact wellFormed_normalize (hauthority y hy)

/-! ## The path of a canonical form -/

theorem Parsed.not_isDotSegment_canonical (h : Parsed s a) :
    ∀ p ∈ segments '/' (removeDotSegments (normalize a.path)), ¬ IsDotSegment p := by
  rcases isPath_iff.mp (isPath_normalize h.shaped.rooted) with heq | ⟨body, heq⟩
  · rw [heq]
    exact List.forall_mem_singleton.mpr not_isDotSegment_nil
  · rw [heq]
    exact not_isDotSegment_removeDotSegments body

/-- Where a path is cut before a slash, its end has no other segments. -/
theorem not_isDotSegment_of_suffix {path rest : List Char} (hrooted : isPath rest = true)
    (hrest : rest <:+ path) (h : ∀ p ∈ segments '/' path, ¬ IsDotSegment p) :
    ∀ p ∈ segments '/' rest, ¬ IsDotSegment p := by
  rcases isPath_iff.mp hrooted with rfl | ⟨body, rfl⟩
  · exact List.forall_mem_singleton.mpr not_isDotSegment_nil
  · obtain ⟨front, rfl⟩ := hrest
    rw [segments, if_pos rfl]
    refine List.forall_mem_cons.mpr ⟨not_isDotSegment_nil, fun p hp => h p ?_⟩
    rw [segments_append_mark]
    exact List.mem_append_right _ hp

/-- What is read from a canonical form has its scheme, and the same text after it. -/
theorem Parsed.reread (h : Parsed s a) (hc : Parsed a.canonicalForm c) :
    c.scheme = a.scheme.map toLower ∧ authorityText c.authority ++ c.path =
      authorityText (a.authority.map normalize) ++ removeDotSegments (normalize a.path) := by
  have hsplit := h.splitScheme_canonicalForm
  rw [hc.text, splitScheme_assemble hc.shaped.named hc.shaped.rooted] at hsplit
  exact Prod.mk.inj hsplit

/-- An authority that was there is found again; one that was not has been part of the path. -/
theorem Parsed.path_suffix (h : Parsed s a) (hc : Parsed a.canonicalForm c) :
    c.path <:+ removeDotSegments (normalize a.path) := by
  obtain ⟨-, hrest⟩ := h.reread hc
  cases hx : a.authority with
  | none =>
    rw [hx] at hrest
    exact ⟨_, hrest⟩
  | some x =>
    have hclosed : '/' ∉ normalize x := h.closed_canonical _ (by rw [hx]; rfl)
    have hsplit := congrArg splitAuthority hrest
    rw [splitAuthority_assemble hc.shaped, hx] at hsplit
    have hread : splitAuthority (authorityText ((some x).map normalize) ++
        removeDotSegments (normalize a.path)) = _ := splitAuthority_some hclosed h.rooted_canonical
    rw [hread] at hsplit
    exact (Prod.mk.inj hsplit).2 ▸ List.suffix_refl _

/-! ## The fixed point -/

theorem Parsed.isCanonical_reread (h : Parsed s a) (hc : Parsed a.canonicalForm c) :
    c.isCanonical = true := by
  refine hc.isCanonical_iff.mpr ⟨fun n hn => ?_, h.normalEscapes_canonicalForm, ?_⟩
  · rw [(h.reread hc).1] at hn
    exact h.named_canonical n hn
  · exact not_isDotSegment_of_suffix hc.shaped.rooted (h.path_suffix hc)
      h.not_isDotSegment_canonical

/-- A canonical form that is itself an address is its own canonical form. -/
theorem canonicalize_canonical (h : parse s = .ok a) (hc : parse a.canonicalForm = .ok c) :
    c.canonicalForm = a.canonicalForm ∧ canonicalize a = .ok c ∧ c.isCanonical = true := by
  have hread := Parsed.of_ok hc
  have hcanonical := (Parsed.of_ok h).isCanonical_reread hread
  refine ⟨?_, hc, hcanonical⟩
  rw [← beq_iff_eq.mp hcanonical]
  exact hread.raw

/-- A decoded dot segment takes another one along, and the canonical form begins with an authority
that the address does not have. -/
theorem canonicalize_canonical_exposed :
    ∃ a c, parse "/%2e//%70/../n/m()%5b".toList = .ok a ∧ parse a.canonicalForm = .ok c ∧
      a.canonicalForm = "//n/m()%5B".toList ∧ a.authority = none ∧
      c.authority = some "n".toList ∧ c.canonicalForm = a.canonicalForm ∧
      canonicalize a = .ok c ∧ c.isCanonical = true := by
  obtain ⟨a, ha⟩ : ∃ a, parse "/%2e//%70/../n/m()%5b".toList = .ok a := ⟨_, rfl⟩
  have hparts : ((parse "/%2e//%70/../n/m()%5b".toList).map fun a =>
      (a.canonicalForm, a.authority)).toOption = some ("//n/m()%5B".toList, none) := by
    decide +kernel
  rw [ha] at hparts
  obtain ⟨hform, hnone⟩ := Prod.mk.inj (Option.some.inj hparts)
  obtain ⟨c, hc, hauthority⟩ :
      ∃ c, parse a.canonicalForm = .ok c ∧ c.authority = some "n".toList := by
    rw [hform]
    exact ⟨_, rfl, by decide +kernel⟩
  exact ⟨a, c, ha, hc, hform, hnone, hauthority, canonicalize_canonical ha hc⟩

end CallArchive.Address
