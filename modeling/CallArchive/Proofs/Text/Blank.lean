import CallArchive.Proofs.Text.Digits
import CallArchive.Text.Blank
import Mathlib.Data.List.DropRight

/-!
# Trimmed texts

What is left of a text once it is trimmed is a piece of it (`trim_isInfix`) that trimming does not
change (`trim_trim`).
-/

namespace CallArchive.Text

variable {s : List Char}

theorem trim_isInfix (s : List Char) : trim s <:+: s := by
  have hright : trim s <+: trimLeft s := List.rdropWhile_prefix _ _
  have hleft : trimLeft s <:+ s := List.dropWhile_suffix _
  exact hright.isInfix.trans hleft.isInfix

theorem trimRight_trim (s : List Char) : trimRight (trim s) = trim s :=
  List.rdropWhile_idempotent _ _

/-- Dropping blanks at the end does not bring one to the front. -/
theorem trimLeft_trim (s : List Char) : trimLeft (trim s) = trim s := by
  have hfront : trim s <+: trimLeft s := List.rdropWhile_prefix _ _
  have hleft : trimLeft (trimLeft s) = trimLeft s := List.dropWhile_idempotent _ _
  refine List.dropWhile_eq_self_iff.mpr fun hpos => ?_
  rw [hfront.getElem hpos]
  exact List.dropWhile_eq_self_iff.mp hleft (hpos.trans_le hfront.length_le)

theorem trim_trim (s : List Char) : trim (trim s) = trim s := by
  rw [trim, trimLeft_trim, trimRight_trim]

/-- A character that is not blank may be put in front. -/
theorem trim_cons {c : Char} (hc : isBlank c = false) (h : trim s = s) : trim (c :: s) = c :: s := by
  have hleft : trimLeft (c :: s) = c :: s := List.dropWhile_cons_of_neg (by simp [hc])
  have hright : s.rdropWhile isBlank = s := h ▸ trimRight_trim s
  rw [trim, hleft]
  refine List.rdropWhile_eq_self_iff.mpr fun hne => ?_
  by_cases hs : s = []
  · simp [hs, hc]
  · rw [List.getLast_cons hs]
    exact List.rdropWhile_eq_self_iff.mp hright hs

theorem trim_eq_self (h : ∀ c ∈ s, isBlank c = false) : trim s = s := by
  induction s with
  | nil => rfl
  | cons c s ih =>
    obtain ⟨hc, hs⟩ := List.forall_mem_cons.mp h
    exact trim_cons hc (ih hs)

/-! ## Blanks around a text -/

theorem isBlank_of_isDigit {c : Char} (h : c.isDigit = true) : isBlank c = false := by
  have hbounds := toNat_of_isDigit h
  rw [isBlank, List.any_eq_false]
  intro r hr
  rw [Bool.and_eq_true, decide_eq_true_eq, decide_eq_true_eq]
  simp only [blankRanges, List.mem_cons, List.not_mem_nil, or_false] at hr
  rcases hr with rfl | rfl | rfl | rfl | rfl | rfl | rfl | rfl | rfl | rfl
  all_goals
    dsimp only
    omega

/-- Trimming drops blanks only. -/
theorem exists_trim (s : List Char) : ∃ left right, s = left ++ trim s ++ right ∧
    left.all isBlank = true ∧ right.all isBlank = true := by
  refine ⟨s.takeWhile isBlank, (trimLeft s).rtakeWhile isBlank, ?_, List.all_takeWhile, ?_⟩
  · have hright : trim s ++ (trimLeft s).rtakeWhile isBlank = trimLeft s :=
      List.rdropWhile_append_rtakeWhile
    rw [List.append_assoc, hright]
    exact List.takeWhile_append_dropWhile.symm
  · rw [List.rtakeWhile, List.all_reverse]
    exact List.all_takeWhile

/-- Blanks around a text are dropped. -/
theorem trim_padded {left core right : List Char} (hleft : left.all isBlank = true)
    (hright : right.all isBlank = true) (hcore : trim core = core) (hne : core ≠ []) :
    trim (left ++ core ++ right) = core := by
  have hstart : trimLeft core = core := hcore ▸ trimLeft_trim core
  have hfront : trimLeft (left ++ core ++ right) = core ++ right := by
    rw [trimLeft, List.append_assoc, List.dropWhile_append_of_pos (List.all_eq_true.mp hleft),
      List.dropWhile_append, ← trimLeft, hstart, List.isEmpty_eq_false_iff.mpr hne,
      if_neg Bool.false_ne_true]
  have hback : trimRight (core ++ right) = trimRight core := by
    have hblank : ∀ c ∈ right.reverse, isBlank c = true := fun c hc =>
      List.all_eq_true.mp hright c (List.mem_reverse.mp hc)
    rw [trimRight, List.reverse_append, List.dropWhile_append_of_pos hblank, ← trimRight]
  rw [trim, hfront, hback]
  exact hcore ▸ trimRight_trim core

end CallArchive.Text
