import CallArchive.Text.Cut
import Mathlib.Data.List.Basic

/-!
# Cutting and joining

`cutAt` finds the first mark (`cutAt_eq_some_iff`), and `cutAtText` the first occurrence of a text
(`cutAtText_eq_some_iff`). `segments` and `join` are the library's `splitOn` and `intercalate` with
one mark, and inverse to each other on lists of pieces without it.
-/

namespace CallArchive.Text

variable {mark : Char}

/-! ## The first mark -/

theorem cutAt_append {before : List Char} (h : mark ∉ before) (after : List Char) :
    cutAt mark (before ++ mark :: after) = some (before, after) := by
  induction before with
  | nil => simp [cutAt]
  | cons c before ih =>
    obtain ⟨hc, hb⟩ := not_or.mp (mt List.mem_cons.mpr h)
    simp [cutAt, Ne.symm hc, ih hb]

theorem cutAt_eq_some_iff {s before after : List Char} :
    cutAt mark s = some (before, after) ↔ s = before ++ mark :: after ∧ mark ∉ before := by
  refine ⟨eq_append_of_cutAt, ?_⟩
  rintro ⟨rfl, h⟩
  exact cutAt_append h after

theorem forall_bne_of_not_mem {s : List Char} (h : mark ∉ s) : ∀ c ∈ s, (c != mark) = true :=
  fun _ hc => bne_iff_ne.mpr (ne_of_mem_of_not_mem hc h)

/-! ## The first occurrence of a text -/

section

variable {text s before after : List Char}

theorem contains_iff : contains text s = true ↔ text <:+: s := by
  induction s with
  | nil => simp [contains, cutAtText]
  | cons c s ih =>
    rw [List.infix_cons_iff, ← ih, ← List.isPrefixOf_iff_prefix, contains, contains, cutAtText]
    split
    · next h => simp [h]
    · next h => simp [h]

theorem append_dropLast_isPrefix (before text after : List Char) :
    before ++ text.dropLast <+: before ++ text ++ after :=
  ((List.prefix_append_right_inj before).mpr text.dropLast_prefix).trans (List.prefix_append _ after)

/-- The text does not occur any earlier, not even in part before the place and in part there. -/
theorem cutAtText_eq_some_iff (htext : text ≠ []) :
    cutAtText text s = some (before, after) ↔
      s = before ++ text ++ after ∧ ¬ text <:+: before ++ text.dropLast := by
  induction s generalizing before with
  | nil => simp [cutAtText, htext]
  | cons c s ih =>
    unfold cutAtText
    split
    · next hfront =>
      obtain ⟨rest, hrest⟩ := List.isPrefixOf_iff_prefix.mp hfront
      rw [← hrest, List.drop_left]
      constructor
      · intro h
        obtain ⟨rfl, rfl⟩ := Prod.mk.inj (Option.some.inj h)
        refine ⟨rfl, fun hpiece => ?_⟩
        have hlength := hpiece.length_le
        have hpos := List.length_pos_iff.mpr htext
        simp at hlength
        omega
      · rintro ⟨heq, hnot⟩
        -- An occurrence at the front would lie before the one that is named.
        obtain rfl : before = [] := by
          refine Classical.byContradiction fun hne => hnot ?_
          have hfirst : text <+: before ++ text ++ after := ⟨rest, heq⟩
          have hlater := append_dropLast_isPrefix before text after
          refine (List.prefix_of_prefix_length_le hfirst hlater ?_).isInfix
          have hpos := List.length_pos_iff.mpr hne
          rw [List.length_append, List.length_dropLast]
          omega
        rw [List.append_cancel_left heq]
    · next hfront =>
      have hnot : ¬ text <+: c :: s := fun h => hfront (List.isPrefixOf_iff_prefix.mpr h)
      rw [Option.map_eq_some_iff]
      constructor
      · rintro ⟨⟨before', after'⟩, hcut, heq⟩
        obtain ⟨rfl, rfl⟩ := Prod.mk.inj heq
        obtain ⟨rfl, hpiece⟩ := ih.mp hcut
        refine ⟨rfl, ?_⟩
        rw [List.cons_append, List.infix_cons_iff, not_or]
        exact ⟨fun h => hnot (h.trans (append_dropLast_isPrefix (c :: before') text after')), hpiece⟩
      · rintro ⟨heq, hpiece⟩
        cases before with
        | nil => exact absurd ⟨after, heq.symm⟩ hnot
        | cons x before =>
          obtain ⟨rfl, rfl⟩ := List.cons.inj heq
          rw [List.cons_append, List.infix_cons_iff, not_or] at hpiece
          exact ⟨(before, after), ih.mpr ⟨rfl, hpiece.2⟩, rfl⟩

end

/-! ## Pieces -/

theorem nonEmpty?_eq_some_iff {s t : List Char} : nonEmpty? s = some t ↔ s = t ∧ t ≠ [] := by
  cases s with
  | nil => simp [nonEmpty?, eq_comm]
  | cons c s =>
    simp only [nonEmpty?, Option.some.injEq]
    exact ⟨fun h => ⟨h, h ▸ List.cons_ne_nil c s⟩, And.left⟩

theorem nonEmpty?_of_ne_nil {s : List Char} (h : s ≠ []) : nonEmpty? s = some s :=
  nonEmpty?_eq_some_iff.mpr ⟨rfl, h⟩

theorem bind_nonEmpty?_eq_self {x : Option (List Char)} (h : ∀ s ∈ x, s ≠ []) :
    x.bind nonEmpty? = x := by
  cases x with
  | none => rfl
  | some s => exact nonEmpty?_of_ne_nil (h s rfl)

theorem segments_eq_splitOn (mark : Char) (s : List Char) : segments mark s = s.splitOn mark := by
  induction s with
  | nil => rfl
  | cons c s ih =>
    rw [List.splitOn_cons_eq_if_modifyHead, ← ih, segments]
    by_cases h : c = mark
    · simp [h]
    · rw [if_neg h, if_neg (mt eq_of_beq h)]
      cases hs : segments mark s with
      | nil => exact absurd hs (segments_ne_nil mark s)
      | cons piece pieces => rfl

theorem join_eq_intercalate (mark : Char) (pieces : List (List Char)) :
    join mark pieces = [mark].intercalate pieces := by
  induction pieces with
  | nil => rfl
  | cons piece pieces ih =>
    cases pieces with
    | nil => simp [join]
    | cons next pieces => simp [join, ih]

theorem segments_join {pieces : List (List Char)} (h : ∀ p ∈ pieces, mark ∉ p)
    (hne : pieces ≠ []) : segments mark (join mark pieces) = pieces := by
  rw [segments_eq_splitOn, join_eq_intercalate, List.splitOn_intercalate mark h hne]

theorem segments_append_mark (mark : Char) (s t : List Char) :
    segments mark (s ++ mark :: t) = segments mark s ++ segments mark t := by
  simp only [segments_eq_splitOn, List.splitOn_append_cons_self]

theorem not_mem_of_mem_segments {s p : List Char} (h : p ∈ segments mark s) : mark ∉ p := by
  induction s generalizing p with
  | nil =>
    rw [List.mem_singleton.mp h]
    exact List.not_mem_nil
  | cons c s ih =>
    unfold segments at h
    split at h
    · rcases List.mem_cons.mp h with rfl | h
      · exact List.not_mem_nil
      · exact ih h
    · next hc =>
      cases hs : segments mark s with
      | nil => exact absurd hs (segments_ne_nil mark s)
      | cons piece pieces =>
        rw [hs] at h ih
        rcases List.mem_cons.mp h with rfl | h
        · have hpiece := ih List.mem_cons_self
          simp [Ne.symm hc, hpiece]
        · exact ih (List.mem_cons_of_mem _ h)

end CallArchive.Text
