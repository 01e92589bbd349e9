/-!
# Cutting texts at marks

`cutAt` and `cutAtText` split a text at the first occurrence of a character or of a text; `segments`
splits it at every occurrence of a character, and `join` puts the pieces back together.
-/

namespace CallArchive.Text

/-- What stands before and after the first `mark`. -/
def cutAt (mark : Char) : List Char → Option (List Char × List Char)
  | [] => none
  | c :: rest =>
    if c = mark then some ([], rest) else (cutAt mark rest).map fun p => (c :: p.1, p.2)

/-- What stands before and after the first occurrence of the text `mark`. -/
def cutAtText (mark : List Char) : List Char → Option (List Char × List Char)
  | [] => if mark.isEmpty then some ([], []) else none
  | c :: rest =>
    if mark.isPrefixOf (c :: rest) then some ([], (c :: rest).drop mark.length)
    else (cutAtText mark rest).map fun p => (c :: p.1, p.2)

def contains (mark : List Char) (s : List Char) : Bool := (cutAtText mark s).isSome

/-- The pieces between the marks, of which there is always one more than there are marks. -/
def segments (mark : Char) : List Char → List (List Char)
  | [] => [[]]
  | c :: rest =>
    if c = mark then [] :: segments mark rest
    else
      match segments mark rest with
      | [] => [[c]]
      | piece :: pieces => (c :: piece) :: pieces

/-- The pieces with one `mark` between neighbours. -/
def join (mark : Char) : List (List Char) → List Char
  | [] => []
  | [piece] => piece
  | piece :: next :: pieces => piece ++ mark :: join mark (next :: pieces)

/-- The text itself unless it is empty. -/
def nonEmpty? : List Char → Option (List Char)
  | [] => none
  | s => some s

theorem cutAt_eq_none_iff {mark : Char} {s : List Char} : cutAt mark s = none ↔ mark ∉ s := by
  induction s with
  | nil => simp [cutAt]
  | cons c rest ih =>
    by_cases h : c = mark
    · simp [cutAt, h]
    · simp [cutAt, h, Ne.symm h, ih]

theorem eq_append_of_cutAt {mark : Char} {s before after : List Char}
    (h : cutAt mark s = some (before, after)) : s = before ++ mark :: after ∧ mark ∉ before := by
  induction s generalizing before with
  | nil => simp [cutAt] at h
  | cons c rest ih =>
    by_cases hc : c = mark
    · simp only [cutAt, hc, if_true, Option.some.injEq, Prod.mk.injEq] at h
      obtain ⟨rfl, rfl⟩ := h
      simp [hc]
    · simp only [cutAt, hc, if_false, Option.map_eq_some_iff] at h
      obtain ⟨⟨b, a⟩, hcut, heq⟩ := h
      simp only [Prod.mk.injEq] at heq
      obtain ⟨rfl, rfl⟩ := heq
      obtain ⟨rfl, hb⟩ := ih hcut
      simp [hb, Ne.symm hc]

theorem segments_ne_nil (mark : Char) (s : List Char) : segments mark s ≠ [] := by
  cases s with
  | nil => simp [segments]
  | cons c rest =>
    unfold segments
    split
    · simp
    · split <;> simp

theorem join_segments (mark : Char) (s : List Char) : join mark (segments mark s) = s := by
  induction s with
  | nil => rfl
  | cons c rest ih =>
    by_cases hc : c = mark
    · have hne := segments_ne_nil mark rest
      cases hs : segments mark rest with
      | nil => exact absurd hs hne
      | cons piece pieces => rw [hs] at ih; simp [segments, hc, hs, join, ih]
    · cases hs : segments mark rest with
      | nil => exact absurd hs (segments_ne_nil mark rest)
      | cons piece pieces =>
        rw [hs] at ih
        cases pieces with
        | nil => simp [segments, hc, hs, join] at ih ⊢; exact ih
        | cons next more => simp [segments, hc, hs, join] at ih ⊢; exact ih

end CallArchive.Text
