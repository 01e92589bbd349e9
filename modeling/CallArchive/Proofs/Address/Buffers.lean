import CallArchive.Proofs.Address.DotSegments
import Mathlib.Data.List.DropRight
import Mathlib.Data.List.TakeWhile

/-!
# Dot segments in two buffers

The standard procedure for dot segments knows no list of segments. It moves a path from an input
buffer to an output buffer, one segment at a time, and takes dot segments out on the way
(`Buffers.step`); a segment `..` shortens the output. `Buffers.run` repeats this until the input is
empty. For a path it ends with what `removeDotSegments` answers (`removeDotSegments_buffered`).
-/

namespace CallArchive.Address

open Text

/-! ## The procedure -/

/-- What is left to read, and what has been written. -/
structure Buffers where
  input : List Char
  output : List Char
  deriving DecidableEq, Repr

namespace Buffers

/-- The output without its last segment and the slash in front of that, if there is one. -/
def shorten (output : List Char) : List Char := (output.rdropWhile (· != '/')).dropLast

/-- The first segment moves to the output, with a slash in front of it, if there is one. -/
def moveSegment (input output : List Char) : Buffers :=
  match input with
  | '/' :: rest => ⟨rest.dropWhile (· != '/'), output ++ '/' :: rest.takeWhile (· != '/')⟩
  | rest => ⟨rest.dropWhile (· != '/'), output ++ rest.takeWhile (· != '/')⟩

/-- A dot segment at the front of the input is dropped with the slash on one side of it, so that what
is left begins with a slash if the input did. Any other segment moves to the output. -/
def step : Buffers → Buffers
  | ⟨'.' :: '.' :: '/' :: rest, output⟩ => ⟨rest, output⟩
  | ⟨'.' :: '/' :: rest, output⟩ => ⟨rest, output⟩
  | ⟨'/' :: '.' :: '/' :: rest, output⟩ => ⟨'/' :: rest, output⟩
  | ⟨['/', '.'], output⟩ => ⟨['/'], output⟩
  | ⟨'/' :: '.' :: '.' :: '/' :: rest, output⟩ => ⟨'/' :: rest, shorten output⟩
  | ⟨['/', '.', '.'], output⟩ => ⟨['/'], shorten output⟩
  | ⟨['.'], output⟩ => ⟨[], output⟩
  | ⟨['.', '.'], output⟩ => ⟨[], output⟩
  | ⟨input, output⟩ => moveSegment input output

theorem length_moveSegment {input : List Char} (h : input ≠ []) (output : List Char) :
    (moveSegment input output).input.length < input.length := by
  have hle : ∀ s : List Char, (s.dropWhile (· != '/')).length ≤ s.length := fun s =>
    (List.dropWhile_sublist _).length_le
  unfold moveSegment
  split
  · exact Nat.lt_succ_of_le (hle _)
  · next hslash =>
    cases input with
    | nil => exact absurd rfl h
    | cons c rest =>
      have hc : (c != '/') = true := bne_iff_ne.mpr fun hc => hslash rest (by rw [hc])
      simp only [List.dropWhile_cons, hc, if_true]
      exact Nat.lt_succ_of_le (hle rest)

/-- Each step leaves less to read. -/
theorem length_step {b : Buffers} (h : b.input ≠ []) : b.step.input.length < b.input.length := by
  unfold step
  split
  case h_9 => exact length_moveSegment h _
  all_goals simp only [List.length_cons]; omega

def run (b : Buffers) : List Char :=
  if _h : b.input = [] then b.output else b.step.run
termination_by b.input.length
decreasing_by exact length_step _h

theorem run_nil (output : List Char) : run ⟨[], output⟩ = output := by
  rw [run]
  exact dif_pos rfl

theorem run_step {b : Buffers} (h : b.input ≠ []) : b.run = b.step.run := by
  rw [run]
  exact dif_neg h

theorem step_of_plain {s : List Char} (h : ¬ IsDotSegment (s.takeWhile (· != '/')))
    (output : List Char) :
    step ⟨'/' :: s, output⟩
      = ⟨s.dropWhile (· != '/'), output ++ '/' :: s.takeWhile (· != '/')⟩ := by
  rw [step]
  · rfl
  · rintro rest ⟨⟩
  · rintro rest ⟨⟩
  · rintro rest ⟨⟩
    exact h (.inl rfl)
  · rintro ⟨⟩
    exact h (.inl rfl)
  · rintro rest ⟨⟩
    exact h (.inr rfl)
  · rintro ⟨⟩
    exact h (.inr rfl)
  · rintro ⟨⟩
  · rintro ⟨⟩

example : run ⟨"/a/b/c/./../../g".toList, []⟩ = "/a/g".toList := by decide +kernel

example : run ⟨"mid/content=5/../6".toList, []⟩ = "mid/6".toList := by decide +kernel

end Buffers

/-! ## Texts of segments -/

/-- Each segment with a slash in front of it. -/
def slashed (segments : List (List Char)) : List Char := (segments.map ('/' :: ·)).flatten

theorem slashed_nil : slashed [] = [] := rfl

theorem slashed_cons (p : List Char) (segs : List (List Char)) :
    slashed (p :: segs) = '/' :: (p ++ slashed segs) := by
  rw [slashed, List.map_cons, List.flatten_cons, List.cons_append]
  rfl

theorem slashed_singleton (p : List Char) : slashed [p] = '/' :: p := by
  rw [slashed_cons, slashed_nil, List.append_nil]

theorem slashed_append (segs more : List (List Char)) :
    slashed (segs ++ more) = slashed segs ++ slashed more := by
  rw [slashed, List.map_append, List.flatten_append]
  rfl

theorem slashed_eq_join {segs : List (List Char)} (h : segs ≠ []) :
    slashed segs = '/' :: join '/' segs := by
  induction segs with
  | nil => exact absurd rfl h
  | cons p segs ih =>
    rw [slashed_cons]
    cases segs with
    | nil => rw [slashed_nil, List.append_nil, join]
    | cons q segs => rw [ih (List.cons_ne_nil q segs), join]

theorem splits_slashed {p : List Char} (hp : '/' ∉ p) (segs : List (List Char)) :
    (p ++ slashed segs).takeWhile (· != '/') = p ∧
      (p ++ slashed segs).dropWhile (· != '/') = slashed segs := by
  have hall := forall_bne_of_not_mem hp
  rw [List.takeWhile_append_of_pos hall, List.dropWhile_append_of_pos hall]
  cases segs with
  | nil => simp [slashed]
  | cons q segs => simp [slashed_cons]

/-! ## The loop -/

theorem shorten_append {p : List Char} (hp : '/' ∉ p) (output : List Char) :
    Buffers.shorten (output ++ '/' :: p) = output := by
  have hall := forall_bne_of_not_mem (mt List.mem_reverse.mp hp)
  rw [Buffers.shorten, List.rdropWhile, List.reverse_append, List.reverse_cons, List.append_assoc,
    List.dropWhile_append_of_pos hall]
  simp

/-- The output loses the segment that was kept last. -/
theorem shorten_slashed {kept : List (List Char)} (h : ∀ p ∈ kept, '/' ∉ p) :
    Buffers.shorten (slashed kept.reverse) = slashed kept.tail.reverse := by
  cases kept with
  | nil => rfl
  | cons p kept =>
    rw [List.reverse_cons, slashed_append, slashed_singleton, shorten_append (h p List.mem_cons_self),
      List.tail_cons]

theorem slashed_remaining_true (kept : List (List Char)) :
    slashed (remaining (kept, true)) = slashed kept.reverse ++ ['/'] := slashed_append _ _

theorem run_slash (output : List Char) : Buffers.run ⟨['/'], output⟩ = output ++ ['/'] := by
  have hstep : Buffers.step ⟨['/'], output⟩ = ⟨[], output ++ ['/']⟩ :=
    Buffers.step_of_plain (s := []) not_isDotSegment_nil output
  rw [Buffers.run_step (List.cons_ne_nil _ _), hstep, Buffers.run_nil]

/-- Between two steps the input holds the segments that are left, and the output those kept. -/
theorem run_slashed {segs : List (List Char)} (hsegs : ∀ p ∈ segs, '/' ∉ p)
    (kept : List (List Char)) (hkept : ∀ p ∈ kept, '/' ∉ p) :
    Buffers.run ⟨slashed segs, slashed kept.reverse⟩
      = slashed (remaining (keepSegments kept segs)) := by
  induction segs generalizing kept with
  | nil =>
    rw [slashed_nil, Buffers.run_nil, keepSegments, remaining]
    simp
  | cons p segs ih =>
    obtain ⟨hp, hsegs⟩ := List.forall_mem_cons.mp hsegs
    rw [Buffers.run_step (by simp [slashed_cons]), keepSegments]
    by_cases hdot : p = dot
    · rw [if_pos hdot, hdot]
      cases segs with
      | nil => exact (run_slash _).trans (slashed_remaining_true kept).symm
      | cons q segs => exact ih hsegs kept hkept
    by_cases hdotDot : p = dotDot
    · have htail : ∀ q ∈ kept.tail, '/' ∉ q := fun q hq => hkept q (List.mem_of_mem_tail hq)
      have hshort := shorten_slashed hkept
      rw [if_neg hdot, if_pos hdotDot, hdotDot]
      cases segs with
      | nil =>
        have hstep : Buffers.step ⟨slashed [dotDot], slashed kept.reverse⟩
            = ⟨['/'], slashed kept.tail.reverse⟩ := congrArg (Buffers.mk ['/']) hshort
        rw [hstep]
        exact (run_slash _).trans (slashed_remaining_true kept.tail).symm
      | cons q segs =>
        have hstep : Buffers.step ⟨slashed (dotDot :: q :: segs), slashed kept.reverse⟩
            = ⟨slashed (q :: segs), slashed kept.tail.reverse⟩ :=
          congrArg (Buffers.mk (slashed (q :: segs))) hshort
        rw [hstep]
        exact ih hsegs kept.tail htail
    · obtain ⟨htake, hdrop⟩ := splits_slashed hp segs
      have hplain : ¬ IsDotSegment ((p ++ slashed segs).takeWhile (· != '/')) := by
        rw [htake]
        exact not_or.mpr ⟨hdot, hdotDot⟩
      have hstep := Buffers.step_of_plain hplain (slashed kept.reverse)
      rw [htake, hdrop] at hstep
      have hnext := ih hsegs (p :: kept) (List.forall_mem_cons.mpr ⟨hp, hkept⟩)
      rw [List.reverse_cons, slashed_append, slashed_singleton] at hnext
      rw [if_neg hdot, if_neg hdotDot, slashed_cons, hstep, hnext]

/-! ## The answer -/

theorem removeDotSegments_eq_slashed (body : List Char) :
    removeDotSegments ('/' :: body)
      = slashed (remaining (keepSegments [] (segments '/' body))) := by
  rw [removeDotSegments_eq_join, slashed_eq_join (remaining_segments_ne_nil body)]

/-- The loop over the two buffers answers the same for every path, and what is left begins with a
slash and has no dot segments. -/
theorem removeDotSegments_buffered (body : List Char) :
    removeDotSegments ('/' :: body) = Buffers.run ⟨'/' :: body, []⟩ ∧
      ['/'] <+: removeDotSegments ('/' :: body) ∧
      ∀ p ∈ segments '/' (removeDotSegments ('/' :: body)), p ≠ ['.'] ∧ p ≠ ['.', '.'] := by
  have hbody : slashed (segments '/' body) = '/' :: body := by
    rw [slashed_eq_join (segments_ne_nil '/' body), join_segments]
  have hloop : Buffers.run ⟨slashed (segments '/' body), []⟩
      = slashed (remaining (keepSegments [] (segments '/' body))) :=
    run_slashed (fun p hp => not_mem_of_mem_segments hp) [] nofun
  rw [hbody] at hloop
  refine ⟨(removeDotSegments_eq_slashed body).trans hloop.symm, ⟨_, rfl⟩, fun p hp => ?_⟩
  exact not_or.mp (not_isDotSegment_removeDotSegments body p hp)

end CallArchive.Address
