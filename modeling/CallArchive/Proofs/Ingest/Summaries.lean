import CallArchive.Ingest.Pool
import Mathlib.Data.List.Basic

/-!
# Summaries and ledgers

The numbers of a summary are those of its outcomes (`Summary.Sound`), whatever is recorded in it and
whichever summaries it absorbs. When a ledger is added, the job over which its worker died counts as
lost (`Ledger.lost`).
-/

namespace CallArchive

namespace ArcReport

instance : Std.Associative merge := ⟨merge_assoc⟩

instance : Std.Commutative merge := ⟨merge_comm⟩

def sum (rs : List ArcReport) : ArcReport := rs.foldr merge empty

@[simp] theorem sum_nil : sum [] = empty := rfl

@[simp] theorem sum_cons (r : ArcReport) (rs : List ArcReport) : sum (r :: rs) = r.merge (sum rs) :=
  rfl

@[simp] theorem empty_merge (r : ArcReport) : empty.merge r = r := by
  rw [merge_comm, merge_empty]

theorem sum_append (rs ss : List ArcReport) : sum (rs ++ ss) = (sum rs).merge (sum ss) := by
  induction rs with
  | nil => simp
  | cons r rs ih => rw [List.cons_append, sum_cons, sum_cons, ih, merge_assoc]

theorem sum_eq_empty {rs : List ArcReport} (h : ∀ r ∈ rs, r = empty) : sum rs = empty := by
  induction rs with
  | nil => rfl
  | cons r rs ih =>
    obtain ⟨rfl, hrs⟩ := List.forall_mem_cons.mp h
    rw [sum_cons, empty_merge, ih hrs]

end ArcReport

namespace Ingest

/-! ## Outcomes -/

namespace JobOutcome

def succeeded (o : JobOutcome) : Bool := o.failure.isNone

/-- What the observer is told of the job. -/
def event (o : JobOutcome) : ProgressEvent := .done o.label o.message

/-- The outcome of a job without a result. -/
def lost (label message : String) : JobOutcome := ⟨label, none, some .fatal, some message⟩

end JobOutcome

/-- What a worker has finished. -/
structure Finish where
  label : String
  result : Except Error Report

namespace Finish

def outcome (f : Finish) : JobOutcome :=
  match f.result with
  | .ok r => ⟨f.label, some r.written.packageId, none, none⟩
  | .error e => ⟨f.label, none, some e.failureClass, some e.message⟩

/-- The sum of what is reported of the arcs, by those that have a report. -/
def arcs (fs : List Finish) : ArcReport :=
  .sum ((fs.filterMap (·.result.toOption)).map (·.arcs))

theorem arcs_append (fs gs : List Finish) : arcs (fs ++ gs) = (arcs fs).merge (arcs gs) := by
  rw [arcs, List.filterMap_append, List.map_append, ArcReport.sum_append]
  rfl

@[simp] theorem label_outcome (f : Finish) : f.outcome.label = f.label := by
  unfold outcome
  split <;> rfl

theorem event_outcome (f : Finish) :
    f.outcome.event = .done f.label (Board.failureText f.result) := by
  obtain ⟨label, _ | _⟩ := f <;> rfl

end Finish

/-! ## Summaries -/

namespace Summary

/-- The numbers of a summary are those of its outcomes, and each failure has its message. -/
structure Sound (s : Summary) : Prop where
  succeeded : s.succeeded = s.outcomes.countP (·.succeeded)
  failed : ∀ c, s.failed.count c = s.outcomes.countP (·.failure = some c)
  message : ∀ o ∈ s.outcomes, o.message.isSome = o.failure.isSome

theorem Sound.empty : Sound .empty := ⟨rfl, fun _ => rfl, nofun⟩

variable {s t : Summary}

theorem Sound.recordFailure (h : s.Sound) (label : String) (c : FailureClass) (message : String) :
    (s.recordFailure label c message).Sound where
  succeeded := by
    change s.succeeded = (s.outcomes ++ [_]).countP _
    rw [List.countP_append, h.succeeded]
    rfl
  failed x := by
    change (if x = c then _ else _) = (s.outcomes ++ [_]).countP _
    rw [List.countP_append, List.countP_singleton, h.failed x]
    by_cases hx : x = c
    · simp [hx]
    · simp [hx, Ne.symm hx]
  message := List.forall_mem_append.mpr ⟨h.message, List.forall_mem_singleton.mpr rfl⟩

theorem Sound.record (h : s.Sound) (f : Finish) : (s.record f.label f.result).Sound := by
  obtain ⟨label, result⟩ := f
  cases result with
  | error e => exact h.recordFailure label e.failureClass e.message
  | ok r =>
    refine ⟨?_, fun c => ?_, ?_⟩
    · change s.succeeded + 1 = (s.outcomes ++ [_]).countP _
      rw [List.countP_append, h.succeeded]
      rfl
    · change s.failed.count c = (s.outcomes ++ [_]).countP _
      rw [List.countP_append, h.failed c]
      rfl
    · exact List.forall_mem_append.mpr ⟨h.message, List.forall_mem_singleton.mpr rfl⟩

theorem Sound.absorb (h : s.Sound) (h' : t.Sound) : (s.absorb t).Sound where
  succeeded := by
    change s.succeeded + t.succeeded = (s.outcomes ++ t.outcomes).countP _
    rw [List.countP_append, h.succeeded, h'.succeeded]
  failed c := by
    change s.failed.count c + t.failed.count c = (s.outcomes ++ t.outcomes).countP _
    rw [List.countP_append, h.failed c, h'.failed c]
  message := List.forall_mem_append.mpr ⟨h.message, h'.message⟩

/-- An outcome is a success or a failure of one of the classes. -/
theorem Sound.total (h : s.Sound) : s.total = s.outcomes.length := by
  have hsplit : ∀ os : List JobOutcome, os.countP (·.succeeded) +
      (FailureClass.all.map fun c => os.countP (·.failure = some c)).sum = os.length := by
    intro os
    induction os with
    | nil => rfl
    | cons o os ih =>
      obtain ⟨label, packageId, failure, message⟩ := o
      simp only [FailureClass.all, List.map_cons, List.map_nil, List.sum_cons, List.sum_nil,
        List.countP_cons, List.length_cons, JobOutcome.succeeded] at ih ⊢
      rcases failure with _ | (_ | _ | _) <;> simp <;> omega
  rw [Summary.total, failedCount, Tally.total_eq_sum, h.succeeded,
    List.map_congr_left fun c _ => h.failed c]
  exact hsplit s.outcomes

theorem outcomes_record (s : Summary) (f : Finish) :
    (s.record f.label f.result).outcomes = s.outcomes ++ [f.outcome] := by
  obtain ⟨label, _ | _⟩ := f <;> rfl

theorem arcs_record (s : Summary) (f : Finish) :
    (s.record f.label f.result).arcs = s.arcs.merge (Finish.arcs [f]) := by
  obtain ⟨label, e | r⟩ := f
  · exact (ArcReport.merge_empty s.arcs).symm
  · exact congrArg s.arcs.merge (ArcReport.merge_empty r.arcs).symm

end Summary

/-! ## Ledgers -/

namespace Ledger

/-- A worker that died over a job has lost it. -/
def lost (l : Ledger) : List JobOutcome :=
  match l.dead, l.inFlight with
  | true, some label => [.lost label diedMessage]
  | _, _ => []

theorem lost_of_dead (l : Ledger) (h : l.dead = true) :
    l.inFlight.toList = l.lost.map (·.label) := by
  obtain ⟨summary, _ | label, dead⟩ := l <;> subst h <;> rfl

theorem lost_of_idle (l : Ledger) (h : l.inFlight = none) :
    l.inFlight.toList = l.lost.map (·.label) := by
  obtain ⟨summary, inFlight, _ | _⟩ := l <;> subst h <;> rfl

theorem not_succeeded_lost (l : Ledger) : l.lost.filter (·.succeeded) = [] := by
  obtain ⟨summary, _ | label, _ | _⟩ := l <;> rfl

variable (t : Board.Tallying) (l : Ledger)

theorem outcomes_absorb : (Board.absorbLedger t l).summary.outcomes
    = t.summary.outcomes ++ l.lost ++ l.summary.outcomes := by
  obtain ⟨summary, _ | label, _ | _⟩ := l <;>
    simp only [Board.absorbLedger, lost, Board.lose, Summary.recordLost, Summary.recordFailure,
      Summary.absorb, JobOutcome.lost, List.append_nil]

theorem progress_absorb : (Board.absorbLedger t l).progress
    = t.progress ++ l.lost.map JobOutcome.event := by
  obtain ⟨summary, _ | label, _ | _⟩ := l <;>
    simp only [Board.absorbLedger, lost, Board.lose, JobOutcome.event, JobOutcome.lost,
      List.map_nil, List.map_cons, List.append_nil]

theorem arcs_absorb : (Board.absorbLedger t l).summary.arcs
    = t.summary.arcs.merge l.summary.arcs := by
  obtain ⟨summary, _ | label, _ | _⟩ := l <;> rfl

theorem sound_absorb {t : Board.Tallying} {l : Ledger} (ht : t.summary.Sound)
    (hl : l.summary.Sound) : (Board.absorbLedger t l).summary.Sound := by
  obtain ⟨summary, _ | label, _ | _⟩ := l
  · exact ht.absorb hl
  · exact ht.absorb hl
  · exact ht.absorb hl
  · exact (ht.recordFailure label .fatal diedMessage).absorb hl

end Ledger

end Ingest

end CallArchive
