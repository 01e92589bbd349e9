import CallArchive.Ingest.Retry
import CallArchive.Proofs.Store.Perform

/-!
# Transactions and attempts

A transaction either commits what its work makes of the database, on a file that no transaction was
open on, or leaves the file as it was (`outcome_transaction`). So does a run of attempts, however
many of them fail before (`outcome_runTransaction`).
-/

namespace CallArchive.Ingest

open Store (Action Change Database FaultPlan History Performs Ready)

variable {α : Type} {s : Store} {f : Change α} {work : Action α}

/-! ## One transaction -/

/-- A store that can begin a transaction. -/
structure Idle (s : Store) : Prop where
  isOpen : s.isOpen = true
  free : s.file.writer = none

/-- How a transaction ends whose work does what a change does: that is committed, or nothing is. -/
inductive Outcome (s : Store) (f : Change α) : Except Error α × Store → Prop where
  | committed {a : α} {db : Database} {h : History} (hi : Idle s)
      (hf : f.run s.file.committed = some (a, db)) :
      Outcome s f (.ok a, { s with file := ⟨db, none⟩, history := h })
  | failed {e : Error} {h : History} (he : e.failureClass ≠ .input)
      (why : ¬ Idle s ∨ f.run s.file.committed = none ∨ s.faults.Injects e) :
      Outcome s f (.error e, { s with history := h })

theorem rollbackQuietly_eq :
    rollbackQuietly = tryCatch Store.rollbackTransaction fun _ => (return () : Action Unit) := rfl

theorem transaction_eq (work : Action α) :
    transaction work = (do
      Store.beginTransaction
      tryCatch
        (do
          let a ← work
          Store.commitTransaction
          return a)
        fun e => do
          rollbackQuietly
          throw e) := rfl

theorem runTransaction_eq (p : RetryPolicy) (work : Nat → Action α) (s : Store) :
    p.runTransaction work s
      = p.runFrom (fun n s => (transaction (work n)).run s) (p.limit - 1) 1 s := rfl

/-- The store in a transaction that has just begun. -/
def begun (s : Store) : Store :=
  { s with
    file := { s.file with writer := some ⟨s.connection, s.file.committed⟩ }
    history := { s.history with transactions := s.history.transactions + 1 } }

theorem run_beginTransaction (hi : Idle s) :
    (Store.beginTransaction.run s : Except Error Unit × Store) = (.ok (), begun s) := by
  obtain ⟨⟨committed, writer⟩, c, o, p, t⟩ := s
  obtain ⟨ho, hw⟩ := hi
  subst ho hw
  rfl

/-- Whoever cannot begin is told so, with the same words whatever has happened before, and if the
file is another connection's only for now. -/
theorem exists_begin_error (hi : ¬ Idle s) :
    ∃ cause, (∀ t, (Store.beginTransaction.run { s with history := t } : Except Error Unit × Store)
        = (.error (.store cause),
          { s with history := { t with transactions := t.transactions + 1 } })) ∧
      (¬ s.Ready → (Error.store cause).isTransient = true) := by
  obtain ⟨⟨committed, writer⟩, c, o, p, t⟩ := s
  cases o with
  | false => exact ⟨.closed, fun _ => rfl, fun _ => rfl⟩
  | true =>
    cases writer with
    | none => exact absurd ⟨rfl, rfl⟩ hi
    | some w =>
      refine ⟨if w.owner = c then .nestedTransaction else .locked, fun _ => rfl, fun hn => ?_⟩
      have howner : w.owner ≠ c := fun heq => hn ⟨rfl, fun w' hw => Option.some.inj hw ▸ heq⟩
      rw [if_neg howner]
      rfl

theorem run_beginTransaction_error (hi : ¬ Idle s) :
    ∃ cause, (Store.beginTransaction.run s : Except Error Unit × Store) =
        (.error (.store cause),
          { s with history := { s.history with transactions := s.history.transactions + 1 } }) ∧
      (¬ s.Ready → (Error.store cause).isTransient = true) := by
  obtain ⟨cause, hbegin, htransient⟩ := exists_begin_error hi
  exact ⟨cause, hbegin s.history, htransient⟩

theorem Idle.ready (hi : Idle s) : s.Ready :=
  ⟨hi.isOpen, fun _ hw => absurd (hi.free.symm.trans hw) nofun⟩

theorem ready_begun (ho : s.isOpen = true) : (begun s).Ready :=
  ⟨ho, fun _ hw => by obtain rfl := Option.some.inj hw; rfl⟩

theorem view_begun (s : Store) : (begun s).view = s.file.committed := if_pos rfl

theorem run_commit_worked (ho : s.isOpen = true) (db : Database) (h : History) :
    (Store.commitTransaction.run ((begun s).worked db h) : Except Error Unit × Store) =
      (.ok (), { s with file := ⟨db, none⟩, history := h }) := by
  have hcommit : ((begun s).worked db h).file.commit s.connection = (.ok (), ⟨db, none⟩) := by
    simp [begun, Store.worked, Store.File.replace, Store.File.commit]
  have hopen : ((begun s).worked db h).isOpen = true := ho
  have hconnection : ((begun s).worked db h).connection = s.connection := rfl
  rw [Store.commitTransaction, Store.run_onFile hopen, hconnection, hcommit]
  rfl

theorem run_rollback_worked (ho : s.isOpen = true) (hw : s.file.writer = none) (db : Database)
    (h : History) :
    (rollbackQuietly.run ((begun s).worked db h) : Except Error Unit × Store) =
      (.ok (), { s with history := h }) := by
  have hrollback : ((begun s).worked db h).file.rollback s.connection = (.ok (), s.file) := by
    obtain ⟨⟨committed, writer⟩, c, o, p, t⟩ := s
    subst hw
    simp [begun, Store.worked, Store.File.replace, Store.File.rollback, Store.File.isWriter,
      Store.File.disconnect]
  have hopen : ((begun s).worked db h).isOpen = true := ho
  have hconnection : ((begun s).worked db h).connection = s.connection := rfl
  rw [rollbackQuietly_eq, Store.run_tryCatch, Store.rollbackTransaction, Store.run_onFile hopen,
    hconnection, hrollback]
  rfl

section Work

variable {db : Database} {t : History}

/-- What work inside a transaction has made of the database is committed. -/
theorem run_transaction_ok (hi : Idle s) {a : α}
    (h : (work.run (begun s) : Except Error α × Store) = (.ok a, (begun s).worked db t)) :
    ((transaction work).run s : Except Error α × Store)
      = (.ok a, { s with file := ⟨db, none⟩, history := t }) := by
  rw [transaction_eq, Store.run_bind, run_beginTransaction hi]
  simp only [Store.run_tryCatch, Store.run_bind, h, run_commit_worked hi.isOpen, Store.run_pure]

/-- If the work fails nothing is left of it. -/
theorem run_transaction_error (hi : Idle s) {e : Error}
    (h : (work.run (begun s) : Except Error α × Store) = (.error e, (begun s).worked db t)) :
    ((transaction work).run s : Except Error α × Store) = (.error e, { s with history := t }) := by
  rw [transaction_eq, Store.run_bind, run_beginTransaction hi]
  simp only [Store.run_tryCatch, Store.run_bind, h, run_rollback_worked hi.isOpen hi.free,
    Store.run_throw]

end Work

theorem outcome_transaction (h : Performs work f) (s : Store) :
    Outcome s f ((transaction work).run s) := by
  by_cases hi : Idle s
  · obtain ⟨db, t, hstore, hends⟩ := h (begun s) (ready_begun hi.isOpen)
    rcases hrun : (work.run (begun s) : Except Error α × Store) with ⟨e | a, s'⟩
    · rw [hrun] at hstore hends
      obtain rfl : s' = (begun s).worked db t := hstore
      have hwhy := hends.error e rfl
      rw [view_begun] at hwhy
      rw [run_transaction_error hi hrun]
      exact .failed (hends.not_input e rfl) (.inr hwhy)
    · rw [hrun] at hstore hends
      obtain rfl : s' = (begun s).worked db t := hstore
      rw [run_transaction_ok hi hrun]
      exact .committed hi (view_begun s ▸ hends.ok a rfl)
  · obtain ⟨cause, hbegin, -⟩ := run_beginTransaction_error hi
    rw [transaction_eq, Store.run_bind, hbegin]
    exact .failed cause.failureClass_ne_input (.inl hi)

/-! ## Attempts -/

namespace RetryPolicy

variable {σ : Type} (p : RetryPolicy) {attempt : Nat → σ → Except Error α × σ} {n : Nat} {x x' : σ}

theorem runFrom_ok {a : α} (h : attempt n x = (.ok a, x')) (left : Nat) :
    p.runFrom attempt left n x = ⟨.ok (a, n), [], x'⟩ := by
  unfold runFrom
  rw [h]

theorem runFrom_last {e : Error} (h : attempt n x = (.error e, x')) (he : e.isTransient = true) :
    p.runFrom attempt 0 n x = ⟨.error (.retriesExhausted n e), [], x'⟩ := by
  unfold runFrom
  simp only [h, he, if_true]

theorem runFrom_again {e : Error} (h : attempt n x = (.error e, x')) (he : e.isTransient = true)
    {left : Nat} :
    p.runFrom attempt (left + 1) n x =
      { p.runFrom attempt left (n + 1) x' with
        pauses := p.backoff * n :: (p.runFrom attempt left (n + 1) x').pauses } := by
  rw [runFrom]
  simp only [h, he, if_true]

theorem runFrom_final {e : Error} (h : attempt n x = (.error e, x')) (he : e.isTransient = false)
    (left : Nat) : p.runFrom attempt left n x = ⟨.error e, [], x'⟩ := by
  unfold runFrom
  simp only [h, he, Bool.false_eq_true, if_false]

section Failing

variable {α σ : Type} (p : RetryPolicy) {attempt : Nat → σ → Except Error α × σ} {e : Error}
  {I : Nat → σ → Prop} (he : e.isTransient = true)
  (hfails : ∀ n d x, I (d + 1) x → ∃ x', attempt n x = (.error e, x') ∧ I d x')

include he hfails

/-- Where `d` more attempts are to fail the one after them is made if there are as many left. -/
theorem runFrom_recovers {a : α} {P : σ → Prop}
    (hok : ∀ n x, I 0 x → ∃ x', attempt n x = (.ok a, x') ∧ P x') {d left : Nat} (hd : d ≤ left)
    {x : σ} (hx : I d x) (n : Nat) :
    ∃ pauses x', p.runFrom attempt left n x = ⟨.ok (a, n + d), pauses, x'⟩ ∧ P x' := by
  induction d generalizing left n x with
  | zero =>
    obtain ⟨x', hrun, hP⟩ := hok n x hx
    exact ⟨[], x', p.runFrom_ok hrun left, hP⟩
  | succ d ih =>
    obtain ⟨left, rfl⟩ := Nat.exists_eq_add_of_lt hd
    obtain ⟨x', hrun, hx'⟩ := hfails n d x hx
    obtain ⟨pauses, x'', hrest, hP⟩ := ih (Nat.le_add_right d left) hx' (n + 1)
    refine ⟨p.backoff * n :: pauses, x'', ?_, hP⟩
    rw [p.runFrom_again hrun he, hrest, Nat.add_right_comm n 1 d]
    rfl

/-- And else the last attempt fails too. -/
theorem runFrom_exhausts {d left : Nat} (hd : left < d) {x : σ} (hx : I d x) (n : Nat) :
    ∃ pauses x', p.runFrom attempt left n x = ⟨.error (.retriesExhausted (n + left) e), pauses, x'⟩ ∧
      I (d - (left + 1)) x' := by
  induction left generalizing d n x with
  | zero =>
    obtain ⟨d, rfl⟩ := Nat.exists_eq_add_of_lt hd
    rw [Nat.zero_add] at hx
    obtain ⟨x', hrun, hx'⟩ := hfails n d x hx
    exact ⟨[], x', p.runFrom_last hrun he, by rwa [Nat.zero_add]⟩
  | succ left ih =>
    obtain ⟨d, rfl⟩ : ∃ d', d = d' + 1 := ⟨d - 1, by omega⟩
    obtain ⟨x', hrun, hx'⟩ := hfails n d x hx
    obtain ⟨pauses, x'', hrest, hI⟩ := ih (Nat.lt_of_succ_lt_succ hd) hx' (n + 1)
    refine ⟨p.backoff * n :: pauses, x'', ?_, by rwa [Nat.add_sub_add_right]⟩
    rw [p.runFrom_again hrun he, hrest, Nat.add_right_comm n 1 left]
    rfl

end Failing

end RetryPolicy

/-- There are writes that the plan fails. -/
def Strikes (p : FaultPlan) : Prop := ∃ history kind, p history kind ≠ none

theorem Strikes.of_injects {p : FaultPlan} {e : Error} (h : p.Injects e) : Strikes p := by
  obtain ⟨history, kind, cause, hp, -⟩ := h
  exact ⟨history, kind, by rw [hp]; nofun⟩

/-- Where nothing fails an action does what its change does. -/
theorem run_of_not_strikes (h : Performs work f) (hs : s.Ready) (hn : ¬ Strikes s.faults) {a : α}
    {db : Database} (hf : f.run s.view = some (a, db)) :
    ∃ t, (work.run s : Except Error α × Store) = (.ok a, s.worked db t) := by
  obtain ⟨db', t, hstore, hends⟩ := h s hs
  rcases hrun : (work.run s : Except Error α × Store) with ⟨e | b, s'⟩
  · rw [hrun] at hends
    rcases hends.error e rfl with hnone | hinjects
    · rw [hf] at hnone
      cases hnone
    · exact absurd (.of_injects hinjects) hn
  · rw [hrun] at hstore hends
    obtain ⟨rfl, rfl⟩ := Prod.mk.inj (Option.some.inj (hf.symm.trans (hends.ok b rfl)))
    exact ⟨t, Prod.ext rfl hstore⟩

/-- How a run of attempts ends. -/
inductive RunOutcome (s : Store) (f : Change α) : RetryRun Store α → Prop where
  | committed {a : α} {n : Nat} {db : Database} {h : History} {pauses : List Nat}
      (hi : Idle s) (hf : f.run s.file.committed = some (a, db)) :
      RunOutcome s f ⟨.ok (a, n), pauses, { s with file := ⟨db, none⟩, history := h }⟩
  | failed {e : Error} {h : History} {pauses : List Nat} (he : e.failureClass ≠ .input)
      (why : ¬ Idle s ∨ f.run s.file.committed = none ∨ Strikes s.faults) :
      RunOutcome s f ⟨.error e, pauses, { s with history := h }⟩

theorem idle_history {h : History} : Idle { s with history := h } ↔ Idle s :=
  ⟨fun hi => ⟨hi.isOpen, hi.free⟩, fun hi => ⟨hi.isOpen, hi.free⟩⟩

theorem RunOutcome.again {h : History} {r : RetryRun Store α}
    (hr : RunOutcome { s with history := h } f r) (pause : Nat) :
    RunOutcome s f { r with pauses := pause :: r.pauses } := by
  cases hr with
  | committed hi hf => exact .committed (idle_history.mp hi) hf
  | failed he why => exact .failed he (why.imp_left (mt idle_history.mpr))

theorem outcome_runFrom (p : RetryPolicy) {attempt : Nat → Store → Except Error α × Store}
    (h : ∀ n s, Outcome s f (attempt n s)) (left n : Nat) (s : Store) :
    RunOutcome s f (p.runFrom attempt left n s) := by
  induction left generalizing n s with
  | zero =>
    have ho := h n s
    unfold RetryPolicy.runFrom
    generalize attempt n s = r at ho
    cases ho with
    | committed hi hf => exact .committed hi hf
    | failed he why =>
      have hwhy := why.imp_right (Or.imp_right Strikes.of_injects)
      simp only
      split
      · exact .failed (show FailureClass.transient ≠ .input from nofun) hwhy
      · exact .failed he hwhy
  | succ left ih =>
    have ho := h n s
    unfold RetryPolicy.runFrom
    generalize attempt n s = r at ho
    cases ho with
    | committed hi hf => exact .committed hi hf
    | @failed e t he why =>
      simp only
      split
      · exact (ih (n + 1) { s with history := t }).again _
      · exact .failed he (why.imp_right (Or.imp_right Strikes.of_injects))

theorem outcome_runTransaction (p : RetryPolicy) (h : Performs work f) (s : Store) :
    RunOutcome s f (p.runTransaction (fun _ => work) s) :=
  outcome_runFrom p (fun _ s => outcome_transaction h s) _ _ s

theorem transaction_busy (work : Action α) (hs : ¬ s.Ready) :
    ∃ cause t, ((transaction work).run s : Except Error α × Store)
        = (.error (.store cause), { s with history := t }) ∧
      (Error.store cause).isTransient = true := by
  obtain ⟨cause, hbegin, htransient⟩ := run_beginTransaction_error (mt Idle.ready hs)
  exact ⟨cause, _, by rw [transaction_eq, Store.run_bind, hbegin], htransient hs⟩

/-- Where another connection is writing every attempt fails. -/
theorem runFrom_busy (p : RetryPolicy) (work : Action α) (hs : ¬ s.Ready) (left n : Nat) :
    ∃ e pauses t, p.runFrom (fun _ s => (transaction work).run s) left n s
        = ⟨.error e, pauses, { s with history := t }⟩ ∧ e.isTransient = true := by
  induction left generalizing n s with
  | zero =>
    obtain ⟨cause, t, hattempt, htransient⟩ := transaction_busy work hs
    exact ⟨_, _, t, p.runFrom_last hattempt htransient, rfl⟩
  | succ left ih =>
    obtain ⟨cause, t, hattempt, htransient⟩ := transaction_busy work hs
    have hagain : ¬ Ready { s with history := t } := fun hr => hs ⟨hr.isOpen, hr.mayWrite⟩
    obtain ⟨e, pauses, t', hrun, he⟩ := ih hagain (n + 1)
    exact ⟨e, _, t', by rw [p.runFrom_again hattempt htransient, hrun], he⟩

/-- Where nothing fails one attempt is enough. -/
theorem runTransaction_of_not_strikes (p : RetryPolicy) (h : Performs work f) (hi : Idle s)
    (hs : ¬ Strikes s.faults) {a : α} {db : Database}
    (hf : f.run s.file.committed = some (a, db)) :
    (p.runTransaction (fun _ => work) s).result = .ok (a, 1) := by
  have hfirst := outcome_transaction h s
  rw [runTransaction_eq]
  unfold RetryPolicy.runFrom
  generalize ((transaction work).run s : Except Error α × Store) = r at hfirst
  cases hfirst with
  | committed hi' hf' =>
    obtain ⟨rfl, -⟩ := Prod.mk.inj (Option.some.inj (hf.symm.trans hf'))
    rfl
  | failed he why =>
    rcases why with hc | hnone | hinjects
    · exact absurd hi hc
    · rw [hf] at hnone
      cases hnone
    · exact absurd (.of_injects hinjects) hs

end CallArchive.Ingest
