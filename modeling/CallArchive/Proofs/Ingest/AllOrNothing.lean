import CallArchive.Proofs.Ingest.Changes
import CallArchive.Proofs.Ingest.Transaction

/-!
# A record is stored as a whole or not at all

If a record is not ingested, on a file that no transaction is open on, then the file is as it was,
nothing was sent, and if the record itself was at fault the store was never asked for anything.
-/

namespace CallArchive.Ingest

variable {ν : Type}

/-- How storing a validated record ends. -/
theorem outcome_writeRecord (settings : Settings) (v : Validated) (store : Store) :
    RunOutcome store (storeRecord settings.batchSize v)
      (settings.retry.runTransaction (fun _ => writeRecord settings.batchSize v) store) :=
  outcome_runTransaction settings.retry (writing_writeRecord settings.batchSize v).performs store

/-- The record is not to blame if the store does not take it. -/
theorem ingestValidated_not_input {settings : Settings} {notifier : Notifier ν} {v : Validated}
    {store : Store} {channel : ν} {e : Error}
    (he : (ingestValidated settings notifier v store channel).result = .error e) :
    e.failureClass ≠ .input := by
  have houtcome := outcome_writeRecord settings v store
  unfold ingestValidated at he
  generalize settings.retry.runTransaction (fun _ => writeRecord settings.batchSize v) store = run
    at he houtcome
  cases houtcome with
  | committed _ _ => cases he
  | failed hclass why =>
    obtain rfl := Except.error.inj he
    exact hclass

theorem ingestValidated_error {settings : Settings} {notifier : Notifier ν} {v : Validated}
    {store : Store} {channel : ν} {e : Error}
    (he : (ingestValidated settings notifier v store channel).result = .error e) :
    (ingestValidated settings notifier v store channel).store.file = store.file ∧
      (ingestValidated settings notifier v store channel).channel = channel ∧
      (ingestValidated settings notifier v store channel).crashed = false ∧
      ∀ cause, e ≠ .record cause := by
  have hrecord : ∀ cause, e ≠ .record cause := fun cause hc =>
    ingestValidated_not_input he (hc ▸ rfl)
  have houtcome := outcome_writeRecord settings v store
  unfold ingestValidated at he ⊢
  generalize settings.retry.runTransaction (fun _ => writeRecord settings.batchSize v) store = run
    at he houtcome ⊢
  cases houtcome with
  | committed _ _ => cases he
  | failed _ _ =>
    obtain rfl := Except.error.inj he
    exact ⟨rfl, rfl, rfl, hrecord⟩

/-- Whoever listens hears of what has been committed. -/
theorem ingestValidated_heard {settings : Settings} {notifier : Notifier ν} {v : Validated}
    {store : Store} {channel : ν} {r : Report}
    (h : (ingestValidated settings notifier v store channel).result = .ok r) :
    (ingestValidated settings notifier v store channel).crashed
        = ((notifier.notify (notification v r.written) channel).1 == .crashed) ∧
      (ingestValidated settings notifier v store channel).channel
        = (notifier.notify (notification v r.written) channel).2 := by
  unfold ingestValidated at h ⊢
  generalize settings.retry.runTransaction (fun _ => writeRecord settings.batchSize v) store = run
    at h ⊢
  obtain ⟨_ | ⟨w, k⟩, pauses, s⟩ := run
  · cases h
  · obtain rfl := Except.ok.inj h
    exact ⟨rfl, rfl⟩

/-- All or nothing: whatever the store fails, and however often, an error leaves no trace. -/
theorem ingest_error {settings : Settings} {notifier : Notifier ν} {text : String} {store : Store}
    {channel : ν} {e : Error} (hw : store.file.writer = none)
    (he : (ingest settings notifier text store channel).result = .error e) :
    (ingest settings notifier text store channel).store.file.committed = store.file.committed ∧
      (ingest settings notifier text store channel).store.file.writer = none ∧
      (ingest settings notifier text store channel).channel = channel ∧
      (ingest settings notifier text store channel).crashed = false ∧
      ∀ cause, e = .record cause →
        (ingest settings notifier text store channel).store.history = store.history := by
  unfold ingest at he ⊢
  cases hc : check text with
  | error cause => exact ⟨rfl, hw, rfl, rfl, fun _ _ => rfl⟩
  | ok v =>
    rw [hc] at he
    obtain ⟨hfile, hchannel, hcrashed, hrecord⟩ := ingestValidated_error he
    exact ⟨congrArg _ hfile, (congrArg _ hfile).trans hw, hchannel, hcrashed,
      fun cause h => absurd h (hrecord cause)⟩

/-- A record of one method, which calls itself. -/
def smallRecord : String :=
  "\x7b\"product\":\"p\",\"forge\":\"m\",\"version\":\"1\",\"generator\":\"g\",\"depset\":[]," ++
  "\"cha\":\x7b\"n\":[\x7b\"1\":\"/n/C.m()V\"\x7d]\x7d,\"graph\":[[[1,1]]]\x7d"

/-- A store that fails to write edges. -/
def edgeless : Store := .inMemory (.striking .edges none)

/-- Each of two attempts fails at the edge, after all the rest has been written. -/
theorem ingest_error_edgeless :
    (ingest ⟨1, .new 2 0⟩ Notifier.silent smallRecord edgeless ()).store.history = ⟨10, 2, 2⟩ ∧
      (ingest ⟨1, .new 2 0⟩ Notifier.silent smallRecord edgeless ()).store.file.committed
        = edgeless.file.committed := by
  obtain ⟨hhistory, hnone⟩ :
      (ingest ⟨1, .new 2 0⟩ Notifier.silent smallRecord edgeless ()).store.history = ⟨10, 2, 2⟩ ∧
      (ingest ⟨1, .new 2 0⟩ Notifier.silent smallRecord edgeless ()).result.toOption.isNone
        = true := by decide +kernel
  obtain ⟨e, he⟩ := error_of_isNone hnone
  have hw : edgeless.file.writer = none := rfl
  exact ⟨hhistory, (ingest_error hw he).1⟩

end CallArchive.Ingest
