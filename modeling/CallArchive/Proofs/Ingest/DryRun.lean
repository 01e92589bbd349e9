import CallArchive.Proofs.Ingest.Effect
import CallArchive.Proofs.Validation.Validated

/-!
# Checking a record without ingesting it

`check` reads and validates a text and leaves all stores alone. What it says of the text is what
ingesting the text comes to, whatever the store (`ingest_foretold`): a text is refused by both or by
neither, the arcs are counted alike, and what fails after the check is no fault of the record.
-/

namespace CallArchive

namespace Ingest

variable {ν : Type} {text : String} {v : Validated}

theorem accepted_check (h : check text = .ok v) : v.report.accepted = v.arcCount := by
  obtain ⟨g, -, hvalid⟩ := bind_ok_iff.mp h
  exact CallGraph.accepted_validate hvalid

/-- Every arc that has been accepted is written. -/
theorem edges_written (v : Validated) (db : Store.Database) : (written v db).edges = v.arcCount := by
  simp only [written, pendingEdges, List.length_append, List.length_map, Validated.arcCount]

/-- The ingestion of a text comes to what checking it has said. -/
structure Foretold (checked : Except RecordError Validated) (result : Except Error Report) : Prop where
  refused_iff : ∀ e, (result = .error e ∧ e.failureClass = .input) ↔
    ∃ cause, checked = .error cause ∧ e = .record cause
  reported : ∀ r, result = .ok r → ∃ v, checked = .ok v ∧ r.artifact = v.artifact ∧
    r.arcs = v.report ∧ r.written.edges = v.report.accepted
  failed : ∀ v e, checked = .ok v → result = .error e →
    e.failureClass = .transient ∨ e.failureClass = .fatal

theorem foretold_ingestValidated (hc : check text = .ok v) {settings : Settings}
    (hs : 0 < settings.batchSize) (notifier : Notifier ν) (store : Store) (channel : ν) :
    Foretold (.ok v) (ingestValidated settings notifier v store channel).result where
  refused_iff e := by
    constructor
    · rintro ⟨he, hinput⟩
      exact absurd hinput (ingestValidated_not_input he)
    · rintro ⟨cause, hcause, -⟩
      cases hcause
  reported r hr := by
    obtain ⟨-, hafter, -, hreport⟩ := ingestValidated_ok hs hr
    obtain ⟨-, -, -, -, hwritten, -⟩ := recordAfter_eq_some_iff.mp hafter
    refine ⟨v, rfl, by rw [hreport]; rfl, by rw [hreport]; rfl, ?_⟩
    rw [← hwritten, edges_written, accepted_check hc]
  failed _ e _ he := FailureClass.ne_input_iff.mp (ingestValidated_not_input he)

/-- Whatever the store, its failures, the settings and the notifier: a dry run and a real run
agree. -/
theorem ingest_foretold (size : Nat) (retry : RetryPolicy) (notifier : Notifier ν) (text : String)
    (store : Store) (channel : ν) :
    Foretold (check text)
      (ingest ⟨clampBatchSize size, retry⟩ notifier text store channel).result := by
  unfold ingest
  cases hc : check text with
  | ok v => exact foretold_ingestValidated hc (clampBatchSize_pos size) notifier store channel
  | error cause =>
    refine ⟨fun e => ?_, nofun, nofun⟩
    constructor
    · rintro ⟨he, -⟩
      obtain rfl := Except.error.inj he
      exact ⟨cause, rfl, rfl⟩
    · rintro ⟨_, hcause, rfl⟩
      obtain rfl := Except.error.inj hcause
      exact ⟨rfl, rfl⟩

end Ingest

end CallArchive
