import CallArchive.Proofs.Store.Perform
import CallArchive.Proofs.Store.Runs

/-!
# How requests end

A request that writes has one of three ends at a store (`Wrote`): the change it asks for is made,
which needs a file that no other connection is writing to; there was nothing to write; or it is
refused and the file is as it was. Where the file belongs to another connection the refusal is a
transient failure.
-/

namespace CallArchive.Store

variable {α β : Type} {s : Store}

/-! ## Who writes to a file -/

theorem File.isWriter_iff {f : File} {c : ConnectionName} :
    f.isWriter c = true ↔ ∃ w, f.writer = some w ∧ w.owner = c := by
  simp [File.isWriter, Option.any_eq_true]

theorem File.isWriter_unique {f : File} {a b : ConnectionName} (ha : f.isWriter a = true)
    (hb : f.isWriter b = true) : a = b := by
  obtain ⟨w, hw, rfl⟩ := isWriter_iff.mp ha
  obtain ⟨w', hw', rfl⟩ := isWriter_iff.mp hb
  obtain rfl := Option.some.inj (hw.symm.trans hw')
  rfl

theorem File.view_of_isWriter {f : File} {c : ConnectionName} {w : Writer} (h : f.writer = some w)
    (howner : w.owner = c) : f.view c = w.working := by
  simp only [view, h, howner, if_true]

theorem File.view_of_not_isWriter {f : File} {c : ConnectionName} (h : f.isWriter c = false) :
    f.view c = f.committed := by
  unfold view
  split
  · next w hw =>
    refine if_neg fun howner => ?_
    rw [isWriter_iff.mpr ⟨w, hw, howner⟩] at h
    cases h
  · rfl

theorem File.write_locked {f : File} {c : ConnectionName} (h : ¬ f.MayWrite c) (st : Statement α) :
    f.write c st = (.error .locked, f) := by
  obtain ⟨w, hwriter, howner⟩ : ∃ w, f.writer = some w ∧ w.owner ≠ c := by
    simpa [File.MayWrite] using h
  simp only [File.write, hwriter, howner, if_false]

theorem File.commit_cases (f : File) (c : ConnectionName) :
    (∃ w, f.writer = some w ∧ w.owner = c ∧ f.commit c = (.ok (), ⟨w.working, none⟩)) ∨
      ∃ e, f.commit c = (.error e, f) := by
  unfold File.commit
  split
  · next w hw =>
    by_cases howner : w.owner = c
    · exact .inl ⟨w, hw, howner, if_pos howner⟩
    · exact .inr ⟨_, if_neg howner⟩
  · exact .inr ⟨_, rfl⟩

theorem File.rollback_cases (f : File) (c : ConnectionName) :
    (f.isWriter c = true ∧ f.rollback c = (.ok (), f.disconnect c)) ∨
      ∃ e, f.rollback c = (.error e, f) := by
  unfold File.rollback
  split
  · next hw => exact .inl ⟨hw, rfl⟩
  · exact .inr ⟨_, rfl⟩

theorem File.disconnect_of_isWriter {f : File} {c : ConnectionName} (h : f.isWriter c = true) :
    f.disconnect c = ⟨f.committed, none⟩ :=
  if_pos h

/-- The writer that disconnecting leaves is another connection. -/
theorem File.writer_disconnect {f : File} {c : ConnectionName} {w : Writer}
    (h : (f.disconnect c).writer = some w) : f.writer = some w ∧ w.owner ≠ c := by
  cases hw : f.isWriter c with
  | true =>
    rw [File.disconnect_of_isWriter hw] at h
    cases h
  | false =>
    rw [File.disconnect_of_not_isWriter hw] at h
    exact ⟨h, fun heq => by simp [File.isWriter_iff.mpr ⟨w, h, heq⟩] at hw⟩

/-! ## Writes -/

/-- The plan injects transient failures only. -/
def FaultPlan.Mild (p : FaultPlan) : Prop :=
  ∀ history kind e, p history kind = some e → (Error.store e).isTransient = true

/-- The ends of a write; `nothing` says that there are no rows to write. -/
inductive Wrote (s : Store) (f : Change α) (nothing : Prop) : Except Error α × Store → Prop where
  | done {a : α} {db : Database} {h : History} (hs : s.Ready) (hf : f.run s.view = some (a, db)) :
      Wrote s f nothing (.ok a, s.worked db h)
  | skipped {a : α} {h : History} (hn : nothing) (hf : ∀ db, f.run db = some (a, db)) :
      Wrote s f nothing (.ok a, { s with history := h })
  | refused {e : Error} {h : History} (why : s.faults.Mild → ¬ s.Ready → e.isTransient = true) :
      Wrote s f nothing (.error e, { s with history := h })

theorem wrote_onFile (st : Statement α) (nothing : Prop) (h : History) :
    Wrote s (change st) nothing
      ((onFile fun f c => f.write c st).run { s with history := h } : Except Error α × Store) := by
  by_cases ho : s.isOpen = true
  · rw [run_onFile (s := { s with history := h }) ho]
    by_cases hw : s.file.MayWrite s.connection
    · rw [File.write_eq hw]
      cases hst : st (s.file.view s.connection) with
      | ok p => exact .done ⟨ho, hw⟩ (congrArg Except.toOption hst)
      | error e => exact .refused fun _ hn => absurd ⟨ho, hw⟩ hn
    · simp only [File.write_locked hw]
      exact .refused fun _ _ => rfl
  · rw [run_onFile_closed (s := { s with history := h }) (Bool.not_eq_true _ ▸ ho)]
    exact .refused fun _ _ => rfl

theorem wrote_write (kind : WriteKind) (st : Statement α) (s : Store) :
    Wrote s (change st) False ((write kind st).run s : Except Error α × Store) := by
  rw [run_write]
  split
  · next e he => exact .refused fun hm _ => hm s.history kind e he
  · exact wrote_onFile st False s.counted.history

theorem wrote_writeMany (kind : WriteKind) (rows : List β) {nothing : α}
    {st : List β → Statement α} (hnone : ∀ db, st [] db = .ok (nothing, db)) (s : Store) :
    Wrote s (change (st rows)) (rows = [])
      ((writeMany kind rows nothing st).run s : Except Error α × Store) := by
  rw [run_writeMany]
  split
  · next e he => exact .refused fun hm _ => hm s.history kind e he
  · split
    · next hempty =>
      obtain rfl := List.isEmpty_iff.mp hempty
      exact .skipped rfl fun db => congrArg Except.toOption (hnone db)
    · exact wrote_onFile (st rows) _ s.counted.history

theorem Wrote.discard {a : Action α} {f : Change α} {nothing : Prop}
    (h : Wrote s f nothing (a.run s : Except Error α × Store)) :
    Wrote s (discard f) nothing ((discard a).run s : Except Error Unit × Store) := by
  rw [run_discard]
  generalize (a.run s : Except Error α × Store) = r at h ⊢
  cases h with
  | done hs hf => exact .done hs (run_change_discard hf)
  | skipped hn hf => exact .skipped hn fun db => run_change_discard (hf db)
  | refused why => exact .refused why

/-! ## Requests -/

namespace Request

/-- What a request writes. -/
def change : Request → Change Unit
  | .package p => discard (Store.change (Database.upsertPackage p))
  | .version v => discard (Store.change (Database.upsertVersion v))
  | .dependency d => discard (Store.change (Database.insertDependency d))
  | .module m => discard (Store.change (Database.upsertModule m))
  | .file f => discard (Store.change (Database.upsertFile f))
  | .link l => Store.change (Database.linkFile l)
  | .callable c => discard (Store.change (Database.upsertCallable c))
  | .callables cs => discard (Store.change (Database.upsertCallables cs))
  | .edges es => discard (Store.change (Database.upsertEdges es))
  | .begin | .commit | .rollback | .close => pure ()

def Writes : Request → Prop
  | .begin | .commit | .rollback | .close => False
  | _ => True

/-- A write of many rows that has none. -/
def IsEmpty : Request → Prop
  | .callables cs => cs = []
  | .edges es => es = []
  | _ => False

theorem wrote_action {r : Request} (h : r.Writes) (s : Store) :
    Wrote s r.change r.IsEmpty (r.action.run s : Except Error Unit × Store) := by
  cases r with
  | package p => exact (wrote_write .package (Database.upsertPackage p) s).discard
  | version v => exact (wrote_write .version (Database.upsertVersion v) s).discard
  | dependency d => exact (wrote_write .dependency (Database.insertDependency d) s).discard
  | module m => exact (wrote_write .module (Database.upsertModule m) s).discard
  | file f => exact (wrote_write .file (Database.upsertFile f) s).discard
  | link l => exact wrote_write .link (Database.linkFile l) s
  | callable c => exact (wrote_write .callable (Database.upsertCallable c) s).discard
  | callables cs => exact (wrote_writeMany .callables cs (fun _ => rfl) s).discard
  | edges es => exact (wrote_writeMany .edges es (fun _ => rfl) s).discard
  | begin | commit | rollback | close => exact h.elim

end Request

end CallArchive.Store
