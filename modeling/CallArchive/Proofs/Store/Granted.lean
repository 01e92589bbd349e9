import CallArchive.Proofs.Store.Programs
import CallArchive.Proofs.Store.Statements

/-!
# Programs of writes

A store refuses a write for one of a few reasons (`Refusal`): it is closed, or another connection is
writing, or a failure is injected, or the row refers to none, or a document does not merge. That a
row is not found again among those that were written is none of them. A program that is put together
from writes has no other way to fail: either all that it asks for is granted, or it fails as the
first write does that is refused (`Program.answered`).
-/

namespace CallArchive.Store

variable {α β : Type}

/-! ## Refusals -/

/-- Why a statement fails. -/
inductive Fault : StoreError → Prop where
  | foreignKey : Fault .foreignKey
  | badDocument (cause : Json.ParseError) : Fault (.badDocument cause)

theorem Fault.ne_missingRow {cause : StoreError} (h : Fault cause) (text : String) :
    cause ≠ .missingRow text := by
  intro heq
  subst heq
  cases h

/-- Why a store refuses a write. -/
inductive Refusal (s : Store) : StoreError → Prop where
  | injected {kind : WriteKind} {cause : StoreError} (h : s.faults s.history kind = some cause) :
      Refusal s cause
  | closed (h : s.isOpen = false) : Refusal s .closed
  | locked (h : ¬ s.file.MayWrite s.connection) : Refusal s .locked
  | statement {cause : StoreError} (h : Fault cause) : Refusal s cause

namespace Database

variable {db : Database} {e : StoreError}

/-- A row that is written if what it refers to is there. -/
theorem fault_guarded {c : Prop} [Decidable c] {answer : α × Database}
    (h : (if c then .ok answer else .error .foreignKey : Except StoreError (α × Database))
      = .error e) : Fault e := by
  split at h
  · cases h
  · exact Except.error.inj h ▸ .foreignKey

theorem fault_upsertPackage {p : NewPackage} (h : upsertPackage p db = .error e) : Fault e := by
  unfold upsertPackage at h
  cases h

theorem fault_upsertVersion {v : NewVersion} (h : upsertVersion v db = .error e) : Fault e :=
  fault_guarded h

theorem fault_upsertModule {m : NewModule} (h : upsertModule m db = .error e) : Fault e :=
  fault_guarded h

theorem fault_upsertFile {f : NewFile} (h : upsertFile f db = .error e) : Fault e :=
  fault_guarded h

theorem fault_upsertCallable {c : NewCallable} (h : upsertCallable c db = .error e) : Fault e :=
  fault_guarded h

theorem fault_insertDependency {d : NewDependency} (h : insertDependency d db = .error e) :
    Fault e := by
  unfold insertDependency at h
  simp only at h
  split at h
  · cases h
  · exact fault_guarded h

theorem fault_linkFile {l : Link} (h : linkFile l db = .error e) : Fault e := by
  unfold linkFile at h
  split at h
  · cases h
  · exact fault_guarded h

theorem fault_putCallables {cs : List NewCallable} (h : putCallables cs db = .error e) :
    Fault e := by
  induction cs generalizing db with
  | nil => cases h
  | cons c cs ih =>
    rcases bind_error_iff.mp h with hc | ⟨⟨id, db₁⟩, -, h⟩
    · exact fault_upsertCallable hc
    · rcases bind_error_iff.mp h with hcs | ⟨_, -, h⟩
      · exact ih hcs
      · cases h

/-- No row is missing when the ids are put in order. -/
theorem fault_upsertCallables {cs : List NewCallable} (h : upsertCallables cs db = .error e) :
    Fault e := by
  rw [upsertCallables_eq] at h
  cases hput : putCallables cs db with
  | error e' =>
    rw [hput] at h
    exact Except.error.inj h ▸ fault_putCallables hput
  | ok answer =>
    rw [hput] at h
    cases h

theorem fault_putEdges {edges : List EdgeRow} {es : List NewEdge}
    (h : putEdges edges es = .error e) : Fault e := by
  induction es generalizing edges with
  | nil => cases h
  | cons new es ih =>
    rw [putEdges, List.foldlM_cons] at h
    rcases bind_error_iff.mp h with hnew | ⟨between, -, hrest⟩
    · unfold putEdge at hnew
      split at hnew
      · cases hnew
      split at hnew
      · exact Except.error.inj hnew ▸ .badDocument _
      · cases hnew
    · exact ih hrest

theorem fault_upsertEdges {es : List NewEdge} (h : upsertEdges es db = .error e) : Fault e := by
  rcases bind_error_iff.mp h with hput | ⟨edges, -, h⟩
  · exact fault_putEdges hput
  · split at h
    · cases h
    · exact Except.error.inj h ▸ .foreignKey

end Database

section Refused

variable {s s' : Store} {st : Statement α} {e : Error}

theorem refused_onFile (hst : ∀ db cause, st db = .error cause → Fault cause) (t : History)
    (h : ((onFile fun f c => f.write c st).run { s with history := t } : Except Error α × Store)
      = (.error e, s')) :
    ∃ cause, e = .store cause ∧ Refusal s cause := by
  cases ho : s.isOpen with
  | false =>
    rw [run_onFile_closed (s := { s with history := t }) ho] at h
    obtain ⟨he, -⟩ := Prod.mk.inj h
    exact ⟨_, (Except.error.inj he).symm, .closed ho⟩
  | true =>
    rw [run_onFile (s := { s with history := t }) ho] at h
    by_cases hw : s.file.MayWrite s.connection
    · simp only [File.write_eq hw] at h
      cases hrun : st (s.file.view s.connection) with
      | error cause =>
        rw [hrun] at h
        obtain ⟨he, -⟩ := Prod.mk.inj h
        exact ⟨cause, (Except.error.inj he).symm, .statement (hst _ _ hrun)⟩
      | ok answer =>
        rw [hrun] at h
        cases h
    · simp only [File.write_locked hw] at h
      obtain ⟨he, -⟩ := Prod.mk.inj h
      exact ⟨_, (Except.error.inj he).symm, .locked hw⟩

theorem refused_write {kind : WriteKind} (hst : ∀ db cause, st db = .error cause → Fault cause)
    (h : ((write kind st).run s : Except Error α × Store) = (.error e, s')) :
    ∃ cause, e = .store cause ∧ Refusal s cause := by
  rw [run_write] at h
  split at h
  · next cause hstruck =>
    obtain ⟨he, -⟩ := Prod.mk.inj h
    exact ⟨cause, (Except.error.inj he).symm, .injected hstruck⟩
  · exact refused_onFile hst _ h

theorem refused_writeMany {kind : WriteKind} {rows : List β} {nothing : α}
    {many : List β → Statement α} (hst : ∀ db cause, many rows db = .error cause → Fault cause)
    (h : ((writeMany kind rows nothing many).run s : Except Error α × Store) = (.error e, s')) :
    ∃ cause, e = .store cause ∧ Refusal s cause := by
  rw [run_writeMany] at h
  split at h
  · next cause hstruck =>
    obtain ⟨he, -⟩ := Prod.mk.inj h
    exact ⟨cause, (Except.error.inj he).symm, .injected hstruck⟩
  · split at h
    · cases h
    · exact refused_onFile hst _ h

end Refused

theorem IsWrite.refused {a : Action α} (ha : IsWrite a) {s s' : Store} {e : Error}
    (h : (a.run s : Except Error α × Store) = (.error e, s')) :
    ∃ cause, e = .store cause ∧ Refusal s cause := by
  cases ha with
  | package p => exact refused_write (fun _ _ => Database.fault_upsertPackage) h
  | version v => exact refused_write (fun _ _ => Database.fault_upsertVersion) h
  | dependency d => exact refused_write (fun _ _ => Database.fault_insertDependency) h
  | module m => exact refused_write (fun _ _ => Database.fault_upsertModule) h
  | file f => exact refused_write (fun _ _ => Database.fault_upsertFile) h
  | link l => exact refused_write (fun _ _ => Database.fault_linkFile) h
  | callable c => exact refused_write (fun _ _ => Database.fault_upsertCallable) h
  | callables cs => exact refused_writeMany (fun _ _ => Database.fault_upsertCallables) h
  | edges es => exact refused_writeMany (fun _ _ => Database.fault_upsertEdges) h

/-! ## What programs of writes come to -/

/-- Writes one after the other, all of which are made. -/
inductive Granted : Store → Store → Prop where
  | refl (s : Store) : Granted s s
  | step {α : Type} {a : Action α} {x : α} {s between s' : Store} (ha : IsWrite a)
      (hrun : (a.run s : Except Error α × Store) = (.ok x, between)) (h : Granted between s') :
      Granted s s'

theorem Granted.trans {s between s' : Store} (h : Granted s between) (h' : Granted between s') :
    Granted s s' := by
  induction h with
  | refl s => exact h'
  | step ha hrun _ ih => exact .step ha hrun (ih h')

/-- An action that asks for writes as long as they are granted: it succeeds, or it fails as the
first of them does that is refused. -/
inductive Answered (a : Action α) (s : Store) : Prop where
  | granted {x : α} {s' : Store} (hrun : (a.run s : Except Error α × Store) = (.ok x, s'))
      (h : Granted s s')
  | refused {γ : Type} {b : Action γ} {cause : StoreError} {between s' : Store}
      (hrun : (a.run s : Except Error α × Store) = (.error (.store cause), s'))
      (h : Granted s between) (hb : IsWrite b)
      (hrefused : (b.run between : Except Error γ × Store) = (.error (.store cause), s'))
      (why : Refusal between cause)

namespace Answered

variable {s : Store}

theorem pure (x : α) : Answered (pure x) s := .granted rfl (.refl s)

theorem bind {a : Action α} {b : α → Action β} (h : Answered a s)
    (hb : ∀ x s', (a.run s : Except Error α × Store) = (.ok x, s') → Answered (b x) s') :
    Answered (a >>= b) s := by
  cases h with
  | @granted x between hrun h =>
    cases hb x between hrun with
    | granted hrun' h' => exact .granted (by rw [run_bind, hrun]; exact hrun') (h.trans h')
    | refused hrun' h' hw hrefused why =>
      exact .refused (by rw [run_bind, hrun]; exact hrun') (h.trans h') hw hrefused why
  | refused hrun h hw hrefused why =>
    exact .refused (by rw [run_bind, hrun]) h hw hrefused why

/-- Only the store fails. -/
theorem exists_cause {a : Action α} (h : Answered a s) {e : Error}
    (he : (a.run s : Except Error α × Store).1 = .error e) : ∃ cause, e = .store cause := by
  cases h with
  | granted hrun =>
    rw [hrun] at he
    cases he
  | refused hrun =>
    rw [hrun] at he
    exact ⟨_, (Except.error.inj he).symm⟩

end Answered

theorem IsWrite.answered {a : Action α} (ha : IsWrite a) (s : Store) : Answered a s := by
  rcases hrun : (a.run s : Except Error α × Store) with ⟨e | x, s'⟩
  · obtain ⟨cause, rfl, why⟩ := ha.refused hrun
    exact .refused hrun (.refl s) ha hrun why
  · exact .granted hrun (.step ha hrun (.refl s'))

/-- Nothing but writes. -/
def OnlyWrite (p : Power) : Prop := p = .write

theorem IsWrite.program {a : Action α} (h : IsWrite a) : Program OnlyWrite a := .write rfl h

theorem Program.answered {a : Action α} (h : Program OnlyWrite a) (s : Store) : Answered a s := by
  induction h generalizing s with
  | pure x => exact .pure x
  | bind _ _ ih ihb => exact (ih s).bind fun x s' _ => ihb x s'
  | ask hp ho =>
    obtain rfl := hp
    cases ho with
    | write hw => exact hw.answered s
  | throw hp => cases hp
  | tryCatch hp => cases hp

end CallArchive.Store
