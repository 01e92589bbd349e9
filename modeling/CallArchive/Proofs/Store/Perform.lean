import CallArchive.Proofs.Store.Actions

/-!
# Actions as changes of a database

While no other connection has a transaction open, a store works on one database, in a transaction or
not. `Performs a f` says that an action does to it what the change `f` does, or fails; and that it
fails only if `f` does or if the plan of failures strikes. This holds of the writes, and it goes
over to whatever is put together from them.
-/

namespace CallArchive.Store

variable {α β : Type}

/-! ## Files with one writer -/

namespace File

variable {f : File} {c : ConnectionName} {db : Database}

/-- No other connection has a transaction open. -/
def MayWrite (f : File) (c : ConnectionName) : Prop := ∀ w, f.writer = some w → w.owner = c

/-- The file with `db` in place of what its writer sees. -/
def replace (f : File) (db : Database) : File :=
  match f.writer with
  | none => { f with committed := db }
  | some w => { f with writer := some { w with working := db } }

theorem mayWrite_replace (h : f.MayWrite c) : (f.replace db).MayWrite c := by
  unfold replace
  split
  · exact h
  · next w hw =>
    intro w' hw'
    obtain rfl := Option.some.inj hw'
    exact h w hw

theorem view_replace (h : f.MayWrite c) : (f.replace db).view c = db := by
  obtain ⟨committed, writer⟩ := f
  cases writer with
  | none => rfl
  | some w => exact if_pos (h w rfl)

theorem replace_view (h : f.MayWrite c) : f.replace (f.view c) = f := by
  obtain ⟨committed, writer⟩ := f
  cases writer with
  | none => rfl
  | some w =>
    obtain rfl := h w rfl
    simp only [replace, view, if_true]

theorem replace_replace (db db' : Database) : (f.replace db).replace db' = f.replace db' := by
  obtain ⟨committed, writer⟩ := f
  cases writer <;> rfl

theorem write_eq (h : f.MayWrite c) (s : Statement α) :
    f.write c s = match s (f.view c) with
      | .ok (a, db) => (.ok a, f.replace db)
      | .error e => (.error e, f) := by
  obtain ⟨committed, writer⟩ := f
  cases writer with
  | none => rfl
  | some w =>
    have howner : w.owner = c := h w rfl
    cases hs : s w.working <;> simp [write, view, replace, howner, hs]

theorem mayWrite_of_write_ok {st : Statement α} {x : α} {f' : File}
    (h : f.write c st = (.ok x, f')) : f.MayWrite c := fun w hw =>
  Decidable.byContradiction fun howner => by simp [write, hw, howner] at h

theorem view_write_ok {st : Statement α} {x : α} {f' : File} (h : f.write c st = (.ok x, f')) :
    st (f.view c) = .ok (x, f'.view c) := by
  have hmay := mayWrite_of_write_ok h
  rw [write_eq hmay] at h
  cases hst : st (f.view c) with
  | error e =>
    rw [hst] at h
    cases h
  | ok p =>
    rw [hst] at h
    obtain ⟨hx, rfl⟩ := Prod.mk.inj h
    obtain rfl := Except.ok.inj hx
    rw [view_replace hmay]

end File

/-! ## Stores that may write -/

structure Ready (s : Store) : Prop where
  isOpen : s.isOpen = true
  mayWrite : s.file.MayWrite s.connection

/-- The store with another database and another history. -/
def worked (s : Store) (db : Database) (h : History) : Store :=
  { s with file := s.file.replace db, history := h }

section Worked

variable {s : Store} {db : Database} {h : History}

theorem Ready.worked (hs : s.Ready) : (s.worked db h).Ready :=
  ⟨hs.isOpen, File.mayWrite_replace hs.mayWrite⟩

theorem Ready.view_worked (hs : s.Ready) : (s.worked db h).view = db :=
  File.view_replace hs.mayWrite

theorem worked_worked (db' : Database) (h' : History) :
    (s.worked db h).worked db' h' = s.worked db' h' := by
  simp only [Store.worked, File.replace_replace]

theorem Ready.worked_view (hs : s.Ready) (h : History) :
    s.worked s.view h = { s with history := h } := by
  rw [Store.worked, Store.view, File.replace_view hs.mayWrite]

end Worked

/-! ## Changes -/

/-- What may become of a database. -/
abbrev Change (α : Type) := StateT Database Option α

/-- A statement as a change. -/
def change (s : Statement α) : Change α := fun db => (s db).toOption

theorem run_change_of_ok {s : Statement α} {db : Database} {p : α × Database}
    (h : s db = .ok p) : (change s).run db = some p :=
  congrArg Except.toOption h

theorem run_change_bind (f : Change α) (g : α → Change β) (db : Database) :
    (f >>= g).run db = (f.run db).bind fun p => (g p.1).run p.2 := rfl

theorem run_change_bind_some {f : Change α} {g : α → Change β} {db db' : Database} {a : α}
    (h : f.run db = some (a, db')) : (f >>= g).run db = (g a).run db' := by
  rw [run_change_bind, h, Option.bind_some]

theorem run_change_discard {f : Change α} {db db' : Database} {a : α}
    (h : f.run db = some (a, db')) : (discard f).run db = some ((), db') := by
  rw [show discard f = f >>= fun _ => pure () from rfl, run_change_bind_some h]
  rfl

/-- The failure is one that the plan can inject. -/
def FaultPlan.Injects (p : FaultPlan) (e : Error) : Prop :=
  ∃ history kind cause, p history kind = some cause ∧ e = .store cause

/-- How an action ends that is to do what a change does. It does not blame the record. -/
structure Ends (s : Store) (f : Change α) (result : Except Error α) (db : Database) : Prop where
  ok : ∀ x, result = .ok x → f.run s.view = some (x, db)
  not_input : ∀ e, result = .error e → e.failureClass ≠ .input
  error : ∀ e, result = .error e → f.run s.view = none ∨ s.faults.Injects e

def Performs (a : Action α) (f : Change α) : Prop :=
  ∀ s : Store, s.Ready → ∃ db h, (a.run s : Except Error α × Store).2 = s.worked db h ∧
    Ends s f (a.run s : Except Error α × Store).1 db

namespace Performs

theorem pure (x : α) : Performs (pure x) (pure x) := by
  intro s hs
  refine ⟨s.view, s.history, (hs.worked_view s.history).symm, ?_, ?_, ?_⟩
  · rintro y ⟨⟩
    rfl
  · rintro e ⟨⟩
  · rintro e ⟨⟩

theorem throw {e : Error} (he : e.failureClass ≠ .input) :
    Performs (throw e : Action α) (fun _ => none) := by
  intro s hs
  refine ⟨s.view, s.history, (hs.worked_view s.history).symm, ?_, ?_, ?_⟩
  · rintro y ⟨⟩
  · rintro e' ⟨⟩
    exact he
  · rintro e' ⟨⟩
    exact .inl rfl

theorem bind {a : Action α} {b : α → Action β} {f : Change α} {g : α → Change β}
    (h : Performs a f) (hb : ∀ x, Performs (b x) (g x)) : Performs (a >>= b) (f >>= g) := by
  intro s hs
  obtain ⟨db, t, hstore, hends⟩ := h s hs
  rw [run_bind]
  rcases hrun : (a.run s : Except Error α × Store) with ⟨e | x, s'⟩
  · rw [hrun] at hstore hends
    refine ⟨db, t, hstore, ?_, ?_, ?_⟩
    · rintro y ⟨⟩
    · rintro e' ⟨⟩
      exact hends.not_input e rfl
    · rintro e' ⟨⟩
      refine (hends.error e rfl).imp_left fun hnone => ?_
      rw [run_change_bind, hnone, Option.bind_none]
  · rw [hrun] at hstore hends
    obtain rfl : s' = s.worked db t := hstore
    have hf : (f >>= g).run s.view = (g x).run db := by
      rw [run_change_bind, hends.ok x rfl, Option.bind_some]
    obtain ⟨db', t', hstore', hends'⟩ := hb x _ hs.worked
    refine ⟨db', t', hstore'.trans (worked_worked db' t'), ?_, hends'.not_input, ?_⟩
    · intro y hy
      rw [hf, ← hends'.ok y hy, hs.view_worked]
    · intro e he
      have hview : (s.worked db t).view = db := hs.view_worked
      rw [hf, ← hview]
      exact hends'.error e he

end Performs

/-! ## Writes -/

theorem Ready.ends_onFile {s : Store} (hs : s.Ready) (st : Statement α) :
    ∃ db, ((onFile fun f c => f.write c st).run s : Except Error α × Store).2
        = s.worked db s.history ∧
      Ends s (change st) ((onFile fun f c => f.write c st).run s : Except Error α × Store).1
        db := by
  rw [run_onFile hs.isOpen, File.write_eq hs.mayWrite]
  cases hst : st (s.file.view s.connection) with
  | ok p =>
    refine ⟨p.2, rfl, ?_, ?_, ?_⟩
    · rintro x ⟨⟩
      exact congrArg Except.toOption hst
    · rintro e ⟨⟩
    · rintro e ⟨⟩
  | error e =>
    refine ⟨s.view, (hs.worked_view s.history).symm, ?_, ?_, ?_⟩
    · rintro x ⟨⟩
    · rintro e' ⟨⟩
      exact e.failureClass_ne_input
    · rintro e' ⟨⟩
      exact .inl (congrArg Except.toOption hst)

theorem Ready.ends_struck {s : Store} (hs : s.Ready) {kind : WriteKind} {e : StoreError}
    (he : s.faults s.history kind = some e) (f : Change α) :
    s.struck = s.worked s.view s.struck.history ∧ Ends s f (.error (.store e)) s.view := by
  refine ⟨(hs.worked_view _).symm, ?_, ?_, ?_⟩
  · rintro x ⟨⟩
  · rintro e' ⟨⟩
    exact e.failureClass_ne_input
  · rintro e' ⟨⟩
    exact .inr ⟨s.history, kind, e, he, rfl⟩

theorem performs_write (kind : WriteKind) (st : Statement α) :
    Performs (write kind st) (change st) := by
  intro s hs
  rw [run_write]
  split
  · next e he => exact ⟨s.view, _, hs.ends_struck he (change st)⟩
  · obtain ⟨db, hstore, hends⟩ := Ready.ends_onFile (s := s.counted) ⟨hs.isOpen, hs.mayWrite⟩ st
    exact ⟨db, _, hstore, hends.ok, hends.not_input, hends.error⟩

/-- Where the statement does nothing without rows. -/
theorem performs_writeMany (kind : WriteKind) (rows : List β) {nothing : α}
    {st : List β → Statement α} (hnone : ∀ db, st [] db = .ok (nothing, db)) :
    Performs (writeMany kind rows nothing st) (change (st rows)) := by
  intro s hs
  rw [run_writeMany]
  split
  · next e he => exact ⟨s.view, _, hs.ends_struck he (change (st rows))⟩
  · split
    · next hempty =>
      obtain rfl := List.isEmpty_iff.mp hempty
      refine ⟨s.view, s.counted.history, (hs.worked_view _).symm, ?_, ?_, ?_⟩
      · rintro x ⟨⟩
        exact congrArg Except.toOption (hnone s.view)
      · rintro e ⟨⟩
      · rintro e ⟨⟩
    · obtain ⟨db, hstore, hends⟩ :=
        Ready.ends_onFile (s := s.counted) ⟨hs.isOpen, hs.mayWrite⟩ (st rows)
      exact ⟨db, _, hstore, hends.ok, hends.not_input, hends.error⟩

/-! ## Writes that succeed -/

section Succeeding

variable {s s' : Store}

theorem statement_of_run_onFile {st : Statement α} {x : α}
    (h : ((onFile fun f c => f.write c st).run s : Except Error α × Store) = (.ok x, s')) :
    st s.view = .ok (x, s'.view) := by
  cases hopen : s.isOpen with
  | false =>
    rw [run_onFile_closed hopen] at h
    cases h
  | true =>
    rw [run_onFile hopen] at h
    obtain ⟨hresult, rfl⟩ := Prod.mk.inj h
    cases hw : s.file.write s.connection st with
    | mk result file =>
      rw [hw] at hresult
      cases result with
      | error e => cases hresult
      | ok y =>
        obtain rfl := Except.ok.inj hresult
        exact File.view_write_ok hw

/-- A write that succeeds has run its statement on what the store reads. -/
theorem statement_of_run_write {kind : WriteKind} {st : Statement α} {x : α}
    (h : ((write kind st).run s : Except Error α × Store) = (.ok x, s')) :
    st s.view = .ok (x, s'.view) := by
  rw [run_write] at h
  split at h
  · cases h
  · exact statement_of_run_onFile (s := s.counted) h

theorem statement_of_run_writeMany {kind : WriteKind} {rows : List β} {nothing x : α}
    {st : List β → Statement α} (hnone : ∀ db, st [] db = .ok (nothing, db))
    (h : ((writeMany kind rows nothing st).run s : Except Error α × Store) = (.ok x, s')) :
    st rows s.view = .ok (x, s'.view) := by
  rw [run_writeMany] at h
  split at h
  · cases h
  split at h
  · next hempty =>
    obtain rfl := List.isEmpty_iff.mp hempty
    obtain ⟨hx, rfl⟩ := Prod.mk.inj h
    obtain rfl := Except.ok.inj hx
    exact hnone s.view
  · exact statement_of_run_onFile (s := s.counted) h

end Succeeding

end CallArchive.Store
