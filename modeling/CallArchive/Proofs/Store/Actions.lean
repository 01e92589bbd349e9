import CallArchive.Proofs.Except
import CallArchive.Store.Basic

/-!
# Running actions

What an action answers and what it makes of the store, for the ways of combining actions and for
those that reach the file. A statement that is not struck does to the file of an open store what
`File.write` does.
-/

namespace CallArchive.Store

variable {α β : Type} {s : Store}

/-! ## Combining actions -/

theorem run_pure (x : α) (s : Store) :
    ((pure x : Action α).run s : Except Error α × Store) = (.ok x, s) := rfl

theorem run_throw (e : Error) (s : Store) :
    ((throw e : Action α).run s : Except Error α × Store) = (.error e, s) := rfl

theorem run_get (s : Store) :
    ((get : Action Store).run s : Except Error Store × Store) = (.ok s, s) := rfl

theorem run_set (s' s : Store) :
    ((set s' : Action PUnit).run s : Except Error PUnit × Store) = (.ok ⟨⟩, s') := rfl

theorem run_bind (a : Action α) (g : α → Action β) (s : Store) :
    ((a >>= g).run s : Except Error β × Store) =
      match (a.run s : Except Error α × Store) with
      | (.ok x, s') => (g x).run s'
      | (.error e, s') => (.error e, s') := by
  rw [stateful_run_bind]
  rcases (a.run s : Except Error α × Store) with ⟨_ | _, s'⟩ <;> rfl

/-- A run succeeds if its result does. -/
theorem run_eq_ok {run : Except Error α × Store} {x : α} (h : run.1.toOption = some x) :
    run = (.ok x, run.2) :=
  Prod.ext (toOption_eq_some_iff.mp h) rfl

theorem run_bind_ok {a : Action α} {g : α → Action β} {s s' : Store} {y : β}
    (h : ((a >>= g).run s : Except Error β × Store) = (.ok y, s')) :
    ∃ x between, (a.run s : Except Error α × Store) = (.ok x, between) ∧
      ((g x).run between : Except Error β × Store) = (.ok y, s') := by
  rw [run_bind] at h
  rcases hrun : (a.run s : Except Error α × Store) with ⟨e | x, between⟩
  · rw [hrun] at h
    cases h
  · rw [hrun] at h
    exact ⟨x, between, rfl, h⟩

theorem run_discard (a : Action α) (s : Store) :
    ((discard a).run s : Except Error Unit × Store) =
      match (a.run s : Except Error α × Store) with
      | (.ok _, s') => (.ok (), s')
      | (.error e, s') => (.error e, s') := by
  rw [show discard a = a >>= fun _ => pure () from rfl, run_bind]
  rfl

theorem run_of_discard {a : Action α} {s' : Store}
    (h : ((discard a).run s : Except Error Unit × Store) = (.ok (), s')) :
    ∃ x, (a.run s : Except Error α × Store) = (.ok x, s') := by
  rw [run_discard] at h
  split at h
  · next x between hrun =>
    obtain ⟨-, rfl⟩ := Prod.mk.inj h
    exact ⟨x, hrun⟩
  · cases h

theorem run_tryCatch (a : Action α) (g : Error → Action α) (s : Store) :
    ((tryCatch a g).run s : Except Error α × Store) =
      match (a.run s : Except Error α × Store) with
      | (.ok x, s') => (.ok x, s')
      | (.error e, s') => (g e).run s' := by
  rw [stateful_run_tryCatch]
  rcases (a.run s : Except Error α × Store) with ⟨_ | _, s'⟩ <;> rfl

/-! ## Reaching the file -/

variable {step : File → ConnectionName → Except StoreError α × File}

theorem run_onFile (h : s.isOpen = true) :
    ((onFile step).run s : Except Error α × Store) =
      ((step s.file s.connection).1.mapError .store,
        { s with file := (step s.file s.connection).2 }) := by
  have hopen : (ensureOpen.run s : Except Error Unit × Store) = (.ok (), s) := by
    obtain ⟨f, c, o, p, t⟩ := s
    subst h
    rfl
  simp only [onFile, run_bind, hopen, run_get, run_set]
  rcases step s.file s.connection with ⟨_ | _, f⟩ <;> rfl

theorem run_onFile_closed (h : s.isOpen = false) :
    ((onFile step).run s : Except Error α × Store) = (.error (.store .closed), s) := by
  obtain ⟨f, c, o, p, t⟩ := s
  subst h
  rfl

theorem run_read {query : Database → α} (h : s.isOpen = true) :
    ((read query).run s : Except Error α × Store) = (.ok (query s.view), s) := by
  obtain ⟨f, c, o, p, t⟩ := s
  subst h
  rfl

theorem run_readRows {query : Database → Except StoreError α} (h : s.isOpen = true) :
    ((readRows query).run s : Except Error α × Store) = ((query s.view).mapError .store, s) := by
  simp only [readRows, run_bind, run_read h]
  cases query s.view <;> rfl

theorem run_readRows_closed {query : Database → Except StoreError α} (h : s.isOpen = false) :
    ((readRows query).run s : Except Error α × Store) = (.error (.store .closed), s) := by
  obtain ⟨f, c, o, p, t⟩ := s
  subst h
  rfl

/-- An action of the file takes the store where its step takes the file. -/
theorem file_onFile (step : File → ConnectionName → Except StoreError α × File) (s : Store) :
    ((onFile step).run s : Except Error α × Store).2.file = s.file ∨
      ((onFile step).run s : Except Error α × Store).2.file = (step s.file s.connection).2 := by
  cases h : s.isOpen with
  | true => exact .inr (by rw [run_onFile h])
  | false => exact .inl (by rw [run_onFile_closed h])

/-- The store once a write has been counted, and once it has been struck. -/
def counted (s : Store) : Store :=
  { s with history := { s.history with writes := s.history.writes + 1 } }

def struck (s : Store) : Store :=
  { s with history :=
      { s.history with writes := s.history.writes + 1, injected := s.history.injected + 1 } }

theorem run_strike (kind : WriteKind) (s : Store) :
    ((strike kind).run s : Except Error Unit × Store) =
      match s.faults s.history kind with
      | some e => (.error (.store e), s.struck)
      | none => (.ok (), s.counted) := by
  simp only [strike, run_bind, run_get]
  cases s.faults s.history kind <;> rfl

theorem run_write (kind : WriteKind) (st : Statement α) (s : Store) :
    ((write kind st).run s : Except Error α × Store) =
      match s.faults s.history kind with
      | some e => (.error (.store e), s.struck)
      | none => (onFile fun f c => f.write c st).run s.counted := by
  rw [write, run_bind, run_strike]
  cases s.faults s.history kind <;> rfl

theorem run_writeMany (kind : WriteKind) (rows : List β) (nothing : α)
    (st : List β → Statement α) (s : Store) :
    ((writeMany kind rows nothing st).run s : Except Error α × Store) =
      match s.faults s.history kind with
      | some e => (.error (.store e), s.struck)
      | none =>
        if rows.isEmpty then (.ok nothing, s.counted)
        else (onFile fun f c => f.write c (st rows)).run s.counted := by
  rw [writeMany, run_bind, run_strike]
  cases s.faults s.history kind with
  | some e => rfl
  | none => cases rows <;> rfl

end CallArchive.Store
