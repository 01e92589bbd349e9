import CallArchive.Proofs.Ingest.AllOrNothing
import CallArchive.Proofs.Ingest.Journal

/-!
# Connections of one file

Connections of one file take steps in any order: they come and go, read, write, begin and end
transactions, and ingest records. What they are answered goes into a journal. Whatever they do, the
file agrees with it, and its writer is one of the connections (`Orderly.foldl`).
-/

namespace CallArchive.Ingest

open Store (ConnectionName Connections Database File FaultPlan Request Event History Wrote Ready
  run_change_discard)

/-! ## Steps -/

/-- What a connection does. -/
inductive Step : Type 1 where
  | event (e : Event)
  | read {α : Type} (name : ConnectionName) (query : Database → Except StoreError α)
  | ingest {ν : Type} (name : ConnectionName) (settings : Settings) (notifier : Notifier ν)
      (text : String) (channel : ν)

/-- Failures that are injected into a new connection are transient ones. -/
def Step.Mild : Step → Prop
  | .event (.connect _ faults) => faults.Mild
  | _ => True

/-- Ingests a record at a connection. -/
def ingestAt {ν : Type} (c : Connections) (name : ConnectionName) (settings : Settings)
    (notifier : Notifier ν) (text : String) (channel : ν) : Except Error Unit × Connections :=
  match c.store? name with
  | some s =>
    let run := ingest settings notifier text s channel
    (run.result.map fun _ => (), c.put run.store)
  | none => (.error (.store .closed), c)

/-- What the connection is answered, and the connections after that. -/
def answer (c : Connections) : Step → Except Error Unit × Connections
  | .event (.connect name faults) =>
    let (result, c) := c.connect name faults
    (result.mapError .store, c)
  | .event (.leave name) => (.ok (), c.remove name)
  | .event (.ask name request) => c.run name request.action
  | .read name query => c.run name (discard (Store.readRows query))
  | .ingest name settings notifier text channel =>
    ingestAt c name settings notifier text channel

/-- What the journal makes of an answer. -/
def Journal.after (l : Journal) : Step → Except Error Unit → Journal
  | .event (.connect name _), .ok () => (l.drop name).note name .prepare
  | .event (.connect name _), .error _ | .event (.leave name), _ => l.drop name
  | .event (.ask name request), .ok () => l.noteRequest name request
  | .ingest name settings _ text _, .ok () =>
    match check text with
    | .ok v => l.note name (.record settings.batchSize v)
    | .error _ => l
  | _, _ => l

/-- The connections of a file with their journal. -/
structure Shared where
  connections : Connections
  journal : Journal

namespace Shared

def ofFile (f : File) : Shared := ⟨.ofFile f, .empty⟩

def after (x : Shared) (step : Step) : Shared :=
  ⟨(answer x.connections step).2, x.journal.after step (answer x.connections step).1⟩

end Shared

/-! ## Stores of connections -/

theorem run_discard_readRows {α : Type} (s : Store) (query : Database → Except StoreError α) :
    ∃ result, ((discard (Store.readRows query)).run s : Except Error Unit × Store) = (result, s) := by
  rw [Store.run_discard]
  cases ho : s.isOpen with
  | false => exact ⟨_, by rw [Store.run_readRows_closed ho]⟩
  | true =>
    rw [Store.run_readRows ho]
    cases query s.view <;> exact ⟨_, rfl⟩

theorem get?_filter {υ : Type} (name other : ConnectionName) (m : Assoc ConnectionName υ) :
    Assoc.get? other (m.filter fun p => p.1 ≠ name)
      = if other = name then none else Assoc.get? other m := by
  induction m with
  | nil => simp [Assoc.get?]
  | cons p rest ih =>
    obtain ⟨k, v⟩ := p
    by_cases hk : k = name
    · subst hk
      by_cases ho : other = k
      · simp_all
      · simp_all [Assoc.get?, Ne.symm ho]
    · by_cases ho : other = name
      · simp_all [Assoc.get?]
      · simp_all [Assoc.get?]

/-- The file agrees with the journal, and its writer is a connection that is open. -/
structure Orderly (start : Database) (x : Shared) : Prop where
  agrees : Agrees start x.journal x.connections.file
  stores : ∀ name s, Assoc.get? name x.connections.stores = some s →
    s.connection = name ∧ s.faults.Mild
  live : ∀ w, x.connections.file.writer = some w →
    ∃ s, Assoc.get? w.owner x.connections.stores = some s ∧ s.isOpen = true

namespace Orderly

variable {start : Database} {c : Connections} {l l' : Journal} {name : ConnectionName}

theorem ofFile {f : File} (hf : f.writer = none) : Orderly f.committed (.ofFile f) :=
  ⟨.empty hf, fun _ _ h => absurd h nofun, fun _ hw => absurd (hf.symm.trans hw) nofun⟩

/-- A store is put back with a file that agrees with the new journal. -/
theorem put (h : Orderly start ⟨c, l⟩) {s : Store} (hm : s.faults.Mild)
    (ha : Agrees start l' s.file)
    (hopen : s.file.isWriter s.connection = true → s.isOpen = true)
    (hothers : ∀ w, s.file.writer = some w → w.owner ≠ s.connection →
      ∃ w', c.file.writer = some w' ∧ w'.owner = w.owner) : Orderly start ⟨c.put s, l'⟩ := by
  refine ⟨ha, fun other s' hs' => ?_, fun w hw => ?_⟩
  · simp only [Connections.put, Assoc.get?_put] at hs'
    split at hs'
    · next heq =>
      obtain rfl := Option.some.inj hs'
      exact ⟨heq, hm⟩
    · exact h.stores other s' hs'
  · simp only [Connections.put, Assoc.get?_put] at hw ⊢
    split
    · next heq => exact ⟨s, rfl, hopen (File.isWriter_iff.mpr ⟨w, hw, heq.symm⟩)⟩
    · next hne =>
      obtain ⟨w', hw', howner⟩ := hothers w hw (Ne.symm hne)
      exact howner ▸ h.live w' hw'

theorem remove (h : Orderly start ⟨c, l⟩) (name : ConnectionName) :
    Orderly start ⟨c.remove name, l.drop name⟩ := by
  refine ⟨h.agrees.disconnect name, fun other s hs => ?_, fun w hw => ?_⟩
  · simp only [Connections.remove, get?_filter] at hs
    split at hs
    · cases hs
    · exact h.stores other s hs
  · simp only [Connections.remove, get?_filter] at hw ⊢
    obtain ⟨hwriter, hother⟩ := File.writer_disconnect hw
    rw [if_neg hother]
    exact h.live w hwriter

/-- The connection that is writing is open. -/
theorem isOpen (h : Orderly start ⟨c, l⟩) {s : Store} (hs : Assoc.get? name c.stores = some s)
    (hw : c.file.isWriter name = true) : s.isOpen = true := by
  obtain ⟨w, hwriter, howner⟩ := File.isWriter_iff.mp hw
  obtain ⟨s', hs', hopen⟩ := h.live w hwriter
  obtain rfl := Option.some.inj (hs.symm.trans (howner ▸ hs'))
  exact hopen

/-- A store is put back that has not done anything to the file. -/
theorem put_same (h : Orderly start ⟨c, l⟩) {s s' : Store}
    (hs : Assoc.get? name c.stores = some s) (hc : s'.connection = name)
    (hopen : s'.isOpen = s.isOpen) (hm : s'.faults.Mild) (hfile : s'.file = c.file)
    (ha : Agrees start l' c.file) : Orderly start ⟨c.put s', l'⟩ := by
  refine h.put hm (hfile ▸ ha) (fun hw => ?_) fun w hw _ => ⟨w, hfile ▸ hw, rfl⟩
  rw [hfile, hc] at hw
  rw [hopen, h.isOpen hs hw]

theorem put_written (h : Orderly start ⟨c, l⟩) {s : Store} (hm : s.faults.Mild)
    (ho : s.isOpen = true) (hw : c.file.MayWrite s.connection) (op : Operation) {db : Database}
    (hop : op.change.run (c.file.view s.connection) = some ((), db))
    (hfile : s.file = c.file.replace db) :
    Orderly start ⟨c.put s, l.note s.connection op⟩ := by
  refine h.put hm (hfile ▸ h.agrees.note hw hop) (fun _ => ho) fun w hwriter _ => ?_
  rw [hfile, File.replace] at hwriter
  split at hwriter
  · next hnone =>
    rw [hnone] at hwriter
    cases hwriter
  · next w' hw' =>
    obtain rfl := Option.some.inj hwriter
    exact ⟨w', hw', rfl⟩

/-! ## One step -/

/-- A new connection prepares the file, unless another one is writing to it. -/
theorem connect (h : Orderly start ⟨c, l⟩) {faults : FaultPlan} (hm : faults.Mild)
    (name : ConnectionName) :
    Orderly start (Shared.after ⟨c, l⟩ (.event (.connect name faults))) := by
  have hleft := h.remove name
  simp only [Shared.after, answer, Connections.connect, Store.connect?, File.connect]
  generalize c.remove name = c' at hleft
  by_cases hw : c'.file.MayWrite name
  · rw [File.write_eq hw]
    cases hp : Database.prepare (c'.file.view name) with
    | error e => exact hleft
    | ok p =>
      obtain ⟨⟨⟩, db⟩ := p
      have hop : (Operation.prepare).change.run (c'.file.view name) = some ((), db) :=
        Store.run_change_of_ok hp
      exact hleft.put_written (s := ⟨c'.file.replace db, name, true, faults, .none⟩) hm rfl hw
        .prepare hop rfl
  · rw [File.write_locked hw]
    exact hleft

/-- A store of the connections, with the file as it stands. -/
theorem store?_eq_some {s : Store} (h : Orderly start ⟨c, l⟩) (hs : c.store? name = some s) :
    s.file = c.file ∧ s.connection = name ∧ s.faults.Mild ∧
      ∃ s', Assoc.get? name c.stores = some s' ∧ s'.isOpen = s.isOpen := by
  obtain ⟨s', hs', rfl⟩ := Option.map_eq_some_iff.mp hs
  obtain ⟨hname, hm⟩ := h.stores name s' hs'
  exact ⟨rfl, hname, hm, s', hs', rfl⟩

section Ask

variable {s : Store} (h : Orderly start ⟨c, l⟩) (hs : c.store? name = some s)

include h hs

theorem ask_write {r : Request} (hr : r.Writes) :
    Orderly start (Shared.after ⟨c, l⟩ (.event (.ask name r))) := by
  obtain ⟨hfile, hname, hm, s', hs', hopen⟩ := h.store?_eq_some hs
  have hwrote := r.wrote_action hr s
  have hnote : l.noteRequest name r = l.note name (.request r) := by
    cases r <;> first | rfl | exact hr.elim
  simp only [Shared.after, answer, Connections.run_of_store? hs]
  generalize (r.action.run s : Except Error Unit × Store) = out at hwrote
  obtain ⟨file, stores⟩ := c
  subst hfile
  cases hwrote with
  | done hready hf =>
    rw [Journal.after, hnote, ← hname]
    exact h.put_written (s := s.worked _ _) hm hready.isOpen hready.mayWrite (.request r) hf rfl
  | skipped hn hf =>
    rw [Journal.after, hnote]
    exact h.put_same hs' hname hopen.symm hm rfl
      (h.agrees.note_nothing (.request r) hf name)
  | refused why => exact h.put_same hs' hname hopen.symm hm rfl h.agrees

theorem ask_begin : Orderly start (Shared.after ⟨c, l⟩ (.event (.ask name .begin))) := by
  obtain ⟨hfile, hname, hm, s', hs', hopen⟩ := h.store?_eq_some hs
  obtain ⟨file, stores⟩ := c
  subst hfile
  simp only [Shared.after, answer, Connections.run_of_store? hs, Request.action]
  by_cases hi : Idle s
  · rw [run_beginTransaction hi]
    refine h.put (s := begun s) hm (hname ▸ h.agrees.begin hi.free _) (fun _ => hi.isOpen) ?_
    intro w hw howner
    obtain rfl := Option.some.inj hw
    exact absurd rfl howner
  · obtain ⟨cause, hbegin, -⟩ := run_beginTransaction_error hi
    rw [hbegin]
    exact h.put_same hs' hname hopen.symm hm rfl h.agrees

/-- A step that ends the transaction of its connection, or is refused. -/
theorem ask_end {r : Request} (step : File → ConnectionName → Except StoreError Unit × File)
    (hr : r.action = Store.onFile step)
    (hstep : (∃ f, step c.file name = (.ok (), f) ∧ f.writer = none ∧
        Agrees start (l.noteRequest name r) f) ∨ ∃ e, step c.file name = (.error e, c.file)) :
    Orderly start (Shared.after ⟨c, l⟩ (.event (.ask name r))) := by
  obtain ⟨hfile, hname, hm, s', hs', hopen⟩ := h.store?_eq_some hs
  obtain ⟨file, stores⟩ := c
  subst hfile hname
  simp only [Shared.after, answer, Connections.run_of_store? hs, hr]
  by_cases ho : s.isOpen = true
  · rw [Store.run_onFile ho]
    rcases hstep with ⟨f, hok, hfree, ha⟩ | ⟨e, herror⟩
    · rw [hok]
      refine h.put (s := { s with file := f }) hm ha (fun _ => ho) fun w hw => ?_
      exact absurd (hfree.symm.trans hw) nofun
    · rw [herror]
      exact h.put_same hs' rfl hopen.symm hm rfl h.agrees
  · rw [Store.run_onFile_closed (Bool.not_eq_true _ ▸ ho)]
    exact h.put_same hs' rfl hopen.symm hm rfl h.agrees

theorem ask_commit : Orderly start (Shared.after ⟨c, l⟩ (.event (.ask name .commit))) := by
  refine h.ask_end hs (r := .commit) File.commit rfl ?_
  rcases c.file.commit_cases name with ⟨w, hw, rfl, hok⟩ | herror
  · exact .inl ⟨_, hok, rfl, h.agrees.commit hw⟩
  · exact .inr herror

theorem ask_rollback : Orderly start (Shared.after ⟨c, l⟩ (.event (.ask name .rollback))) := by
  refine h.ask_end hs (r := .rollback) File.rollback rfl ?_
  rcases c.file.rollback_cases name with ⟨hw, hok⟩ | herror
  · exact .inl ⟨_, hok, congrArg File.writer (File.disconnect_of_isWriter hw),
      h.agrees.disconnect name⟩
  · exact .inr herror

/-- Closing takes the transaction back; a connection that is closed already has none. -/
theorem close_eq :
    s.close = { s with isOpen := false, file := c.file.disconnect name } := by
  obtain ⟨hfile, hname, -, s', hs', hopen⟩ := h.store?_eq_some hs
  obtain ⟨file, stores⟩ := c
  subst hfile hname
  cases ho : s.isOpen with
  | true => rw [Store.close, if_pos ho]
  | false =>
    have hw : s.file.isWriter s.connection = false := Bool.eq_false_iff.mpr fun hw => by
      rw [hopen.symm.trans (h.isOpen hs' hw)] at ho
      cases ho
    rw [Store.close, File.disconnect_of_not_isWriter hw, ite_self]

theorem ask_close : Orderly start (Shared.after ⟨c, l⟩ (.event (.ask name .close))) := by
  obtain ⟨-, hname, hm, -⟩ := h.store?_eq_some hs
  simp only [Shared.after, answer, Connections.run_of_store? hs]
  change Orderly start ⟨Connections.put _ s.close, l.drop name⟩
  rw [h.close_eq hs]
  refine h.put (s := { s with isOpen := false, file := _ }) hm (h.agrees.disconnect name)
    (fun hw => ?_) fun w hw _ => ⟨w, (File.writer_disconnect hw).1, rfl⟩
  obtain ⟨w, hwriter, howner⟩ := File.isWriter_iff.mp hw
  exact absurd (howner.trans hname) (File.writer_disconnect hwriter).2

end Ask

theorem ask (h : Orderly start ⟨c, l⟩) (name : ConnectionName) (r : Request) :
    Orderly start (Shared.after ⟨c, l⟩ (.event (.ask name r))) := by
  cases hs : c.store? name with
  | none =>
    simp only [Shared.after, answer, Connections.run, hs]
    exact h
  | some s =>
    cases r with
    | begin => exact h.ask_begin hs
    | commit => exact h.ask_commit hs
    | rollback => exact h.ask_rollback hs
    | close => exact h.ask_close hs
    | _ => exact h.ask_write hs trivial

theorem read (h : Orderly start ⟨c, l⟩) {α : Type} (name : ConnectionName)
    (query : Database → Except StoreError α) :
    Orderly start (Shared.after ⟨c, l⟩ (.read name query)) := by
  simp only [Shared.after, answer]
  cases hs : c.store? name with
  | none =>
    simp only [Connections.run, hs]
    exact h
  | some s =>
    obtain ⟨hfile, hname, hm, s', hs', hopen⟩ := h.store?_eq_some hs
    obtain ⟨result, hrun⟩ := run_discard_readRows s query
    rw [Connections.run_of_store? hs, hrun]
    exact h.put_same hs' hname hopen.symm hm hfile h.agrees

theorem ingest (h : Orderly start ⟨c, l⟩) {ν : Type} (name : ConnectionName) (settings : Settings)
    (notifier : Notifier ν) (text : String) (channel : ν) :
    Orderly start (Shared.after ⟨c, l⟩ (.ingest name settings notifier text channel)) := by
  simp only [Shared.after, answer, ingestAt]
  cases hs : c.store? name with
  | none => exact h
  | some s =>
    obtain ⟨hfile, hname, hm, s', hs', hopen⟩ := h.store?_eq_some hs
    obtain ⟨file, stores⟩ := c
    subst hfile hname
    simp only [Ingest.ingest]
    cases hc : check text with
    | error cause => exact h.put_same hs' rfl hopen.symm hm rfl h.agrees
    | ok v =>
      have houtcome := outcome_writeRecord settings v s
      simp only [ingestValidated]
      generalize settings.retry.runTransaction (fun _ => writeRecord settings.batchSize v) s = run
        at houtcome ⊢
      cases houtcome with
      | failed he why => exact h.put_same hs' rfl hopen.symm hm rfl h.agrees
      | @committed written n db t pauses hi hf =>
        have hmay : s.file.MayWrite s.connection := fun w hw => absurd (hi.free.symm.trans hw) nofun
        have hview : s.file.view s.connection = s.file.committed := by rw [File.view, hi.free]
        have hop : (Operation.record settings.batchSize v).change.run (s.file.view s.connection)
            = some ((), db) := by
          rw [hview]
          exact run_change_discard hf
        have hfile : (⟨db, none⟩ : File) = s.file.replace db := by rw [File.replace, hi.free]
        simp only [Journal.after, hc, Except.map]
        exact h.put_written (s := { s with file := ⟨db, none⟩, history := t }) hm hi.isOpen hmay _ hop
          hfile

/-! ## Many steps -/

theorem after {x : Shared} (h : Orderly start x) {step : Step} (hm : step.Mild) :
    Orderly start (x.after step) := by
  cases step with
  | event e =>
    cases e with
    | connect name faults => exact h.connect hm name
    | leave name => exact h.remove name
    | ask name r => exact h.ask name r
  | read name query => exact h.read name query
  | ingest name settings notifier text channel => exact h.ingest name settings notifier text channel

theorem foldl {x : Shared} (h : Orderly start x) {steps : List Step} (hm : ∀ s ∈ steps, s.Mild) :
    Orderly start (steps.foldl Shared.after x) := by
  induction steps generalizing x with
  | nil => exact h
  | cons step steps ih =>
    exact ih (h.after (hm step List.mem_cons_self)) fun s hs => hm s (List.mem_cons_of_mem _ hs)

end Orderly

end CallArchive.Ingest
