import CallArchive.Proofs.Store.Actions
import CallArchive.Proofs.Store.Consistent
import CallArchive.Store.Connections

/-!
# Every run keeps a file consistent

`Reached` holds of the connections that come about from a new file, or from a store in memory, by
connecting, leaving and asking the stores for any of their writes, in any order and with any
failures. What such connections have committed, and what each of them reads, is consistent
(`reached_consistent`).
-/

namespace CallArchive.Store

open Json (ReadsBack)

/-! ## Files -/

structure File.Consistent (f : File) : Prop where
  committed : f.committed.Consistent
  working : ∀ w, f.writer = some w → w.working.Consistent

namespace File.Consistent

variable {f : File}

theorem new : File.new.Consistent := ⟨.empty, fun _ h => nomatch h⟩

theorem view (h : f.Consistent) (c : ConnectionName) : (f.view c).Consistent := by
  unfold File.view
  split
  · next w hw =>
    split
    · exact h.working w hw
    · exact h.committed
  · exact h.committed

theorem write (h : f.Consistent) (c : ConnectionName) {α : Type} {s : Statement α}
    (hs : Database.Keeps Database.Consistent s) : (f.write c s).2.Consistent := by
  unfold File.write
  split
  · next hw =>
    split
    · next hok => exact ⟨hs hok h.committed, fun w hw' => nomatch hw ▸ hw'⟩
    · exact h
  · next w hw =>
    split
    · split
      · next hok =>
        refine ⟨h.committed, fun w' hw' => ?_⟩
        obtain rfl := Option.some.inj hw'
        exact hs hok (h.working w hw)
      · exact h
    · exact h

theorem begin (h : f.Consistent) (c : ConnectionName) : (f.begin c).2.Consistent := by
  unfold File.begin
  split
  · refine ⟨h.committed, fun w hw => ?_⟩
    obtain rfl := Option.some.inj hw
    exact h.committed
  · exact h

theorem commit (h : f.Consistent) (c : ConnectionName) : (f.commit c).2.Consistent := by
  unfold File.commit
  split
  · next w hw =>
    split
    · exact ⟨h.working w hw, fun _ hw' => nomatch hw'⟩
    · exact h
  · exact h

theorem disconnect (h : f.Consistent) (c : ConnectionName) : (f.disconnect c).Consistent := by
  unfold File.disconnect
  split
  · exact ⟨h.committed, fun _ hw => nomatch hw⟩
  · exact h

theorem rollback (h : f.Consistent) (c : ConnectionName) : (f.rollback c).2.Consistent := by
  unfold File.rollback
  split
  · exact h.disconnect c
  · exact h

theorem connect (h : f.Consistent) (c : ConnectionName) : (f.connect c).2.Consistent :=
  h.write c Database.keeps_prepare

end File.Consistent

/-! ## Actions -/

/-- The action takes a store on a consistent file to such a one. -/
def KeepsFile {α : Type} (a : Action α) : Prop :=
  ∀ s : Store, s.file.Consistent → (a.run s : Except Error α × Store).2.file.Consistent

section KeepsFile

variable {α β : Type}

theorem keepsFile_discard {a : Action α} (h : KeepsFile a) : KeepsFile (discard a) := by
  intro s hs
  have hrun : ((discard a).run s : Except Error Unit × Store).2
      = (a.run s : Except Error α × Store).2 := by
    rw [run_discard]
    rcases (a.run s : Except Error α × Store) with ⟨_ | _, s'⟩ <;> rfl
  rw [hrun]
  exact h s hs

theorem keepsFile_onFile {step : File → ConnectionName → Except StoreError α × File}
    (h : ∀ f c, f.Consistent → (step f c).2.Consistent) : KeepsFile (onFile step) := by
  intro s hs
  rcases file_onFile step s with he | he
  · exact he ▸ hs
  · exact he ▸ h s.file s.connection hs

theorem keepsFile_write {kind : WriteKind} {st : Statement α}
    (h : Database.Keeps Database.Consistent st) : KeepsFile (write kind st) := by
  intro s hs
  rw [run_write]
  split
  · exact hs
  · exact keepsFile_onFile (fun f c hf => hf.write c h) s.counted hs

theorem keepsFile_writeMany {kind : WriteKind} {rows : List β} {nothing : α}
    {st : List β → Statement α} (h : Database.Keeps Database.Consistent (st rows)) :
    KeepsFile (writeMany kind rows nothing st) := by
  intro s hs
  rw [run_writeMany]
  split
  · exact hs
  · split
    · exact hs
    · exact keepsFile_onFile (fun f c hf => hf.write c h) s.counted hs

theorem keepsFile_upsertCallables (cs : List NewCallable) : KeepsFile (upsertCallables cs) := by
  unfold upsertCallables
  exact keepsFile_writeMany (Database.keeps_upsertCallables cs Database.keeps_upsertCallable)

theorem keepsFile_upsertEdges {es : List NewEdge} (h : ∀ e ∈ es, ReadsBack e.metadata) :
    KeepsFile (upsertEdges es) := by
  unfold upsertEdges
  exact keepsFile_writeMany (Database.keeps_upsertEdges h)

theorem keepsFile_beginTransaction : KeepsFile beginTransaction := by
  intro s hs
  rw [beginTransaction, run_bind]
  exact keepsFile_onFile (fun f c hf => hf.begin c) _ hs

theorem keepsFile_commitTransaction : KeepsFile commitTransaction := by
  unfold commitTransaction
  exact keepsFile_onFile fun f c hf => hf.commit c

theorem keepsFile_rollbackTransaction : KeepsFile rollbackTransaction := by
  unfold rollbackTransaction
  exact keepsFile_onFile fun f c hf => hf.rollback c

theorem keepsFile_close : KeepsFile (modify close : Action PUnit) := by
  intro s hs
  change (s.close).file.Consistent
  unfold close
  split
  · exact hs.disconnect s.connection
  · exact hs

end KeepsFile

/-! ## Requests -/

/-- What changes a store, or ends it. -/
inductive Request where
  | package (p : NewPackage)
  | version (v : NewVersion)
  | dependency (d : NewDependency)
  | module (m : NewModule)
  | file (f : NewFile)
  | link (l : Link)
  | callable (c : NewCallable)
  | callables (cs : List NewCallable)
  | edges (es : List NewEdge)
  | begin
  | commit
  | rollback
  | close

namespace Request

def action : Request → Action Unit
  | .package p => discard (upsertPackage p)
  | .version v => discard (upsertVersion v)
  | .dependency d => discard (insertDependency d)
  | .module m => discard (upsertModule m)
  | .file f => discard (upsertFile f)
  | .link l => linkFile l
  | .callable c => discard (upsertCallable c)
  | .callables cs => discard (upsertCallables cs)
  | .edges es => discard (upsertEdges es)
  | .begin => beginTransaction
  | .commit => commitTransaction
  | .rollback => rollbackTransaction
  | .close => modify Store.close

/-- The documents that it gives for edges read back. -/
def DocumentsReadBack : Request → Prop
  | .edges es => ∀ e ∈ es, ReadsBack e.metadata
  | _ => True

theorem keepsFile_action (r : Request) (h : r.DocumentsReadBack) : KeepsFile r.action := by
  cases r with
  | package p => exact keepsFile_discard (keepsFile_write (Database.keeps_upsertPackage p))
  | version v => exact keepsFile_discard (keepsFile_write (Database.keeps_upsertVersion v))
  | dependency d => exact keepsFile_discard (keepsFile_write (Database.keeps_insertDependency d))
  | module m => exact keepsFile_discard (keepsFile_write (Database.keeps_upsertModule m))
  | file f => exact keepsFile_discard (keepsFile_write (Database.keeps_upsertFile f))
  | link l => exact keepsFile_write (Database.keeps_linkFile l)
  | callable c => exact keepsFile_discard (keepsFile_write (Database.keeps_upsertCallable c))
  | callables cs =>
    exact keepsFile_discard (keepsFile_upsertCallables cs)
  | edges es => exact keepsFile_discard (keepsFile_upsertEdges h)
  | begin => exact keepsFile_beginTransaction
  | commit => exact keepsFile_commitTransaction
  | rollback => exact keepsFile_rollbackTransaction
  | close => exact keepsFile_close

end Request

/-! ## Runs -/

/-- What can happen to the connections of a file. -/
inductive Event where
  | connect (name : ConnectionName) (faults : FaultPlan)
  | leave (name : ConnectionName)
  | ask (name : ConnectionName) (request : Request)

def Event.DocumentsReadBack : Event → Prop
  | .ask _ request => request.DocumentsReadBack
  | _ => True

namespace Connections

def after (c : Connections) : Event → Connections
  | .connect name faults => (c.connect name faults).2
  | .leave name => c.remove name
  | .ask name request => (c.run name request.action).2

theorem run_of_store? {α : Type} {c : Connections} {name : ConnectionName} {s : Store}
    (h : c.store? name = some s) (action : Action α) :
    c.run name action = ((action.run s : Except Error α × Store).1,
      c.put (action.run s : Except Error α × Store).2) := by
  rw [Connections.run, h]
  rfl

theorem file_of_store? {c : Connections} {name : ConnectionName} {s : Store}
    (h : c.store? name = some s) : s.file = c.file := by
  obtain ⟨s', -, rfl⟩ := Option.map_eq_some_iff.mp h
  rfl

/-- What comes about from nothing. -/
inductive Reached : Connections → Prop where
  | file : Reached (.ofFile .new)
  | memory (faults : FaultPlan) : Reached (.ofStore (.inMemory faults))
  | after {c : Connections} (event : Event) : Reached c → event.DocumentsReadBack →
      Reached (c.after event)

theorem consistent_after {c : Connections} {event : Event} (h : c.file.Consistent)
    (he : event.DocumentsReadBack) : (c.after event).file.Consistent := by
  cases event with
  | connect name faults =>
    have hleft : (c.remove name).file.Consistent := h.disconnect name
    have hprepared := hleft.connect name
    rw [after, connect, Store.connect?]
    split <;> rename_i heq
    · split at heq <;> cases heq
      rename_i hfile
      rw [hfile] at hprepared
      exact hprepared
    · exact hleft
  | leave name => exact h.disconnect name
  | ask name request =>
    rw [after, run]
    split
    · rename_i s hs
      obtain ⟨s', -, rfl⟩ := Option.map_eq_some_iff.mp hs
      exact request.keepsFile_action he _ h
    · exact h

theorem Reached.consistent {c : Connections} (h : Reached c) : c.file.Consistent := by
  induction h with
  | file => exact .new
  | memory faults => exact File.Consistent.new.connect mainConnection
  | after event _ he ih => exact consistent_after ih he

theorem Reached.foldl {c : Connections} (h : Reached c) {events : List Event}
    (he : ∀ e ∈ events, e.DocumentsReadBack) : Reached (events.foldl Connections.after c) := by
  induction events generalizing c with
  | nil => exact h
  | cons e events ih =>
    exact ih (.after e h (he e List.mem_cons_self)) fun e' he' => he e' (List.mem_cons_of_mem _ he')

/-- Whatever happens, all that is stored is consistent, and merging edges never fails. -/
theorem reached_consistent {c : Connections} (h : Reached c) :
    c.file.committed.Consistent ∧ ∀ name, (c.file.view name).Consistent ∧
      ∀ new : List NewEdge, (∀ e ∈ new, ReadsBack e.metadata) →
        ∃ edges, Database.putEdges (c.file.view name).edges new = .ok edges :=
  ⟨h.consistent.committed, fun name =>
    ⟨h.consistent.view name, fun _ hnew => (h.consistent.view name).putEdges_ok hnew⟩⟩

/-- A transaction in which one statement writes an edge twice. -/
def mergingEvents : List Event :=
  [.ask mainConnection (.callables [⟨none, "a", true, none, none⟩, ⟨none, "b", false, none, none⟩]),
    .ask mainConnection .begin,
    .ask mainConnection (.edges [⟨1, 2, [("line", .text "7")]⟩, ⟨1, 2, [("line", .text "8")]⟩]),
    .ask mainConnection .commit]

theorem reached_mergingEvents :
    Reached (mergingEvents.foldl Connections.after (.ofStore (.inMemory .never))) := by
  refine (Reached.memory .never).foldl ?_
  simp only [mergingEvents, List.forall_mem_cons, Event.DocumentsReadBack,
    Request.DocumentsReadBack]
  exact ⟨trivial, trivial, ⟨rfl, rfl, fun _ h => nomatch h⟩, trivial, fun _ h => nomatch h⟩

theorem reached_consistent_mergingEvents :
    (mergingEvents.foldl after (.ofStore (.inMemory .never))).file.committed.Consistent ∧
      (mergingEvents.foldl after (.ofStore (.inMemory .never))).file.committed.edges
        = [⟨1, 2, "\x7b\"line\":\"8\"\x7d"⟩] :=
  ⟨(reached_consistent reached_mergingEvents).1, rfl⟩

end Connections

end CallArchive.Store
