import CallArchive.Proofs.Ingest.Effect
import CallArchive.Proofs.Store.Granted

/-!
# Every local id is mapped

Writing a record asks a store for writes and for nothing else, except that the ends of edges are
looked up: local ids among the methods that have been written, addresses among the callables outside
the package. Validation has seen to it that all of them are found, so whatever else is stored a
record is only refused where one of the writes is (`answered_writeRecord`).
-/

namespace CallArchive.Ingest

open Store (Action Answered IsWrite OnlyWrite Program RowId)
open Time (Instant)

variable {v : Validated}

/-! ## What is asked for -/

theorem program_writeDependency (versionId : RowId) (d : DependencySpec) :
    Program OnlyWrite (writeDependency versionId d) :=
  (IsWrite.package _).program.bind fun _ =>
    (IsWrite.dependency _).program.bind fun _ => .pure _

theorem program_writeFile (versionId moduleId : RowId) (createdAt : Option Instant)
    (path : String) : Program OnlyWrite (writeFile versionId moduleId createdAt path) :=
  (IsWrite.file _).program.bind fun _ => (IsWrite.link _).program

theorem program_writeModule (versionId : RowId) (createdAt : Option Instant) (m : ModuleSpec) :
    Program OnlyWrite (writeModule versionId createdAt m) := by
  refine (IsWrite.module _).program.bind fun moduleId => ?_
  cases m.sourceFile with
  | none => exact (Program.pure ()).bind fun _ => .pure _
  | some path => exact (program_writeFile versionId moduleId createdAt path).bind fun _ => .pure _

theorem program_writeCallables (size : Nat) (pending : List PendingCallable) :
    Program OnlyWrite (writeCallables size pending) :=
  .foldlM (fun _ _ => (IsWrite.callables _).program.bind fun _ => .pure _) _ _

theorem program_resolveExternal (known : Externals) (address : String) :
    Program OnlyWrite (resolveExternal known address) := by
  unfold resolveExternal
  cases known.get? address with
  | some id => exact .pure _
  | none => exact (IsWrite.callable _).program.bind fun _ => .pure _

theorem program_resolveExternals (known : Externals) (arcs : List ExternalArc) :
    Program OnlyWrite (resolveExternals known arcs) := by
  induction arcs generalizing known with
  | nil => exact .pure _
  | cons arc rest ih =>
    exact (program_resolveExternal known arc.target).bind fun p => (ih p.2).bind fun _ => .pure _

theorem program_writeNodes (size : Nat) (v : Validated) :
    Program OnlyWrite (writeNodes size v) := by
  unfold writeNodes
  refine (IsWrite.package _).program.bind fun packageId => ?_
  refine (IsWrite.version _).program.bind fun versionId => ?_
  refine (Program.forIn (program_writeDependency versionId) _).bind fun _ => ?_
  refine (Program.mapM (program_writeModule versionId _) _).bind fun pending => ?_
  refine (program_writeCallables size _).bind fun ids => ?_
  exact (program_resolveExternals [] _).bind fun _ => .pure _

/-- Where all ends stand for ids. -/
theorem program_writeEdges {ids : IdMap} {pending : List PendingEdge} {es : List Store.NewEdge}
    (h : ids.remap pending = .ok es) (size : Nat) :
    Program OnlyWrite (writeEdges size ids pending) := by
  rw [writeEdges, h]
  exact (Program.pure es).bind fun _ =>
    .foldlM (fun _ _ => (IsWrite.edges _).program.bind fun _ => .pure _) _ _

/-! ## Local ids -/

/-- The local ids of the calls that are kept. -/
def arcIds (v : Validated) : List LocalId :=
  (v.internalArcs.flatMap fun arc => [arc.source, arc.target]) ++ v.externalArcs.map (·.source)

theorem count_arcIds {g : CallGraph} (hv : CallGraph.Validates g v) {id : LocalId}
    (h : id ∈ arcIds v) : ((v.modules.flatMap (·.methods)).map (·.id)).count id = 1 := by
  refine List.count_eq_one_of_mem hv.ids_nodup ?_
  rcases List.mem_append.mp h with h | h
  · obtain ⟨arc, harc, hid⟩ := List.mem_flatMap.mp h
    obtain ⟨hsource, htarget⟩ := hv.ends_internal harc
    rcases List.mem_cons.mp hid with rfl | hid
    · exact hsource
    · exact List.mem_singleton.mp hid ▸ htarget
  · obtain ⟨arc, harc, rfl⟩ := List.mem_map.mp h
    exact hv.source_external harc

/-- A store that writes the first row is able to write. -/
theorem ready_of_writeNodes {size : Nat} {s s' : Store}
    {answer : Written × IdMap × List PendingEdge}
    (hrun : ((writeNodes size v).run s : Except Error (Written × IdMap × List PendingEdge) × Store)
      = (.ok answer, s')) : s.Ready := by
  unfold writeNodes at hrun
  obtain ⟨id, between, hfirst, -⟩ := Store.run_bind_ok hrun
  have hwrote := Store.wrote_write .package
    (Store.Database.upsertPackage (.named v.product v.forge)) s
  generalize hw : ((Store.write .package (Store.Database.upsertPackage
    (.named v.product v.forge))).run s : Except Error RowId × Store) = r at hwrote
  obtain rfl : r = (.ok id, between) := hw.symm.trans hfirst
  cases hwrote with
  | done hready => exact hready
  | skipped hnothing => exact hnothing.elim

/-- What has been asked for before the edges decides what their ends stand for. -/
theorem remap_of_writeNodes {g : CallGraph} (hv : CallGraph.Validates g v) {size : Nat}
    (hsize : 0 < size) {s s' : Store} {w : Written} {ids : IdMap} {pending : List PendingEdge}
    (hrun : ((writeNodes size v).run s : Except Error (Written × IdMap × List PendingEdge) × Store)
      = (.ok (w, ids, pending), s')) : ∃ es, ids.remap pending = .ok es := by
  have hs := ready_of_writeNodes hrun
  obtain ⟨db, t, -, hends⟩ := (writing_writeNodes size v).performs s hs
  have hchange := hends.ok (w, ids, pending) (congrArg Prod.fst hrun)
  rw [run_storeNodes hsize] at hchange
  obtain ⟨hanswer, -⟩ := Prod.mk.inj (Option.some.inj hchange)
  obtain ⟨-, hrest⟩ := Prod.mk.inj hanswer
  obtain ⟨rfl, rfl⟩ := Prod.mk.inj hrest
  exact ⟨_, newEdges_eq hv s.view⟩

theorem answered_writeRecord {g : CallGraph} (hv : CallGraph.Validates g v) {size : Nat}
    (hsize : 0 < size) (s : Store) : Answered (writeRecord size v) s := by
  rw [writeRecord_eq]
  refine ((program_writeNodes size v).answered s).bind fun p s' hrun => ?_
  obtain ⟨w, ids, pending⟩ := p
  obtain ⟨es, hes⟩ := remap_of_writeNodes hv hsize hrun
  exact ((program_writeEdges hes size).bind fun _ => .pure w).answered s'

/-! ## Callables outside the package -/

/-- The edge of an arc, if its target is found. -/
def externalEdge? (externals : Externals) (arc : ExternalArc) : Option PendingEdge :=
  (externals.get? arc.target).map fun id => ⟨.local arc.source, .stored id, arc.metadata⟩

/-- Everything that is known is known later on. -/
def Keeps (known known' : Externals) : Prop :=
  ∀ address id, known.get? address = some id → known'.get? address = some id

theorem resolveExternal_found {known known' : Externals} {address : String} {id : RowId}
    {s s' : Store} (h : ((resolveExternal known address).run s
      : Except Error (RowId × Externals) × Store) = (.ok (id, known'), s')) :
    known'.get? address = some id ∧ Keeps known known' := by
  unfold resolveExternal at h
  cases hget : known.get? address with
  | some id' =>
    rw [hget] at h
    obtain ⟨hanswer, -⟩ := Prod.mk.inj h
    obtain ⟨rfl, rfl⟩ := Prod.mk.inj (Except.ok.inj hanswer)
    exact ⟨hget, fun _ _ hother => hother⟩
  | none =>
    rw [hget] at h
    obtain ⟨id', between, -, h⟩ := Store.run_bind_ok h
    obtain ⟨hanswer, -⟩ := Prod.mk.inj h
    obtain ⟨rfl, rfl⟩ := Prod.mk.inj (Except.ok.inj hanswer)
    refine ⟨by rw [Assoc.get?_put, if_pos rfl], fun other stored hother => ?_⟩
    have hne : address ≠ other := fun heq => by
      rw [heq, hother] at hget
      cases hget
    rw [Assoc.get?_put, if_neg hne, hother]

theorem resolveExternals_found {known known' : Externals} {arcs : List ExternalArc}
    {edges : List PendingEdge} {s s' : Store}
    (h : ((resolveExternals known arcs).run s
      : Except Error (List PendingEdge × Externals) × Store) = (.ok (edges, known'), s')) :
    arcs.map (externalEdge? known') = edges.map some ∧ Keeps known known' := by
  induction arcs generalizing known edges s s' with
  | nil =>
    obtain ⟨hanswer, -⟩ := Prod.mk.inj h
    obtain ⟨rfl, rfl⟩ := Prod.mk.inj (Except.ok.inj hanswer)
    exact ⟨rfl, fun _ _ hother => hother⟩
  | cons arc rest ih =>
    obtain ⟨⟨stored, known₁⟩, s₁, hfirst, h⟩ := Store.run_bind_ok h
    obtain ⟨⟨later, known₂⟩, s₂, hrest, h⟩ := Store.run_bind_ok h
    obtain ⟨hanswer, -⟩ := Prod.mk.inj h
    obtain ⟨rfl, rfl⟩ := Prod.mk.inj (Except.ok.inj hanswer)
    -- What is known only grows, so the first target is found where the last one is.
    obtain ⟨hfound, hkeeps⟩ := resolveExternal_found hfirst
    obtain ⟨hlater, hkeeps'⟩ := ih hrest
    refine ⟨?_, fun address id hget => hkeeps' address id (hkeeps address id hget)⟩
    rw [List.map_cons, List.map_cons, hlater, externalEdge?, hkeeps' _ _ hfound]
    rfl

/-- A record that has been validated is written, whatever is stored and however many rows go into a
statement, or else the store refuses a write: all local ids are those of one method each, none of
them is without a row, none of the callables in a statement is missed among the rows that are
returned, and all addresses outside the package are found among those that have been written. -/
theorem writeRecord_answered {g : CallGraph} {v : Validated} (h : g.validate = .ok v) (size : Nat)
    (s : Store) :
    (∀ id ∈ arcIds v, ((v.modules.flatMap (·.methods)).map (·.id)).count id = 1) ∧
    Answered (writeRecord (clampBatchSize size) v) s ∧
    (∀ id, ((writeRecord (clampBatchSize size) v).run s : Except Error Written × Store).1
      ≠ .error (.unmappedLocalId id)) ∧
    (∀ (cs : List Store.NewCallable) (db : Store.Database) (text : String),
      Store.Database.upsertCallables cs db ≠ .error (.missingRow text)) ∧
    ∀ (start between : Store) (edges : List PendingEdge) (externals : Externals),
      ((resolveExternals [] v.externalArcs).run start
        : Except Error (List PendingEdge × Externals) × Store) = (.ok (edges, externals), between) →
      v.externalArcs.map (externalEdge? externals) = edges.map some := by
  have hv := CallGraph.validate_ok h
  have hanswered := answered_writeRecord hv (clampBatchSize_pos size) s
  refine ⟨fun id => count_arcIds hv, hanswered, ?_, ?_, ?_⟩
  · intro id hunmapped
    obtain ⟨cause, hcause⟩ := hanswered.exists_cause hunmapped
    cases hcause
  · intro cs db text hmissing
    exact (Store.Database.fault_upsertCallables hmissing).ne_missingRow text rfl
  · intro start between edges externals hrun
    exact (resolveExternals_found hrun).1

/-- Methods of two types, one address twice, one id with a sign and a zero, one target twice. -/
def scattered : CallGraph where
  product := "p"
  forge := "mvn"
  generator := "g"
  version := "1"
  timestamp := none
  dependencySets := []
  types := [("/n", ⟨[("0", "/n/C.m()V"), (" +01", "/n/C.k()V")], [], [], none⟩),
    ("/o", ⟨[("2", "/n/C.m()V")], [], [], none⟩)]
  internalCalls := [(⟨0, by decide⟩, ⟨1, by decide⟩), (⟨2, by decide⟩, ⟨1, by decide⟩)]
  externalCalls := [⟨⟨1, by decide⟩, "//q/n/D.f()V", []⟩, ⟨⟨2, by decide⟩, "//q/n/D.f()V", []⟩]

theorem writeRecord_answered_scattered :
    ∃ v, scattered.validate = .ok v ∧ (arcIds v).length = 6 ∧
      Answered (writeRecord (clampBatchSize 2) v) (.inMemory .never) ∧
      ((writeRecord (clampBatchSize 2) v).run (.inMemory .never)
        : Except Error Written × Store).1.toOption.map (·.edges) = some 4 := by
  obtain ⟨v, hv⟩ := ok_of_isSome (x := scattered.validate) (by decide +kernel)
  have hrun : scattered.validate.toOption.map (fun v => ((arcIds v).length,
      ((writeRecord (clampBatchSize 2) v).run (.inMemory .never)
        : Except Error Written × Store).1.toOption.map (·.edges))) = some (6, some 4) := by
    decide +kernel
  rw [hv] at hrun
  obtain ⟨hlength, hedges⟩ := Prod.mk.inj (Option.some.inj hrun)
  exact ⟨v, hv, hlength, (writeRecord_answered hv 2 (.inMemory .never)).2.1, hedges⟩

end CallArchive.Ingest
