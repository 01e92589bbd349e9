import CallArchive.Ingest.Ingestion
import CallArchive.Proofs.Ingest.IdMap
import CallArchive.Proofs.Store.Writing

/-!
# Writing a record as a change of the database

`storeRecord` is what `writeRecord` does to the database of a store that may write, apart from the
failures that its plan injects (`writing_writeRecord`). `storeNodes` is the part of it before the
edges, which are written last (`writeRecord_eq`).
-/

namespace CallArchive.Ingest

open Store (RowId NewCallable Action Change WriteKind change Writing)
open Time (Instant)

/-- All kinds of writes but that of edges. -/
def NotEdges (kind : WriteKind) : Prop := kind ≠ .edges

/-! ## Dependencies -/

def storeDependency (versionId : RowId) (d : DependencySpec) : Change Unit := do
  let packageId ← change (Store.Database.upsertPackage (.named d.product d.forge))
  let _ ← change (Store.Database.insertDependency ⟨versionId, packageId, d.ranges⟩)

theorem writing_writeDependency (versionId : RowId) (d : DependencySpec) :
    Writing NotEdges (writeDependency versionId d) (storeDependency versionId d) :=
  (Writing.write nofun _).bind fun _ => (Writing.write nofun _).bind fun _ => .pure _

/-! ## Modules -/

def storeFile (versionId moduleId : RowId) (createdAt : Option Instant) (path : String) :
    Change Unit := do
  let fileId ← change (Store.Database.upsertFile ⟨versionId, path, none, createdAt, none⟩)
  change (Store.Database.linkFile ⟨moduleId, fileId⟩)

theorem writing_writeFile (versionId moduleId : RowId) (createdAt : Option Instant)
    (path : String) :
    Writing NotEdges (writeFile versionId moduleId createdAt path)
      (storeFile versionId moduleId createdAt path) :=
  (Writing.write nofun _).bind fun _ => Writing.write nofun _

/-- The file of a module, if it has one. -/
def storeSource (versionId moduleId : RowId) (createdAt : Option Instant) :
    Option String → Change Unit
  | none => return ()
  | some path => storeFile versionId moduleId createdAt path

def storeModule (versionId : RowId) (createdAt : Option Instant) (m : ModuleSpec) :
    Change (List PendingCallable) := do
  let moduleId ← change (Store.Database.upsertModule
    ⟨versionId, m.namespace, none, createdAt, some m.metadata⟩)
  storeSource versionId moduleId createdAt m.sourceFile
  return m.methods.map fun method => ⟨method.id, .internal moduleId method.address createdAt⟩

theorem writing_writeModule (versionId : RowId) (createdAt : Option Instant) (m : ModuleSpec) :
    Writing NotEdges (writeModule versionId createdAt m) (storeModule versionId createdAt m) := by
  refine (Writing.write nofun _).bind fun moduleId => ?_
  cases m.sourceFile with
  | none => exact (Writing.pure ()).bind fun _ => .pure _
  | some path => exact (writing_writeFile versionId moduleId createdAt path).bind fun _ => .pure _

/-! ## Callables -/

def storeCallableChunk (ids : IdMap) (chunk : List PendingCallable) : Change IdMap := do
  let stored ← change (Store.Database.upsertCallables (chunk.map (·.callable)))
  return ids.insertAll ((chunk.map (·.id)).zip stored)

def storeCallables (batchSize : Nat) (pending : List PendingCallable) : Change IdMap :=
  (chunks batchSize pending).foldlM storeCallableChunk []

theorem writing_writeCallables (batchSize : Nat) (pending : List PendingCallable) :
    Writing NotEdges (writeCallables batchSize pending) (storeCallables batchSize pending) :=
  .foldlM (fun _ _ => (Writing.upsertCallables nofun _).bind fun _ => .pure _) _ _

/-! ## Callables outside the package -/

def storeExternal (known : Externals) (address : String) : Change (RowId × Externals) := do
  match known.get? address with
  | some id => return (id, known)
  | none =>
    let id ← change (Store.Database.upsertCallable (.external address))
    return (id, known.put address id)

theorem writing_resolveExternal (known : Externals) (address : String) :
    Writing NotEdges (resolveExternal known address) (storeExternal known address) := by
  unfold resolveExternal storeExternal
  cases known.get? address with
  | some id => exact .pure _
  | none => exact (Writing.write nofun _).bind fun _ => .pure _

def storeExternals (known : Externals) :
    List ExternalArc → Change (List PendingEdge × Externals)
  | [] => return ([], known)
  | arc :: rest => do
    let (id, known) ← storeExternal known arc.target
    let (edges, known) ← storeExternals known rest
    return (⟨.local arc.source, .stored id, arc.metadata⟩ :: edges, known)

theorem writing_resolveExternals (known : Externals) (arcs : List ExternalArc) :
    Writing NotEdges (resolveExternals known arcs) (storeExternals known arcs) := by
  induction arcs generalizing known with
  | nil => exact .pure _
  | cons arc rest ih =>
    exact (writing_resolveExternal known arc.target).bind fun p => (ih p.2).bind fun _ => .pure _

/-! ## Edges -/

def storeEdges (batchSize : Nat) (ids : IdMap) (pending : List PendingEdge) : Change Nat := do
  let edges ← (ids.remap pending).toOption
  (chunks batchSize edges).foldlM
    (fun n chunk => do return n + (← change (Store.Database.upsertEdges chunk))) 0

theorem writing_liftExcept {e : Except Error (List Store.NewEdge)}
    (h : ∀ cause, e = .error cause → ∃ id, cause = .unmappedLocalId id) :
    Writing (fun _ => True) (writeEdges.liftExcept e) (StateT.lift e.toOption) := by
  cases e with
  | ok edges => exact .pure edges
  | error cause =>
    obtain ⟨id, rfl⟩ := h cause rfl
    exact .throw (show FailureClass.fatal ≠ .input from nofun)

theorem writing_writeEdges (batchSize : Nat) (ids : IdMap) (pending : List PendingEdge) :
    Writing (fun _ => True) (writeEdges batchSize ids pending) (storeEdges batchSize ids pending) :=
  (writing_liftExcept fun _ => IdMap.remap_error).bind fun _ =>
    .foldlM (fun _ _ => (Writing.upsertEdges trivial _).bind fun _ => .pure _) _ _

/-! ## The record -/

/-- Writes all that a record says but its edges, which are left to be written. -/
def writeNodes (batchSize : Nat) (v : Validated) :
    Action (Written × IdMap × List PendingEdge) := do
  let createdAt := v.millis.bind Instant.ofMillis?
  let packageId ← Store.upsertPackage (.named v.product v.forge)
  let versionId ← Store.upsertVersion ⟨packageId, v.generator, v.version, createdAt, none⟩
  for d in v.dependencies do
    writeDependency versionId d
  let pending ← v.modules.mapM (writeModule versionId createdAt)
  let callables := pending.flatten
  let ids ← writeCallables batchSize callables
  let (externalEdges, externals) ← resolveExternals [] v.externalArcs
  let edges := v.internalArcs.map internalEdge ++ externalEdges
  return ({ packageId, versionId, modules := v.modules.length,
            internalCallables := callables.length, externalCallables := externals.length,
            edges := edges.length }, ids, edges)

def storeNodes (batchSize : Nat) (v : Validated) :
    Change (Written × IdMap × List PendingEdge) := do
  let createdAt := v.millis.bind Instant.ofMillis?
  let packageId ← change (Store.Database.upsertPackage (.named v.product v.forge))
  let versionId ← change (Store.Database.upsertVersion
    ⟨packageId, v.generator, v.version, createdAt, none⟩)
  for d in v.dependencies do
    storeDependency versionId d
  let pending ← v.modules.mapM (storeModule versionId createdAt)
  let callables := pending.flatten
  let ids ← storeCallables batchSize callables
  let (externalEdges, externals) ← storeExternals [] v.externalArcs
  let edges := v.internalArcs.map internalEdge ++ externalEdges
  return ({ packageId, versionId, modules := v.modules.length,
            internalCallables := callables.length, externalCallables := externals.length,
            edges := edges.length }, ids, edges)

def storeRecord (batchSize : Nat) (v : Validated) : Change Written := do
  let (written, ids, edges) ← storeNodes batchSize v
  let _ ← storeEdges batchSize ids edges
  return written

/-- The edges are written last. -/
theorem writeRecord_eq (batchSize : Nat) (v : Validated) :
    writeRecord batchSize v = (do
      let (written, ids, edges) ← writeNodes batchSize v
      let _ ← writeEdges batchSize ids edges
      return written) := by
  simp only [writeRecord, writeNodes, bind_assoc, pure_bind]

theorem writing_writeNodes (batchSize : Nat) (v : Validated) :
    Writing NotEdges (writeNodes batchSize v) (storeNodes batchSize v) := by
  unfold writeNodes storeNodes
  refine (Writing.write nofun _).bind fun packageId => ?_
  refine (Writing.write nofun _).bind fun versionId => ?_
  refine (Writing.forIn (writing_writeDependency versionId) _).bind fun _ => ?_
  refine (Writing.mapM (writing_writeModule versionId _) _).bind fun pending => ?_
  refine (writing_writeCallables batchSize _).bind fun ids => ?_
  exact (writing_resolveExternals [] _).bind fun p => .pure _

theorem writing_writeRecord (batchSize : Nat) (v : Validated) :
    Writing (fun _ => True) (writeRecord batchSize v) (storeRecord batchSize v) := by
  rw [writeRecord_eq]
  refine ((writing_writeNodes batchSize v).mono fun _ _ => trivial).bind fun p => ?_
  exact (writing_writeEdges batchSize p.2.1 p.2.2).bind fun _ => .pure _

end CallArchive.Ingest
