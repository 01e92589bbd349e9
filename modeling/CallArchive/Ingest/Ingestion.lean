import CallArchive.Ingest.Batch
import CallArchive.Ingest.Notifier
import CallArchive.Ingest.Retry
import CallArchive.Record.Decode
import CallArchive.Validation.Validated

/-!
# Ingesting a record

`ingest` reads and validates a record before it touches the store, writes everything the record says
in one transaction, tried again while it fails transiently, and after the commit sends a
notification, whose fate does not matter to the result.
-/

namespace CallArchive.Ingest

open Store (RowId NewCallable NewModule Action)
open Time (Instant)

/-- Where the ingestion of a record stands. -/
inductive Stage where
  | validating
  | upsertingPackage
  | upsertingDependencies
  | upsertingModulesAndInternals
  | resolvingExternals
  | writingEdges
  | committed
  | failed
  deriving DecidableEq, Repr

namespace Stage

def name : Stage → String
  | .validating => "validating"
  | .upsertingPackage => "upserting_package"
  | .upsertingDependencies => "upserting_dependencies"
  | .upsertingModulesAndInternals => "upserting_modules_and_internals"
  | .resolvingExternals => "resolving_externals"
  | .writingEdges => "writing_edges"
  | .committed => "committed"
  | .failed => "failed"

def all : List Stage :=
  [.validating, .upsertingPackage, .upsertingDependencies, .upsertingModulesAndInternals,
    .resolvingExternals, .writingEdges, .committed, .failed]

theorem mem_all (s : Stage) : s ∈ all := by cases s <;> decide

end Stage

/-- How records are ingested. -/
structure Settings where
  batchSize : Nat
  retry : RetryPolicy
  deriving DecidableEq, Repr

/-- The ids and numbers of what a transaction has written. -/
structure Written where
  packageId : RowId
  versionId : RowId
  modules : Nat
  internalCallables : Nat
  externalCallables : Nat
  edges : Nat
  deriving DecidableEq, Repr

structure Report where
  artifact : String
  written : Written
  arcs : ArcReport
  attempts : Nat

/-! ## The stages of writing -/

def writeDependency (versionId : RowId) (d : DependencySpec) : Action Unit := do
  let packageId ← Store.upsertPackage (.named d.product d.forge)
  let _ ← Store.insertDependency ⟨versionId, packageId, d.ranges⟩

/-- The file of a module, linked to it. -/
def writeFile (versionId moduleId : RowId) (createdAt : Option Instant) (path : String) :
    Action Unit := do
  let fileId ← Store.upsertFile ⟨versionId, path, none, createdAt, none⟩
  Store.linkFile ⟨moduleId, fileId⟩

/-- Writes a module and its file; its methods are left to be written. -/
def writeModule (versionId : RowId) (createdAt : Option Instant) (m : ModuleSpec) :
    Action (List PendingCallable) := do
  let moduleId ← Store.upsertModule ⟨versionId, m.namespace, none, createdAt, some m.metadata⟩
  if let some path := m.sourceFile then writeFile versionId moduleId createdAt path
  return m.methods.map fun method => ⟨method.id, .internal moduleId method.address createdAt⟩

/-- The callables outside the package that have an id, by address. -/
abbrev Externals := Assoc String RowId

/-- The id of an address, which is written when it first comes up. -/
def resolveExternal (known : Externals) (address : String) : Action (RowId × Externals) := do
  match known.get? address with
  | some id => return (id, known)
  | none =>
    let id ← Store.upsertCallable (.external address)
    return (id, known.put address id)

/-- The edges of the arcs that leave the package. -/
def resolveExternals (known : Externals) :
    List ExternalArc → Action (List PendingEdge × Externals)
  | [] => return ([], known)
  | arc :: rest => do
    let (id, known) ← resolveExternal known arc.target
    let (edges, known) ← resolveExternals known rest
    return (⟨.local arc.source, .stored id, arc.metadata⟩ :: edges, known)

def internalEdge (arc : InternalArc) : PendingEdge := ⟨.local arc.source, .local arc.target, []⟩

/-- Writes all that a record says. -/
def writeRecord (batchSize : Nat) (v : Validated) : Action Written := do
  let createdAt := v.millis.bind Instant.ofMillis?
  let packageId ← Store.upsertPackage (.named v.product v.forge)
  let versionId ← Store.upsertVersion ⟨packageId, v.generator, v.version, createdAt, none⟩
  for d in v.dependencies do
    writeDependency versionId d
  let pending ← v.modules.mapM (writeModule versionId createdAt)
  let callables := pending.flatten
  let ids ← writeCallables batchSize callables
  let (externalEdges, externals) ← resolveExternals [] v.externalArcs
  let edges := v.internalArcs.map internalEdge ++ externalEdges
  let _ ← writeEdges batchSize ids edges
  return { packageId, versionId, modules := v.modules.length,
           internalCallables := callables.length, externalCallables := externals.length,
           edges := edges.length }

/-! ## Ingestion -/

/-- What became of a record: the result, the pauses between attempts, and the states after it. A
notification that broke its worker is told apart, since no result is reported then. -/
structure Ingested (ν : Type) where
  result : Except Error Report
  pauses : List Nat
  crashed : Bool
  store : Store
  channel : ν

def notification (v : Validated) (w : Written) : Notification :=
  ⟨v.product, v.forge, v.version, v.generator, w.packageId, w.versionId⟩

def report (v : Validated) (w : Written) (attempts : Nat) : Report :=
  ⟨v.artifact, w, v.report, attempts⟩

/-- Stores a record that has been validated. -/
def ingestValidated (settings : Settings) (notifier : Notifier ν) (v : Validated) (store : Store)
    (channel : ν) : Ingested ν :=
  let run := settings.retry.runTransaction (fun _ => writeRecord settings.batchSize v) store
  match run.result with
  | .error e => ⟨.error e, run.pauses, false, run.state, channel⟩
  | .ok (written, attempts) =>
    let (delivery, channel) := notifier.notify (notification v written) channel
    ⟨.ok (report v written attempts), run.pauses, delivery == .crashed, run.state, channel⟩

/-- Reads and validates a record. -/
def check (text : String) : Except RecordError Validated := do
  let g ← CallGraph.ofText text
  g.validate

def ingest (settings : Settings) (notifier : Notifier ν) (text : String) (store : Store)
    (channel : ν) : Ingested ν :=
  match check text with
  | .error cause => ⟨.error (.record cause), [], false, store, channel⟩
  | .ok v => ingestValidated settings notifier v store channel

end CallArchive.Ingest
