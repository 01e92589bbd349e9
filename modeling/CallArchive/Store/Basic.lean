import CallArchive.Store.File

/-!
# Stores

A store is one connection to a database file, with a plan of failures to inject. Every operation is
an `Action`: it answers or fails, and in both cases says what the store is afterwards. A closed
store fails always; a write that the plan strikes fails before it reaches the file.
-/

namespace CallArchive

namespace Store

/-- The writes that a plan can strike. -/
inductive WriteKind where
  | package
  | version
  | dependency
  | module
  | file
  | link
  | callable
  | callables
  | edges
  deriving DecidableEq, Repr

/-- What has happened at a store: writes asked for, failures injected, transactions asked for. -/
structure History where
  writes : Nat
  injected : Nat
  transactions : Nat
  deriving DecidableEq, Repr

def History.none : History := ⟨0, 0, 0⟩

/-- Whether the next write of a kind is to fail, and how. -/
abbrev FaultPlan := History → WriteKind → Option StoreError

namespace FaultPlan

def never : FaultPlan := fun _ _ => Option.none

def injectedFailure : StoreError := .unavailable "injected failure"

/-- Fails every write of one kind, or only the first few. -/
def striking (kind : WriteKind) (times : Option Nat) : FaultPlan := fun history k =>
  if k = kind ∧ times.all (history.injected < ·) then some injectedFailure else Option.none

end FaultPlan

end Store

structure Store where
  file : Store.File
  connection : Store.ConnectionName
  isOpen : Bool
  faults : Store.FaultPlan
  history : Store.History

namespace Store

abbrev Action (α : Type) := ExceptT Error (StateM Store) α

/-- The only connection of a file that no other store can see. -/
def mainConnection : ConnectionName := "main"

/-- A store on an empty file of its own. -/
def inMemory (faults : FaultPlan) : Store :=
  { file := (File.new.connect mainConnection).2, connection := mainConnection, isOpen := true,
    faults, history := .none }

/-- Connects to a file. -/
def connect? (file : File) (connection : ConnectionName) (faults : FaultPlan) :
    Except StoreError Store :=
  match file.connect connection with
  | (.ok (), file) => .ok { file, connection, isOpen := true, faults, history := .none }
  | (.error e, _) => .error e

/-- Closing takes back an open transaction. -/
def close (s : Store) : Store :=
  { s with isOpen := false, file := if s.isOpen then s.file.disconnect s.connection else s.file }

/-- What the store reads. -/
def view (s : Store) : Database := s.file.view s.connection

def fail (e : StoreError) : Action α := throw (.store e)

def ensureOpen : Action Unit := do
  if !(← get).isOpen then fail .closed

/-- Runs a step on the file. -/
def onFile (step : File → ConnectionName → Except StoreError α × File) : Action α := do
  ensureOpen
  let s ← get
  let (result, file) := step s.file s.connection
  set { s with file }
  match result with
  | .ok a => return a
  | .error e => fail e

/-- Counts a write, and fails it if the plan strikes. -/
def strike (kind : WriteKind) : Action Unit := do
  let s ← get
  let history := { s.history with writes := s.history.writes + 1 }
  match s.faults s.history kind with
  | some e =>
    set { s with history := { history with injected := history.injected + 1 } }
    fail e
  | none => set { s with history }

def write (kind : WriteKind) (statement : Statement α) : Action α := do
  strike kind
  onFile fun f c => f.write c statement

/-- A write of many rows, which does nothing at all if there are none. -/
def writeMany (kind : WriteKind) (rows : List β) (nothing : α) (statement : List β → Statement α) :
    Action α := do
  strike kind
  if rows.isEmpty then return nothing
  onFile fun f c => f.write c (statement rows)

def read (query : Database → α) : Action α := do
  ensureOpen
  return query (← get).view

/-- A query that fails if another program has left something unreadable. -/
def readRows (query : Database → Except StoreError α) : Action α := do
  match ← read query with
  | .ok a => return a
  | .error e => fail e

/-! ## Transactions -/

def beginTransaction : Action Unit := do
  modify fun s =>
    { s with history := { s.history with transactions := s.history.transactions + 1 } }
  onFile File.begin

def commitTransaction : Action Unit := onFile File.commit

def rollbackTransaction : Action Unit := onFile File.rollback

/-! ## Writes -/

def upsertPackage (p : NewPackage) : Action RowId := write .package (Database.upsertPackage p)

def upsertVersion (v : NewVersion) : Action RowId := write .version (Database.upsertVersion v)

def insertDependency (d : NewDependency) : Action Bool :=
  write .dependency (Database.insertDependency d)

def upsertModule (m : NewModule) : Action RowId := write .module (Database.upsertModule m)

def upsertFile (f : NewFile) : Action RowId := write .file (Database.upsertFile f)

def linkFile (link : Link) : Action Unit := write .link (Database.linkFile link)

def upsertCallable (c : NewCallable) : Action RowId := write .callable (Database.upsertCallable c)

def upsertCallables (cs : List NewCallable) : Action (List RowId) :=
  writeMany .callables cs [] Database.upsertCallables

def upsertEdges (es : List NewEdge) : Action Nat := writeMany .edges es 0 Database.upsertEdges

/-! ## Reads -/

def package? (name forge : String) : Action (Option PackageRecord) := read (·.package? name forge)

def version? (package : RowId) (generator version : String) : Action (Option VersionRecord) :=
  read (·.version? package generator version)

def dependenciesOf (version : RowId) : Action (List DependencyRecord) :=
  read (·.dependenciesOf version)

def module? (version : RowId) (ns : String) : Action (Option ModuleRecord) :=
  readRows (·.module? version ns)

def file? (version : RowId) (path : String) : Action (Option FileRecord) :=
  readRows (·.file? version path)

def callable? (address : String) (resolved : Bool) : Action (Option CallableRecord) :=
  read (·.callable? address resolved)

def callablesOf (module : RowId) : Action (List CallableRecord) :=
  readRows (·.callablesOf module)

def edge? (source target : RowId) : Action (Option EdgeRecord) := read (·.edge? source target)

def edgesFrom (source : RowId) : Action (List EdgeRecord) := read (·.edgesFrom source)

def counts : Action Counts := read Database.counts

end Store

end CallArchive
