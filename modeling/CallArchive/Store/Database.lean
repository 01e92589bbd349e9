import CallArchive.Assoc
import CallArchive.Json.Merge
import CallArchive.Store.Rows

/-!
# The database

The database has the tables of packages, versions, dependencies, modules, files, links, callables
and edges. A `Statement` answers with a new database or fails with none, so a failing statement
changes nothing. Rows that refer to others are only taken if those exist; a statement of many rows
looks at the references of its new rows at its end.
-/

namespace CallArchive.Store

open Time (Instant)

structure Database where
  settings : List Setting
  packages : Table PackageKey PackageData
  versions : Table VersionKey Stamp
  dependencies : List DependencyRow
  modules : Table ModuleKey DigestData
  files : Table FileKey DigestData
  links : List Link
  callables : Table CallableKey CallableData
  edges : List EdgeRow
  deriving DecidableEq, Repr

abbrev Statement (α : Type) := Database → Except StoreError (α × Database)

namespace Database

def schemaVersion : String := "1"

def versionSetting : String := "schema_version"

/-- The tables that are counted, in the order of the report. -/
def countedTables : List String :=
  ["packages", "package_versions", "dependencies", "modules", "files", "callables", "edges"]

/-- The name under which the engine knows the merging of edge documents. -/
def mergeFunction : String := "json_merge_shallow"

def empty : Database := ⟨[], .empty, .empty, [], .empty, .empty, [], .empty, []⟩

/-- A setting that is there already is left alone. -/
def addSetting (key value : String) (db : Database) : Database :=
  if db.settings.any (·.key == some key) then db
  else { db with settings := db.settings ++ [⟨key, value⟩] }

/-- Makes the database ready for use, unless it is of another version. -/
def prepare : Statement Unit := fun db =>
  let db := db.addSetting versionSetting schemaVersion
  match db.settings.find? (·.key == some versionSetting) with
  | none => .error .noRows
  | some s =>
    if s.value = schemaVersion then .ok ((), db)
    else .error (.migration s!"database schema version {s.value}, expected {schemaVersion}")

/-! ## Texts of columns -/

def timeText (t : Option Instant) : Option String := t.map (Instant.text .digits)

def timeOf (text : Option String) : Option Instant := text.bind Instant.ofText?

def documentText (m : Json.Members) : String := (Json.Value.object m).print

def documentOf (text : Option String) : Option Json.Members := text.bind Json.objectOf?

def rangesText (ranges : List String) : String := (Json.Value.ofTexts ranges).print

def stamp (createdAt : Option Instant) (metadata : Option Json.Members) : Stamp :=
  ⟨timeText createdAt, metadata.map documentText⟩

/-! ## Packages -/

def upsertPackage (p : NewPackage) : Statement RowId := fun db =>
  let (id, packages) := db.packages.upsert PackageData.combine ⟨p.name, p.forge⟩
    ⟨p.projectName, p.repository, timeText p.createdAt⟩
  .ok (id, { db with packages })

def packageRecord (r : Row PackageKey PackageData) : PackageRecord :=
  ⟨r.id, r.key.name, r.key.forge, r.data.projectName, r.data.repository, timeOf r.data.createdAt⟩

def package? (db : Database) (name forge : String) : Option PackageRecord :=
  (db.packages.find? ⟨name, forge⟩).map packageRecord

/-! ## Versions -/

def upsertVersion (v : NewVersion) : Statement RowId := fun db =>
  let key : VersionKey := ⟨v.package, v.generator, v.version⟩
  if db.versions.hasKey key || db.packages.hasId v.package then
    let (id, versions) := db.versions.upsert Stamp.combine key (stamp v.createdAt v.metadata)
    .ok (id, { db with versions })
  else .error .foreignKey

def versionRecord (r : Row VersionKey Stamp) : VersionRecord :=
  ⟨r.id, r.key.package, r.key.generator, r.key.version, timeOf r.data.createdAt,
    documentOf r.data.metadata⟩

def version? (db : Database) (package : RowId) (generator version : String) :
    Option VersionRecord :=
  (db.versions.find? ⟨package, generator, version⟩).map versionRecord

/-! ## Dependencies -/

/-- Answers whether the row is new. -/
def insertDependency (d : NewDependency) : Statement Bool := fun db =>
  let row : DependencyRow := ⟨d.version, d.package, rangesText d.ranges⟩
  if row ∈ db.dependencies then .ok (false, db)
  else if db.versions.hasId d.version && db.packages.hasId d.package then
    .ok (true, { db with dependencies := db.dependencies ++ [row] })
  else .error .foreignKey

def dependencyRecord (r : DependencyRow) : DependencyRecord :=
  ⟨r.version, r.package, (Json.textsOf? r.ranges).getD []⟩

/-- The dependencies of a version in the order in which they were stored. -/
def dependenciesOf (db : Database) (version : RowId) : List DependencyRecord :=
  (db.dependencies.filter fun r => r.version == version).map dependencyRecord

/-! ## Modules and files -/

def upsertModule (m : NewModule) : Statement RowId := fun db =>
  let key : ModuleKey := ⟨m.version, m.namespace⟩
  if db.modules.hasKey key || db.versions.hasId m.version then
    let (id, modules) := db.modules.upsert DigestData.combine key
      ⟨m.digest.map .own, stamp m.createdAt m.metadata⟩
    .ok (id, { db with modules })
  else .error .foreignKey

def moduleRecord (r : Row ModuleKey DigestData) : Except StoreError ModuleRecord := do
  let digest ← r.data.digest.mapM (Content.read 3 "sha256")
  return ⟨r.id, r.key.version, r.key.namespace, digest, timeOf r.data.stamp.createdAt,
    documentOf r.data.stamp.metadata⟩

def module? (db : Database) (version : RowId) (ns : String) :
    Except StoreError (Option ModuleRecord) :=
  (db.modules.find? ⟨version, ns⟩).mapM moduleRecord

def upsertFile (f : NewFile) : Statement RowId := fun db =>
  let key : FileKey := ⟨f.version, f.path⟩
  if db.files.hasKey key || db.versions.hasId f.version then
    let (id, files) := db.files.upsert DigestData.combine key
      ⟨f.digest.map .own, stamp f.createdAt f.metadata⟩
    .ok (id, { db with files })
  else .error .foreignKey

def fileRecord (r : Row FileKey DigestData) : Except StoreError FileRecord := do
  let digest ← r.data.digest.mapM (Content.read 3 "checksum")
  return ⟨r.id, r.key.version, r.key.path, digest, timeOf r.data.stamp.createdAt⟩

def file? (db : Database) (version : RowId) (path : String) :
    Except StoreError (Option FileRecord) :=
  (db.files.find? ⟨version, path⟩).mapM fileRecord

def linkFile (link : Link) : Statement Unit := fun db =>
  if link ∈ db.links then .ok ((), db)
  else if db.modules.hasId link.module && db.files.hasId link.file then
    .ok ((), { db with links := db.links ++ [link] })
  else .error .foreignKey

/-! ## Callables -/

def callableData (c : NewCallable) : CallableData := ⟨c.module, stamp c.createdAt c.metadata⟩

def upsertCallable (c : NewCallable) : Statement RowId := fun db =>
  if db.callables.hasKey c.key || db.modules.hasId? c.module then
    let (id, callables) := db.callables.upsert CallableData.combine c.key (callableData c)
    .ok (id, { db with callables })
  else .error .foreignKey

/-- Writes rows in order, each seeing those before it. For each of them the engine returns its key
and its id. -/
def putCallables : List NewCallable → Statement (List (CallableKey × RowId))
  | [], db => .ok ([], db)
  | c :: rest, db => do
    let (id, db) ← upsertCallable c db
    let (returned, db) ← putCallables rest db
    return ((c.key, id) :: returned, db)

/-- The id that was returned with the key of a callable. -/
def returnedId (returned : Assoc CallableKey RowId) (c : NewCallable) : Except StoreError RowId :=
  match returned.get? c.key with
  | some id => .ok id
  | none => .error (.missingRow s!"callable {c.address}")

/-- Answers the ids of the rows in order. The engine may return them in any other, so they are found
again by key. -/
def upsertCallables (cs : List NewCallable) : Statement (List RowId) := fun db => do
  let (returned, db) ← putCallables cs db
  let ids ← cs.mapM (returnedId (.ofList returned))
  return (ids, db)

def callableRecord (resolved : Bool) (r : Row CallableKey CallableData) : CallableRecord :=
  ⟨r.id, r.data.module, r.key.address, resolved, timeOf r.data.stamp.createdAt,
    documentOf r.data.stamp.metadata⟩

def callable? (db : Database) (address : String) (resolved : Bool) : Option CallableRecord :=
  (db.callables.find? (.of address resolved)).map (callableRecord resolved)

/-- Any number but zero in the column of the flag stands for yes. -/
def readCallable (r : Row CallableKey CallableData) : Except StoreError CallableRecord := do
  return callableRecord ((← r.key.flag.read 3 "is_resolved_call") != 0) r

/-- The callables that belong to a module, by id. -/
def callablesOf (db : Database) (module : RowId) : Except StoreError (List CallableRecord) :=
  (db.callables.rows.filter fun r => r.data.module == some module).mapM readCallable

/-! ## Edges -/

def edgeRow? (edges : List EdgeRow) (source target : RowId) : Option EdgeRow :=
  edges.find? fun e => e.source == source && e.target == target

/-- Writes an edge into the list: its document is merged into that of the edge between the same
ends. -/
def putEdge (edges : List EdgeRow) (e : NewEdge) : Except StoreError (List EdgeRow) :=
  match edgeRow? edges e.source e.target with
  | none => .ok (edges ++ [⟨e.source, e.target, documentText e.metadata⟩])
  | some old =>
    match Json.mergeTexts (some old.metadata) (some (documentText e.metadata)) with
    | .error cause => .error (.badDocument cause)
    | .ok merged =>
      .ok (edges.map fun r =>
        if r.source = e.source ∧ r.target = e.target then { r with metadata := merged } else r)

def putEdges (edges : List EdgeRow) (new : List NewEdge) : Except StoreError (List EdgeRow) :=
  new.foldlM putEdge edges

/-- Whether the edge is there or its ends are. -/
def edgeMayStand (db : Database) (e : NewEdge) : Bool :=
  (edgeRow? db.edges e.source e.target).isSome
    || (db.callables.hasId e.source && db.callables.hasId e.target)

/-- Answers the number of edges given. -/
def upsertEdges (new : List NewEdge) : Statement Nat := fun db => do
  let edges ← putEdges db.edges new
  if new.all db.edgeMayStand then return (new.length, { db with edges })
  else throw .foreignKey

/-- Metadata that does not read as a document shows as the empty one. -/
def edgeRecord (r : EdgeRow) : EdgeRecord :=
  ⟨r.source, r.target, (documentOf (some r.metadata)).getD []⟩

def edge? (db : Database) (source target : RowId) : Option EdgeRecord :=
  (edgeRow? db.edges source target).map edgeRecord

/-- The edges that start at a callable, by target. -/
def edgesFrom (db : Database) (source : RowId) : List EdgeRecord :=
  let rows := db.edges.filter fun e => e.source == source
  (rows.mergeSort fun a b => decide (a.target ≤ b.target)).map edgeRecord

/-! ## Counts -/

def counts (db : Database) : Counts :=
  ⟨db.packages.size, db.versions.size, db.dependencies.length, db.modules.size, db.files.size,
    db.callables.size, db.edges.length⟩

end Database

end CallArchive.Store
