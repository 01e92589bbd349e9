import CallArchive.Assoc
import CallArchive.Store.Cell
import CallArchive.Store.Database

/-!
# Databases as sheets of cells

A sheet is a table as rows of cells, in the order of the columns of the schema. The sheets of a
database and the last ids that it has given away are all there is to it (`ofSheets?_sheets`).
-/

namespace CallArchive.Store

abbrev Sheet := List (List Cell)

namespace Database

def stampCells (s : Stamp) : List Cell := [.ofText? s.createdAt, .ofText? s.metadata]

def digestCells (d : DigestData) : List Cell := .ofBytes? d.digest :: stampCells d.stamp

def settingCells (s : Setting) : List Cell := [.ofText? s.key, .text s.value]

def packageCells (r : Row PackageKey PackageData) : List Cell :=
  [.integer r.id, .text r.key.name, .text r.key.forge, .ofText? r.data.projectName,
    .ofText? r.data.repository, .ofText? r.data.createdAt]

def versionCells (r : Row VersionKey Stamp) : List Cell :=
  .integer r.id :: .integer r.key.package :: .text r.key.generator :: .text r.key.version
    :: stampCells r.data

def dependencyCells (r : DependencyRow) : List Cell :=
  [.integer r.version, .integer r.package, .text r.ranges]

def fileCells (r : Row FileKey DigestData) : List Cell :=
  .integer r.id :: .integer r.key.version :: .text r.key.path :: digestCells r.data

def moduleCells (r : Row ModuleKey DigestData) : List Cell :=
  .integer r.id :: .integer r.key.version :: .text r.key.namespace :: digestCells r.data

def linkCells (r : Link) : List Cell := [.integer r.module, .integer r.file]

def callableCells (r : Row CallableKey CallableData) : List Cell :=
  .integer r.id :: .ofId? r.data.module :: .text r.key.address :: .ofFlag r.key.flag
    :: stampCells r.data.stamp

def edgeCells (r : EdgeRow) : List Cell := [.integer r.source, .integer r.target, .text r.metadata]

def sheets (db : Database) : Assoc String Sheet :=
  [("metadb_meta", db.settings.map settingCells),
    ("packages", db.packages.rows.map packageCells),
    ("package_versions", db.versions.rows.map versionCells),
    ("dependencies", db.dependencies.map dependencyCells),
    ("files", db.files.rows.map fileCells),
    ("modules", db.modules.rows.map moduleCells),
    ("module_contents", db.links.map linkCells),
    ("callables", db.callables.rows.map callableCells),
    ("edges", db.edges.map edgeCells)]

theorem keys_sheets (db : Database) : Assoc.keys db.sheets = tableNames := rfl

def lastIds (db : Database) : List RowId :=
  [db.packages.lastId, db.versions.lastId, db.files.lastId, db.modules.lastId, db.callables.lastId]

/-! ## Reading -/

def stampOf? : List Cell → Option Stamp
  | [t, m] => do return ⟨← t.optionalText?, ← m.optionalText?⟩
  | _ => none

def digestOf? : List Cell → Option DigestData
  | d :: rest => do return ⟨← d.optionalBytes?, ← stampOf? rest⟩
  | [] => none

def settingOf? : List Cell → Option Setting
  | [key, value] => do return ⟨← key.optionalText?, ← value.text?⟩
  | _ => none

def packageOf? : List Cell → Option (Row PackageKey PackageData)
  | [id, name, forge, project, repository, time] => do
    return ⟨← id.integer?, ⟨← name.text?, ← forge.text?⟩,
      ⟨← project.optionalText?, ← repository.optionalText?, ← time.optionalText?⟩⟩
  | _ => none

def versionOf? : List Cell → Option (Row VersionKey Stamp)
  | id :: package :: generator :: version :: rest => do
    return ⟨← id.integer?, ⟨← package.integer?, ← generator.text?, ← version.text?⟩,
      ← stampOf? rest⟩
  | _ => none

def dependencyOf? : List Cell → Option DependencyRow
  | [version, package, ranges] => do
    return ⟨← version.integer?, ← package.integer?, ← ranges.text?⟩
  | _ => none

def fileOf? : List Cell → Option (Row FileKey DigestData)
  | id :: version :: path :: rest => do
    return ⟨← id.integer?, ⟨← version.integer?, ← path.text?⟩, ← digestOf? rest⟩
  | _ => none

def moduleOf? : List Cell → Option (Row ModuleKey DigestData)
  | id :: version :: ns :: rest => do
    return ⟨← id.integer?, ⟨← version.integer?, ← ns.text?⟩, ← digestOf? rest⟩
  | _ => none

def linkOf? : List Cell → Option Link
  | [module, file] => do return ⟨← module.integer?, ← file.integer?⟩
  | _ => none

def callableOf? : List Cell → Option (Row CallableKey CallableData)
  | id :: module :: address :: flag :: rest => do
    return ⟨← id.integer?, ⟨← address.text?, ← flag.flag?⟩,
      ⟨← module.optionalId?, ← stampOf? rest⟩⟩
  | _ => none

def edgeOf? : List Cell → Option EdgeRow
  | [source, target, metadata] => do
    return ⟨← source.integer?, ← target.integer?, ← metadata.text?⟩
  | _ => none

/-- The rows of the sheet of a name. -/
def rowsOf? (sheets : Assoc String Sheet) (name : String) (row? : List Cell → Option α) :
    Option (List α) := do
  (← Assoc.get? name sheets).mapM row?

def ofSheets? (sheets : Assoc String Sheet) : (lastIds : List RowId) → Option Database
  | [packages, versions, files, modules, callables] => do
    return {
      settings := ← rowsOf? sheets "metadb_meta" settingOf?
      packages := ⟨← rowsOf? sheets "packages" packageOf?, packages⟩
      versions := ⟨← rowsOf? sheets "package_versions" versionOf?, versions⟩
      dependencies := ← rowsOf? sheets "dependencies" dependencyOf?
      modules := ⟨← rowsOf? sheets "modules" moduleOf?, modules⟩
      files := ⟨← rowsOf? sheets "files" fileOf?, files⟩
      links := ← rowsOf? sheets "module_contents" linkOf?
      callables := ⟨← rowsOf? sheets "callables" callableOf?, callables⟩
      edges := ← rowsOf? sheets "edges" edgeOf? }
  | _ => none

theorem mapM_map_of_left_inverse {f : α → β} {g : β → Option α} (h : ∀ a, g (f a) = some a)
    (l : List α) : (l.map f).mapM g = some l := by
  induction l with
  | nil => rfl
  | cons a rest ih => simp [List.mapM_cons, h, ih]

theorem stampOf?_stampCells (s : Stamp) : stampOf? (stampCells s) = some s := by
  simp [stampOf?, stampCells, Cell.optionalText?_ofText?]

theorem digestOf?_digestCells (d : DigestData) : digestOf? (digestCells d) = some d := by
  simp [digestOf?, digestCells, Cell.optionalBytes?_ofBytes?, stampOf?_stampCells]

/-- Nothing of a database is lost in its sheets. -/
theorem ofSheets?_sheets (db : Database) : ofSheets? db.sheets db.lastIds = some db := by
  have settings := mapM_map_of_left_inverse (f := settingCells) (g := settingOf?) fun s => by
    simp [settingOf?, settingCells, Cell.text?, Cell.optionalText?_ofText?]
  have packages := mapM_map_of_left_inverse (f := packageCells) (g := packageOf?) fun r => by
    simp [packageOf?, packageCells, Cell.integer?, Cell.text?, Cell.optionalText?_ofText?]
  have versions := mapM_map_of_left_inverse (f := versionCells) (g := versionOf?) fun r => by
    simp [versionOf?, versionCells, Cell.integer?, Cell.text?, stampOf?_stampCells]
  have dependencies := mapM_map_of_left_inverse (f := dependencyCells) (g := dependencyOf?)
    fun _ => rfl
  have files := mapM_map_of_left_inverse (f := fileCells) (g := fileOf?) fun r => by
    simp [fileOf?, fileCells, Cell.integer?, Cell.text?, digestOf?_digestCells]
  have modules := mapM_map_of_left_inverse (f := moduleCells) (g := moduleOf?) fun r => by
    simp [moduleOf?, moduleCells, Cell.integer?, Cell.text?, digestOf?_digestCells]
  have links := mapM_map_of_left_inverse (f := linkCells) (g := linkOf?) fun _ => rfl
  have callables := mapM_map_of_left_inverse (f := callableCells) (g := callableOf?) fun r => by
    simp [callableOf?, callableCells, Cell.integer?, Cell.text?, Cell.optionalId?_ofId?,
      Cell.flag?_ofFlag, stampOf?_stampCells]
  have edges := mapM_map_of_left_inverse (f := edgeCells) (g := edgeOf?) fun _ => rfl
  simp [ofSheets?, sheets, lastIds, rowsOf?, Assoc.get?, settings, packages, versions, dependencies,
    files, modules, links, callables, edges]

end Database

end CallArchive.Store
