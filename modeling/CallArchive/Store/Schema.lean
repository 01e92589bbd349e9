/-!
# The schema

`schema` lists the tables with their columns in order. It says of each column what stands in it,
whether something must, and whose ids it refers to; of each table, which columns taken together tell
its rows apart.
-/

namespace CallArchive.Store

inductive ColumnKind where
  | text
  | integer
  | bytes
  deriving DecidableEq, Repr

structure Column where
  name : String
  kind : ColumnKind
  isRequired : Bool
  refersTo : Option String
  deriving DecidableEq, Repr

structure TableSchema where
  name : String
  columns : List Column
  keys : List (List String)
  deriving DecidableEq, Repr

namespace Column

/-- The column by which rows are identified. -/
def id : Column := ⟨"id", .integer, true, none⟩

def text (name : String) : Column := ⟨name, .text, false, none⟩

def bytes (name : String) : Column := ⟨name, .bytes, false, none⟩

def flag (name : String) : Column := ⟨name, .integer, true, none⟩

def reference (name table : String) : Column := ⟨name, .integer, false, some table⟩

def required (c : Column) : Column := { c with isRequired := true }

end Column

namespace TableSchema

/-- A table whose rows have ids, and a natural key besides. -/
def identified (name : String) (columns : List Column) (key : List String) : TableSchema :=
  ⟨name, .id :: columns, [[Column.id.name], key]⟩

def column? (t : TableSchema) (name : String) : Option Column :=
  t.columns.find? fun c => c.name == name

/-- The place of a column in the rows. -/
def place (t : TableSchema) (name : String) : Nat := t.columns.findIdx fun c => c.name == name

end TableSchema

open Column in
/-- The tables; those of the counted rows come after that of the settings. -/
def schema : List TableSchema :=
  [⟨"metadb_meta", [text "key", (text "value").required], [["key"]]⟩,
    .identified "packages"
      [(text "package_name").required, (text "forge").required, text "project_name",
        text "repository", text "created_at"]
      ["package_name", "forge"],
    .identified "package_versions"
      [(reference "package_id" "packages").required, (text "cg_generator").required,
        (text "version").required, text "created_at", text "metadata"]
      ["package_id", "cg_generator", "version"],
    ⟨"dependencies",
      [(reference "package_version_id" "package_versions").required,
        (reference "dependency_id" "packages").required, (text "version_range").required],
      [["package_version_id", "dependency_id", "version_range"]]⟩,
    .identified "files"
      [(reference "package_version_id" "package_versions").required, (text "path").required,
        bytes "checksum", text "created_at", text "metadata"]
      ["package_version_id", "path"],
    .identified "modules"
      [(reference "package_version_id" "package_versions").required, (text "namespaces").required,
        bytes "sha256", text "created_at", text "metadata"]
      ["package_version_id", "namespaces"],
    ⟨"module_contents",
      [(reference "module_id" "modules").required, (reference "file_id" "files").required],
      [["module_id", "file_id"]]⟩,
    .identified "callables"
      [reference "module_id" "modules", (text "fasten_uri").required, flag "is_resolved_call",
        text "created_at", text "metadata"]
      ["fasten_uri", "is_resolved_call"],
    ⟨"edges",
      [(reference "source_id" "callables").required, (reference "target_id" "callables").required,
        (text "metadata").required],
      [["source_id", "target_id"]]⟩]

def tableNames : List String := schema.map TableSchema.name

theorem nodup_tableNames : tableNames.Nodup := by decide

/-- References go to tables that there are, and only to those with ids. -/
theorem references_exist :
    ∀ t ∈ schema, ∀ c ∈ t.columns, ∀ name ∈ c.refersTo,
      ∃ u ∈ schema, u.name = name ∧ Column.id ∈ u.columns := by decide

end CallArchive.Store
