import CallArchive.Store.Sheet

/-!
# Overwriting columns

Other programs can write into a database file. `overwrite` gives a column one content in every row
of its table, whether or not the store can read that content; the rules of the schema are kept.
-/

namespace CallArchive.Store

/-- Whether two rows agree in columns that tell rows apart; a row with nothing in one of them agrees
with no other. -/
def sameKey (places : List Nat) (a b : List Cell) : Bool :=
  places.all fun i => a.getD i .null == b.getD i .null && a.getD i .null != .null

def hasRepeatedKey (places : List Nat) : Sheet → Bool
  | [] => false
  | row :: rest => rest.any (sameKey places row) || hasRepeatedKey places rest

/-- The ids in a sheet of identified rows. -/
def idsOf (s : Sheet) : List Cell := s.map fun row => row.headD .null

namespace TableSchema

/-- What keeps a sheet from being that of the table, references apart. -/
def repetition? (t : TableSchema) (s : Sheet) : Option StoreError :=
  (t.keys.find? fun key => hasRepeatedKey (key.map t.place) s).map (StoreError.repeatedKey t.name)

/-- Whether every reference of a table goes to a row that there is. -/
def refersWell (t : TableSchema) (sheets : Assoc String Sheet) : Bool :=
  t.columns.all fun c =>
    c.refersTo.all fun target =>
      let ids := idsOf ((Assoc.get? target sheets).getD [])
      ((Assoc.get? t.name sheets).getD []).all fun row =>
        let cell := row.getD (t.place c.name) .null
        cell == .null || ids.contains cell

end TableSchema

/-- An id that a row has is not given away again. -/
def Table.settle (t : Table κ δ) : Table κ δ :=
  { t with lastId := t.rows.foldl (fun last r => max last r.id) t.lastId }

namespace Database

def settleIds (db : Database) : Database :=
  { db with
    packages := db.packages.settle
    versions := db.versions.settle
    files := db.files.settle
    modules := db.modules.settle
    callables := db.callables.settle }

/-- The database with one cell in all rows of a column, and the number of those rows. -/
def overwriteColumn (t : TableSchema) (c : Column) (text : Option String) : Statement Nat :=
  fun db => do
    let cell := (text.map (Cell.ofText c.kind)).getD .null
    let sheet := (Assoc.get? t.name db.sheets).getD []
    if c = Column.id ∧ cell.integer?.isNone ∧ sheet ≠ [] then throw .wrongKind
    if c.isRequired ∧ cell = .null ∧ sheet ≠ [] then throw (.emptyColumn t.name c.name)
    let sheet := sheet.map fun row => row.set (t.place c.name) cell
    if let some e := t.repetition? sheet then throw e
    let sheets := Assoc.put t.name sheet db.sheets
    if !schema.all (·.refersWell sheets) then throw .foreignKey
    match ofSheets? sheets db.lastIds with
    | some db => return (sheet.length, db.settleIds)
    | none => throw .wrongKind

def overwrite (table column : String) (text : Option String) : Statement Nat := fun db =>
  match schema.find? fun t => t.name == table with
  | none => .error (.noTable table)
  | some t =>
    match t.column? column with
    | none => .error (.noColumn column)
    | some c => overwriteColumn t c text db

end Database

end CallArchive.Store
