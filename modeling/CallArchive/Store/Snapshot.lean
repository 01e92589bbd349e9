import CallArchive.Store.Sheet

/-!
# Snapshots of databases

A snapshot is a database as one JSON document: for each table its rows as arrays of columns, and the
last id that each table of identified rows has given away. `ofSnapshot?` reads it back.
-/

namespace CallArchive.Store

open Json (Value Members)

namespace Database

def sheetValue (s : Sheet) : Value := .array (s.map fun row => .array (row.map Cell.value))

def documents (sheets : Assoc String Sheet) : List (String × Value) :=
  sheets.map fun p => (p.1, sheetValue p.2)

def settingsTable : String := "metadb_meta"

/-- The rows of all tables but that of the settings. -/
def tables (db : Database) : Members :=
  Members.ofList (documents (db.sheets.filter fun p => p.1 ≠ settingsTable))

def lastIdsName : String := "last_ids"

def snapshot (db : Database) : Value :=
  .object (Members.ofList
    ((lastIdsName, .array (db.lastIds.map .ofInt)) :: documents db.sheets))

def sheetOf? (v : Value) : Option Sheet := do
  (← v.items?).mapM fun row => do (← row.items?).mapM Cell.ofValue?

def ofSnapshot? (v : Value) : Option Database := do
  let sheets ← tableNames.mapM fun name => do return (name, ← sheetOf? (← v.get? name))
  ofSheets? sheets (← (← (← v.get? lastIdsName).items?).mapM Value.int?)

example : ofSnapshot? empty.snapshot = some empty := by decide +kernel

end Database

end CallArchive.Store
