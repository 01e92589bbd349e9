/-!
# Items of configuration files

A file builds up a tree of tables. Each table remembers how it came to be, because that decides who
may add to it: a header may define a table that only longer headers have named before, dotted keys
may add only to tables that dotted keys have made, and nothing adds to a table written inline.
-/

namespace CallArchive.Toml

/-- How a table came to be: by a header, as a step in the path of one, as a step of a dotted key, or
between braces. -/
inductive Origin where
  | header
  | path
  | dottedKey
  | inline
  deriving DecidableEq, Repr

inductive Item where
  | text (value : String)
  | integer (value : Int)
  | float
  | bool (value : Bool)
  | date
  | array (items : List Item)
  | table (origin : Origin) (entries : List (String × Item))
  | tables (items : List (List (String × Item)))
  deriving Repr, Inhabited

abbrev Entries := List (String × Item)

/-- A table whose entries are being added to. -/
structure Table where
  origin : Origin
  entries : Entries
  deriving Repr

namespace Entries

def get? (key : String) : Entries → Option Item
  | [] => none
  | (k, v) :: rest => if k = key then some v else get? key rest

/-- Replaces the item of a key, or adds it. -/
def put (key : String) (item : Item) : Entries → Entries
  | [] => [(key, item)]
  | (k, v) :: rest => if k = key then (key, item) :: rest else (k, v) :: put key item rest

end Entries

namespace Table

def item (t : Table) : Item := .table t.origin t.entries

/-- Changes the table at the end of a path, making the tables on the way. An array of tables stands
for its last one. -/
def change (dotted : Bool) (f : Table → Option Table) : List String → Table → Option Table
  | [], t => f t
  | key :: path, t => do
    let put (item : Item) : Table := { t with entries := Entries.put key item t.entries }
    match Entries.get? key t.entries with
    | none =>
      let child ← change dotted f path ⟨if dotted then .dottedKey else .path, []⟩
      return put child.item
    | some (.table .inline _) => none
    | some (.table origin entries) =>
      if dotted && origin == .header then none
      else
        let child ← change dotted f path ⟨origin, entries⟩
        return put child.item
    | some (.tables items) =>
      let last ← items.getLast?
      let child ← change dotted f path ⟨.header, last⟩
      return put (.tables (items.dropLast ++ [child.entries]))
    | some _ => none

/-- Adds an entry under a key that the table does not have. A dotted key ends in a table that dotted
keys have made, a plain one in a table of another kind. -/
def addEntry (dotted : Bool) (key : String) (item : Item) (t : Table) : Option Table :=
  if dotted != (t.origin == .dottedKey) then none
  else if (Entries.get? key t.entries).isSome then none
  else some { t with entries := t.entries ++ [(key, item)] }

/-- Adds an entry under a key of one part or more, to the table at the end of a path. -/
def addAt (path : List String) (key : List String) (item : Item) (t : Table) : Option Table := do
  let last ← key.getLast?
  let way := key.dropLast
  change false (change true (addEntry (!way.isEmpty) last item) way) path t

/-- The table that a header names is its own from then on. -/
def openTable (key : String) (t : Table) : Option Table :=
  match Entries.get? key t.entries with
  | none => some { t with entries := t.entries ++ [(key, .table .header [])] }
  | some (.table .path entries) =>
    some { t with entries := Entries.put key (.table .header entries) t.entries }
  | some _ => none

/-- A header of an array of tables adds a table to it. -/
def openArrayTable (key : String) (t : Table) : Option Table :=
  match Entries.get? key t.entries with
  | none => some { t with entries := t.entries ++ [(key, .tables [[]])] }
  | some (.tables items) =>
    some { t with entries := Entries.put key (.tables (items ++ [[]])) t.entries }
  | some _ => none

def openAt (array : Bool) (path : List String) (t : Table) : Option Table := do
  let last ← path.getLast?
  change false (if array then openArrayTable last else openTable last) path.dropLast t

/-- A table between braces, with its entries in order. -/
def ofInline (pairs : List (List String × Item)) : Option Item := do
  let t ← pairs.foldlM (fun t p => addAt [] p.1 p.2 t) (⟨.inline, []⟩ : Table)
  return .table .inline t.entries

end Table

end CallArchive.Toml
