import CallArchive.Assoc
import CallArchive.Store.Basic

/-!
# Stores that share a file

A shared file has a store for each of its connections. `run` performs an action at one of them on
the file as it stands, so a store sees what the others have committed. Connecting again under a name
first takes back what the earlier store of that name has not committed.
-/

namespace CallArchive.Store

/-- The file that a store holds is not used: all stores work on the shared one. -/
structure Connections where
  file : File
  stores : Assoc ConnectionName Store

namespace Connections

def ofFile (file : File) : Connections := ⟨file, []⟩

/-- A file of its own with one connection. -/
def ofStore (s : Store) : Connections := ⟨s.file, [(s.connection, s)]⟩

/-- The store of a name on the file as it stands. -/
def store? (c : Connections) (name : ConnectionName) : Option Store :=
  (Assoc.get? name c.stores).map fun s => { s with file := c.file }

/-- Takes a store over, with what it did to the file. -/
def put (c : Connections) (s : Store) : Connections :=
  ⟨s.file, Assoc.put s.connection s c.stores⟩

def remove (c : Connections) (name : ConnectionName) : Connections :=
  ⟨c.file.disconnect name, c.stores.filter fun p => p.1 ≠ name⟩

def connect (c : Connections) (name : ConnectionName) (faults : FaultPlan) :
    Except StoreError Unit × Connections :=
  let c := c.remove name
  match Store.connect? c.file name faults with
  | .ok s => (.ok (), c.put s)
  | .error e => (.error e, c)

/-- Where no store has the name it is as if it were closed. -/
def run (c : Connections) (name : ConnectionName) (action : Action α) :
    Except Error α × Connections :=
  match c.store? name with
  | some s =>
    let (result, s) := (action.run s : Except Error α × Store)
    (result, c.put s)
  | none => (.error (.store .closed), c)

end Connections

end CallArchive.Store
