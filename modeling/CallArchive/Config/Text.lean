import CallArchive.Config.Basic
import CallArchive.Toml.Parser

/-!
# Configuration files

A configuration file has the sections `store` and `ingest`. What is left out has its default value
and what is not known is ignored. A section may also be an array of its values in the order in which
they are written. `toText` writes all values; integers of more than 63 bits cannot be written.
-/

namespace CallArchive.Config

open Toml

/-! ## Reading -/

def maxLimit : Int := 2 ^ 32 - 1

def natural (i : Item) : Option Nat :=
  match i with
  | .integer z => if 0 ≤ z then some z.toNat else none
  | _ => none

/-- A number of attempts has 32 bits. -/
def limit (i : Item) : Option Nat :=
  match i with
  | .integer z => if 0 ≤ z ∧ z ≤ maxLimit then some z.toNat else none
  | _ => none

def text (i : Item) : Option String :=
  match i with
  | .text s => some s
  | _ => none

/-- A field of a section: its name and how a value is put in. -/
structure Field where
  name : String
  set : Config → Item → Option Config

def storeFields : List Field :=
  [⟨"path", fun c i => (text i).map fun x => { c with path := x }⟩,
    ⟨"busy_timeout_ms", fun c i => (natural i).map fun x => { c with busyTimeout := x }⟩]

def ingestFields : List Field :=
  [⟨"batch_size", fun c i => (natural i).map fun x => { c with batchSize := x }⟩,
    ⟨"retry_limit", fun c i => (limit i).map fun x => { c with retryLimit := x }⟩,
    ⟨"retry_backoff_ms", fun c i => (natural i).map fun x => { c with retryBackoff := x }⟩,
    ⟨"workers", fun c i => (natural i).map fun x => { c with workers := x }⟩]

def readEntry (fields : List Field) (c : Config) (entry : String × Item) : Option Config :=
  match fields.find? fun f => f.name == entry.1 with
  | some f => f.set c entry.2
  | none => some c

def readValue (c : Config) (p : Field × Item) : Option Config := p.1.set c p.2

def readSection (fields : List Field) (c : Config) : Item → Option Config
  | .table _ entries => entries.foldlM (readEntry fields) c
  | .array items => (fields.zip items).foldlM readValue c
  | .tables items => (fields.zip (items.map fun t => Item.table .header t)).foldlM readValue c
  | .date => some c
  | _ => none

def sections : List Field :=
  [⟨"store", readSection storeFields⟩, ⟨"ingest", readSection ingestFields⟩]

def typeMessage : String := "TOML parse error at line 1, column 1"

/-- Reads a configuration without checking its values. -/
def ofChars (s : List Char) : Except ConfigError Config :=
  match Toml.parse s with
  | .error refusal => .error (.unreadable (refusalMessage s refusal))
  | .ok entries =>
    match entries.foldlM (readEntry sections) default with
    | some c => .ok c
    | none => .error (.unreadable typeMessage)

def ofText (s : String) : Except ConfigError Config := do
  let c ← ofChars s.toList
  c.validate

/-! ## Writing -/

/-- Values of a section as they are written. -/
inductive Written where
  | text (value : String)
  | number (value : Nat)
  deriving DecidableEq, Repr

def writtenChars : Written → List Char
  | .text s => quote s.toList
  | .number n => Text.digits n

def entryChars (e : String × Written) : List Char :=
  e.1.toList ++ [' ', '=', ' '] ++ writtenChars e.2 ++ ['\n']

def sectionChars (name : String) (entries : List (String × Written)) : List Char :=
  '[' :: (name.toList ++ [']', '\n'] ++ entries.flatMap entryChars)

def storeEntries (c : Config) : List (String × Written) :=
  [("path", .text c.path), ("busy_timeout_ms", .number c.busyTimeout)]

def ingestEntries (c : Config) : List (String × Written) :=
  [("batch_size", .number c.batchSize), ("retry_limit", .number c.retryLimit),
    ("retry_backoff_ms", .number c.retryBackoff), ("workers", .number c.workers)]

def toChars (c : Config) : List Char :=
  sectionChars "store" c.storeEntries ++ '\n' :: sectionChars "ingest" c.ingestEntries

def isWritable : Written → Bool
  | .text _ => true
  | .number n => decide ((n : Int) ≤ maxInteger)

def unwritableMessage : String := "out-of-range value for i64 type"

def toText (c : Config) : Except ConfigError String :=
  if (c.storeEntries ++ c.ingestEntries).all fun e => isWritable e.2 then
    .ok (String.ofList c.toChars)
  else .error (.invalid unwritableMessage)

example : (ofText (String.ofList default.toChars)).toOption = some default := by decide +kernel

end CallArchive.Config
