import CallArchive.Record.Error

/-!
# Failures

What can go wrong while a record is stored, the text that reports it, and its class. The class
decides what happens next: a bad input is given back, a transient failure of the store is tried
again, and anything else is final.
-/

namespace CallArchive

inductive FailureClass where
  | input
  | transient
  | fatal
  deriving DecidableEq, Repr

namespace FailureClass

def name : FailureClass → String
  | .input => "input"
  | .transient => "transient"
  | .fatal => "fatal"

def all : List FailureClass := [.input, .transient, .fatal]

theorem mem_all (c : FailureClass) : c ∈ all := by cases c <;> decide

theorem ne_input_iff {c : FailureClass} : c ≠ .input ↔ c = .transient ∨ c = .fatal := by
  cases c <;> decide

end FailureClass

/-- Failures of the store. The engine reports some with a code, whose low byte tells the kind. It is
not given a name of a database with a zero byte in it. -/
inductive StoreError where
  | engine (code : Option Int) (text : String)
  | badName (position : Nat)
  | migration (text : String)
  | serialization (text : String)
  | unavailable (text : String)
  | missingRow (text : String)
  deriving DecidableEq, Repr

namespace StoreError

/-- What is wrong with a name that has a zero byte at a position. -/
def badNameText (position : Nat) : String :=
  s!"nul byte found in provided data at position: {position}"

def message : StoreError → String
  | .engine _ text => s!"SQLite error: {text}"
  | .badName position => s!"SQLite error: {badNameText position}"
  | .migration text => s!"Migration failed: {text}"
  | .serialization text => s!"Serialization error: {text}"
  | .unavailable text => s!"Store unavailable: {text}"
  | .missingRow text => s!"Missing row: {text}"

def busyCode : Int := 5

def lockedCode : Int := 6

def inputOutputCode : Int := 10

def cannotOpenCode : Int := 14

def transientCodes : List Int := [busyCode, lockedCode, inputOutputCode, cannotOpenCode]

/-- The kind of failure that an engine code belongs to. -/
def primaryCode (code : Int) : Int := code % 256

def failureClass : StoreError → FailureClass
  | .unavailable _ => .transient
  | .engine (some code) _ => if primaryCode code ∈ transientCodes then .transient else .fatal
  | .engine none _ | .badName _ | .migration _ | .serialization _ | .missingRow _ => .fatal

/-- Whatever the store fails with, the record is not to blame. -/
theorem failureClass_ne_input (e : StoreError) : e.failureClass ≠ .input := by
  unfold failureClass
  split
  · nofun
  · split <;> nofun
  all_goals nofun

def locked : StoreError := .engine (some busyCode) "database is locked"

def noRows : StoreError := .engine none "Query returned no rows"

def cannotOpen (path : String) : StoreError :=
  .engine (some cannotOpenCode) s!"unable to open database file: {path}"

/-- The same of a file that the engine needs beside a database. -/
def notOpened : StoreError := .engine (some cannotOpenCode) "unable to open database file"

def notRead : StoreError := .engine (some 266) "disk I/O error"

def notDeleted : StoreError := .engine (some 2570) "disk I/O error"

/-- What has been written does not last. -/
def notFlushed : StoreError := .engine (some 1034) "disk I/O error"

def notADatabase : StoreError := .engine (some 26) "file is not a database"

/-- A text stands in a column, counted from 0, where something else is expected. -/
def textInColumn (index : Nat) (name : String) : StoreError :=
  .engine none s!"Invalid column type Text at index: {index}, name: {name}"

def noTable (name : String) : StoreError := .engine (some 1) s!"no such table: {name}"

def noColumn (name : String) : StoreError := .engine (some 1) s!"no such column: {name}"

def wrongKind : StoreError := .engine (some 20) "datatype mismatch"

def emptyColumn (table column : String) : StoreError :=
  .engine (some 1299) s!"NOT NULL constraint failed: {table}.{column}"

/-- Two rows with the same contents in columns that tell rows apart. -/
def repeatedKey (table : String) (columns : List String) : StoreError :=
  .engine (some 2067)
    ("UNIQUE constraint failed: " ++ ", ".intercalate (columns.map fun c => table ++ "." ++ c))

def readOnly : StoreError := .engine (some 8) "attempt to write a readonly database"

def foreignKey : StoreError := .engine (some 787) "FOREIGN KEY constraint failed"

def nestedTransaction : StoreError :=
  .engine (some 1) "cannot start a transaction within a transaction"

def noTransactionToCommit : StoreError :=
  .engine (some 1) "cannot commit - no transaction is active"

def noTransactionToRollback : StoreError :=
  .engine (some 1) "cannot rollback - no transaction is active"

/-- A document that does not parse makes the engine fail with the parser's text. -/
def badDocument (cause : Json.ParseError) : StoreError := .engine (some 1) cause.message

def closed : StoreError := .unavailable "connection is closed"

end StoreError

inductive ConfigError where
  | notFound (path : String)
  | invalid (reason : String)
  | unreadable (reason : String)
  deriving DecidableEq, Repr

namespace ConfigError

def message : ConfigError → String
  | .notFound path => s!"Config file not found: {path}"
  | .invalid reason => s!"Invalid config: {reason}"
  | .unreadable reason => s!"Parse error: {reason}"

end ConfigError

/-- Any failure. After the last attempt the failure that ended it is kept as the cause. -/
inductive Error where
  | store (cause : StoreError)
  | record (cause : RecordError)
  | unmappedLocalId (id : LocalId)
  | retriesExhausted (attempts : Nat) (cause : Error)
  | config (cause : ConfigError)
  | notify (reason : String)
  deriving DecidableEq, Repr

namespace Error

def message : Error → String
  | .store cause => s!"Store error: {cause.message}"
  | .record cause => s!"Graph error: {cause.message}"
  | .unmappedLocalId id => s!"Ingest error: Local id {id.text} has no store id"
  | .retriesExhausted attempts cause =>
    s!"Ingest error: Gave up after {attempts} attempts: {cause.message}"
  | .config cause => s!"Configuration error: {cause.message}"
  | .notify reason => s!"Notify error: {reason}"

def failureClass : Error → FailureClass
  | .store cause => cause.failureClass
  | .record _ | .config _ => .input
  | .unmappedLocalId _ | .notify _ => .fatal
  | .retriesExhausted _ _ => .transient

def isTransient (e : Error) : Bool := e.failureClass == .transient

end Error

end CallArchive
