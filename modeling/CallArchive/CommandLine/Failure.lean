import CallArchive.Failure
import CallArchive.Files.Search

/-!
# Failures of commands

Why a command has failed, what it prints about that, and its exit code. A failure is told with all
its causes, each after a colon. The exit code is read off that text: the text of a failure of the
configuration names the configuration, and that of a failure of the database the database or its
engine.
-/

namespace CallArchive

/-! ## Causes -/

/-- The kind of an engine failure in words. -/
def engineKind (code : Int) : String :=
  if code = 787 then "A foreign key constraint failed"
  else if code = 266 then "Error reading from disk"
  else if code = 1034 then "Error flushing data to persistent storage (fsync)"
  else if code = 2570 then "Error deleting file"
  else if StoreError.primaryCode code = 3 then "Access permission denied"
  else if StoreError.primaryCode code = 8 then "Attempt to write a readonly database"
  else if StoreError.primaryCode code = StoreError.busyCode then "The database file is locked"
  else if StoreError.primaryCode code = StoreError.lockedCode then
    "A table in the database is locked"
  else if StoreError.primaryCode code = StoreError.inputOutputCode then
    "Some kind of disk I/O error occurred"
  else if StoreError.primaryCode code = StoreError.cannotOpenCode then
    "Unable to open the database file"
  else if StoreError.primaryCode code = 26 then "File opened that is not a database file"
  else "SQL error or missing database"

/-- The failure and its causes, each as a text. -/
def StoreError.trace (e : StoreError) : List String :=
  e.message ::
    match e with
    | .engine (some code) text => [text, s!"Error code {code}: {engineKind code}"]
    | .engine none text | .serialization text => [text]
    | .badName position => [badNameText position, badNameText position]
    | .migration _ | .unavailable _ | .missingRow _ => []

def RecordError.trace (e : RecordError) : List String :=
  e.message ::
    match e with
    | .syntaxError cause => [cause.message]
    | .mismatch cause => [cause.message]
    | .invalidAddress _ cause => [cause.message]
    | _ => []

def Error.trace (e : Error) : List String :=
  e.message ::
    match e with
    | .store cause => cause.trace
    | .record cause => cause.trace
    | .unmappedLocalId id => [s!"Local id {id.text} has no store id"]
    | .retriesExhausted attempts cause =>
      s!"Gave up after {attempts} attempts: {cause.message}" :: cause.trace
    | .config cause => [cause.message]
    | .notify _ => []

namespace CommandLine

open Files (Path FileError GlobError SearchError)

/-- A failure and its causes in one line. -/
def told (trace : List String) : String := String.intercalate ": " trace

inductive CommandError where
  | configExists (path : Path)
  | configNotWritable (cause : ConfigError)
  | configNotWritten (path : Path) (cause : FileError)
  | configNotLoaded (path : Path) (cause : ConfigError)
  | configOverridden (path : Path) (cause : ConfigError)
  | inputs (cause : SearchError)
  | recordNotRead (path : Path) (cause : FileError)
  | directoryNotMade (path : Path) (cause : FileError)
  | databaseNotFound (path : Path)
  | databaseNotOpened (path : Path) (cause : StoreError)
  | ingestionNotStarted (path : Path) (cause : Error)
  | someFailed (failed total : Nat)
  | allFailed (failed : Nat)
  | someInvalid (invalid total : Nat)
  /-- The driver panics. -/
  | timeoutTooLong
  deriving DecidableEq, Repr

namespace CommandError

def trace : CommandError → List String
  | .configExists p => [s!"Config file already exists: {p}. Use --force to overwrite."]
  | .configNotWritable cause => ["Cannot serialize default config", cause.message]
  | .configNotWritten p cause => [s!"Cannot write config: {p}", cause.message]
  | .configNotLoaded p cause => [s!"Cannot load config: {p}", cause.message]
  | .configOverridden p cause => [s!"Invalid config after overrides: {p}", cause.message]
  | .inputs (.badPattern p cause) => [s!"Invalid file pattern: {p}", cause.message]
  | .inputs (.noMatch p) => [s!"No input files match: {p}"]
  | .recordNotRead p cause => [s!"Cannot read record file: {p}", cause.message]
  | .directoryNotMade p cause => [s!"Cannot create database directory: {p}", cause.message]
  | .databaseNotFound p => [s!"Database not found: {p}. Run `metadb init` first."]
  | .databaseNotOpened p cause => s!"Cannot open database: {p}" :: (Error.store cause).trace
  | .ingestionNotStarted p cause =>
    s!"Cannot start ingestion into database: {p}" :: cause.trace
  | .someFailed failed total => [s!"{failed} of {total} records failed"]
  | .allFailed failed => [s!"No records were ingested ({failed} failed)"]
  | .someInvalid invalid total => [s!"{invalid} of {total} records failed validation"]
  | .timeoutTooLong => ["too big"]

def message (e : CommandError) : String := told e.trace

/-- Whether a text has a word in it, in capitals or not. Only letters of the English alphabet become
such letters when capitals are made small. -/
def mentions (word text : String) : Bool := Text.contains word.toList (text.toList.map Char.toLower)

def generalCode : Nat := 1

def configCode : Nat := 2

def databaseCode : Nat := 4

def partialCode : Nat := 10

/-- The code of a program that panics. -/
def panicCode : Nat := 101

/-- The exit code that a text stands for. -/
def codeOf (text : String) : Nat :=
  if mentions "config" text then configCode
  else if mentions "database" text || mentions "sqlite" text then databaseCode
  else generalCode

def exitCode (e : CommandError) : Nat :=
  match e with
  | .someFailed _ _ => partialCode
  | .timeoutTooLong => panicCode
  | e => codeOf e.message

end CommandError

end CommandLine

end CallArchive
