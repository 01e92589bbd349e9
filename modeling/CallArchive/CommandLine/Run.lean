import CallArchive.CommandLine.Arguments
import CallArchive.CommandLine.Report
import CallArchive.Config.Text
import CallArchive.Files.Search
import CallArchive.Ingest.Workshop

/-!
# Running commands

`run` performs the command of a command line on a host and says what is printed and how the program
ends. A command may print its report and fail all the same, if the report is about records that
failed.
-/

namespace CallArchive.CommandLine

open Files (DatabasePlace Path Host)

/-- What a run prints, and its exit code. -/
structure Outcome where
  code : Nat
  stdout : String
  stderr : String
  deriving DecidableEq, Repr

/-- A command fails, or it prints a text and then perhaps fails. -/
structure Done where
  output : String
  failure : Option CommandError

def Done.outcome (d : Done) : Outcome :=
  match d.failure with
  | none => ⟨0, d.output, ""⟩
  | some e => ⟨e.exitCode, d.output, e.report⟩

abbrev CommandM (m : Type → Type) (α : Type) := ExceptT CommandError m α

variable {m : Type → Type} [Monad m]

/-- Performs a step of the host, and gives its error a place in the command. -/
def attempt (place : ε → CommandError) (step : m (Except ε α)) : CommandM m α :=
  ExceptT.mk do return (← step).mapError place

/-- The outcome of a command. -/
def conclude (command : CommandM m Done) : m Outcome := do
  match ← command.run with
  | .ok d => return d.outcome
  | .error e => return Done.outcome ⟨"", some e⟩

/-! ## Configuration -/

/-- Reads a configuration file. -/
def loadConfig? (host : Host m) (p : Path) : m (Except ConfigError Config) := do
  if !(← host.exists? p) then return .error (.notFound p)
  match ← host.readText p with
  | .ok text => return Config.ofText text
  | .error e => return .error (.unreadable s!"{p}: {e.message}")

/-- Reads a configuration file, or takes the default configuration where none is. -/
def loadConfigOrDefault (host : Host m) (p : Path) : m (Except ConfigError Config) := do
  match ← loadConfig? host p with
  | .error (.notFound _) => return .ok .default
  | result => return result

/-- The configuration of a file with what the command line puts in its place. -/
def loadConfig (host : Host m) (p : Path) (db : Option Path) (workers : Option Nat) :
    CommandM m Config := do
  let c ← attempt (.configNotLoaded p) (loadConfigOrDefault host p)
  let c := { c with path := db.getD c.path, workers := workers.getD c.workers }
  attempt (.configOverridden p) (pure c.validate)

/-- Opens a database that waits for locks as long as a number of milliseconds says, and makes it
ready for use. The driver panics over a time that the engine cannot hold. -/
def openDatabase (host : Host m) (busyTimeout : Nat) (p : Path) :
    CommandM m (DatabasePlace × Store.Database) := do
  let place ← attempt (.databaseNotOpened p) (host.openPlace p)
  if maxBusyTimeout < busyTimeout then throw .timeoutTooLong
  let db ← attempt (.databaseNotOpened p) (host.prepareDatabase place)
  return (place, db)

/-! ## The commands -/

def runInit (host : Host m) (config : Path) (db : Option Path) (force : Bool) :
    CommandM m Done := do
  if (← host.exists? config) && !force then throw (.configExists config)
  let c := { Config.default with path := db.getD Config.default.path }
  let text ← attempt .configNotWritable (pure c.toText)
  attempt (.configNotWritten config) (host.writeText config text)
  if let some parent := (Files.Path.parent? c.path).filter (· ≠ "") then
    attempt (.directoryNotMade parent) (host.makeDirectories parent)
  let _ ← openDatabase host c.busyTimeout c.path
  return ⟨lines [s!"Wrote {config}", s!"Database ready at {c.path}"], none⟩

def readJob (host : Host m) (p : Path) : CommandM m Ingest.Job := do
  return ⟨p, ← attempt (.recordNotRead p) (host.readText p)⟩

/-- How a run over some records has failed, if it has. -/
def summaryFailure (s : Ingest.Summary) : Option CommandError :=
  if s.failedCount = 0 then none
  else if 0 < s.succeeded then some (.someFailed s.failedCount s.total)
  else some (.allFailed s.failedCount)

/-- All records are read before the first one is ingested. -/
def runIngest (host : Host m) (inputs : List String) (config : Path) (db : Option Path)
    (workers : Option Nat) (json quiet : Bool) : CommandM m Done := do
  let c ← loadConfig host config db workers
  let files ← attempt .inputs (Files.Search.expand host inputs)
  let jobs ← files.mapM (readJob host)
  let (place, database) ← openDatabase host c.busyTimeout c.path
  let rules : Ingest.WorkshopRules Unit :=
    { settings := c.settings, notifier := .silent, refused := Ingest.WorkshopRules.refuseNone }
  let run := Ingest.Workshop.run rules c.workers jobs (.new (.separate ⟨database, none⟩) ())
  if let .separate file := run.world.stock then host.savePlace file.committed place
  let summary ← attempt (.ingestionNotStarted c.path) (pure run.result)
  let output :=
    if json then documentText summary.document else if quiet then "" else summaryText summary
  return ⟨output, summaryFailure summary⟩

/-- Reads and validates the record in a file. -/
def checkFile (host : Host m) (p : Path) : m FileReport := do
  match ← host.readText p with
  | .error e => return ⟨p, .error e.message⟩
  | .ok text =>
    match Ingest.check text with
    | .error e => return ⟨p, .error (told e.trace)⟩
    | .ok v => return ⟨p, .ok ⟨v.artifact, v.methodCount, v.report⟩⟩

def runValidate (host : Host m) (inputs : List String) (json : Bool) : CommandM m Done := do
  let files ← attempt .inputs (Files.Search.expand host inputs)
  let reports ← (files.mapM (checkFile host) : m (List FileReport))
  let summary : ValidationSummary := ⟨reports⟩
  let failure :=
    if summary.invalid = 0 then none
    else some (.someInvalid summary.invalid (summary.valid + summary.invalid))
  return ⟨if json then documentText summary.document else summary.text, failure⟩

def runStatus (host : Host m) (config : Path) (db : Option Path) (json : Bool) :
    CommandM m Done := do
  let c ← loadConfig host config db none
  if !(← host.exists? c.path) then throw (.databaseNotFound c.path)
  let (_, database) ← openDatabase host defaultBusyTimeout c.path
  let size ← host.size c.path
  let counts := database.counts
  return ⟨if json then documentText (counts.document size) else statusText c.path size counts, none⟩

def runCommand (host : Host m) (quiet : Bool) : Command → CommandM m Done
  | .init config db force => runInit host config db force
  | .ingest inputs config db workers json => runIngest host inputs config db workers json quiet
  | .validate inputs json => runValidate host inputs json
  | .status config db json => runStatus host config db json

/-! ## Command lines -/

def usageCode : Nat := 2

/-- Runs a command line. -/
def run (host : Host m) (arguments : List String) : m Outcome :=
  match Request.ofArguments arguments with
  | .run command quiet => conclude (runCommand host quiet command)
  | .version => return ⟨0, versionText, ""⟩
  | .help topic => return ⟨0, Usage.helpText topic, ""⟩
  | .nothing => return ⟨usageCode, "", Usage.helpText .program⟩
  | .refused e => return ⟨usageCode, "", e.message⟩

end CallArchive.CommandLine
