import CallArchive.Config.Basic

/-!
# Options

The commands of the program and the options that each takes, as one table that the reader of command
lines and the help text share.
-/

namespace CallArchive.CommandLine

inductive CommandName where
  | init
  | ingest
  | validate
  | status
  deriving DecidableEq, Repr

namespace CommandName

def text : CommandName → String
  | .init => "init"
  | .ingest => "ingest"
  | .validate => "validate"
  | .status => "status"

def about : CommandName → String
  | .init => "Write a config file and create an empty database"
  | .ingest => "Ingest call-graph records into the database"
  | .validate => "Check records against the address rules without writing anything"
  | .status => "Show row counts for every table"

def all : List CommandName := [.init, .ingest, .validate, .status]

theorem mem_all (c : CommandName) : c ∈ all := by cases c <;> decide

def ofText? (s : String) : Option CommandName := all.find? fun c => c.text == s

/-- What the inputs of a command are, if it has any. -/
def inputs? : CommandName → Option String
  | .ingest => some "Record files or glob patterns (e.g. \"graphs/*.json\")"
  | .validate => some "Record files or glob patterns"
  | .init | .status => none

end CommandName

inductive OptionName where
  | config
  | db
  | force
  | workers
  | json
  | verbose
  | quiet
  | help
  | version
  deriving DecidableEq, Repr

structure OptionSpec where
  name : OptionName
  short : Option Char
  long : String
  /-- What stands for the value in the help text, if the option has one. -/
  value : Option String
  about : String
  /-- Whether it counts how often it is given. -/
  repeats : Bool := false
  deriving DecidableEq, Repr

namespace OptionSpec

def flag (name : OptionName) (long about : String) : OptionSpec :=
  { name, short := none, long, value := none, about }

def short_ (name : OptionName) (short : Char) (long about : String) : OptionSpec :=
  { name, short := some short, long, value := none, about }

def valued (name : OptionName) (long value about : String) : OptionSpec :=
  { name, short := none, long, value := some value, about }

def verbose : OptionSpec :=
  { short_ .verbose 'v' "verbose" "Increase verbosity (-v, -vv, -vvv)" with repeats := true }

def quiet : OptionSpec := short_ .quiet 'q' "quiet" "Suppress non-error output"

def help : OptionSpec := short_ .help 'h' "help" "Print help"

def version : OptionSpec := short_ .version 'V' "version" "Print version"

def config (about : String) : OptionSpec :=
  valued .config "config" "CONFIG" (about ++ s!" [default: {Config.fileName}]")

def db (about : String) : OptionSpec := valued .db "db" "DB" about

def json (about : String) : OptionSpec := flag .json "json" about

def overriding : String := "Database location (overrides the config file)"

/-- The options that may stand before the name of a command and after it. -/
def everywhere : List OptionSpec := [verbose, quiet, help]

/-- The options before the name of a command. -/
def general : List OptionSpec := everywhere ++ [version]

/-- The options that belong to a command alone. -/
def own : CommandName → List OptionSpec
  | .init =>
    [config "Config file to write", db "Database location recorded in the new config",
      flag .force "force" "Overwrite an existing config file"]
  | .ingest =>
    [config "Config file", db overriding,
      valued .workers "workers" "WORKERS"
        "Number of concurrent workers (overrides the config file)",
      json "Print the summary as JSON"]
  | .validate => [json "Print the report as JSON"]
  | .status => [config "Config file", db overriding, json "Print counts as JSON"]

/-- The options of a command in the order of its help text. -/
def ofCommand (c : CommandName) : List OptionSpec := own c ++ everywhere

/-- The option as it is named in messages. -/
def shown (o : OptionSpec) : String :=
  match o.value with
  | some v => s!"--{o.long} <{v}>"
  | none => s!"--{o.long}"

end OptionSpec

end CallArchive.CommandLine
