import CallArchive.CommandLine.Option
import CallArchive.Files.Path
import CallArchive.Text.Digits

/-!
# Command lines

`Request.ofArguments` reads a command line. Arguments are read from left to right, and the first one
that cannot stand where it stands, or that asks for help or the version, decides the result. What is
missing is noticed at the end.
-/

namespace CallArchive.CommandLine

open Files (Path)

inductive Command where
  | init (config : Path) (db : Option Path) (force : Bool)
  | ingest (inputs : List String) (config : Path) (db : Option Path) (workers : Option Nat)
      (json : Bool)
  | validate (inputs : List String) (json : Bool)
  | status (config : Path) (db : Option Path) (json : Bool)
  deriving DecidableEq, Repr

inductive UsageError where
  | unexpectedArgument (argument : String)
  | unknownCommand (name : String)
  | missingCommand
  | missingValue (option : OptionSpec)
  | unexpectedValue (option : OptionSpec) (value : String)
  | invalidValue (option : OptionSpec) (value : String)
  | repeated (option : OptionSpec)
  | missingInputs
  deriving DecidableEq, Repr

/-- What help can be about. -/
inductive Topic where
  | program
  | command (name : CommandName)
  | help
  deriving DecidableEq, Repr

/-- What a command line asks for. Without arguments it asks for help in vain. -/
inductive Request where
  | run (command : Command) (quiet : Bool)
  | version
  | help (topic : Topic)
  | nothing
  | refused (error : UsageError)
  deriving DecidableEq, Repr

namespace UsageError

def reason : UsageError → String
  | .unexpectedArgument a => s!"unexpected argument '{a}' found"
  | .unknownCommand c => s!"unrecognized subcommand '{c}'"
  | .missingCommand => "'metadb' requires a subcommand but one was not provided"
  | .missingValue o => s!"a value is required for '{o.shown}' but none was supplied"
  | .unexpectedValue o v => s!"unexpected value '{v}' for '{o.shown}' found; no more were expected"
  | .invalidValue o v => s!"invalid value '{v}' for '{o.shown}'"
  | .repeated o => s!"the argument '{o.shown}' cannot be used multiple times"
  | .missingInputs => "the following required arguments were not provided:\n  <INPUTS>..."

def message (e : UsageError) : String :=
  s!"error: {e.reason}\n\nFor more information, try '--help'.\n"

end UsageError

/-- The options given so far with their values, and the operands. -/
structure Given where
  options : List (OptionName × String)
  operands : List String
  deriving DecidableEq, Repr

namespace Given

def none : Given := ⟨[], []⟩

def has (g : Given) (name : OptionName) : Bool := g.options.any fun o => o.1 == name

def value? (g : Given) (name : OptionName) : Option String :=
  (g.options.find? fun o => o.1 == name).map Prod.snd

end Given

namespace Arguments

/-- Why reading ends before the last argument. -/
inductive Stop where
  | refused (error : UsageError)
  | help
  | version

def refuse (e : UsageError) : Except Stop α := .error (.refused e)

def isNumber (s : String) : Bool := (Text.readUnsigned s.toList).any (· < 2 ^ 64)

/-- Whether an option can have a value. -/
def checkValue (o : OptionSpec) (v : String) : Except Stop Unit :=
  if v = "" then refuse (.missingValue o)
  else if o.name = .workers ∧ !isNumber v then refuse (.invalidValue o v)
  else .ok ()

/-- Takes an option over. -/
def give (g : Given) (o : OptionSpec) (v : String) : Except Stop Given :=
  match o.name with
  | .help => .error .help
  | .version => .error .version
  | name =>
    if g.has name && !o.repeats then refuse (.repeated o)
    else .ok { g with options := g.options ++ [(name, v)] }

/-- A row of one-letter options, none of which has a value. -/
def giveShort (specs : List OptionSpec) (argument : String) (g : Given) :
    List Char → Except Stop Given
  | [] => .ok g
  | c :: rest =>
    match specs.find? fun o => o.short == some c with
    | some o => do giveShort specs argument (← give g o "") rest
    | none => refuse (.unexpectedArgument argument)

/-- The forms of an argument. -/
inductive Form where
  | long (name : List Char) (value : Option (List Char))
  | short (letters : List Char)
  | separator
  | operand

def form (s : List Char) : Form :=
  match s with
  | ['-', '-'] => .separator
  | '-' :: '-' :: rest =>
    match Text.cutAt '=' rest with
    | some (name, value) => .long name (some value)
    | none => .long rest none
  | '-' :: c :: rest => .short (c :: rest)
  | _ => .operand

/-- Takes over an option with a value. -/
def giveValue (g : Given) (o : OptionSpec) (v : String) : Except Stop Given := do
  checkValue o v
  give g o v

/-- Takes over a long option, or leaves it to wait for its value. -/
def giveLong (specs : List OptionSpec) (argument : String) (g : Given) (name : List Char)
    (value : Option (List Char)) : Except Stop (Given × Option OptionSpec) :=
  match specs.find? fun o => o.long.toList == name with
  | none => refuse (.unexpectedArgument argument)
  | some o =>
    match o.value, value with
    | none, none => do return (← give g o "", none)
    | none, some v => refuse (.unexpectedValue o (String.ofList v))
    | some _, some v => do return (← giveValue g o (String.ofList v), none)
    | some _, none => .ok (g, some o)

/-- Reads options up to the end, where `waiting` is one whose value comes next. Operands are
collected if there may be any; else the first of them ends it and is left with the rest. -/
def scan (specs : List OptionSpec) (collecting : Bool) (waiting : Option OptionSpec) (g : Given) :
    List String → Except Stop (Given × List String)
  | [] =>
    match waiting with
    | some o => refuse (.missingValue o)
    | none => .ok (g, [])
  | a :: rest =>
    match waiting, form a.toList with
    | some o, .operand => do scan specs collecting none (← giveValue g o a) rest
    | some o, _ => refuse (.missingValue o)
    | none, .operand =>
      if collecting then scan specs collecting none { g with operands := g.operands ++ [a] } rest
      else .ok (g, a :: rest)
    | none, .short letters => do scan specs collecting none (← giveShort specs a g letters) rest
    | none, .long name value => do
      let (g, waiting) ← giveLong specs a g name value
      scan specs collecting waiting g rest
    | none, .separator =>
      match collecting, rest with
      | true, _ => .ok ({ g with operands := g.operands ++ rest }, [])
      | false, [] => .ok (g, [])
      | false, b :: _ => refuse (.unexpectedArgument b)

/-- The command with what has been given. -/
def command (g : Given) : CommandName → Command
  | .init => .init config (g.value? .db) (g.has .force)
  | .ingest => .ingest g.operands config (g.value? .db) workers (g.has .json)
  | .validate => .validate g.operands (g.has .json)
  | .status => .status config (g.value? .db) (g.has .json)
where
  config : Path := (g.value? .config).getD Config.fileName
  workers : Option Nat := (g.value? .workers).bind fun s => Text.readUnsigned s.toList

/-- Reads what stands after the name of a command. -/
def readCommand (general : Given) (c : CommandName) (arguments : List String) : Request :=
  match scan (OptionSpec.ofCommand c) c.inputs?.isSome none .none arguments with
  | .error .help => .help (.command c)
  | .error .version => .version
  | .error (.refused e) => .refused e
  | .ok (_, extra :: _) => .refused (.unexpectedArgument extra)
  | .ok (g, []) =>
    if c.inputs?.isSome && g.operands.isEmpty then .refused .missingInputs
    else .run (command g c) (general.has .quiet || g.has .quiet)

def helpWord : String := "help"

/-- Reads what stands after the word `help`. -/
def readHelp : List String → Request
  | [] => .help .program
  | [name] =>
    if name = helpWord then .help .help
    else
      match CommandName.ofText? name with
      | some c => .help (.command c)
      | none => .refused (.unknownCommand name)
  | _ :: extra :: _ => .refused (.unexpectedArgument extra)

end Arguments

open Arguments

def Request.ofArguments (arguments : List String) : Request :=
  match scan OptionSpec.general false none .none arguments with
  | .error .help => .help .program
  | .error .version => .version
  | .error (.refused e) => .refused e
  | .ok (g, []) => if g.options.isEmpty then .nothing else .refused .missingCommand
  | .ok (g, name :: rest) =>
    if name = helpWord then readHelp rest
    else
      match CommandName.ofText? name with
      | some c => readCommand g c rest
      | none => .refused (.unknownCommand name)

example : Request.ofArguments ["-q", "validate", "a", "--json", "-v", "--", "-b"]
    = .run (.validate ["a", "-b"] true) true := by
  decide +kernel

end CallArchive.CommandLine
