import CallArchive.CommandLine.Arguments

/-!
# Help texts
-/

namespace CallArchive.CommandLine

def programName : String := "metadb"

def programVersion : String := "0.1.0"

def programAbout : String := "Ingest call graphs into the call-graph metadata database"

def versionText : String := s!"{programName} {programVersion}\n"

namespace Usage

/-- A text filled up with blanks on the right. -/
def padRight (width : Nat) (s : String) : String :=
  s ++ String.ofList (List.replicate (width - s.length) ' ')

/-- A text filled up with blanks on the left. -/
def padLeft (width : Nat) (s : String) : String :=
  String.ofList (List.replicate (width - s.length) ' ') ++ s

/-- Lines of two columns, the second aligned. -/
def columns (rows : List (String × String)) : String :=
  let width := (rows.map fun r => r.1.length).foldl max 0
  String.join (rows.map fun r => s!"  {padRight width r.1}  {r.2}\n")

def optionRow (o : OptionSpec) : String × String :=
  let short := match o.short with
    | some c => s!"-{c}, "
    | none => "    "
  (short ++ o.shown ++ (if o.repeats then "..." else ""), o.about)

def helpAbout : String := "Print this message or the help of the given subcommand(s)"

def commandRows : List (String × String) :=
  CommandName.all.map (fun c => (c.text, c.about)) ++ [(Arguments.helpWord, helpAbout)]

def inputsName : String := "<INPUTS>..."

def topicsName : String := "[COMMAND]..."

def helpText : Topic → String
  | .program =>
    s!"{programAbout}\n\nUsage: {programName} [OPTIONS] <COMMAND>\n\nCommands:\n"
      ++ columns commandRows ++ "\nOptions:\n" ++ columns (OptionSpec.general.map optionRow)
  | .help =>
    s!"{helpAbout}\n\nUsage: {programName} {Arguments.helpWord} {topicsName}\n\nArguments:\n"
      ++ columns [(topicsName, "Print help for the subcommand(s)")]
  | .command c =>
    let usage := s!"{c.about}\n\nUsage: {programName} {c.text} [OPTIONS]"
    let inputs := match c.inputs? with
      | some about => s!" {inputsName}\n\nArguments:\n" ++ columns [(inputsName, about)]
      | none => "\n"
    usage ++ inputs ++ "\nOptions:\n" ++ columns ((OptionSpec.ofCommand c).map optionRow)

end Usage

end CallArchive.CommandLine
