import CallArchive.Toml.Scalar

/-!
# Reading configuration files

A file is a row of lines: headers, entries, comments and empty lines. `parse` reads it into a table
or refuses it; where it is refused and why does not matter to those who use it, but the line at
which it happened is kept for the message.
-/

namespace CallArchive.Toml

/-! ## Keys -/

def isBareKeyChar (c : Char) : Bool := c.isAlphanum || c == '-' || c == '_'

def takeKeyPart (s : List Char) : Option (String × List Char) :=
  let bare := s.takeWhile isBareKeyChar
  if bare.isEmpty then (takeShortQuoted s).map fun p => (String.ofList p.1, p.2)
  else some (String.ofList bare, s.dropWhile isBareKeyChar)

def skipGaps (s : List Char) : List Char := s.dropWhile isGap

/-- The parts of a key between dots; what follows has no leading gap. -/
def takeKey : (fuel : Nat) → List Char → Option (List String × List Char)
  | 0, _ => none
  | fuel + 1, s => do
    let (part, s) ← takeKeyPart (skipGaps s)
    match skipGaps s with
    | '.' :: rest => (takeKey fuel rest).map fun p => (part :: p.1, p.2)
    | s => return ([part], s)

/-- How deep a file may go: the parts of one key, and the brackets and braces of one value that are
open at once. -/
def maxLevels : Nat := 79

def keyOf (s : List Char) : Option (List String × List Char) := do
  let (key, s) ← takeKey (s.length + 1) s
  if key.length ≤ maxLevels then return (key, s) else none

/-! ## Values -/

def skipComment : List Char → List Char
  | '#' :: rest => rest.dropWhile isPlain
  | s => s

/-- Skips gaps, comments and line breaks. A comment must end its line. -/
def skipLines : (fuel : Nat) → List Char → Option (List Char)
  | 0, s => some s
  | fuel + 1, s =>
    match skipGaps s with
    | '#' :: rest => do skipLines fuel (← takeBreak (rest.dropWhile isPlain))
    | s =>
      match takeBreak s with
      | some rest => skipLines fuel rest
      | none => some s

def skipBlankLines (s : List Char) : Option (List Char) := skipLines (s.length + 1) s

mutual

/-- A value at the start of a text, of at most `levels` nested arrays and tables. -/
def takeValue : (fuel levels : Nat) → List Char → Option (Item × List Char)
  | 0, _, _ => none
  | fuel + 1, levels, s =>
    match levels, s with
    | _, '"' :: _ => (takeQuoted s).map fun p => (.text (String.ofList p.1), p.2)
    | _, '\'' :: _ => (takeQuoted s).map fun p => (.text (String.ofList p.1), p.2)
    | 0, '[' :: _ => none
    | levels + 1, '[' :: rest => (takeItems fuel levels rest).map fun p => (.array p.1, p.2)
    | 0, '\x7b' :: _ => none
    | levels + 1, '\x7b' :: rest => do
      let (pairs, rest) ← takePairs fuel levels true rest
      return (← Table.ofInline pairs, rest)
    | _, _ => takeScalar s

/-- The items of an array up to its closing bracket; a comma may follow the last one. -/
def takeItems : (fuel levels : Nat) → List Char → Option (List Item × List Char)
  | 0, _, _ => none
  | fuel + 1, levels, s => do
    match ← skipBlankLines s with
    | ']' :: rest => return ([], rest)
    | s =>
      let (item, s) ← takeValue fuel levels s
      match ← skipBlankLines s with
      | ',' :: rest => (takeItems fuel levels rest).map fun p => (item :: p.1, p.2)
      | ']' :: rest => return ([item], rest)
      | _ => none

/-- The entries between braces, on one line, without a comma after the last one. -/
def takePairs : (fuel levels : Nat) → (first : Bool) → List Char →
    Option (List (List String × Item) × List Char)
  | 0, _, _, _ => none
  | fuel + 1, levels, first, s =>
    match skipGaps s with
    | '\x7d' :: rest => if first then some ([], rest) else none
    | s => do
      let (key, s) ← keyOf s
      let s ← takeMark '=' s
      let (item, s) ← takeValue fuel levels (skipGaps s)
      match skipGaps s with
      | ',' :: rest => (takePairs fuel levels false rest).map fun p => ((key, item) :: p.1, p.2)
      | '\x7d' :: rest => return ([(key, item)], rest)
      | _ => none

end

def valueOf (s : List Char) : Option (Item × List Char) := takeValue (s.length + 1) maxLevels s

/-! ## Lines -/

/-- The rest of a line may only be a comment. -/
def endLine (s : List Char) : Option (List Char) :=
  match skipComment (skipGaps s) with
  | [] => some []
  | s => takeBreak s

inductive Line where
  | header (array : Bool) (path : List String)
  | entry (key : List String) (item : Item)
  deriving Repr

def takeHeader (array : Bool) (s : List Char) : Option (Line × List Char) := do
  let (path, s) ← keyOf s
  let s ← takeMark ']' s
  let s ← if array then takeMark ']' s else some s
  return (.header array path, ← endLine s)

def takeEntry (s : List Char) : Option (Line × List Char) := do
  let (key, s) ← keyOf s
  let s ← takeMark '=' s
  let (item, s) ← valueOf (skipGaps s)
  return (.entry key item, ← endLine s)

def takeLine (s : List Char) : Option (Line × List Char) :=
  match s with
  | '[' :: '[' :: rest => takeHeader true rest
  | '[' :: rest => takeHeader false rest
  | _ => takeEntry s

/-- The root table so far, and the path of the header that is in force. -/
structure Document where
  root : Table
  current : List String
  deriving Repr

def Document.add (d : Document) : Line → Option Document
  | .header array path => (d.root.openAt array path).map fun root => ⟨root, path⟩
  | .entry key item => (d.root.addAt d.current key item).map fun root => { d with root }

/-- Where a file is refused: how many characters were left. -/
structure Refusal where
  left : Nat

def takeLines : (fuel : Nat) → Document → List Char → Except Refusal Document
  | 0, d, _ => .ok d
  | fuel + 1, d, s =>
    match skipComment (skipGaps s) with
    | [] => .ok d
    | rest =>
      match takeBreak rest with
      | some rest => takeLines fuel d rest
      | none =>
        match takeLine (skipGaps s) with
        | none => .error ⟨rest.length⟩
        | some (line, after) =>
          match d.add line with
          | none => .error ⟨rest.length⟩
          | some d => takeLines fuel d after

def emptyRoot : Table := ⟨.header, []⟩

/-- A mark of the byte order at the start does not count. -/
def skipByteOrderMark : List Char → List Char
  | '\ufeff' :: rest => rest
  | s => s

def parse (s : List Char) : Except Refusal Entries :=
  let s := skipByteOrderMark s
  (takeLines (s.length + 1) ⟨emptyRoot, []⟩ s).map fun d => d.root.entries

/-- A message with the line and the column of the character at which a file was refused. -/
def refusalMessage (text : List Char) (r : Refusal) : String :=
  let before := text.take (text.length - r.left)
  let line := before.count '\n' + 1
  let column := (before.reverse.takeWhile (· != '\n')).length + 1
  s!"TOML parse error at line {line}, column {column}"

end CallArchive.Toml
