import CallArchive.Text.Digits

/-!
# Quoted texts of configuration files

A text stands in double quotes with escapes (basic) or in single quotes as it is (literal), and both
kinds can be long, in three quotes, with line breaks. `quote` picks the plainest form that can hold
a text, and `takeQuoted` reads a text of any form at the start of a list of characters.
-/

namespace CallArchive.Toml

inductive Form where
  | basic
  | literal
  | longBasic
  | longLiteral
  deriving DecidableEq, Repr

namespace Form

def isLong : Form → Bool
  | .basic | .literal => false
  | .longBasic | .longLiteral => true

def isEscaped : Form → Bool
  | .basic | .longBasic => true
  | .literal | .longLiteral => false

def mark (f : Form) : Char := if f.isEscaped then '"' else '\''

def delimiter (f : Form) : List Char := List.replicate (if f.isLong then 3 else 1) f.mark

end Form

/-! ## Writing -/

/-- Control characters other than tabs and line breaks can only be written by an escape. -/
def needsCode (c : Char) : Bool :=
  (decide (c.toNat < 0x20) && c != '\t' && c != '\n') || c.toNat == 0x7f

/-- The length of the longest row of `mark`, given that of the row just before. -/
def longestRow (mark : Char) : (row : Nat) → List Char → Nat
  | row, [] => row
  | row, c :: rest =>
    if c = mark then longestRow mark (row + 1) rest else max row (longestRow mark 0 rest)

/-- Whether a form can hold a text without escapes. -/
def Form.holds (f : Form) (s : List Char) : Bool :=
  !s.any needsCode && (f.isLong || !s.contains '\n')
    && (!f.isEscaped || !s.contains '\\')
    && decide (longestRow f.mark 0 s ≤ if f.isLong then 2 else 0)

/-- The forms in the order of preference. -/
def Form.preferred : List Form := [.basic, .literal, .longBasic, .longLiteral]

def chooseForm (s : List Char) : Form :=
  match Form.preferred.find? fun f => f.holds s with
  | some f => f
  | none => if s.contains '\n' then .longBasic else .basic

def upperHex (n : Nat) : Char := (Text.hexDigit n).toUpper

/-- A character after a row of `quotes` double quotes that stand as they are. -/
def escapedChar (long : Bool) (quotes : Nat) (c : Char) : List Char :=
  if c = '"' then if (if long then 2 else 0) ≤ quotes then ['\\', '"'] else ['"']
  else if c = '\\' then ['\\', '\\']
  else if c = Char.ofNat 8 then ['\\', 'b']
  else if c = '\t' then ['\\', 't']
  else if c = '\n' then if long then ['\n'] else ['\\', 'n']
  else if c = Char.ofNat 12 then ['\\', 'f']
  else if c = '\r' then ['\\', 'r']
  else if needsCode c then
    ['\\', 'u', '0', '0', upperHex (c.toNat / 16), upperHex (c.toNat % 16)]
  else [c]

/-- An escaped quote starts a new row. -/
def escapedChars (long : Bool) : (quotes : Nat) → List Char → List Char
  | _, [] => []
  | quotes, c :: rest =>
    let written := escapedChar long quotes c
    let next := if written = ['"'] then quotes + 1 else 0
    written ++ escapedChars long next rest

/-- A long text that has line breaks begins on a line of its own. -/
def quoteAs (f : Form) (s : List Char) : List Char :=
  let start := if f.isLong && s.contains '\n' then ['\n'] else []
  let body := if f.isEscaped then escapedChars f.isLong 0 s else s
  f.delimiter ++ start ++ body ++ f.delimiter

def quote (s : List Char) : List Char := quoteAs (chooseForm s) s

/-! ## Reading -/

/-- Characters that may stand in a text or a comment as they are. -/
def isPlain (c : Char) : Bool := c == '\t' || (decide (0x20 ≤ c.toNat) && c.toNat != 0x7f)

def isGap (c : Char) : Bool := c == ' ' || c == '\t'

def hexValue? (c : Char) : Option Nat :=
  if c.isDigit then some (c.toNat - '0'.toNat)
  else if 'a' ≤ c ∧ c ≤ 'f' then some (c.toNat - 'a'.toNat + 10)
  else if 'A' ≤ c ∧ c ≤ 'F' then some (c.toNat - 'A'.toNat + 10)
  else none

/-- The character with a number of exactly the given digits. -/
def codeChar? (ds : List Char) : Option Char := do
  let n ← ds.foldlM (fun n c => (hexValue? c).map (16 * n + ·)) 0
  if n.isValidChar then return Char.ofNat n else none

def simpleEscape? : Char → Option Char
  | 'b' => some (Char.ofNat 8)
  | 't' => some '\t'
  | 'n' => some '\n'
  | 'f' => some (Char.ofNat 12)
  | 'r' => some '\r'
  | '"' => some '"'
  | '\\' => some '\\'
  | _ => none

/-- The character of the escape after a backslash. -/
def takeEscape : List Char → Option (Char × List Char)
  | 'u' :: a :: b :: c :: d :: rest => (codeChar? [a, b, c, d]).map (·, rest)
  | 'U' :: a :: b :: c :: d :: e :: f :: g :: h :: rest =>
    (codeChar? [a, b, c, d, e, f, g, h]).map (·, rest)
  | x :: rest => (simpleEscape? x).map (·, rest)
  | [] => none

/-- A line break, of one character or of two. -/
def takeBreak : List Char → Option (List Char)
  | '\n' :: rest => some rest
  | '\r' :: '\n' :: rest => some rest
  | _ => none

/-- Skips gaps and line breaks. -/
def skipBreaks : List Char → List Char
  | '\r' :: '\n' :: rest => skipBreaks rest
  | c :: rest => if isGap c || c == '\n' then skipBreaks rest else c :: rest
  | [] => []

/-- What follows a backslash that ends a line, with the blanks of the lines after it skipped. -/
def takeContinuation (s : List Char) : Option (List Char) :=
  (takeBreak (s.dropWhile isGap)).map skipBreaks

def prepend (cs : List Char) (r : Option (List Char × List Char)) :
    Option (List Char × List Char) :=
  r.map fun p => (cs ++ p.1, p.2)

/-- The rest of a short text, up to its closing mark. -/
def takeShort (f : Form) : (fuel : Nat) → List Char → Option (List Char × List Char)
  | 0, _ => none
  | _, [] => none
  | fuel + 1, c :: rest =>
    if c = f.mark then some ([], rest)
    else if f.isEscaped && c == '\\' then do
      let (x, rest) ← takeEscape rest
      prepend [x] (takeShort f fuel rest)
    else if isPlain c then prepend [c] (takeShort f fuel rest)
    else none

/-- The marks at the end of a long text: of up to five the last three close it. -/
def takeClosing (mark : Char) (s : List Char) : Option (List Char × List Char) :=
  let row := (s.takeWhile (· == mark)).length
  if row < 3 then none
  else some (List.replicate (min row 5 - 3) mark, s.drop (min row 5))

/-- The rest of a long text, up to its closing marks. -/
def takeLong (f : Form) : (fuel : Nat) → List Char → Option (List Char × List Char)
  | 0, _ => none
  | _, [] => none
  | fuel + 1, c :: rest =>
    if c = f.mark then
      match takeClosing f.mark (c :: rest) with
      | some r => some r
      | none => prepend [c] (takeLong f fuel rest)
    else if f.isEscaped && c == '\\' then
      match takeContinuation rest with
      | some rest => takeLong f fuel rest
      | none => do
        let (x, rest) ← takeEscape rest
        prepend [x] (takeLong f fuel rest)
    else if isPlain c then prepend [c] (takeLong f fuel rest)
    else do
      let rest ← takeBreak (c :: rest)
      prepend ['\n'] (takeLong f fuel rest)

/-- A line break right after the opening marks does not count. -/
def skipFirstBreak (s : List Char) : List Char := (takeBreak s).getD s

def takeLongFrom (f : Form) (s : List Char) : Option (List Char × List Char) :=
  takeLong f (s.length + 1) (skipFirstBreak s)

/-- A text of any form. -/
def takeQuoted : List Char → Option (List Char × List Char)
  | '"' :: '"' :: '"' :: rest => takeLongFrom .longBasic rest
  | '\'' :: '\'' :: '\'' :: rest => takeLongFrom .longLiteral rest
  | '"' :: rest => takeShort .basic (rest.length + 1) rest
  | '\'' :: rest => takeShort .literal (rest.length + 1) rest
  | _ => none

/-- A text in one quote, as keys have it. -/
def takeShortQuoted : List Char → Option (List Char × List Char)
  | '"' :: rest => takeShort .basic (rest.length + 1) rest
  | '\'' :: rest => takeShort .literal (rest.length + 1) rest
  | _ => none

example : quote "a\\b".toList = "'a\\b'".toList := by decide +kernel

example : takeQuoted (quote "it's \"x\"\\\n\x7f".toList)
    = some ("it's \"x\"\\\n\x7f".toList, []) := by
  decide +kernel

end CallArchive.Toml
