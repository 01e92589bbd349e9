import CallArchive.Json.Value

/-!
# Reading JSON

The reader is a machine that takes one character at a time. Its state is the stack of arrays and
objects that are still open and what it scans at the moment; `State.push` is one step and
`State.finish` the verdict at the end of the text. A text that stops while more could follow ends
too early (`unexpectedEnd`); everything else that is refused is `unexpected`.

At most `maxDepth` arrays and objects may be open at once.
-/

namespace CallArchive.Json

inductive Category where
  | unexpectedEnd
  | unexpected
  deriving DecidableEq, Repr

/-- Why and where a text is not a JSON document. -/
structure ParseError where
  category : Category
  line : Nat
  column : Nat
  deriving DecidableEq, Repr

def ParseError.message (e : ParseError) : String :=
  let what := match e.category with
    | .unexpectedEnd => "unexpected end of text"
    | .unexpected => "unexpected character"
  s!"{what} at line {e.line} column {e.column}"

namespace Parser

def maxDepth : Nat := 127

/-- An open container: the items so far, last first, or the members so far and the next key. -/
inductive Frame where
  | items (done : List Value)
  | members (done : Members) (key : String)
  deriving Repr

/-- What a text in quotes is for. -/
inductive Role where
  | value
  | key (done : Members)
  deriving Repr

/-- Where the scan of a text in quotes stands. A code unit that is the first half of a pair waits
for the second as `high`. -/
inductive TextScan where
  | plain
  | escape
  | hex (high : Option Nat) (window : List Char)
  | pairMark (high : Nat)
  | pairLetter (high : Nat)
  deriving Repr

inductive NumberScan where
  | sign
  | zero
  | whole
  | point
  | fraction
  | mark
  | powerSign
  | power
  deriving DecidableEq, Repr

inductive Scan where
  | value
  | firstItem
  | firstKey
  | key (done : Members)
  | colon (done : Members) (key : String)
  | after (value : Value)
  | word (left : List Char) (value : Value)
  | text (role : Role) (done : List Char) (scan : TextScan)
  | number (done : List Char) (scan : NumberScan)
  deriving Repr

structure State where
  stack : List Frame
  scan : Scan
  deriving Repr

def start : State := ⟨[], .value⟩

def isSpace (c : Char) : Bool := c == ' ' || c == '\n' || c == '\t' || c == '\r'

def isHighHalf (n : Nat) : Bool := decide (0xD800 ≤ n) && decide (n ≤ 0xDBFF)

def isLowHalf (n : Nat) : Bool := decide (0xDC00 ≤ n) && decide (n ≤ 0xDFFF)

def hexValue? (c : Char) : Option Nat :=
  if c.isDigit then some (c.toNat - '0'.toNat)
  else if 'a' ≤ c ∧ c ≤ 'f' then some (c.toNat - 'a'.toNat + 10)
  else if 'A' ≤ c ∧ c ≤ 'F' then some (c.toNat - 'A'.toNat + 10)
  else none

/-- The number of four hexadecimal digits. -/
def hexNumber? (window : List Char) : Option Nat :=
  if window.length = 4 then
    window.foldl (fun n c => do return 16 * (← n) + (← hexValue? c)) (some 0)
  else none

/-- The character after a backslash that stands for another one. -/
def simpleEscape? : Char → Option Char
  | '"' => some '"'
  | '\\' => some '\\'
  | '/' => some '/'
  | 'b' => some (Char.ofNat 8)
  | 'f' => some (Char.ofNat 12)
  | 'n' => some '\n'
  | 'r' => some '\r'
  | 't' => some '\t'
  | _ => none

def endText (stack : List Frame) (done : List Char) : Role → State
  | .value => ⟨stack, .after (.text (String.ofList done.reverse))⟩
  | .key members => ⟨stack, .colon members (String.ofList done.reverse)⟩

/-- A code unit has been read: a character, half of a pair, or nothing that may stand here. -/
def takeUnit (stack : List Frame) (role : Role) (done : List Char) (high : Option Nat) (n : Nat) :
    Option State :=
  match high with
  | some h =>
    if isLowHalf n then
      let c := Char.ofNat (0x10000 + (h - 0xD800) * 0x400 + (n - 0xDC00))
      some ⟨stack, .text role (c :: done) .plain⟩
    else none
  | none =>
    if isLowHalf n then none
    else if isHighHalf n then some ⟨stack, .text role done (.pairMark n)⟩
    else some ⟨stack, .text role (Char.ofNat n :: done) .plain⟩

/-- An escape looks at four bytes before it judges them. -/
def pushText (stack : List Frame) (role : Role) (done : List Char) (c : Char) :
    TextScan → Option State
  | .plain =>
    if c = '"' then some (endText stack done role)
    else if c = '\\' then some ⟨stack, .text role done .escape⟩
    else if c.toNat < 0x20 then none
    else some ⟨stack, .text role (c :: done) .plain⟩
  | .escape =>
    if c = 'u' then some ⟨stack, .text role done (.hex none [])⟩
    else (simpleEscape? c).map fun x => ⟨stack, .text role (x :: done) .plain⟩
  | .hex high window =>
    let window := window ++ [c]
    if (window.map Char.utf8Size).sum < 4 then some ⟨stack, .text role done (.hex high window)⟩
    else (hexNumber? window).bind (takeUnit stack role done high)
  | .pairMark high =>
    if c = '\\' then some ⟨stack, .text role done (.pairLetter high)⟩ else none
  | .pairLetter high =>
    if c = 'u' then some ⟨stack, .text role done (.hex (some high) [])⟩ else none

/-- The scan after one more character of a number, or `none` if the number ends before it. -/
def NumberScan.next? (c : Char) : NumberScan → Option NumberScan
  | .sign => if c = '0' then some .zero else if c.isDigit then some .whole else none
  | .zero => if c = '.' then some .point else if c = 'e' ∨ c = 'E' then some .mark else none
  | .whole =>
    if c.isDigit then some .whole
    else if c = '.' then some .point
    else if c = 'e' ∨ c = 'E' then some .mark
    else none
  | .point => if c.isDigit then some .fraction else none
  | .fraction =>
    if c.isDigit then some .fraction else if c = 'e' ∨ c = 'E' then some .mark else none
  | .mark =>
    if c = '+' ∨ c = '-' then some .powerSign else if c.isDigit then some .power else none
  | .powerSign => if c.isDigit then some .power else none
  | .power => if c.isDigit then some .power else none

def NumberScan.isComplete : NumberScan → Bool
  | .zero | .whole | .fraction | .power => true
  | .sign | .point | .mark | .powerSign => false

/-- The first character of a value. -/
def pushValue (stack : List Frame) (c : Char) : Option State :=
  if isSpace c then some ⟨stack, .value⟩
  else if c = '"' then some ⟨stack, .text .value [] .plain⟩
  else if c = '[' then if stack.length < maxDepth then some ⟨stack, .firstItem⟩ else none
  else if c = '\x7b' then if stack.length < maxDepth then some ⟨stack, .firstKey⟩ else none
  else if c = 'n' then some ⟨stack, .word ['u', 'l', 'l'] .null⟩
  else if c = 't' then some ⟨stack, .word ['r', 'u', 'e'] (.bool true)⟩
  else if c = 'f' then some ⟨stack, .word ['a', 'l', 's', 'e'] (.bool false)⟩
  else if c = '-' then some ⟨stack, .number [c] .sign⟩
  else if c = '0' then some ⟨stack, .number [c] .zero⟩
  else if c.isDigit then some ⟨stack, .number [c] .whole⟩
  else none

/-- A character after a complete value. -/
def pushAfter (stack : List Frame) (value : Value) (c : Char) : Option State :=
  if isSpace c then some ⟨stack, .after value⟩
  else
    match stack with
    | [] => none
    | .items done :: rest =>
      if c = ',' then some ⟨.items (value :: done) :: rest, .value⟩
      else if c = ']' then some ⟨rest, .after (.array (value :: done).reverse)⟩
      else none
    | .members done key :: rest =>
      if c = ',' then some ⟨rest, .key (done.insert key value)⟩
      else if c = '\x7d' then some ⟨rest, .after (.object (done.insert key value))⟩
      else none

/-- One step, or `none` if the character may not stand here. -/
def State.push (st : State) (c : Char) : Option State :=
  match st.scan with
  | .value => pushValue st.stack c
  | .firstItem =>
    if isSpace c then some st
    else if c = ']' then some ⟨st.stack, .after (.array [])⟩
    else pushValue (.items [] :: st.stack) c
  | .firstKey =>
    if isSpace c then some st
    else if c = '\x7d' then some ⟨st.stack, .after (.object [])⟩
    else if c = '"' then some ⟨st.stack, .text (.key []) [] .plain⟩
    else none
  | .key done =>
    if isSpace c then some st
    else if c = '"' then some ⟨st.stack, .text (.key done) [] .plain⟩
    else none
  | .colon done key =>
    if isSpace c then some st
    else if c = ':' then some ⟨.members done key :: st.stack, .value⟩
    else none
  | .after value => pushAfter st.stack value c
  | .word left value =>
    match left with
    | [] => pushAfter st.stack value c
    | [x] => if c = x then some ⟨st.stack, .after value⟩ else none
    | x :: more => if c = x then some ⟨st.stack, .word more value⟩ else none
  | .text role done scan => pushText st.stack role done c scan
  | .number done scan =>
    match scan.next? c with
    | some next => some ⟨st.stack, .number (c :: done) next⟩
    | none =>
      if scan.isComplete && !(scan == .zero && c.isDigit) then
        (Number.ofLiteral done.reverse).bind fun n => pushAfter st.stack (.number n) c
      else none

/-- The verdict at the end of the text. -/
def State.finish (st : State) : Except Category Value :=
  match st.scan with
  | .after value => if st.stack.isEmpty then .ok value else .error .unexpectedEnd
  | .number done scan =>
    if scan.isComplete then
      match Number.ofLiteral done.reverse with
      | some n => if st.stack.isEmpty then .ok (.number n) else .error .unexpectedEnd
      | none => .error .unexpected
    else .error .unexpectedEnd
  | _ => .error .unexpectedEnd

/-- Runs the machine; `line` and `column` are those of the last character taken. -/
def run (line column : Nat) (st : State) : List Char → Except ParseError Value
  | [] =>
    match st.finish with
    | .ok v => .ok v
    | .error category => .error ⟨category, line, column⟩
  | c :: rest =>
    let line' := if c = '\n' then line + 1 else line
    let column' := if c = '\n' then 0 else column + 1
    match st.push c with
    | some next => run line' column' next rest
    | none => .error ⟨.unexpected, line', column'⟩

end Parser

/-- The value that a text denotes. -/
def parse (text : String) : Except ParseError Value := Parser.run 1 0 Parser.start text.toList

end CallArchive.Json
