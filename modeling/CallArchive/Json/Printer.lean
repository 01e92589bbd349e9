import CallArchive.Json.Value

/-!
# Written JSON

`Value.chars` writes a value without blanks, `Value.prettyChars` with one member or item a line and
two spaces a level. In a text only quotes, backslashes and control characters are escaped.
-/

namespace CallArchive.Json

/-- The escape of a control character, a quote or a backslash, else the character itself. -/
def escaped (c : Char) : List Char :=
  if c = '"' then ['\\', '"']
  else if c = '\\' then ['\\', '\\']
  else if c = '\n' then ['\\', 'n']
  else if c = '\t' then ['\\', 't']
  else if c = '\r' then ['\\', 'r']
  else if c = Char.ofNat 8 then ['\\', 'b']
  else if c = Char.ofNat 12 then ['\\', 'f']
  else if c.toNat < 0x20 then
    ['\\', 'u', '0', '0', Text.hexDigit (c.toNat / 16), Text.hexDigit (c.toNat % 16)]
  else [c]

def quoted (s : String) : List Char := '"' :: (s.toList.flatMap escaped ++ ['"'])

/-- The words of the constants. -/
def nullChars : List Char := ['n', 'u', 'l', 'l']

def boolChars : Bool → List Char
  | true => ['t', 'r', 'u', 'e']
  | false => ['f', 'a', 'l', 's', 'e']

namespace Value

mutual

def chars : Value → List Char
  | .null => nullChars
  | .bool b => boolChars b
  | .number n => n.chars
  | .text s => quoted s
  | .array [] => ['[', ']']
  | .array (x :: xs) => '[' :: (chars x ++ itemsChars xs)
  | .object [] => ['\x7b', '\x7d']
  | .object ((k, v) :: ms) => '\x7b' :: (quoted k ++ ':' :: (chars v ++ membersChars ms))
termination_by structural v => v

/-- The items after the first, and the closing bracket. -/
def itemsChars : List Value → List Char
  | [] => [']']
  | x :: xs => ',' :: (chars x ++ itemsChars xs)
termination_by structural xs => xs

def membersChars : List (String × Value) → List Char
  | [] => ['\x7d']
  | (k, v) :: ms => ',' :: (quoted k ++ ':' :: (chars v ++ membersChars ms))
termination_by structural ms => ms

end

def print (v : Value) : String := String.ofList v.chars

/-- A line break and the indentation of a level. -/
def lineBreak (level : Nat) : List Char := '\n' :: List.replicate (2 * level) ' '

mutual

def prettyChars (level : Nat) : Value → List Char
  | .null => nullChars
  | .bool b => boolChars b
  | .number n => n.chars
  | .text s => quoted s
  | .array [] => ['[', ']']
  | .array (x :: xs) =>
    '[' :: (lineBreak (level + 1) ++ prettyChars (level + 1) x ++ prettyItems level xs)
  | .object [] => ['\x7b', '\x7d']
  | .object ((k, v) :: ms) =>
    '\x7b' :: (lineBreak (level + 1) ++ quoted k ++ ':' :: ' ' :: prettyChars (level + 1) v
      ++ prettyMembers level ms)
termination_by structural v => v

def prettyItems (level : Nat) : List Value → List Char
  | [] => lineBreak level ++ [']']
  | x :: xs => ',' :: (lineBreak (level + 1) ++ prettyChars (level + 1) x ++ prettyItems level xs)
termination_by structural xs => xs

def prettyMembers (level : Nat) : List (String × Value) → List Char
  | [] => lineBreak level ++ ['\x7d']
  | (k, v) :: ms =>
    ',' :: (lineBreak (level + 1) ++ quoted k ++ ':' :: ' ' :: prettyChars (level + 1) v
      ++ prettyMembers level ms)
termination_by structural ms => ms

end

def pretty (v : Value) : String := String.ofList (v.prettyChars 0)

end Value

end CallArchive.Json
