import CallArchive.Json.Value
import CallArchive.Store.Rows
import CallArchive.Store.Schema
import CallArchive.Text.Digits

/-!
# Cells

A cell is what stands in one column of one row. `Cell.ofText` is what a text becomes when it is put
into a column: in a column of integers a numeral with a whole value becomes that number, and
everything else stays as it is.
-/

namespace CallArchive.Store

inductive Cell where
  | null
  | integer (value : Int)
  | text (value : String)
  | bytes (value : Bytes)
  deriving DecidableEq, Repr

namespace Cell

def ofText? : Option String → Cell
  | some s => .text s
  | none => .null

def ofId? : Option RowId → Cell
  | some id => .integer id
  | none => .null

def ofFlag : Content Int → Cell
  | .own flag => .integer flag
  | .foreign s => .text s

def ofBytes? : Option (Content Bytes) → Cell
  | some (.own b) => .bytes b
  | some (.foreign s) => .text s
  | none => .null

/-! ## Reading -/

def integer? : Cell → Option Int
  | .integer z => some z
  | _ => none

def text? : Cell → Option String
  | .text s => some s
  | _ => none

/-- A text or nothing. -/
def optionalText? : Cell → Option (Option String)
  | .null => some none
  | .text s => some (some s)
  | _ => none

/-- An id or nothing. -/
def optionalId? : Cell → Option (Option RowId)
  | .null => some none
  | .integer z => some (some z)
  | _ => none

def flag? : Cell → Option (Content Int)
  | .integer z => some (.own z)
  | .text s => some (.foreign s)
  | _ => none

def optionalBytes? : Cell → Option (Option (Content Bytes))
  | .null => some none
  | .text s => some (some (.foreign s))
  | .bytes b => some (some (.own b))
  | _ => none

theorem optionalText?_ofText? (s : Option String) : (ofText? s).optionalText? = some s := by
  cases s <;> rfl

theorem optionalId?_ofId? (id : Option RowId) : (ofId? id).optionalId? = some id := by
  cases id <;> rfl

theorem flag?_ofFlag (c : Content Int) : (ofFlag c).flag? = some c := by cases c <;> rfl

theorem optionalBytes?_ofBytes? (c : Option (Content Bytes)) :
    (ofBytes? c).optionalBytes? = some c := by
  rcases c with _ | _ | _ <;> rfl

/-! ## Documents -/

def value : Cell → Json.Value
  | .null => .null
  | .integer z => .ofInt z
  | .text s => .text s
  | .bytes b => .array (b.map fun x => .ofNat x.toNat)

def ofValue? : Json.Value → Option Cell
  | .null => some .null
  | .number (.integer z) => some (.integer z)
  | .text s => some (.text s)
  | .array items =>
    (items.mapM fun v : Json.Value => v.int?.map fun z => UInt8.ofNat z.toNat).map .bytes
  | _ => none

/-! ## Numerals -/

def isSpace (c : Char) : Bool := c ∈ [' ', '\t', '\n', '\x0b', '\x0c', '\r']

/-- Digits with an optional sign in front. -/
def signedDigits? : List Char → Option Int
  | '-' :: ds => (Text.readNat ds).map fun n => -(n : Int)
  | '+' :: ds => (Text.readNat ds).map Int.ofNat
  | ds => (Text.readNat ds).map Int.ofNat

/-- No power of ten beyond this one takes part in a number of 64 bits. -/
def maxPower : Nat := 99

/-- A number times a power of ten, if that is whole. -/
def shift? (n : Nat) (power : Int) : Option Nat :=
  if maxPower < power.natAbs then none
  else if 0 ≤ power then some (n * 10 ^ power.toNat)
  else if n % 10 ^ power.natAbs = 0 then some (n / 10 ^ power.natAbs)
  else none

/-- The value of a numeral without a sign: digits, perhaps with a point or a power of ten. -/
def unsignedWhole? (s : List Char) : Option Nat := do
  let whole := s.takeWhile Char.isDigit
  let (fraction, s) := match s.dropWhile Char.isDigit with
    | '.' :: s => (s.takeWhile Char.isDigit, s.dropWhile Char.isDigit)
    | s => ([], s)
  let power ← match s with
    | [] => some 0
    | c :: s => if c = 'e' ∨ c = 'E' then signedDigits? s else none
  if whole.isEmpty && fraction.isEmpty then none
  shift? (Text.ofDigits (whole ++ fraction)) (power - fraction.length)

/-- The value of a numeral between spaces, if it is a whole number of 64 bits. -/
def whole? (s : List Char) : Option Int := do
  let s := ((s.dropWhile isSpace).reverse.dropWhile isSpace).reverse
  let z ← match s with
    | '-' :: s => (unsignedWhole? s).map fun n => -(n : Int)
    | '+' :: s => (unsignedWhole? s).map Int.ofNat
    | s => (unsignedWhole? s).map Int.ofNat
  if -2 ^ 63 ≤ z ∧ z < 2 ^ 63 then some z else none

/-- What a text becomes in a column. -/
def ofText (kind : ColumnKind) (s : String) : Cell :=
  match kind, whole? s.toList with
  | .integer, some z => .integer z
  | _, _ => .text s

example : whole? " -12.50e1 ".toList = some (-125) ∧ whole? "1.5".toList = none
    ∧ whole? "".toList = none := by decide +kernel

end Cell

end CallArchive.Store
