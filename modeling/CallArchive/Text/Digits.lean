/-!
# Decimal numerals

`readNat` reads a non-empty row of decimal digits, `readUnsigned` one with an optional plus sign,
and `digits` writes a number; `padded` writes it with leading zeros.
-/

namespace CallArchive.Text

def digitValue (c : Char) : Nat := c.toNat - '0'.toNat

def ofDigits (s : List Char) : Nat := s.foldl (fun n c => 10 * n + digitValue c) 0

def readNat (s : List Char) : Option Nat :=
  if s.isEmpty || !s.all Char.isDigit then none else some (ofDigits s)

/-- A row of digits after at most one plus sign. -/
def readUnsigned : List Char → Option Nat
  | '+' :: rest => readNat rest
  | s => readNat s

def digits (n : Nat) : List Char := Nat.toDigits 10 n

/-- At least `width` digits, filled up with zeros on the left. -/
def padded (width n : Nat) : List Char :=
  let ds := digits n
  List.replicate (width - ds.length) '0' ++ ds

def hexDigit (n : Nat) : Char := Nat.digitChar n

example : readUnsigned ['+', '0', '7'] = some 7 ∧ readUnsigned ['+'] = none := by decide

example : padded 3 7 = ['0', '0', '7'] := by decide

end CallArchive.Text
