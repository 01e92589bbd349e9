/-!
# Percent escapes

An escape is a percent sign and two hexadecimal digits. `firstBadEscape` finds the first percent
sign that starts none; `WellFormed` texts have no such sign. `normalize` writes the digits of an
escape in upper case and decodes the escapes of unreserved characters; all else stays as it is.
-/

namespace CallArchive.Address

def isHexDigit (c : Char) : Bool :=
  c.isDigit || (decide ('a' ≤ c) && decide (c ≤ 'f')) || (decide ('A' ≤ c) && decide (c ≤ 'F'))

def hexValue (c : Char) : Nat :=
  if c.isDigit then c.toNat - '0'.toNat
  else if 'a' ≤ c then c.toNat - 'a'.toNat + 10
  else c.toNat - 'A'.toNat + 10

/-- Characters that may stand for themselves everywhere in an address. -/
def isUnreserved (c : Char) : Bool :=
  c.isAlphanum || c == '-' || c == '.' || c == '_' || c == '~'

/-- The offset in bytes of the first percent sign without two hexadecimal digits after it. -/
def firstBadEscape : List Char → Option Nat
  | [] => none
  | '%' :: a :: b :: rest =>
    if isHexDigit a && isHexDigit b then (firstBadEscape rest).map (· + 3) else some 0
  | c :: rest =>
    if c = '%' then some 0 else (firstBadEscape rest).map (· + c.utf8Size)

/-- Every percent sign is followed by two hexadecimal digits. -/
def WellFormed : List Char → Prop
  | [] => True
  | '%' :: a :: b :: rest => isHexDigit a = true ∧ isHexDigit b = true ∧ WellFormed rest
  | c :: rest => c ≠ '%' ∧ WellFormed rest

/-- The character that an escape with these digits denotes, if it is of one byte. -/
def escapedChar (a b : Char) : Char := Char.ofNat (16 * hexValue a + hexValue b)

/-- An escape in its normal form. -/
def normalEscape (a b : Char) : List Char :=
  if isUnreserved (escapedChar a b) then [escapedChar a b] else ['%', a.toUpper, b.toUpper]

def normalize : List Char → List Char
  | [] => []
  | '%' :: a :: b :: rest => normalEscape a b ++ normalize rest
  | c :: rest => c :: normalize rest

theorem firstBadEscape_eq_none_iff (s : List Char) : firstBadEscape s = none ↔ WellFormed s := by
  fun_induction firstBadEscape s with
  | case1 => simp [WellFormed]
  | case2 a b rest h ih =>
    simp only [Bool.and_eq_true] at h
    simp [WellFormed, h, ih]
  | case3 a b rest h =>
    simp only [Bool.and_eq_true, not_and] at h
    simp only [WellFormed, reduceCtorEq, false_iff, not_and]
    exact fun ha hb => absurd hb (h ha)
  | case4 rest h =>
    unfold WellFormed
    split <;> grind [Option.map_eq_none_iff]
  | case5 c rest h hc ih =>
    unfold WellFormed
    split <;> grind [Option.map_eq_none_iff]

example : normalize "%7e%2f%41".toList = "~%2FA".toList := by decide

end CallArchive.Address
