import CallArchive.Decimal.Shortest
import CallArchive.Text.Cut
import CallArchive.Text.Digits

/-!
# Numbers of JSON documents

An integer literal that fits 64 bits, signed or unsigned, is kept exactly; any other literal is a
binary floating-point number. `ofLiteral` reads a literal whose grammar has been checked: the first
digits that fit 64 bits make a significand, and a power of ten is multiplied in or divided out, each
step rounded. `Number.chars` writes the fewest digits that round to the number.
-/

namespace CallArchive.Json

open Decimal

inductive Number where
  | integer (value : Int)
  | float (value : Binary64)
  deriving DecidableEq, Repr

namespace Number

def maxUnsigned : Nat := 2 ^ 64 - 1

/-- The largest exponent of a power of ten that a floating-point number can hold. -/
def maxPower : Nat := 308

/-- The digits taken up while the significand fits 64 bits, and how many were left. -/
def significand : Nat → List Char → Nat × Nat
  | n, [] => (n, 0)
  | n, c :: rest =>
    let next := 10 * n + Text.digitValue c
    if maxUnsigned < next then (n, rest.length + 1) else significand next rest

/-- Divides by a power of ten in steps of at most `10 ^ 308`. -/
def shrink (x : Binary64) (power : Nat) : Option Binary64 :=
  if power ≤ maxPower then do x.div (← Binary64.ofNat (10 ^ power))
  else if x.isZero then some x
  else do
    let y ← x.div (← Binary64.ofNat (10 ^ maxPower))
    shrink y (power - maxPower)
termination_by power
decreasing_by simp [maxPower] at *; omega

/-- The significand times a power of ten, or `none` if that is too large. -/
def scale (significand : Nat) (power : Int) : Option Binary64 := do
  let x ← Binary64.ofNat significand
  if power < 0 then shrink x (-power).toNat
  else if power.toNat ≤ maxPower then x.mul (← Binary64.ofNat (10 ^ power.toNat))
  else if x.isZero then some x
  else none

def signed (negative : Bool) (x : Binary64) : Number :=
  .float (if negative then x.negate else x)

/-- A literal without fraction and exponent. -/
def ofWhole (negative : Bool) (whole : List Char) : Option Number :=
  match significand 0 whole with
  | (n, 0) =>
    if negative then
      if 0 < n ∧ n ≤ 2 ^ 63 then some (.integer (-(n : Int)))
      else (Binary64.ofNat n).map (signed true)
    else some (.integer n)
  | (n, left + 1) => (scale n (left + 1 : Nat)).map (signed negative)

/-- The parts of a literal: its sign, its whole part, its fraction and its exponent. -/
structure Literal where
  negative : Bool
  whole : List Char
  fraction : List Char
  power : Option Int

/-- An exponent with its optional sign. -/
def readPower : List Char → Int
  | '-' :: ds => -(Text.ofDigits ds : Int)
  | '+' :: ds => Text.ofDigits ds
  | ds => Text.ofDigits ds

def Literal.ofChars (s : List Char) : Literal :=
  let (negative, s) := match s with
    | '-' :: rest => (true, rest)
    | _ => (false, s)
  let whole := s.takeWhile Char.isDigit
  let s := s.dropWhile Char.isDigit
  let (fraction, s) := match s with
    | '.' :: rest => (rest.takeWhile Char.isDigit, rest.dropWhile Char.isDigit)
    | _ => ([], s)
  { negative, whole, fraction
    power := match s with
      | [] => none
      | _ :: rest => some (readPower rest) }

/-- The number of a well-formed literal, or `none` if it is too large. -/
def ofLiteral (s : List Char) : Option Number :=
  let l := Literal.ofChars s
  if l.fraction.isEmpty && l.power.isNone then ofWhole l.negative l.whole
  else
    let (n, skipped) := significand 0 l.whole
    let (n', left) := significand n l.fraction
    let power := (skipped : Int) - ((l.fraction.length - left : Nat) : Int) + l.power.getD 0
    (scale n' power).map (signed l.negative)

/-- Positional notation is for magnitudes from `10 ^ -5` up to `10 ^ 16`. -/
def leastPositional : Int := -5

def firstScientific : Int := 16

/-- A point after the first digit, and the power of ten with its sign. -/
def scientificChars (ds : List Char) (leading : Int) : List Char :=
  let mantissa := match ds with
    | [] => []
    | [d] => [d]
    | d :: rest => d :: '.' :: rest
  let sign := if leading < 0 then '-' else '+'
  mantissa ++ 'e' :: sign :: Text.digits leading.natAbs

/-- Digits with the point after the power of ten zero, and at least one digit on both sides. -/
def positionalChars (ds : List Char) (power : Int) : List Char :=
  if 0 ≤ power then ds ++ List.replicate power.toNat '0' ++ ['.', '0']
  else
    let places := (-power).toNat
    if places < ds.length then ds.take (ds.length - places) ++ '.' :: ds.drop (ds.length - places)
    else '0' :: '.' :: (List.replicate (places - ds.length) '0' ++ ds)

def floatChars (x : Binary64) : List Char :=
  let d := x.shortest
  let ds := Text.digits d.digits
  let leading := d.power + ds.length - 1
  let body :=
    if x.isZero then ['0', '.', '0']
    else if leading < leastPositional ∨ firstScientific ≤ leading then scientificChars ds leading
    else positionalChars ds d.power
  if x.negative then '-' :: body else body

def integerChars (z : Int) : List Char :=
  if z < 0 then '-' :: Text.digits z.natAbs else Text.digits z.natAbs

def chars : Number → List Char
  | .integer z => integerChars z
  | .float x => floatChars x

example : (ofLiteral "1e3".toList).map (String.ofList ∘ chars) = some "1000.0" := by
  decide +kernel

example : (ofLiteral "-0".toList).map (String.ofList ∘ chars) = some "-0.0" := by
  decide +kernel

example : (ofLiteral "18446744073709551616".toList).map (String.ofList ∘ chars)
    = some "1.8446744073709552e+19" := by
  decide +kernel

end Number

end CallArchive.Json
