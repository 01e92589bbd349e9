import CallArchive.Arithmetic

/-!
# Binary floating-point numbers of 64 bits

A finite number is a sign, a mantissa of at most 53 bits and a power of two. `ofRatio` rounds a
quotient to the nearest such number, a tie to the even mantissa; products and quotients are exact
up to that one rounding. All of it is arithmetic on natural numbers.
-/

namespace CallArchive.Decimal

/-- The number `± mantissa * 2 ^ exponent`. A mantissa below `2 ^ 52` has the least exponent. -/
structure Binary64 where
  negative : Bool
  mantissa : Nat
  exponent : Int
  deriving DecidableEq, Repr

namespace Binary64

def minExponent : Int := -1074

def maxExponent : Int := 971

def zero : Binary64 := ⟨false, 0, minExponent⟩

def isZero (x : Binary64) : Bool := x.mantissa == 0

def negate (x : Binary64) : Binary64 := { x with negative := !x.negative }

/-- The quotient to the nearest integer, a tie to the even one. -/
def roundDiv (num den : Nat) : Nat :=
  let q := num / den
  let r := num % den
  if 2 * r < den then q else if den < 2 * r then q + 1 else if q % 2 = 0 then q else q + 1

/-- The quotient `num / den` measured in units of `2 ^ q`, as a numerator and a denominator. -/
def scaled (num den : Nat) (q : Int) : Nat × Nat :=
  if 0 ≤ q then (num, den * 2 ^ q.toNat) else (num * 2 ^ (-q).toNat, den)

/-- The exponent at which `num / den` has a mantissa of 53 bits, or the least one. -/
def unitOf (num den : Nat) : Int :=
  let guess : Int := (Nat.log2 num : Int) - (Nat.log2 den : Int) - 53
  let s := scaled num den guess
  max minExponent (if 2 ^ 53 ≤ s.1 / s.2 then guess + 1 else guess)

/-- The nearest number to `num / den`, or `none` if that is beyond the largest finite one. -/
def ofRatio (num den : Nat) : Option Binary64 :=
  if num = 0 then some zero
  else
    let q := unitOf num den
    let s := scaled num den q
    let m := roundDiv s.1 s.2
    let x : Binary64 := if m = 2 ^ 53 then ⟨false, 2 ^ 52, q + 1⟩ else ⟨false, m, q⟩
    if maxExponent < x.exponent then none else some x

def ofNat (n : Nat) : Option Binary64 := ofRatio n 1

/-- The magnitude as a numerator and a denominator. -/
def ratio (x : Binary64) : Nat × Nat :=
  if 0 ≤ x.exponent then (x.mantissa * 2 ^ x.exponent.toNat, 1)
  else (x.mantissa, 2 ^ (-x.exponent).toNat)

/-- The product of the magnitudes. -/
def mul (x y : Binary64) : Option Binary64 :=
  ofRatio (x.ratio.1 * y.ratio.1) (x.ratio.2 * y.ratio.2)

/-- The quotient of the magnitudes, for a divisor that is not zero. -/
def div (x y : Binary64) : Option Binary64 :=
  ofRatio (x.ratio.1 * y.ratio.2) (x.ratio.2 * y.ratio.1)

example : ofNat 3 = some ⟨false, 3 * 2 ^ 51, -51⟩ := by decide +kernel

example : ofRatio (10 ^ 400) 1 = none := by decide +kernel

example : ofRatio 1 (10 ^ 400) = some zero := by decide +kernel

end Binary64

end CallArchive.Decimal
