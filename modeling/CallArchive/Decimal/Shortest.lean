import CallArchive.Decimal.Binary64

/-!
# Shortest decimals

`shortest x` is the decimal with the fewest digits among those that round to `x`; of two with that
many digits it is the nearer one. The decimals that round to `x` are those between the midpoints
towards its neighbours, the midpoints included if the mantissa is even.
-/

namespace CallArchive.Decimal

/-- The decimal `digits * 10 ^ power`. -/
structure Scientific where
  digits : Nat
  power : Int
  deriving DecidableEq, Repr

namespace Binary64

/-- Whether `a / b < c / d`, for positive denominators. -/
def ratioLt (a b c d : Nat) : Bool := decide (a * d < c * b)

/-- The magnitude and the two midpoints, over one denominator. -/
structure Interval where
  low : Nat
  value : Nat
  high : Nat
  den : Nat
  closed : Bool

/-- Below a power of two the neighbour is only half as far away. -/
def interval (x : Binary64) : Interval :=
  let narrow := x.mantissa == 2 ^ 52 && decide (minExponent < x.exponent)
  let up := if 0 ≤ x.exponent then 2 ^ x.exponent.toNat else 1
  let down := if 0 ≤ x.exponent then 1 else 2 ^ (-x.exponent).toNat
  { low := (4 * x.mantissa - if narrow then 1 else 2) * up
    value := 4 * x.mantissa * up
    high := (4 * x.mantissa + 2) * up
    den := 4 * down
    closed := x.mantissa % 2 == 0 }

/-- Whether `n * 10 ^ power` lies in the interval. -/
def Interval.holds (i : Interval) (n : Nat) (power : Int) : Bool :=
  let num := if 0 ≤ power then n * 10 ^ power.toNat else n
  let den := if 0 ≤ power then 1 else 10 ^ (-power).toNat
  if i.closed then !ratioLt num den i.low i.den && !ratioLt i.high i.den num den
  else ratioLt i.low i.den num den && ratioLt num den i.high i.den

/-- The two neighbours of the value among the multiples of `10 ^ power`, and whether the upper one
is nearer. -/
def Interval.neighbours (i : Interval) (power : Int) : Nat × Nat × Bool :=
  let num := if 0 ≤ power then i.value else i.value * 10 ^ (-power).toNat
  let den := if 0 ≤ power then i.den * 10 ^ power.toNat else i.den
  let n := num / den
  let r := num % den
  (n, n + 1, decide (den < 2 * r) || (decide (2 * r = den) && n % 2 == 1))

/-- The best decimal on the grid of multiples of `10 ^ power`, if one rounds to the number. -/
def Interval.onGrid (i : Interval) (power : Int) : Option Scientific :=
  let (a, b, upper) := i.neighbours power
  let lowHolds := decide (0 < a) && i.holds a power
  let highHolds := i.holds b power
  if lowHolds && (!highHolds || !upper) then some ⟨a, power⟩
  else if highHolds then some ⟨b, power⟩
  else none

/-- The power of ten at or below the magnitude of a quotient. -/
def leadingPower (num den : Nat) : Int :=
  let guess : Int := (((Nat.log2 num : Int) - (Nat.log2 den : Int)) * 30103) / 100000
  let atLeast (p : Int) : Bool :=
    if 0 ≤ p then decide (den * 10 ^ p.toNat ≤ num) else decide (den ≤ num * 10 ^ (-p).toNat)
  if atLeast (guess + 1) then guess + 1 else if atLeast guess then guess else guess - 1

/-- Tries one digit, then two, and so on; seventeen always suffice. -/
def Interval.search (i : Interval) (leading : Int) : Nat → Int → Option Scientific
  | 0, _ => none
  | fuel + 1, count =>
    match i.onGrid (leading + 1 - count) with
    | some d => some d
    | none => i.search leading fuel (count + 1)

def stripZeros (d : Scientific) : Nat → Scientific
  | 0 => d
  | fuel + 1 =>
    if d.digits % 10 = 0 ∧ d.digits ≠ 0 then stripZeros ⟨d.digits / 10, d.power + 1⟩ fuel else d

def shortest (x : Binary64) : Scientific :=
  if x.mantissa = 0 then ⟨0, 0⟩
  else
    let i := x.interval
    match i.search (leadingPower i.value i.den) 18 1 with
    | some d => stripZeros d 20
    | none => ⟨0, 0⟩

example : (ofRatio 1 10).map shortest = some ⟨1, -1⟩ := by decide +kernel

example : (⟨false, 1, -1074⟩ : Binary64).shortest = ⟨5, -324⟩ := by decide +kernel

example : (ofNat (2 ^ 64)).map shortest = some ⟨18446744073709552, 3⟩ := by decide +kernel

end Binary64

end CallArchive.Decimal
