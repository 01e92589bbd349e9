import CallArchive.Decimal.Binary64
import CallArchive.Text.Digits
import CallArchive.Time.Calendar
import CallArchive.Toml.Item
import CallArchive.Toml.Quoted

/-!
# Plain values of configuration files

Numbers, dates and the two truth values. Integers fit 64 bits with a sign; digits may be grouped by
underscores, each between two digits. What a date or a fraction says is checked and then forgotten,
because nothing in a configuration is one.
-/

namespace CallArchive.Toml

/-- The digits after the first one. An underscore must have a digit on both sides. -/
def takeMoreDigits (isDigit : Char → Bool) : List Char → Option (List Char × List Char)
  | [] => some ([], [])
  | '_' :: d :: rest =>
    if isDigit d then (takeMoreDigits isDigit rest).map fun p => (d :: p.1, p.2) else none
  | c :: rest =>
    if c = '_' then none
    else if isDigit c then (takeMoreDigits isDigit rest).map fun p => (c :: p.1, p.2)
    else some ([], c :: rest)

/-- Digits of a base, with underscores between them; the underscores are dropped. -/
def takeGrouped (isDigit : Char → Bool) : List Char → Option (List Char × List Char)
  | [] => none
  | c :: rest =>
    if isDigit c then (takeMoreDigits isDigit rest).map fun p => (c :: p.1, p.2) else none

def maxInteger : Int := 2 ^ 63 - 1

def minInteger : Int := -2 ^ 63

def ofBase (base : Nat) (ds : List Char) : Nat :=
  ds.foldl (fun n c => base * n + (hexValue? c).getD 0) 0

def isBaseDigit (base : Nat) (c : Char) : Bool := (hexValue? c).any (· < base)

def boundedInteger (z : Int) : Option Item :=
  if minInteger ≤ z ∧ z ≤ maxInteger then some (.integer z) else none

/-- A number to a base that its first two characters name. -/
def takeBased (base : Nat) (s : List Char) : Option (Item × List Char) := do
  let (ds, rest) ← takeGrouped (isBaseDigit base) s
  return (← boundedInteger (ofBase base ds), rest)

def takeSign : List Char → Int × List Char
  | '+' :: rest => (1, rest)
  | '-' :: rest => (-1, rest)
  | s => (1, s)

/-- The whole part of a decimal number, which has no leading zeros. -/
def takeWhole (s : List Char) : Option (List Char × List Char) :=
  match s with
  | '0' :: rest => some (['0'], rest)
  | _ => takeGrouped Char.isDigit s

/-- The digits of a fraction and the exponent, if either is there. -/
def takeFloatTail (s : List Char) : Option (List Char × Int × List Char) :=
  match s with
  | '.' :: rest => do
    let (fraction, rest) ← takeGrouped Char.isDigit rest
    match takePower rest with
    | some (power, rest) => return (fraction, power, rest)
    | none => if startsPower rest then none else return (fraction, 0, rest)
  | _ => (takePower s).map fun p => ([], p.1, p.2)
where
  startsPower : List Char → Bool
    | c :: _ => c == 'e' || c == 'E'
    | [] => false
  takePower : List Char → Option (Int × List Char)
    | c :: rest =>
      if c = 'e' ∨ c = 'E' then do
        let (sign, rest) := takeSign rest
        let (ds, rest) ← takeGrouped Char.isDigit rest
        return (sign * (Text.ofDigits ds : Int), rest)
      else none
    | [] => none

/-- Powers of ten beyond this are too large for any row of digits that a file holds. -/
def powerBound : Int := 100000

/-- Whether a decimal is within the range of floating-point numbers. -/
def isFinite (digits : List Char) (power : Int) : Bool :=
  let n := Text.ofDigits digits
  if n = 0 then true
  else if power < 0 then
    (Decimal.Binary64.ofRatio n (10 ^ (min (-power) powerBound).toNat)).isSome
  else (Decimal.Binary64.ofNat (n * 10 ^ (min power powerBound).toNat)).isSome

def startsWord (word : String) (s : List Char) : Option (List Char) :=
  if word.toList.isPrefixOf s then some (s.drop word.length) else none

/-- A decimal number: an integer, or one with a fraction or an exponent. One below all
floating-point numbers stands for the negative infinity; one above them stands for nothing. -/
def takeDecimal (s : List Char) : Option (Item × List Char) := do
  let (sign, s) := takeSign s
  match (startsWord "inf" s).orElse fun _ => startsWord "nan" s with
  | some rest => return (.float, rest)
  | none =>
    let (whole, rest) ← takeWhole s
    match takeFloatTail rest with
    | some (fraction, power, rest) =>
      if sign < 0 ∨ isFinite (whole ++ fraction) (power - fraction.length) then
        return (.float, rest)
      else none
    | none => return (← boundedInteger (sign * (Text.ofDigits whole : Int)), rest)

/-! ## Dates -/

def takeDigits (width : Nat) (s : List Char) : Option (Nat × List Char) := do
  let ds := s.take width
  if ds.length = width then return (← Text.readNat ds, s.drop width) else none

def takeMark (c : Char) : List Char → Option (List Char)
  | x :: rest => if x = c then some rest else none
  | [] => none

def takeDate (s : List Char) : Option (List Char) := do
  let (year, s) ← takeDigits 4 s
  let (month, s) ← takeDigits 2 (← takeMark '-' s)
  let (day, s) ← takeDigits 2 (← takeMark '-' s)
  if (Time.Date.mk year month day).IsValid then return s else none

def skipPlaces : List Char → Option (List Char)
  | '.' :: c :: rest => if c.isDigit then some (rest.dropWhile Char.isDigit) else none
  | '.' :: [] => none
  | s => some s

def takeTime (s : List Char) : Option (List Char) := do
  let (hour, s) ← takeDigits 2 s
  let (minute, s) ← takeDigits 2 (← takeMark ':' s)
  let (second, s) ← takeDigits 2 (← takeMark ':' s)
  if hour ≤ 23 ∧ minute ≤ 59 ∧ second ≤ 60 then skipPlaces s else none

/-- An offset, which need not be there. -/
def takeOffset : List Char → Option (List Char)
  | [] => some []
  | c :: rest =>
    if c = 'Z' ∨ c = 'z' then some rest
    else if c = '+' ∨ c = '-' then do
      let (hour, s) ← takeDigits 2 rest
      let (minute, s) ← takeDigits 2 (← takeMark ':' s)
      if hour ≤ 23 ∧ minute ≤ 59 then return s else none
    else some (c :: rest)

/-- A time after a date: a blank between them counts only if a time follows. -/
def takeTimeOfDay : List Char → Option (List Char)
  | [] => some []
  | c :: rest =>
    if c = 'T' ∨ c = 't' then do takeOffset (← takeTime rest)
    else if c = ' ' then
      match rest with
      | d :: _ => if d.isDigit then do takeOffset (← takeTime rest) else some (c :: rest)
      | [] => some (c :: rest)
    else some (c :: rest)

/-- Four digits and a hyphen begin a date, two and a colon a time. -/
def isDateLike : List Char → Bool
  | a :: b :: c :: d :: '-' :: _ => a.isDigit && b.isDigit && c.isDigit && d.isDigit
  | _ => false

def isTimeLike : List Char → Bool
  | a :: b :: ':' :: _ => a.isDigit && b.isDigit
  | _ => false

def takeMoment (s : List Char) : Option (Item × List Char) := do
  if isDateLike s then return (.date, ← takeTimeOfDay (← takeDate s))
  else return (.date, ← takeTime s)

/-- A value that is neither a text nor made of values. -/
def takeScalar (s : List Char) : Option (Item × List Char) :=
  if isDateLike s || isTimeLike s then takeMoment s
  else
    match s with
    | '0' :: 'x' :: rest => takeBased 16 rest
    | '0' :: 'o' :: rest => takeBased 8 rest
    | '0' :: 'b' :: rest => takeBased 2 rest
    | 't' :: 'r' :: 'u' :: 'e' :: rest => some (.bool true, rest)
    | 'f' :: 'a' :: 'l' :: 's' :: 'e' :: rest => some (.bool false, rest)
    | _ => takeDecimal s

example : (takeScalar "1_000 ".toList).map (·.2) = some [' '] := by decide +kernel

example : (takeScalar "1__0".toList).isNone = true := by decide +kernel

end CallArchive.Toml
