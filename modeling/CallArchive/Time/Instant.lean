import CallArchive.Arithmetic
import CallArchive.Text.Digits
import CallArchive.Time.Calendar

/-!
# Instants

An instant counts seconds since the epoch and nanoseconds; a leap second is the one before it with
more than `10 ^ 9` nanoseconds. `chars` writes an instant as an Internet timestamp in Greenwich
time, with as many places of the second as it needs in groups of three, and `ofChars?` reads one
with any offset. Only years of four digits are read; other years are written with a sign.
-/

namespace CallArchive.Time

structure Instant where
  seconds : Int
  nanos : Nat
  deriving DecidableEq, Repr

/-- How the offset zero is written. -/
inductive Zone where
  | letter
  | digits
  deriving DecidableEq, Repr

namespace Instant

def minMillis : Int := -8334601228800000

def maxMillis : Int := 8210266876799999

def ofMillis? (millis : Int) : Option Instant :=
  if minMillis ≤ millis ∧ millis ≤ maxMillis then
    some ⟨millis / 1000, (millis % 1000).toNat * 1000000⟩
  else none

def secondsInDay : Int := 86400

def nanosInSecond : Nat := 1000000000

/-! ## Writing -/

def yearChars (y : Int) : List Char :=
  if 0 ≤ y ∧ y ≤ 9999 then Text.padded 4 y.toNat
  else (if y < 0 then '-' else '+') :: Text.padded 4 y.natAbs

def dateChars (d : Date) : List Char :=
  yearChars d.year ++ '-' :: (Text.padded 2 d.month ++ '-' :: Text.padded 2 d.day)

/-- The places of a second: none, three, six or nine. -/
def fractionChars (nanos : Nat) : List Char :=
  if nanos = 0 then []
  else if nanos % 1000000 = 0 then '.' :: Text.padded 3 (nanos / 1000000)
  else if nanos % 1000 = 0 then '.' :: Text.padded 6 (nanos / 1000)
  else '.' :: Text.padded 9 nanos

def zoneChars : Zone → List Char
  | .letter => ['Z']
  | .digits => ['+', '0', '0', ':', '0', '0']

def chars (zone : Zone) (i : Instant) : List Char :=
  let secondOfDay := (i.seconds % secondsInDay).toNat
  let second := secondOfDay % 60 + i.nanos / nanosInSecond
  dateChars (Date.ofDayNumber (i.seconds / secondsInDay)) ++ 'T' ::
    (Text.padded 2 (secondOfDay / 3600) ++ ':' :: (Text.padded 2 (secondOfDay / 60 % 60) ++ ':' ::
      (Text.padded 2 second ++ fractionChars (i.nanos % nanosInSecond) ++ zoneChars zone)))

def text (zone : Zone) (i : Instant) : String := String.ofList (i.chars zone)

/-! ## Reading -/

/-- A number of exactly `width` digits. -/
def takeNumber (width : Nat) (s : List Char) : Option (Nat × List Char) := do
  let ds := s.take width
  if ds.length = width then return (← Text.readNat ds, s.drop width) else none

def takeChar (c : Char) : List Char → Option (List Char)
  | x :: rest => if x = c then some rest else none
  | [] => none

def isDateSeparator (c : Char) : Bool := c == 'T' || c == 't' || c == ' '

/-- The nanoseconds of a fraction, of which nine places count. -/
def takeFraction : List Char → Option (Nat × List Char)
  | '.' :: rest =>
    let ds := rest.takeWhile Char.isDigit
    if ds.isEmpty then none
    else
      let kept := ds.take 9
      some (Text.ofDigits kept * 10 ^ (9 - kept.length), rest.dropWhile Char.isDigit)
  | s => some (0, s)

/-- Hours and minutes after a sign, in seconds. -/
def takeHours (sign : Int) (s : List Char) : Option (Int × List Char) := do
  let (hours, s) ← takeNumber 2 s
  let s ← takeChar ':' s
  let (minutes, s) ← takeNumber 2 s
  if hours ≤ 23 ∧ minutes ≤ 59 then return (sign * (hours * 3600 + minutes * 60 : Nat), s) else none

def takeOffset : List Char → Option (Int × List Char)
  | [] => none
  | c :: rest =>
    if c = 'Z' ∨ c = 'z' then some (0, rest)
    else if c = '+' then takeHours 1 rest
    else if c = '-' ∨ c = '\u2212' then takeHours (-1) rest
    else none

def takeDate (s : List Char) : Option (Date × List Char) := do
  let (year, s) ← takeNumber 4 s
  let (month, s) ← takeNumber 2 (← takeChar '-' s)
  let (day, s) ← takeNumber 2 (← takeChar '-' s)
  let d : Date := ⟨year, month, day⟩
  if d.IsValid then return (d, s) else none

/-- The second of a day and the nanoseconds, of which a leap second has a whole second more. -/
def takeTime (s : List Char) : Option (Nat × Nat × List Char) := do
  let (hour, s) ← takeNumber 2 s
  let (minute, s) ← takeNumber 2 (← takeChar ':' s)
  let (second, s) ← takeNumber 2 (← takeChar ':' s)
  let (nanos, s) ← takeFraction s
  if hour ≤ 23 ∧ minute ≤ 59 ∧ second ≤ 60 then
    let leap := second / 60
    return (hour * 3600 + minute * 60 + (second - leap), nanos + leap * nanosInSecond, s)
  else none

def ofChars? (s : List Char) : Option Instant := do
  let (date, s) ← takeDate s
  let (c, s) ← match s with
    | [] => none
    | c :: rest => some (c, rest)
  if !isDateSeparator c then none
  let (secondOfDay, nanos, s) ← takeTime s
  let (offset, s) ← takeOffset s
  if s.isEmpty then
    return ⟨date.dayNumber * secondsInDay + secondOfDay - offset, nanos⟩
  else none

def ofText? (s : String) : Option Instant := ofChars? s.toList

example : (ofMillis? 1600000000123).map (text .digits) = some "2020-09-13T12:26:40.123+00:00" := by
  decide +kernel

example : (ofText? "2016-12-31 23:59:60Z").map (text .letter) = some "2016-12-31T23:59:60Z" := by
  decide +kernel

end Instant

end CallArchive.Time
