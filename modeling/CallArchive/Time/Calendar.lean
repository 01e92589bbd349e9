/-!
# The Gregorian calendar

Days are counted from 1970-01-01. A year is taken to begin in March, so that the leap day is its
last: `ofDayNumber` finds the cycle of 400 years, the year in it, and the day of that year;
`dayNumber` goes back.
-/

namespace CallArchive.Time

structure Date where
  year : Int
  month : Nat
  day : Nat
  deriving DecidableEq, Repr

namespace Date

/-- Days in a cycle of 400 years. -/
def cycleDays : Int := 146097

/-- Days from 0000-03-01 to 1970-01-01. -/
def epochDays : Int := 719468

def isLeapYear (y : Int) : Bool := y % 4 == 0 && (y % 100 != 0 || y % 400 == 0)

def daysInMonth (y : Int) (m : Nat) : Nat :=
  if m = 2 then if isLeapYear y then 29 else 28
  else if m = 4 ∨ m = 6 ∨ m = 9 ∨ m = 11 then 30
  else 31

def IsValid (d : Date) : Prop :=
  1 ≤ d.month ∧ d.month ≤ 12 ∧ 1 ≤ d.day ∧ d.day ≤ daysInMonth d.year d.month

instance (d : Date) : Decidable d.IsValid := inferInstanceAs (Decidable (_ ∧ _ ∧ _ ∧ _))

/-- The day of a year that begins in March, for a month counted from March. -/
def dayOfYear (month day : Nat) : Nat := (153 * month + 2) / 5 + (day - 1)

def dayNumber (d : Date) : Int :=
  let y := if d.month ≤ 2 then d.year - 1 else d.year
  let month := if d.month ≤ 2 then d.month + 9 else d.month - 3
  let cycle := y / 400
  let inCycle := y % 400
  cycle * cycleDays + (365 * inCycle + inCycle / 4 - inCycle / 100) + dayOfYear month d.day
    - epochDays

def ofDayNumber (n : Int) : Date :=
  let z := n + epochDays
  let cycle := z / cycleDays
  let dayOfCycle := (z % cycleDays).toNat
  let year := (dayOfCycle - dayOfCycle / 1460 + dayOfCycle / 36524 - dayOfCycle / 146096) / 365
  let day := dayOfCycle - (365 * year + year / 4 - year / 100)
  let month := (5 * day + 2) / 153
  let y := cycle * 400 + year
  { year := if month < 10 then y else y + 1
    month := if month < 10 then month + 3 else month - 9
    day := day - (153 * month + 2) / 5 + 1 }

example : ofDayNumber 0 = ⟨1970, 1, 1⟩ := by decide

example : ofDayNumber 11016 = ⟨2000, 2, 29⟩ := by decide

example : dayNumber ⟨2000, 2, 29⟩ = 11016 := by decide

end Date

end CallArchive.Time
