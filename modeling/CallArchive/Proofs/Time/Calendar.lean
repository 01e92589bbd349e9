import CallArchive.Time.Calendar
import Mathlib.Tactic.SplitIfs

/-!
# Days and their dates

A day of a cycle of 400 years has a `Place` in it: centuries of 36524 days, groups of four years of
1461 days, years of 365 days, of which in each case the last may be longer by the leap day. The
year that `ofDayNumber` computes is that of the place (`yearInCycle_eq`), so the date of a day is
valid, `dayNumber` finds the day again, and the days of the years 0 to 9999 are an interval.
-/

namespace CallArchive.Time.Date

/-! ## Days in a cycle -/

/-- The year of a day in the cycle, as `ofDayNumber` computes it. -/
def yearInCycle (d : Nat) : Nat := (d - d / 1460 + d / 36524 - d / 146096) / 365

/-- The days of a cycle before the year. -/
def daysBefore (year : Nat) : Nat := 365 * year + year / 4 - year / 100

/-- Day `r` of the year `y` in group `q` of century `c`. -/
structure Place (d c q y r : Nat) : Prop where
  eq : d = 36524 * c + 1461 * q + 365 * y + r
  century : c ≤ 3
  group : q ≤ 24
  year : y ≤ 3
  day : r ≤ 365
  leap : r = 365 → y = 3 ∧ (q = 24 → c = 3)

theorem exists_place {d : Nat} (h : d < 146097) : ∃ c q y r, Place d c q y r := by
  obtain ⟨c, e, hd, hc, he⟩ :
      ∃ c e, d = 36524 * c + e ∧ c ≤ 3 ∧ (e < 36524 ∨ c = 3 ∧ e = 36524) := by
    by_cases hlast : d = 146096
    · exact ⟨3, 36524, by omega, by omega, by omega⟩
    · exact ⟨d / 36524, d % 36524, by omega, by omega, by omega⟩
  obtain ⟨q, f, hq, hf⟩ : ∃ q f, e = 1461 * q + f ∧ f < 1461 :=
    ⟨e / 1461, e % 1461, by omega, by omega⟩
  by_cases hleap : f = 1460
  · exact ⟨c, q, 3, 365, by omega, hc, by omega, by omega, by omega, by omega⟩
  · exact ⟨c, q, f / 365, f % 365, by omega, hc, by omega, by omega, by omega, by omega⟩

variable {d c q y r : Nat}

theorem Place.daysBefore_add (h : Place d c q y r) : daysBefore (100 * c + 4 * q + y) + r = d := by
  obtain ⟨heq, hc, hq, hy, -, -⟩ := h
  have hfour : (100 * c + 4 * q + y) / 4 = 25 * c + q := by omega
  have hhundred : (100 * c + 4 * q + y) / 100 = c := by omega
  rw [daysBefore, hfour, hhundred]
  omega

/-- A leap day too many or too few does not change the year. -/
theorem Place.yearInCycle_eq (h : Place d c q y r) : yearInCycle d = 100 * c + 4 * q + y := by
  obtain ⟨heq, hc, hq, hy, hr, hleap⟩ := h
  by_cases hlast : d = 146096
  · have hplace : c = 3 ∧ q = 24 ∧ y = 3 := by omega
    obtain ⟨rfl, rfl, rfl⟩ := hplace
    rw [hlast]
    rfl
  · have hcentury : d / 36524 = c := by omega
    have hcycle : d / 146096 = 0 := by omega
    have hgroups : d / 1460 = 25 * c + q ∨
        d / 1460 = 25 * c + q + 1 ∧ 1460 ≤ 24 * c + q + 365 * y + r := by omega
    rw [yearInCycle, hcentury, hcycle]
    rcases hgroups with hgroups | ⟨hgroups, hlate⟩
    · rw [hgroups]
      omega
    · rw [hgroups]
      omega

/-- A day of a cycle is in one of its years, on a day that the year has. -/
theorem exists_dayOfYear (h : d < 146097) :
    ∃ r, daysBefore (yearInCycle d) + r = d ∧ yearInCycle d ≤ 399 ∧ r ≤ 365 ∧
      (r = 365 → (yearInCycle d + 1) % 4 = 0 ∧
        ((yearInCycle d + 1) % 100 = 0 → yearInCycle d = 399)) := by
  obtain ⟨c, q, y, r, hplace⟩ := exists_place h
  have hdays := hplace.daysBefore_add
  rw [hplace.yearInCycle_eq]
  obtain ⟨-, hc, hq, hy, hr, hleap⟩ := hplace
  exact ⟨r, hdays, by omega, hr, by omega⟩

/-! ## Dates -/

/-- The date of a day of the year that begins in March of `y`. -/
def ofMarch (y : Int) (day : Nat) : Date :=
  let month := (5 * day + 2) / 153
  { year := if month < 10 then y else y + 1
    month := if month < 10 then month + 3 else month - 9
    day := day - (153 * month + 2) / 5 + 1 }

/-- The leap day is the last of the year. -/
theorem isValid_ofMarch {y : Int} {day : Nat} (h : day ≤ 365)
    (hleap : day = 365 → isLeapYear (y + 1) = true) : (ofMarch y day).IsValid := by
  have hmonth : (5 * day + 2) / 153 ≤ 11 := by omega
  unfold IsValid ofMarch daysInMonth
  by_cases hlate : (5 * day + 2) / 153 < 10
  · simp only [hlate, if_true]
    refine ⟨by omega, by omega, by omega, ?_⟩
    split_ifs <;> omega
  · simp only [hlate, if_false]
    refine ⟨by omega, by omega, by omega, ?_⟩
    by_cases hlast : day = 365
    · rw [hleap hlast, hlast]
      decide
    · split_ifs <;> omega

theorem dayNumber_ofMarch {cycle : Int} {year day : Nat} (hyear : year ≤ 399) (hday : day ≤ 365) :
    (ofMarch (cycle * 400 + year) day).dayNumber
      = cycle * cycleDays + (daysBefore year + day : Nat) - epochDays := by
  have hmarch : (if (ofMarch (cycle * 400 + year) day).month ≤ 2
      then (ofMarch (cycle * 400 + year) day).year - 1
      else (ofMarch (cycle * 400 + year) day).year) = cycle * 400 + year := by
    unfold ofMarch
    dsimp only
    split_ifs <;> omega
  have hdays : dayOfYear (if (ofMarch (cycle * 400 + year) day).month ≤ 2
      then (ofMarch (cycle * 400 + year) day).month + 9
      else (ofMarch (cycle * 400 + year) day).month - 3)
      (ofMarch (cycle * 400 + year) day).day = day := by
    unfold ofMarch dayOfYear
    dsimp only
    split_ifs <;> omega
  have hcycle : (cycle * 400 + year) / 400 = cycle := by omega
  have hin : (cycle * 400 + year) % 400 = year := by omega
  unfold dayNumber
  simp only [hmarch, hdays, hcycle, hin, daysBefore]
  omega

/-- The day in its cycle, and the date that is made of it. -/
theorem exists_ofMarch (n : Int) :
    ∃ (cycle : Int) (year day : Nat), ofDayNumber n = ofMarch (cycle * 400 + year) day ∧
      n = cycle * cycleDays + (daysBefore year + day : Nat) - epochDays ∧
      year ≤ 399 ∧ day ≤ 365 ∧ (day = 365 → isLeapYear (cycle * 400 + year + 1) = true) := by
  obtain ⟨day, hdays, hyear, hday, hleap⟩ :=
    exists_dayOfYear (d := ((n + epochDays) % cycleDays).toNat) (by unfold cycleDays; omega)
  refine ⟨(n + epochDays) / cycleDays, yearInCycle ((n + epochDays) % cycleDays).toNat, day, ?_, ?_,
    hyear, hday, fun hlast => ?_⟩
  · have hrest : ((n + epochDays) % cycleDays).toNat
        - daysBefore (yearInCycle ((n + epochDays) % cycleDays).toNat) = day := by omega
    rw [← hrest]
    rfl
  · rw [hdays]
    unfold cycleDays
    omega
  · obtain ⟨hfour, hhundred⟩ := hleap hlast
    simp only [isLeapYear, Bool.and_eq_true, Bool.or_eq_true, beq_iff_eq, bne_iff_ne]
    omega

theorem isValid_ofDayNumber (n : Int) : (ofDayNumber n).IsValid := by
  obtain ⟨cycle, year, day, hdate, -, -, hday, hleap⟩ := exists_ofMarch n
  exact hdate ▸ isValid_ofMarch hday hleap

theorem dayNumber_ofDayNumber (n : Int) : (ofDayNumber n).dayNumber = n := by
  obtain ⟨cycle, year, day, hdate, hn, hyear, hday, -⟩ := exists_ofMarch n
  rw [hdate, dayNumber_ofMarch hyear hday, ← hn]

/-- The days of the years that are written with four digits and no sign. -/
theorem year_ofDayNumber_iff (n : Int) :
    0 ≤ (ofDayNumber n).year ∧ (ofDayNumber n).year ≤ 9999 ↔ -719528 ≤ n ∧ n ≤ 2932896 := by
  obtain ⟨cycle, year, day, hdate, hn, hyear, hday, -⟩ := exists_ofMarch n
  have hmonth : (5 * day + 2) / 153 < 10 ↔ day < 306 := by omega
  -- only the end of the last year of a cycle belongs to the first year of the next
  have hbefore : year = 399 ∧ daysBefore year = 145731 ∨ year < 399 ∧ daysBefore year ≤ 145366 := by
    rcases Nat.lt_or_eq_of_le hyear with hlt | rfl
    · exact .inr ⟨hlt, by unfold daysBefore; omega⟩
    · exact .inl ⟨rfl, rfl⟩
  rw [hdate]
  simp only [ofMarch, hmonth]
  unfold cycleDays epochDays at hn
  split_ifs <;> omega

example : dayNumber ⟨9999, 12, 31⟩ = 2932896 ∧ dayNumber ⟨0, 1, 1⟩ = -719528 := by decide

end CallArchive.Time.Date
