import CallArchive.Proofs.Text.Digits
import CallArchive.Proofs.Time.Calendar
import CallArchive.Time.Instant

/-!
# Instants that are written and read

Each part of a timestamp is read as it was written, whatever follows it (`takeNumber_padded` and
those after it). So an instant is read as itself if its year has four digits; other years are
written with a sign, which is not read (`ofText?_text`).
-/

namespace CallArchive.Text

theorem length_padded {width n : Nat} (hw : 0 < width) (h : n < 10 ^ width) :
    (padded width n).length = width := by
  have hlength : (digits n).length ≤ width := (Nat.length_toDigits_le_iff (by decide) hw).mpr h
  rw [padded, List.length_append, List.length_replicate]
  omega

theorem allDigits_padded (width n : Nat) : AllDigits (padded width n) :=
  allDigits_append.mpr ⟨allDigits_zeros _, allDigits_digits n⟩

theorem ofDigits_padded (width n : Nat) : ofDigits (padded width n) = n := by
  rw [padded, ofDigits_append, ofDigits_zeros, ofDigits_digits, Nat.zero_mul, Nat.zero_add]

theorem readNat_padded (width n : Nat) : readNat (padded width n) = some n := by
  have hne : padded width n ≠ [] := fun h => by
    have hdigits : (digits n).length = 0 := by simp [List.append_eq_nil_iff.mp h]
    exact absurd hdigits (Nat.ne_of_gt Nat.length_toDigits_pos)
  have hall : (padded width n).all Char.isDigit = true :=
    List.all_eq_true.mpr (allDigits_padded width n)
  rw [readNat, List.isEmpty_eq_false_iff.mpr hne, hall, ofDigits_padded]
  rfl

end CallArchive.Text

namespace CallArchive.Time.Instant

open Text (AllDigits padded)

/-! ## The parts of a timestamp -/

theorem takeNumber_padded {width n : Nat} (hw : 0 < width) (h : n < 10 ^ width) (s : List Char) :
    takeNumber width (padded width n ++ s) = some (n, s) := by
  have hlength := Text.length_padded hw h
  rw [takeNumber, List.take_left' hlength, List.drop_left' hlength, if_pos hlength,
    Text.readNat_padded]
  rfl

theorem takeChar_self (c : Char) (s : List Char) : takeChar c (c :: s) = some s := if_pos rfl

/-- A row of digits is a fraction if nothing follows that could belong to it. -/
theorem takeFraction_padded {width n : Nat} (hw : 0 < width) (hle : width ≤ 9)
    (h : n < 10 ^ width) {c : Char} (hc : c.isDigit = false) (s : List Char) :
    takeFraction ('.' :: (padded width n ++ c :: s)) = some (n * 10 ^ (9 - width), c :: s) := by
  have hlength := Text.length_padded hw h
  have hall := Text.allDigits_padded width n
  have htake : (padded width n ++ c :: s).takeWhile Char.isDigit = padded width n := by
    rw [List.takeWhile_append_of_pos hall, List.takeWhile_cons, hc]
    simp
  have hdrop : (padded width n ++ c :: s).dropWhile Char.isDigit = c :: s := by
    rw [List.dropWhile_append_of_pos hall, List.dropWhile_cons, hc]
    simp
  have hne : (padded width n).isEmpty = false := by
    rw [List.isEmpty_eq_false_iff, ← List.length_pos_iff]
    omega
  rw [takeFraction]
  simp only [htake, hdrop, hne, Bool.false_eq_true, if_false]
  rw [List.take_of_length_le (by omega), hlength, Text.ofDigits_padded]

theorem takeFraction_fractionChars {nanos : Nat} (h : nanos < nanosInSecond) {c : Char}
    (hc : c.isDigit = false) (hdot : c ≠ '.') (s : List Char) :
    takeFraction (fractionChars nanos ++ c :: s) = some (nanos, c :: s) := by
  unfold nanosInSecond at h
  have hgroups {width n : Nat} (hw : 0 < width) (hle : width ≤ 9) (hn : n < 10 ^ width)
      (heq : n * 10 ^ (9 - width) = nanos) :
      takeFraction ('.' :: padded width n ++ c :: s) = some (nanos, c :: s) := by
    rw [List.cons_append, takeFraction_padded hw hle hn hc, heq]
  unfold fractionChars
  split_ifs with hzero hmillis hmicros
  · rw [hzero, List.nil_append, takeFraction]
    intro rest heq
    exact hdot (List.cons.inj heq).1
  · exact hgroups (by decide) (by decide) (by omega) (by omega)
  · exact hgroups (by decide) (by decide) (by omega) (by omega)
  · exact hgroups (by decide) (by decide) (by omega) (by omega)

theorem takeDate_dateChars {d : Date} (hd : d.IsValid) (hy : 0 ≤ d.year ∧ d.year ≤ 9999)
    (s : List Char) : takeDate (dateChars d ++ s) = some (d, s) := by
  obtain ⟨hmonth, hmonth', hday, hday'⟩ := hd
  have hdays : d.day ≤ 31 := by
    unfold Date.daysInMonth at hday'
    split_ifs at hday' <;> omega
  have hyear : ((d.year.toNat : Nat) : Int) = d.year := by omega
  rw [dateChars, yearChars, if_pos hy, takeDate]
  simp only [List.append_assoc, List.cons_append]
  rw [takeNumber_padded (by decide) (by omega)]
  simp only [Option.bind_eq_bind, Option.bind_some, takeChar_self]
  rw [takeNumber_padded (by decide) (by omega)]
  simp only [Option.bind_some, takeChar_self]
  rw [takeNumber_padded (by decide) (by omega)]
  simp only [Option.bind_some, hyear]
  exact if_pos ⟨hmonth, hmonth', hday, hday'⟩

/-- A sign is not a digit of a year. -/
theorem takeDate_of_sign {d : Date} (hy : ¬ (0 ≤ d.year ∧ d.year ≤ 9999)) (s : List Char) :
    takeDate (dateChars d ++ s) = none := by
  have hread (c : Char) (hc : c.isDigit = false) (t : List Char) :
      takeNumber 4 (c :: t) = none := by
    have hnone (ds : List Char) : Text.readNat (c :: ds) = none := by
      simp [Text.readNat, hc]
    rw [takeNumber, List.take_succ_cons, hnone]
    split <;> rfl
  rw [dateChars, yearChars, if_neg hy, List.cons_append, List.cons_append, takeDate]
  split
  · rw [hread '-' (by decide)]
    rfl
  · rw [hread '+' (by decide)]
    rfl

theorem takeTime_chars {hour minute second nanos : Nat} (hh : hour ≤ 23) (hm : minute ≤ 59)
    (hs : second ≤ 59) (hn : nanos < nanosInSecond) {c : Char} (hc : c.isDigit = false)
    (hdot : c ≠ '.') (s : List Char) :
    takeTime (padded 2 hour ++ ':' :: (padded 2 minute ++ ':' ::
        (padded 2 second ++ fractionChars nanos ++ c :: s)))
      = some (hour * 3600 + minute * 60 + second, nanos, c :: s) := by
  have hleap : second / 60 = 0 := by omega
  rw [takeTime, takeNumber_padded (by decide) (by omega)]
  simp only [Option.bind_eq_bind, Option.bind_some, takeChar_self]
  rw [takeNumber_padded (by decide) (by omega)]
  simp only [Option.bind_some, takeChar_self, List.append_assoc]
  rw [takeNumber_padded (by decide) (by omega)]
  simp only [Option.bind_some]
  rw [takeFraction_fractionChars hn hc hdot]
  simp only [Option.bind_some, hleap]
  exact if_pos ⟨hh, hm, by omega⟩

/-- Both ways to write the offset zero are read as none. -/
theorem takeOffset_zoneChars (zone : Zone) : takeOffset (zoneChars zone) = some (0, []) := by
  cases zone <;> decide

/-! ## The whole timestamp -/

def date (i : Instant) : Date := Date.ofDayNumber (i.seconds / secondsInDay)

def secondOfDay (i : Instant) : Nat := (i.seconds % secondsInDay).toNat

theorem secondOfDay_lt (i : Instant) : i.secondOfDay < 86400 := by
  unfold secondOfDay secondsInDay
  omega

theorem dayNumber_date_add (i : Instant) :
    i.date.dayNumber * secondsInDay + i.secondOfDay = i.seconds := by
  rw [date, Date.dayNumber_ofDayNumber]
  unfold secondOfDay secondsInDay
  omega

theorem isValid_date (i : Instant) : i.date.IsValid := Date.isValid_ofDayNumber _

/-- The year is written with four digits and no sign. -/
def HasPlainYear (i : Instant) : Prop := 0 ≤ i.date.year ∧ i.date.year ≤ 9999

instance (i : Instant) : Decidable i.HasPlainYear := inferInstanceAs (Decidable (_ ∧ _))

theorem chars_of_lt (zone : Zone) {i : Instant} (h : i.nanos < nanosInSecond) :
    i.chars zone = dateChars i.date ++ 'T' ::
      (padded 2 (i.secondOfDay / 3600) ++ ':' :: (padded 2 (i.secondOfDay / 60 % 60) ++ ':' ::
        (padded 2 (i.secondOfDay % 60) ++ fractionChars i.nanos ++ zoneChars zone))) := by
  rw [chars, Nat.div_eq_of_lt h, Nat.mod_eq_of_lt h]
  rfl

theorem exists_zoneChars (zone : Zone) :
    ∃ c s, zoneChars zone = c :: s ∧ c.isDigit = false ∧ c ≠ '.' := by
  cases zone with
  | letter => exact ⟨'Z', [], rfl, by decide⟩
  | digits => exact ⟨'+', _, rfl, by decide⟩

/-- An instant that is no leap second is read as it was written, unless its year has a sign. -/
theorem ofText?_text (zone : Zone) {i : Instant} (h : i.nanos < nanosInSecond) :
    ofText? (i.text zone) = if i.HasPlainYear then some i else none := by
  obtain ⟨c, s, hzone, hc, hdot⟩ := exists_zoneChars zone
  have hlt := i.secondOfDay_lt
  rw [ofText?, text, String.toList_ofList, ofChars?, chars_of_lt zone h]
  split_ifs with hplain
  · rw [takeDate_dateChars i.isValid_date hplain]
    simp only [Option.bind_eq_bind, Option.bind_some]
    rw [if_neg (by decide), hzone, takeTime_chars (by omega) (by omega) (by omega) h hc hdot]
    simp only [Option.bind_some]
    rw [← hzone, takeOffset_zoneChars]
    have hseconds : i.secondOfDay / 3600 * 3600 + i.secondOfDay / 60 % 60 * 60
        + i.secondOfDay % 60 = i.secondOfDay := by omega
    simp only [Option.bind_some, hseconds, dayNumber_date_add, Int.sub_zero]
    rfl
  · rw [takeDate_of_sign hplain]
    rfl

/-! ## Milliseconds -/

theorem nanos_ofMillis {millis : Int} {i : Instant} (h : ofMillis? millis = some i) :
    i.nanos < nanosInSecond := by
  unfold ofMillis? at h
  split_ifs at h
  obtain rfl := Option.some.inj h
  unfold nanosInSecond
  dsimp only
  omega

/-- From the first millisecond of the year 0 to the last of the year 9999. -/
theorem hasPlainYear_ofMillis_iff {millis : Int} {i : Instant} (h : ofMillis? millis = some i) :
    i.HasPlainYear ↔ -62167219200000 ≤ millis ∧ millis ≤ 253402300799999 := by
  unfold ofMillis? at h
  split_ifs at h
  obtain rfl := Option.some.inj h
  rw [HasPlainYear, date, Date.year_ofDayNumber_iff]
  unfold secondsInDay
  dsimp only
  omega

end CallArchive.Time.Instant
