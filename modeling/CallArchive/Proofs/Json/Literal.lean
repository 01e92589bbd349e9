import CallArchive.Proofs.Decimal.Shortest
import CallArchive.Proofs.Json.Numeral
import CallArchive.Proofs.Json.Scale
import CallArchive.Proofs.Text.Digits

/-!
# Numbers read and written

Every number that is read is `Valid`, an integer of at most 64 bits or a finite floating-point
number (`valid_ofLiteral`), and every valid number is written as a literal that is read again
(`Valid.exists_reread`). It need not be read as itself: the reader rounds more than once.
-/

namespace CallArchive.Json

open Decimal Text

namespace Number

def Valid : Number → Prop
  | .integer z => z.natAbs ≤ maxUnsigned
  | .float x => x.Finite

/-! ## Significands -/

theorem ofDigits_cons (c : Char) (s : List Char) :
    ofDigits (c :: s) = digitValue c * 10 ^ s.length + ofDigits s := by
  have hone : ofDigits [c] = digitValue c := Nat.zero_add _
  rw [← hone]
  exact ofDigits_append [c] s

theorem significand_le {n : Nat} (hn : n ≤ maxUnsigned) (s : List Char) :
    (significand n s).1 ≤ maxUnsigned := by
  induction s generalizing n with
  | nil => exact hn
  | cons c s ih =>
    simp only [significand]
    split
    · exact hn
    · next hnext => exact ih (not_lt.mp hnext)

/-- The digits that are left out count as zeros. -/
theorem significand_bound (n : Nat) (s : List Char) :
    (significand n s).2 ≤ s.length ∧
      (significand n s).1 * 10 ^ (significand n s).2 ≤ n * 10 ^ s.length + ofDigits s := by
  induction s generalizing n with
  | nil => exact ⟨le_rfl, le_rfl⟩
  | cons c s ih =>
    simp only [significand]
    split
    · exact ⟨le_rfl, Nat.le_add_right _ _⟩
    · obtain ⟨hleft, hvalue⟩ := ih (10 * n + digitValue c)
      refine ⟨hleft.trans (Nat.le_succ _), hvalue.trans (le_of_eq ?_)⟩
      rw [ofDigits_cons, List.length_cons]
      ring

theorem significand_eq {n : Nat} {s : List Char}
    (h : n * 10 ^ s.length + ofDigits s ≤ maxUnsigned) :
    significand n s = (n * 10 ^ s.length + ofDigits s, 0) := by
  induction s generalizing n with
  | nil => simp [significand, ofDigits]
  | cons c s ih =>
    have hnext : n * 10 ^ (c :: s).length + ofDigits (c :: s)
        = (10 * n + digitValue c) * 10 ^ s.length + ofDigits s := by
      rw [ofDigits_cons, List.length_cons]
      ring
    have hle : 10 * n + digitValue c ≤ (10 * n + digitValue c) * 10 ^ s.length :=
      Nat.le_mul_of_pos_right _ (by positivity)
    rw [hnext] at h ⊢
    simp only [significand]
    rw [if_neg (by omega), ih h]

theorem significand_whole {s : List Char} (h : ofDigits s ≤ maxUnsigned) :
    significand 0 s = (ofDigits s, 0) := by
  have heq := significand_eq (n := 0) (s := s) (by simpa using h)
  simpa using heq

/-! ## Reading -/

theorem valid_signed {x : Binary64} (h : x.Finite) (negative : Bool) :
    (signed negative x).Valid := by
  cases negative with
  | false => exact h
  | true => exact ⟨h.mantissa, h.least, h.greatest⟩

theorem valid_ofWhole {negative : Bool} {whole : List Char} {n : Number}
    (h : ofWhole negative whole = some n) : n.Valid := by
  have hle := significand_le (Nat.zero_le _) whole
  unfold ofWhole at h
  split at h
  · next k hk =>
    rw [hk] at hle
    split at h
    · split at h
      · obtain rfl := Option.some.inj h
        simpa [Valid] using hle
      · obtain ⟨x, hx, rfl⟩ := Option.map_eq_some_iff.mp h
        exact valid_signed (Binary64.finite_ofRatio Nat.one_pos hx) true
    · obtain rfl := Option.some.inj h
      exact hle
  · obtain ⟨x, hx, rfl⟩ := Option.map_eq_some_iff.mp h
    exact valid_signed (finite_scale hx) negative

theorem valid_ofLiteral {s : List Char} {n : Number} (h : ofLiteral s = some n) : n.Valid := by
  simp only [ofLiteral] at h
  split at h
  · exact valid_ofWhole h
  · obtain ⟨x, hx, rfl⟩ := Option.map_eq_some_iff.mp h
    exact valid_signed (finite_scale hx) _

end Number

namespace Numeral

/-! ## Reading numerals -/

/-- The rational number that is written. -/
def value (n : Numeral) : ℚ :=
  ofDigits (n.whole ++ n.fraction) * 10 ^ ((powerValue n.power).getD 0 - n.fraction.length : Int)

open Number in
/-- A numeral that is no integer is read unless it is too large. -/
theorem Proper.exists_ofLiteral {n : Numeral} (h : n.Proper)
    (hreal : n.fraction ≠ [] ∨ n.power ≠ none) (hwhole : ofDigits n.whole ≤ maxUnsigned)
    (hvalue : n.value ≤ ceiling) : ∃ x, ofLiteral n.chars = some x := by
  obtain ⟨hleft, hbound⟩ := significand_bound (ofDigits n.whole) n.fraction
  have hle := significand_le hwhole n.fraction
  rw [← ofDigits_append] at hbound
  have hcond : (n.fraction.isEmpty && (powerValue n.power).isNone) = false := by
    rcases hreal with hne | hne
    · simp [hne]
    · obtain ⟨p, hp⟩ := Option.ne_none_iff_exists'.mp hne
      simp [hp, powerValue]
  have hpower : ((0 : Nat) : Int) -
      ((n.fraction.length - (significand (ofDigits n.whole) n.fraction).2 : Nat) : Int) +
      (powerValue n.power).getD 0 = (significand (ofDigits n.whole) n.fraction).2 +
        ((powerValue n.power).getD 0 - n.fraction.length) := by
    omega
  have hscaled : ((significand (ofDigits n.whole) n.fraction).1 : ℚ) *
      10 ^ (((significand (ofDigits n.whole) n.fraction).2 : Int) +
        ((powerValue n.power).getD 0 - n.fraction.length)) ≤ ceiling := by
    refine le_trans ?_ hvalue
    rw [zpow_add₀ (by norm_num), zpow_natCast, ← mul_assoc]
    refine mul_le_mul_of_nonneg_right ?_ (by positivity)
    exact_mod_cast hbound
  obtain ⟨x, hx⟩ := exists_scale hle hscaled
  refine ⟨signed n.negative x, ?_⟩
  simp only [ofLiteral, h.ofChars_chars, hcond, significand_whole hwhole]
  rw [if_neg Bool.false_ne_true, hpower, hx]
  rfl

open Number in
theorem Proper.exists_ofWhole {negative : Bool} {whole : List Char}
    (h : Proper ⟨negative, whole, [], none⟩) (hwhole : ofDigits whole ≤ maxUnsigned) :
    ∃ x, ofLiteral (chars ⟨negative, whole, [], none⟩) = some x := by
  have hmax : maxUnsigned ≤ 10 ^ maxPower := by decide +kernel
  obtain ⟨x, hx, -⟩ := exists_ofNat (hwhole.trans hmax)
  simp only [ofLiteral, h.ofChars_chars, powerValue, List.isEmpty_nil, Option.isNone_none,
    Bool.and_self, if_true, ofWhole, significand_whole hwhole]
  split
  · split
    · exact ⟨_, rfl⟩
    · exact ⟨_, congrArg (Option.map (signed true)) hx⟩
  · exact ⟨_, rfl⟩

/-! ## Writing -/

theorem digits_leading (n : Nat) : ∃ c s, digits n = c :: s ∧ (c = '0' → s = []) := by
  rcases Nat.eq_zero_or_pos n with rfl | hn
  · exact ⟨'0', [], rfl, fun _ => rfl⟩
  · obtain ⟨c, s, heq, -, hc⟩ := exists_digits hn
    exact ⟨c, s, heq, fun h => absurd h hc⟩

theorem ofDigits_le_maxUnsigned {s : List Char} (h : AllDigits s) (hlength : s.length ≤ 16) :
    ofDigits s ≤ Number.maxUnsigned := by
  have hpow : 10 ^ s.length ≤ 10 ^ 16 := Nat.pow_le_pow_right (by decide) hlength
  have hmax : 10 ^ 16 ≤ Number.maxUnsigned := by decide
  exact ((ofDigits_lt h).le.trans hpow).trans hmax

/-- Digits with a point among them or beside them are a numeral of the same value. -/
theorem exists_positional (negative : Bool) {digit : Nat} (hdigit : 0 < digit) (power : Int)
    (hleading : power + (digits digit).length - 1 < Number.firstScientific) :
    ∃ n : Numeral, n.Proper ∧ n.fraction ≠ [] ∧ ofDigits n.whole ≤ Number.maxUnsigned ∧
      n.value = digit * 10 ^ power ∧
      n.chars = signText negative ++ Number.positionalChars (digits digit) power := by
  obtain ⟨c, s, heq, -, hc⟩ := exists_digits hdigit
  have hall := allDigits_digits digit
  have hvalue := ofDigits_digits digit
  generalize digits digit = ds at heq hall hvalue hleading ⊢
  have hlength : power + ds.length ≤ 16 := by
    rw [Number.firstScientific] at hleading
    omega
  have hzero : ofDigits ['0'] = 0 := rfl
  rcases le_or_gt 0 power with hpower | hpower
  · obtain ⟨p, rfl⟩ := Int.eq_ofNat_of_zero_le hpower
    refine ⟨⟨negative, ds ++ List.replicate p '0', ['0'], none⟩, ⟨by simp [hall], ?_, by simp, ?_⟩,
      List.cons_ne_nil _ _, ofDigits_le_maxUnsigned (by simp [hall]) ?_, ?_, ?_⟩
    · exact ⟨c, s ++ List.replicate p '0', by rw [heq]; rfl, fun h => absurd h hc⟩
    · exact fun q hq => absurd hq (Option.not_mem_none q)
    · rw [List.length_append, List.length_replicate]
      omega
    · rw [value, ofDigits_append, ofDigits_append, hvalue, hzero, ofDigits_zeros, zpow_natCast]
      simp [powerValue]
    · simp [chars, fractionText, powerText, Number.positionalChars]
  · obtain ⟨p, rfl⟩ : ∃ p : Nat, power = -p := ⟨(-power).toNat, by omega⟩
    by_cases hp : p < ds.length
    · refine ⟨⟨negative, ds.take (ds.length - p), ds.drop (ds.length - p), none⟩,
        ⟨hall.take _, ?_, hall.drop _, ?_⟩, ?_, ofDigits_le_maxUnsigned (hall.take _) ?_, ?_, ?_⟩
      · obtain ⟨k, hk⟩ : ∃ k, ds.length - p = k + 1 := ⟨ds.length - p - 1, by omega⟩
        exact ⟨c, s.take k, by rw [hk, heq, List.take_succ_cons], fun h => absurd h hc⟩
      · exact fun q hq => absurd hq (Option.not_mem_none q)
      · simp only [ne_eq, List.drop_eq_nil_iff]
        omega
      · rw [List.length_take]
        omega
      · have hdrop : (ds.drop (ds.length - p)).length = p := by rw [List.length_drop]; omega
        simp only [value, List.take_append_drop, hvalue, hdrop, powerValue]
        simp
      · have hne : ds.drop (ds.length - p) ≠ [] := by
          simp only [ne_eq, List.drop_eq_nil_iff]
          omega
        have hneg : ¬ (0 : Int) ≤ -(p : Int) := by omega
        simp only [chars, fractionText_of_ne_nil hne, powerText, List.append_nil,
          Number.positionalChars, if_neg hneg, neg_neg, Int.toNat_natCast, if_pos hp]
    · refine ⟨⟨negative, ['0'], List.replicate (p - ds.length) '0' ++ ds, none⟩,
        ⟨by simp, ⟨'0', [], rfl, fun _ => rfl⟩, by simp [hall], ?_⟩, ?_, by simp [hzero], ?_, ?_⟩
      · exact fun q hq => absurd hq (Option.not_mem_none q)
      · simp [heq]
      · have hlength : (List.replicate (p - ds.length) '0' ++ ds).length = p := by
          rw [List.length_append, List.length_replicate]
          omega
        simp only [value, ofDigits_append, ofDigits_zeros, hzero, hvalue, hlength, powerValue]
        simp
      · have hne : List.replicate (p - ds.length) '0' ++ ds ≠ [] := by simp [heq]
        have hneg : ¬ (0 : Int) ≤ -(p : Int) := by omega
        simp only [chars, fractionText_of_ne_nil hne, powerText, List.append_nil,
          Number.positionalChars, if_neg hneg, neg_neg, Int.toNat_natCast, if_neg hp]
        rfl

/-- A point after the first digit and a power of ten make a numeral of the same value. -/
theorem exists_scientific (negative : Bool) {digit : Nat} (hdigit : 0 < digit) (power : Int) :
    ∃ n : Numeral, n.Proper ∧ n.power ≠ none ∧ ofDigits n.whole ≤ Number.maxUnsigned ∧
      n.value = digit * 10 ^ power ∧
      n.chars = signText negative ++ Number.scientificChars (digits digit)
        (power + (digits digit).length - 1) := by
  obtain ⟨c, s, heq, hcdigit, hc⟩ := exists_digits hdigit
  have hall := allDigits_digits digit
  have hvalue := ofDigits_digits digit
  generalize digits digit = ds at heq hall hvalue ⊢
  subst heq
  obtain ⟨-, hs⟩ := allDigits_cons.mp hall
  generalize hleading : power + (c :: s).length - 1 = leading
  have hpower : powerValue (some (decide (leading < 0), digits leading.natAbs)) = some leading := by
    by_cases h : leading < 0
    · simp only [powerValue, h, decide_true, if_true, ofDigits_digits]
      congr 1
      omega
    · simp only [powerValue, h, decide_false, Bool.false_eq_true, if_false, ofDigits_digits]
      congr 1
      omega
  have hne : digits leading.natAbs ≠ [] := Nat.toDigits_ne_nil
  refine ⟨⟨negative, [c], s, some (decide (leading < 0), digits leading.natAbs)⟩,
    ⟨by simp [hcdigit], ⟨c, [], rfl, fun _ => rfl⟩, hs, ?_⟩, by simp,
    ofDigits_le_maxUnsigned (by simp [hcdigit]) (by simp), ?_, ?_⟩
  · exact fun q hq => Option.some.inj hq ▸ ⟨hne, allDigits_digits _⟩
  · simp only [value, hpower, Option.getD_some, List.singleton_append, hvalue]
    congr 2
    rw [← hleading, List.length_cons]
    omega
  · cases s with
    | nil => simp [chars, fractionText, powerText, Number.scientificChars]
    | cons d s => simp [chars, fractionText, powerText, Number.scientificChars]

end Numeral

namespace Number

/-! ## Reading again -/

/-- A number is read again if its text is a proper numeral that is not too large. -/
theorem reread?_of_numeral {n m : Number} {t : Numeral} (ht : t.Proper) (hchars : n.chars = t.chars)
    (h : ofLiteral t.chars = some m) : n.reread? = some m := by
  obtain ⟨c, cs, heq, first, last, hfirst, hlast, hcomplete⟩ := ht.scanned
  rw [heq] at hchars h
  rw [Parser.reread?_of_chars hchars, hfirst, Option.bind_some, hlast, Option.bind_some,
    if_pos hcomplete, h]

theorem exists_reread_integer {z : Int} (h : z.natAbs ≤ maxUnsigned) :
    ∃ m, (integer z).reread? = some m := by
  obtain ⟨c, s, heq, hzero⟩ := Numeral.digits_leading z.natAbs
  have ht : Numeral.Proper ⟨decide (z < 0), digits z.natAbs, [], none⟩ :=
    ⟨allDigits_digits _, ⟨c, s, heq, hzero⟩, allDigits_nil, by simp⟩
  obtain ⟨m, hm⟩ := ht.exists_ofWhole (by rwa [ofDigits_digits])
  refine ⟨m, reread?_of_numeral ht ?_ hm⟩
  by_cases hz : z < 0 <;>
    simp [chars, integerChars, Numeral.chars, Numeral.signText, Numeral.fractionText,
      Numeral.powerText, hz]

/-- The body of a text with its sign. -/
theorem floatChars_eq (x : Binary64) :
    floatChars x = Numeral.signText x.negative ++
      if x.isZero then ['0', '.', '0']
      else if x.shortest.power + (digits x.shortest.digits).length - 1 < leastPositional ∨
          firstScientific ≤ x.shortest.power + (digits x.shortest.digits).length - 1 then
        scientificChars (digits x.shortest.digits)
          (x.shortest.power + (digits x.shortest.digits).length - 1)
      else positionalChars (digits x.shortest.digits) x.shortest.power := by
  obtain ⟨negative, mantissa, exponent⟩ := x
  cases negative <;> rfl

theorem exists_reread_zero {x : Binary64} (h : x.isZero = true ∨ x.shortest = ⟨0, 0⟩) :
    ∃ m, (float x).reread? = some m := by
  have ht : Numeral.Proper ⟨x.negative, ['0'], ['0'], none⟩ :=
    ⟨by simp, ⟨'0', [], rfl, fun _ => rfl⟩, by simp, by simp⟩
  have hvalue : Numeral.value ⟨x.negative, ['0'], ['0'], none⟩ ≤ ceiling := by
    have hdigits : ofDigits ['0', '0'] = 0 := rfl
    have hzero : Numeral.value ⟨x.negative, ['0'], ['0'], none⟩ = 0 := by
      simp [Numeral.value, hdigits]
    rw [hzero]
    exact Nat.cast_nonneg _
  obtain ⟨m, hm⟩ := ht.exists_ofLiteral (.inl (List.cons_ne_nil _ _)) (Nat.zero_le _) hvalue
  refine ⟨m, reread?_of_numeral ht ?_ hm⟩
  rw [chars, floatChars_eq]
  rcases h with h | h
  · rw [if_pos h]
    rfl
  · rw [h]
    split <;> rfl

/-- The largest finite numbers are read again, although they are above the ceiling for scaling. -/
theorem exists_reread_largest (negative : Bool) :
    ∃ m, (float ⟨negative, 2 ^ 53 - 1, Binary64.maxExponent⟩).reread? = some m := by
  refine Option.isSome_iff_exists.mp ?_
  cases negative <;> decide +kernel

theorem le_ceiling {x : Binary64} (h : x.Finite)
    (hne : ¬ (x.mantissa = 2 ^ 53 - 1 ∧ x.exponent = Binary64.maxExponent)) :
    ((x.mantissa : ℚ) + 1 / 2) * 2 ^ x.exponent ≤ ceiling := by
  have hceiling : (ceiling : ℚ) = (2 ^ 54 - 3) * 2 ^ 970 := by
    rw [ceiling, Nat.cast_mul, Nat.cast_pow, Nat.cast_sub (by decide)]
    push_cast
    rfl
  rw [hceiling]
  generalize hunit : (2 : ℚ) ^ 970 = unit
  have hunitpos : 0 < unit := hunit ▸ by positivity
  rcases h.greatest.lt_or_eq with he | he
  · have hpow : (2 : ℚ) ^ x.exponent ≤ unit := by
      rw [← hunit, ← zpow_natCast]
      exact zpow_le_zpow_right₀ one_le_two (Int.lt_add_one_iff.mp he)
    have hm : (x.mantissa : ℚ) + 1 ≤ 2 ^ 53 := by exact_mod_cast h.mantissa
    exact mul_le_mul (by linarith) hpow (by positivity) (by norm_num)
  · have hm : (x.mantissa : ℚ) + 2 ≤ 2 ^ 53 := by
      have hlt := h.mantissa
      have hlt' : x.mantissa + 2 ≤ 2 ^ 53 := by
        have hne' : x.mantissa ≠ 2 ^ 53 - 1 := fun heq => hne ⟨heq, he⟩
        omega
      exact_mod_cast hlt'
    have hpow : (2 : ℚ) ^ x.exponent = 2 * unit := by
      rw [he, ← hunit, ← pow_succ', ← zpow_natCast]
      rfl
    rw [hpow, ← mul_assoc]
    exact mul_le_mul_of_nonneg_right (by linarith) hunitpos.le

theorem exists_reread_float {x : Binary64} (h : x.Finite) : ∃ m, (float x).reread? = some m := by
  by_cases hlargest : x.mantissa = 2 ^ 53 - 1 ∧ x.exponent = Binary64.maxExponent
  · obtain ⟨negative, mantissa, exponent⟩ := x
    obtain ⟨rfl, rfl⟩ := hlargest
    exact exists_reread_largest negative
  by_cases hzero : x.isZero = true
  · exact exists_reread_zero (.inl hzero)
  rcases x.shortest_le with hshortest | ⟨hdigits, hvalue⟩
  · exact exists_reread_zero (.inr hshortest)
  have hle := hvalue.trans (le_ceiling h hlargest)
  by_cases hscientific :
      x.shortest.power + (digits x.shortest.digits).length - 1 < leastPositional ∨
        firstScientific ≤ x.shortest.power + (digits x.shortest.digits).length - 1
  · obtain ⟨t, ht, hpower, hwhole, hsame, hchars⟩ :=
      Numeral.exists_scientific x.negative hdigits x.shortest.power
    obtain ⟨m, hm⟩ := ht.exists_ofLiteral (.inr hpower) hwhole (hsame.trans_le hle)
    refine ⟨m, reread?_of_numeral ht ?_ hm⟩
    rw [chars, floatChars_eq, if_neg hzero, if_pos hscientific, hchars]
  · obtain ⟨t, ht, hfraction, hwhole, hsame, hchars⟩ := Numeral.exists_positional x.negative hdigits
      x.shortest.power (not_le.mp (not_or.mp hscientific).2)
    obtain ⟨m, hm⟩ := ht.exists_ofLiteral (.inl hfraction) hwhole (hsame.trans_le hle)
    refine ⟨m, reread?_of_numeral ht ?_ hm⟩
    rw [chars, floatChars_eq, if_neg hzero, if_neg hscientific, hchars]

theorem valid_of_reread {n m : Number} (h : n.reread? = some m) : m.Valid := by
  obtain ⟨c, cs, hchars⟩ := List.exists_cons_of_ne_nil (Parser.chars_number_ne_nil n)
  rw [Parser.reread?_of_chars hchars] at h
  obtain ⟨first, -, h⟩ := Option.bind_eq_some_iff.mp h
  obtain ⟨last, -, h⟩ := Option.bind_eq_some_iff.mp h
  split at h
  · exact valid_ofLiteral h
  · cases h

/-- Every number that can be there is written as a literal that is read again. -/
theorem Valid.exists_reread {n : Number} (h : n.Valid) : ∃ m, n.reread? = some m := by
  cases n with
  | integer z => exact exists_reread_integer h
  | float x => exact exists_reread_float h

end Number

end CallArchive.Json
