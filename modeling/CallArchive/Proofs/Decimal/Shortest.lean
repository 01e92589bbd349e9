import CallArchive.Decimal.Shortest
import CallArchive.Proofs.Decimal.Rounding

/-!
# How large shortest decimals are

The shortest decimal of a number is at most half a unit above it (`shortest_le`), whichever of the
decimals that round to the number it is.
-/

namespace CallArchive.Decimal

/-- The rational number that a decimal stands for. -/
def Scientific.value (d : Scientific) : ℚ := d.digits * 10 ^ d.power

namespace Binary64

/-- The upper end of the interval. -/
def Interval.top (i : Interval) : ℚ := i.high / i.den

/-- What the search may give. -/
structure Interval.Admits (i : Interval) (d : Scientific) : Prop where
  digits : 0 < d.digits
  value : d.value ≤ i.top

variable {i : Interval} {d : Scientific}

theorem Interval.admits_of_holds (hd : 0 < i.den) {n : Nat} {power : Int} (hn : 0 < n)
    (h : i.holds n power = true) : i.Admits ⟨n, power⟩ := by
  refine ⟨hn, ?_⟩
  have hpos : (0 : ℚ) < i.den := by exact_mod_cast hd
  rw [Scientific.value, Interval.top, le_div_iff₀ hpos]
  rcases le_or_gt 0 power with hp | hp
  · obtain ⟨p, rfl⟩ := Int.eq_ofNat_of_zero_le hp
    have hle : n * 10 ^ p * i.den ≤ i.high := by
      simp only [Interval.holds, ratioLt, if_pos hp, Int.toNat_natCast] at h
      split at h <;> simp at h <;> omega
    rw [zpow_natCast]
    exact_mod_cast hle
  · obtain ⟨p, rfl⟩ : ∃ p : Nat, power = -p := ⟨(-power).toNat, by omega⟩
    have hle : n * i.den ≤ i.high * 10 ^ p := by
      simp only [Interval.holds, ratioLt, if_neg (not_le.mpr hp), neg_neg, Int.toNat_natCast] at h
      split at h <;> simp at h <;> omega
    rw [zpow_neg, zpow_natCast, ← div_eq_mul_inv, div_mul_eq_mul_div, div_le_iff₀ (by positivity)]
    exact_mod_cast hle

theorem Interval.admits_of_onGrid (hd : 0 < i.den) {power : Int}
    (h : i.onGrid power = some d) : i.Admits d := by
  simp only [Interval.onGrid] at h
  split at h
  · next hlow =>
    obtain rfl := Option.some.inj h
    simp only [Bool.and_eq_true, decide_eq_true_eq] at hlow
    exact admits_of_holds hd hlow.1.1 hlow.1.2
  split at h
  · next hhigh =>
    obtain rfl := Option.some.inj h
    exact admits_of_holds hd (Nat.succ_pos _) hhigh
  · cases h

theorem Interval.admits_of_search (hd : 0 < i.den) {leading count : Int} {fuel : Nat}
    (h : i.search leading fuel count = some d) : i.Admits d := by
  induction fuel generalizing count with
  | zero => cases h
  | succ fuel ih =>
    rw [Interval.search] at h
    split at h
    · next hgrid =>
      obtain rfl := Option.some.inj h
      exact admits_of_onGrid hd hgrid
    · exact ih h

/-- Zeros at the end are no part of the value. -/
theorem Interval.Admits.stripZeros (h : i.Admits d) (fuel : Nat) :
    i.Admits (stripZeros d fuel) := by
  induction fuel generalizing d with
  | zero => exact h
  | succ fuel ih =>
    rw [Binary64.stripZeros]
    split
    · next hzero =>
      obtain ⟨hmod, hne⟩ := hzero
      have hdigits : (d.digits : ℚ) = (d.digits / 10 : Nat) * 10 := by
        exact_mod_cast (Nat.div_mul_cancel (Nat.dvd_of_mod_eq_zero hmod)).symm
      refine ih ⟨show 0 < d.digits / 10 by omega, le_of_eq_of_le ?_ h.value⟩
      rw [Scientific.value, Scientific.value, hdigits, zpow_add_one₀ (by norm_num)]
      ring
    · exact h

theorem top_interval (x : Binary64) :
    0 < x.interval.den ∧ x.interval.top = (x.mantissa + 1 / 2) * 2 ^ x.exponent := by
  unfold interval Interval.top
  rcases le_or_gt 0 x.exponent with he | he
  · obtain ⟨e, he'⟩ := Int.eq_ofNat_of_zero_le he
    simp only [if_pos he]
    rw [he', Int.toNat_natCast, zpow_natCast]
    refine ⟨by norm_num, ?_⟩
    push_cast
    ring
  · obtain ⟨e, he'⟩ : ∃ e : Nat, x.exponent = -e := ⟨(-x.exponent).toNat, by omega⟩
    simp only [if_neg (not_le.mpr he)]
    rw [he', neg_neg, Int.toNat_natCast, zpow_neg, zpow_natCast]
    refine ⟨by positivity, ?_⟩
    push_cast
    field_simp
    ring

/-- The shortest decimal is nothing, or a number at most half a unit above. -/
theorem shortest_le (x : Binary64) :
    x.shortest = ⟨0, 0⟩ ∨ 0 < x.shortest.digits ∧
      x.shortest.value ≤ (x.mantissa + 1 / 2) * 2 ^ x.exponent := by
  obtain ⟨hd, htop⟩ := top_interval x
  simp only [shortest]
  split
  · exact .inl rfl
  split
  · next hsearch =>
    have hadmits := (Interval.admits_of_search hd hsearch).stripZeros 20
    exact .inr ⟨hadmits.digits, htop ▸ hadmits.value⟩
  · exact .inl rfl

end Binary64

end CallArchive.Decimal
