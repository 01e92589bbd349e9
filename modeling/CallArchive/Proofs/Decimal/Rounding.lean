import CallArchive.Decimal.Binary64
import Mathlib.Algebra.Order.Field.Power
import Mathlib.Data.Rat.Cast.Order
import Mathlib.Tactic.Linarith
import Mathlib.Tactic.NormNum
import Mathlib.Tactic.Positivity
import Mathlib.Tactic.Ring
import Mathlib.Tactic.FieldSimp

/-!
# Rounding

`ofRatio` rounds to the nearest number. Numbers are compared by their magnitudes, which are rational:
rounding is monotone (`magnitude_ofRatio_mono`), its results are finite (`finite_ofRatio`), and it
fails only from half a unit beyond the largest finite number on (`exists_ofRatio`).
-/

namespace CallArchive.Decimal

namespace Binary64

/-! ## Quotients to the nearest integer -/

theorem roundDiv_cases (num den : Nat) :
    roundDiv num den = num / den ∨ roundDiv num den = num / den + 1 := by
  simp only [roundDiv]
  split
  · exact .inl rfl
  split
  · exact .inr rfl
  split
  · exact .inl rfl
  · exact .inr rfl

theorem roundDiv_mono {a b c d : Nat} (hb : 0 < b) (hd : 0 < d) (h : a * d ≤ c * b) :
    roundDiv a b ≤ roundDiv c d := by
  have hq : a / b ≤ c / d := by
    rw [Nat.le_div_iff_mul_le hd]
    refine Nat.le_of_mul_le_mul_right ?_ hb
    calc a / b * d * b = b * (a / b) * d := by ring
      _ ≤ a * d := Nat.mul_le_mul_right d (Nat.mul_div_le a b)
      _ ≤ c * b := h
  rcases Nat.lt_or_eq_of_le hq with hlt | heq
  · have hupper := roundDiv_cases a b
    have hlower := roundDiv_cases c d
    omega
  · -- Of two quotients with one integer part the remainders decide.
    have hr : a % b * d ≤ c % d * b := by
      have hsum : (b * (a / b) + a % b) * d ≤ (d * (c / d) + c % d) * b := by
        rwa [Nat.div_add_mod, Nat.div_add_mod]
      rw [heq] at hsum
      linarith
    have hlt : b < 2 * (a % b) → d < 2 * (c % d) := fun hlt => by
      refine Nat.lt_of_mul_lt_mul_right (a := b) ?_
      calc d * b = b * d := Nat.mul_comm d b
        _ < 2 * (a % b) * d := Nat.mul_lt_mul_of_pos_right hlt hd
        _ ≤ 2 * (c % d) * b := by linarith
    have hle : b ≤ 2 * (a % b) → d ≤ 2 * (c % d) := fun hle => by
      refine Nat.le_of_mul_le_mul_right ?_ hb
      calc d * b = b * d := Nat.mul_comm d b
        _ ≤ 2 * (a % b) * d := Nat.mul_le_mul_right d hle
        _ ≤ 2 * (c % d) * b := by linarith
    simp only [roundDiv, heq]
    split_ifs <;> omega

theorem roundDiv_one (k : Nat) : roundDiv k 1 = k := by
  simp [roundDiv, Nat.mod_one]

theorem roundDiv_le {num den k : Nat} (hd : 0 < den) (h : num ≤ k * den) :
    roundDiv num den ≤ k := by
  have hmono := roundDiv_mono hd Nat.one_pos (a := num) (c := k) (by omega)
  rwa [roundDiv_one] at hmono

theorem le_roundDiv {num den k : Nat} (hd : 0 < den) (h : k * den ≤ num) :
    k ≤ roundDiv num den := by
  have hmono := roundDiv_mono Nat.one_pos hd (a := k) (c := num) (by omega)
  rwa [roundDiv_one] at hmono

/-- What is rounded up is at least half way up. -/
theorem roundDiv_half (num den : Nat) : 2 * (roundDiv num den * den) ≤ 2 * num + den := by
  have hsum := Nat.div_add_mod num den
  have hmul : (num / den + 1) * den = den * (num / den) + den := by ring
  have hmul' : num / den * den = den * (num / den) := Nat.mul_comm _ _
  simp only [roundDiv]
  split_ifs
  · omega
  · omega
  · omega
  · omega

/-! ## Units -/

/-- The quotient `num / den` in units of `2 ^ q`. -/
theorem scaled_spec (num : Nat) {den : Nat} (hd : 0 < den) (q : Int) :
    0 < (scaled num den q).2 ∧
      ((scaled num den q).1 : ℚ) / (scaled num den q).2 = num / den / 2 ^ q := by
  have hpos : (0 : ℚ) < den := by exact_mod_cast hd
  unfold scaled
  split
  · next h =>
    obtain ⟨n, rfl⟩ := Int.eq_ofNat_of_zero_le h
    refine ⟨Nat.mul_pos hd (Nat.two_pow_pos _), ?_⟩
    rw [Int.toNat_natCast, zpow_natCast, div_div]
    push_cast
    rfl
  · next h =>
    obtain ⟨n, hn⟩ : ∃ n : Nat, q = -n := ⟨(-q).toNat, by omega⟩
    subst hn
    refine ⟨hd, ?_⟩
    rw [neg_neg, Int.toNat_natCast, zpow_neg, zpow_natCast, div_inv_eq_mul]
    push_cast
    ring

theorem le_scaled_iff (num : Nat) {den : Nat} (hd : 0 < den) (q : Int) (k : Nat) :
    k * (scaled num den q).2 ≤ (scaled num den q).1 ↔ (k : ℚ) * 2 ^ q ≤ num / den := by
  obtain ⟨hpos, hscaled⟩ := scaled_spec num hd q
  have hpos' : (0 : ℚ) < (scaled num den q).2 := by exact_mod_cast hpos
  rw [← le_div_iff₀ (by positivity), ← hscaled, le_div_iff₀ hpos']
  norm_cast

theorem scaled_le_iff (num : Nat) {den : Nat} (hd : 0 < den) (q : Int) (k : Nat) :
    (scaled num den q).1 ≤ k * (scaled num den q).2 ↔ (num : ℚ) / den ≤ k * 2 ^ q := by
  obtain ⟨hpos, hscaled⟩ := scaled_spec num hd q
  have hpos' : (0 : ℚ) < (scaled num den q).2 := by exact_mod_cast hpos
  rw [← div_le_iff₀ (by positivity), ← hscaled, div_le_iff₀ hpos']
  norm_cast

/-- A quotient lies between powers of two. -/
theorem quotient_bounds {num den : Nat} (hn : 0 < num) (hd : 0 < den) :
    (2 : ℚ) ^ ((num.log2 : Int) - den.log2 - 1) ≤ num / den ∧
      (num : ℚ) / den < 2 ^ ((num.log2 : Int) - den.log2 + 1) := by
  have hpos : (0 : ℚ) < den := by exact_mod_cast hd
  have hnum : (2 : ℚ) ^ num.log2 ≤ num := by exact_mod_cast Nat.log2_self_le hn.ne'
  have hnum' : (num : ℚ) < 2 ^ (num.log2 + 1) := by exact_mod_cast Nat.lt_log2_self
  have hden : (2 : ℚ) ^ den.log2 ≤ den := by exact_mod_cast Nat.log2_self_le hd.ne'
  have hden' : (den : ℚ) < 2 ^ (den.log2 + 1) := by exact_mod_cast Nat.lt_log2_self
  constructor
  · have hpow : (2 : ℚ) ^ ((num.log2 : Int) - den.log2 - 1) = 2 ^ num.log2 / 2 ^ (den.log2 + 1) := by
      rw [sub_sub, zpow_sub₀ two_ne_zero, zpow_natCast]
      norm_cast
    rw [hpow]
    exact div_le_div₀ (by positivity) hnum hpos hden'.le
  · have hpow : (2 : ℚ) ^ ((num.log2 : Int) - den.log2 + 1) = 2 ^ (num.log2 + 1) / 2 ^ den.log2 := by
      rw [sub_add_eq_add_sub, zpow_sub₀ two_ne_zero, zpow_natCast]
      norm_cast
    rw [hpow]
    exact div_lt_div₀ hnum' hden (by positivity) (by positivity)

/-- A quotient has a mantissa of 53 bits in its unit, or fewer if that is the least one. -/
theorem unitOf_spec {num den : Nat} (hn : 0 < num) (hd : 0 < den) :
    (num : ℚ) / den < 2 ^ (unitOf num den + 53) ∧ minExponent ≤ unitOf num den ∧
      (minExponent < unitOf num den → (2 : ℚ) ^ (unitOf num den + 52) ≤ num / den) := by
  obtain ⟨hlower, hupper⟩ := quotient_bounds hn hd
  generalize hguess : (num.log2 : Int) - den.log2 - 53 = guess
  rw [show (num.log2 : Int) - den.log2 - 1 = guess + 52 by omega] at hlower
  rw [show (num.log2 : Int) - den.log2 + 1 = guess + 54 by omega] at hupper
  have hiff : 2 ^ 53 ≤ (scaled num den guess).1 / (scaled num den guess).2
      ↔ (2 : ℚ) ^ (guess + 53) ≤ num / den := by
    rw [Nat.le_div_iff_mul_le (scaled_spec num hd guess).1, le_scaled_iff num hd, add_comm,
      zpow_add₀ two_ne_zero]
    norm_cast
  have hmono : ∀ {a b : Int}, a ≤ b → (2 : ℚ) ^ a ≤ 2 ^ b := zpow_le_zpow_right₀ one_le_two
  -- The guess is one too low where the quotient has 54 bits in it.
  obtain ⟨unit, hunit, hlower, hupper⟩ : ∃ unit, unitOf num den = max minExponent unit ∧
      (2 : ℚ) ^ (unit + 52) ≤ num / den ∧ (num : ℚ) / den < 2 ^ (unit + 53) := by
    by_cases hbig : 2 ^ 53 ≤ (scaled num den guess).1 / (scaled num den guess).2
    · refine ⟨guess + 1, by simp only [unitOf, hguess, if_pos hbig], ?_, ?_⟩
      · exact (hmono (by omega)).trans (hiff.mp hbig)
      · exact hupper.trans_le (hmono (by omega))
    · exact ⟨guess, by simp only [unitOf, hguess, if_neg hbig], hlower,
        not_le.mp (mt hiff.mpr hbig)⟩
  rw [hunit]
  refine ⟨hupper.trans_le (hmono (by omega)), le_max_left _ _, fun hlt => ?_⟩
  rwa [max_eq_right (by omega)]

/-! ## Numbers -/

/-- How large the number is, whatever its sign. -/
def magnitude (x : Binary64) : ℚ := x.mantissa * 2 ^ x.exponent

/-- A number that is neither too large nor too fine. -/
structure Finite (x : Binary64) : Prop where
  mantissa : x.mantissa < 2 ^ 53
  least : minExponent ≤ x.exponent
  greatest : x.exponent ≤ maxExponent

/-- Half a unit above the largest finite number. -/
def bound : ℚ := (2 ^ 54 - 1) * 2 ^ 970

theorem ratio_spec (x : Binary64) :
    0 < x.ratio.2 ∧ (x.ratio.1 : ℚ) / x.ratio.2 = x.magnitude := by
  unfold ratio magnitude
  split
  · next h =>
    obtain ⟨n, hn⟩ := Int.eq_ofNat_of_zero_le h
    rw [hn, Int.toNat_natCast, zpow_natCast]
    exact ⟨Nat.one_pos, by push_cast; rw [div_one]⟩
  · next h =>
    obtain ⟨n, hn⟩ : ∃ n : Nat, x.exponent = -n := ⟨(-x.exponent).toNat, by omega⟩
    rw [hn, neg_neg, Int.toNat_natCast, zpow_neg, zpow_natCast]
    exact ⟨Nat.two_pow_pos _, by push_cast; rw [div_eq_mul_inv]⟩

theorem Finite.magnitude_lt {x : Binary64} (h : x.Finite) : x.magnitude < bound := by
  have hm : (x.mantissa : ℚ) ≤ 2 ^ 53 - 1 := by
    have hlt := h.mantissa
    have hle : (x.mantissa : ℚ) + 1 ≤ 2 ^ 53 := by exact_mod_cast hlt
    linarith
  have he : (2 : ℚ) ^ x.exponent ≤ 2 ^ (971 : Int) :=
    zpow_le_zpow_right₀ one_le_two h.greatest
  calc x.magnitude ≤ (2 ^ 53 - 1) * 2 ^ (971 : Int) :=
        mul_le_mul hm he (by positivity) (by norm_num)
    _ = (2 ^ 54 - 2) * 2 ^ 970 := by
        rw [zpow_ofNat, pow_succ (2 : ℚ) 970]
        generalize (2 : ℚ) ^ 970 = unit
        ring
    _ < bound := mul_lt_mul_of_pos_right (by norm_num) (by positivity)

/-! ## Rounding -/

def mantissaOf (num den : Nat) : Nat :=
  roundDiv (scaled num den (unitOf num den)).1 (scaled num den (unitOf num den)).2

/-- The number that a quotient is rounded to, were there no largest one. -/
def nearest (num den : Nat) : Binary64 :=
  if mantissaOf num den = 2 ^ 53 then ⟨false, 2 ^ 52, unitOf num den + 1⟩
  else ⟨false, mantissaOf num den, unitOf num den⟩

theorem ofRatio_eq (num den : Nat) :
    ofRatio num den = if num = 0 then some zero
      else if maxExponent < (nearest num den).exponent then none else some (nearest num den) := rfl

theorem magnitude_nearest (num den : Nat) :
    (nearest num den).magnitude = mantissaOf num den * 2 ^ unitOf num den := by
  unfold nearest magnitude
  split
  · next h =>
    rw [h, zpow_add₀ two_ne_zero]
    norm_num
    ring
  · rfl

section Nearest

variable {num den num' den' : Nat}

theorem mantissaOf_le (hn : 0 < num) (hd : 0 < den) : mantissaOf num den ≤ 2 ^ 53 := by
  have hupper := (unitOf_spec hn hd).1
  refine roundDiv_le (scaled_spec num hd _).1 ((scaled_le_iff num hd _ _).mpr ?_)
  rw [add_comm, zpow_add₀ two_ne_zero] at hupper
  exact_mod_cast hupper.le

theorem le_mantissaOf (hn : 0 < num) (hd : 0 < den) (h : minExponent < unitOf num den) :
    2 ^ 52 ≤ mantissaOf num den := by
  have hlower := (unitOf_spec hn hd).2.2 h
  refine le_roundDiv (scaled_spec num hd _).1 ((le_scaled_iff num hd _ _).mpr ?_)
  rw [add_comm, zpow_add₀ two_ne_zero] at hlower
  exact_mod_cast hlower

theorem finite_nearest (hn : 0 < num) (hd : 0 < den)
    (h : (nearest num den).exponent ≤ maxExponent) : (nearest num den).Finite := by
  have hle := mantissaOf_le hn hd
  have hleast := (unitOf_spec hn hd).2.1
  unfold nearest at h ⊢
  split at h
  · next hm =>
    rw [if_pos hm]
    exact ⟨by norm_num, hleast.trans (by simp), h⟩
  · next hm =>
    rw [if_neg hm]
    exact ⟨lt_of_le_of_ne hle hm, hleast, h⟩

/-- A quotient that is rounded beyond the largest number is half a unit above it at least. -/
theorem bound_le (hn : 0 < num) (hd : 0 < den) (h : maxExponent < (nearest num den).exponent) :
    bound ≤ num / den := by
  have hpow : ∀ {a b : Int}, a ≤ b → (2 : ℚ) ^ a ≤ 2 ^ b := zpow_le_zpow_right₀ one_le_two
  have hmax : bound ≤ 2 ^ (1024 : Int) := by
    rw [zpow_ofNat, show 1024 = 54 + 970 from rfl, pow_add]
    exact mul_le_mul_of_nonneg_right (by norm_num) (by positivity)
  rcases lt_or_ge maxExponent (unitOf num den) with hunit | hunit
  · have hlower := (unitOf_spec hn hd).2.2 (lt_trans (by decide) hunit)
    exact (hmax.trans (hpow (by unfold maxExponent at hunit; omega))).trans hlower
  · have hexponent : mantissaOf num den = 2 ^ 53 ∧ unitOf num den = maxExponent := by
      unfold nearest at h
      split at h
      · next hm => exact ⟨hm, by simp only at h; omega⟩
      · exact absurd h (by simp only; omega)
    obtain ⟨hm, hu⟩ := hexponent
    obtain ⟨hpos, hscaled⟩ := scaled_spec num hd (unitOf num den)
    have hhalf := roundDiv_half (scaled num den (unitOf num den)).1
      (scaled num den (unitOf num den)).2
    rw [show roundDiv (scaled num den (unitOf num den)).1 (scaled num den (unitOf num den)).2
      = 2 ^ 53 from hm] at hhalf
    have hpos' : (0 : ℚ) < (scaled num den (unitOf num den)).2 := by exact_mod_cast hpos
    have hquotient : (2 ^ 53 : ℚ) - 1 / 2
        ≤ (scaled num den (unitOf num den)).1 / (scaled num den (unitOf num den)).2 := by
      rw [le_div_iff₀ hpos']
      have hcast : (2 : ℚ) * (2 ^ 53 * (scaled num den (unitOf num den)).2)
          ≤ 2 * (scaled num den (unitOf num den)).1 + (scaled num den (unitOf num den)).2 := by
        exact_mod_cast hhalf
      linarith
    rw [hscaled, le_div_iff₀ (by positivity), hu] at hquotient
    refine le_trans (le_of_eq ?_) hquotient
    rw [bound, maxExponent, zpow_ofNat, pow_succ (2 : ℚ) 970]
    generalize (2 : ℚ) ^ 970 = unit
    ring

theorem nearest_mono (hn : 0 < num) (hd : 0 < den) (hn' : 0 < num') (hd' : 0 < den')
    (h : (num : ℚ) / den ≤ num' / den') :
    (nearest num den).magnitude ≤ (nearest num' den').magnitude := by
  obtain ⟨hupper, hleast, hlower⟩ := unitOf_spec hn hd
  obtain ⟨hupper', hleast', -⟩ := unitOf_spec hn' hd'
  rw [magnitude_nearest, magnitude_nearest]
  have hunit : unitOf num den ≤ unitOf num' den' := by
    rcases hleast.eq_or_lt with heq | hlt
    · exact heq ▸ hleast'
    · have hpow := ((hlower hlt).trans h).trans_lt hupper'
      have hexponent := (zpow_lt_zpow_iff_right₀ one_lt_two).mp hpow
      omega
  rcases hunit.eq_or_lt with heq | hlt
  · rw [heq]
    refine mul_le_mul_of_nonneg_right ?_ (by positivity)
    have hscaled := scaled_spec num hd (unitOf num den)
    have hscaled' := scaled_spec num' hd' (unitOf num' den')
    have hcross : (scaled num den (unitOf num den)).1 * (scaled num' den' (unitOf num' den')).2
        ≤ (scaled num' den' (unitOf num' den')).1 * (scaled num den (unitOf num den)).2 := by
      have hpos : (0 : ℚ) < (scaled num den (unitOf num den)).2 := by exact_mod_cast hscaled.1
      have hpos' : (0 : ℚ) < (scaled num' den' (unitOf num' den')).2 := by
        exact_mod_cast hscaled'.1
      have hle : ((scaled num den (unitOf num den)).1 : ℚ) / (scaled num den (unitOf num den)).2
          ≤ (scaled num' den' (unitOf num' den')).1 / (scaled num' den' (unitOf num' den')).2 := by
        rw [hscaled.2, hscaled'.2, heq]
        exact div_le_div_of_nonneg_right h (by positivity)
      rw [div_le_div_iff₀ hpos hpos'] at hle
      exact_mod_cast hle
    exact_mod_cast roundDiv_mono hscaled.1 hscaled'.1 hcross
  · have hm : (mantissaOf num den : ℚ) ≤ 2 ^ 53 := by exact_mod_cast mantissaOf_le hn hd
    have hm' : (2 ^ 52 : ℚ) ≤ mantissaOf num' den' := by
      exact_mod_cast le_mantissaOf hn' hd' (hleast.trans_lt hlt)
    calc (mantissaOf num den : ℚ) * 2 ^ unitOf num den
        ≤ 2 ^ 53 * 2 ^ unitOf num den := mul_le_mul_of_nonneg_right hm (by positivity)
      _ = 2 ^ 52 * 2 ^ (unitOf num den + 1) := by
          rw [zpow_add₀ two_ne_zero, zpow_one]
          ring
      _ ≤ 2 ^ 52 * 2 ^ unitOf num' den' :=
          mul_le_mul_of_nonneg_left (zpow_le_zpow_right₀ one_le_two (by omega)) (by positivity)
      _ ≤ mantissaOf num' den' * 2 ^ unitOf num' den' :=
          mul_le_mul_of_nonneg_right hm' (by positivity)

end Nearest

section OfRatio

variable {num den num' den' : Nat} {x y z : Binary64}

theorem ofRatio_eq_some_iff :
    ofRatio num den = some x ↔ num = 0 ∧ x = zero ∨
      num ≠ 0 ∧ x = nearest num den ∧ (nearest num den).exponent ≤ maxExponent := by
  rw [ofRatio_eq]
  split
  · next h => simp [h, eq_comm]
  · next h =>
    split
    · next hlt => simp [h, hlt]
    · next hle => simp [h, not_lt.mp hle, eq_comm]

theorem finite_ofRatio (hd : 0 < den) (h : ofRatio num den = some x) : x.Finite := by
  rcases ofRatio_eq_some_iff.mp h with ⟨-, rfl⟩ | ⟨hn, rfl, hle⟩
  · exact ⟨by decide, le_rfl, by decide⟩
  · exact finite_nearest (Nat.pos_of_ne_zero hn) hd hle

/-- What is below the bound is not rounded beyond the largest number. -/
theorem exists_ofRatio (hd : 0 < den) (h : (num : ℚ) / den < bound) :
    ∃ x, ofRatio num den = some x := by
  by_cases hn : num = 0
  · exact ⟨zero, ofRatio_eq_some_iff.mpr (.inl ⟨hn, rfl⟩)⟩
  · refine ⟨nearest num den, ofRatio_eq_some_iff.mpr (.inr ⟨hn, rfl, ?_⟩)⟩
    exact not_lt.mp fun hlt => absurd (bound_le (Nat.pos_of_ne_zero hn) hd hlt) (not_le.mpr h)

theorem magnitude_nonneg (x : Binary64) : 0 ≤ x.magnitude := by
  unfold magnitude
  positivity

theorem magnitude_ofRatio_mono (hd : 0 < den) (hd' : 0 < den')
    (h : (num : ℚ) / den ≤ num' / den') (hx : ofRatio num den = some x)
    (hy : ofRatio num' den' = some y) : x.magnitude ≤ y.magnitude := by
  rcases ofRatio_eq_some_iff.mp hx with ⟨-, rfl⟩ | ⟨hn, rfl, -⟩
  · refine le_of_eq_of_le ?_ y.magnitude_nonneg
    rw [magnitude, zero]
    norm_num
  · have hpos : (0 : ℚ) < num / den := by positivity
    have hn' : num' ≠ 0 := by
      rintro rfl
      norm_num at h
      linarith
    obtain ⟨-, rfl, -⟩ := (ofRatio_eq_some_iff.mp hy).resolve_left fun hzero => hn' hzero.1
    exact nearest_mono (Nat.pos_of_ne_zero hn) hd (Nat.pos_of_ne_zero hn') hd' h

theorem finite_mul (h : x.mul y = some z) : z.Finite :=
  finite_ofRatio (Nat.mul_pos x.ratio_spec.1 y.ratio_spec.1) h

/-- The product of magnitudes below the bound is not too large. -/
theorem exists_mul (h : x.magnitude * y.magnitude < bound) : ∃ z, x.mul y = some z := by
  obtain ⟨hx, hxm⟩ := x.ratio_spec
  obtain ⟨hy, hym⟩ := y.ratio_spec
  refine exists_ofRatio (Nat.mul_pos hx hy) ?_
  push_cast
  rwa [mul_div_mul_comm, hxm, hym]

/-- A number divided by one that is not below one is not too large. -/
theorem exists_div (hx : x.Finite) (hy : 1 ≤ y.magnitude) : ∃ z, x.div y = some z ∧ z.Finite := by
  obtain ⟨hxpos, hxm⟩ := x.ratio_spec
  obtain ⟨hypos, hym⟩ := y.ratio_spec
  have hnum : 0 < y.ratio.1 := by
    refine Nat.pos_of_ne_zero fun hzero => ?_
    rw [hzero] at hym
    norm_num at hym
    linarith
  have hquotient : ((x.ratio.1 * y.ratio.2 : ℕ) : ℚ) / ((x.ratio.2 * y.ratio.1 : ℕ) : ℚ)
      = x.magnitude / y.magnitude := by
    rw [← hxm, ← hym]
    push_cast
    rw [div_div_div_eq]
  have hlt : x.magnitude / y.magnitude < bound :=
    (div_le_self x.magnitude_nonneg hy).trans_lt hx.magnitude_lt
  have hden := Nat.mul_pos hxpos hnum
  obtain ⟨z, hz⟩ := exists_ofRatio hden (hquotient.trans_lt hlt)
  exact ⟨z, hz, finite_ofRatio hden hz⟩

end OfRatio

end Binary64

end CallArchive.Decimal
