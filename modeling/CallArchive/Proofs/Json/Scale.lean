import CallArchive.Json.Number
import CallArchive.Proofs.Decimal.Rounding

/-!
# Scaling by powers of ten

`scale` rounds more than once, so it may fail though the exact product is not too large. It does not
fail up to `ceiling` (`exists_scale`), which is half a unit above the second largest number. Since
rounding is monotone, one significand is tried for each power of ten, the largest one below the
ceiling (`greatest_admitted`).
-/

namespace CallArchive.Json.Number

open Decimal Binary64

theorem ratio_lt_bound_iff {num den : Nat} (hd : 0 < den) :
    (num : ℚ) / den < bound ↔ num < (2 ^ 54 - 1) * 2 ^ 970 * den := by
  have hpos : (0 : ℚ) < den := by exact_mod_cast hd
  have hbound : bound = ((2 ^ 54 - 1 : Nat) * 2 ^ 970 : Nat) := by
    rw [bound, Nat.cast_mul, Nat.cast_pow, Nat.cast_sub Nat.one_le_two_pow]
    push_cast
    rfl
  rw [div_lt_iff₀ hpos, hbound]
  norm_cast

theorem exists_ofNat {n : Nat} (h : n ≤ 10 ^ maxPower) :
    ∃ x, Binary64.ofNat n = some x ∧ x.Finite := by
  have hmax : 10 ^ maxPower < (2 ^ 54 - 1) * 2 ^ 970 * 1 := by decide +kernel
  obtain ⟨x, hx⟩ := exists_ofRatio Nat.one_pos
    ((ratio_lt_bound_iff Nat.one_pos).mpr (h.trans_lt hmax))
  exact ⟨x, hx, finite_ofRatio Nat.one_pos hx⟩

theorem ofNat_mono {m n : Nat} {x y : Binary64} (h : m ≤ n) (hx : Binary64.ofNat m = some x)
    (hy : Binary64.ofNat n = some y) : x.magnitude ≤ y.magnitude := by
  have hle : (m : ℚ) ≤ n := by exact_mod_cast h
  exact magnitude_ofRatio_mono Nat.one_pos Nat.one_pos
    (div_le_div_of_nonneg_right hle (by positivity)) hx hy

theorem one_le_ofNat {n : Nat} {x : Binary64} (hn : 0 < n) (hx : Binary64.ofNat n = some x) :
    1 ≤ x.magnitude := by
  have hone : Binary64.ofNat 1 = some ⟨false, 2 ^ 52, -52⟩ := by decide +kernel
  have hmono := ofNat_mono hn hone hx
  norm_num [magnitude] at hmono ⊢
  exact hmono

/-! ## Negative powers -/

/-- Division by a power of ten does not fail. -/
theorem exists_div_pow {x : Binary64} (hx : x.Finite) {power : Nat} (hp : power ≤ maxPower) :
    ∃ d y, Binary64.ofNat (10 ^ power) = some d ∧ x.div d = some y ∧ y.Finite := by
  obtain ⟨d, hd, -⟩ := exists_ofNat (Nat.pow_le_pow_right (by decide) hp)
  obtain ⟨y, hy⟩ := exists_div hx (one_le_ofNat (by positivity) hd)
  exact ⟨d, y, hd, hy⟩

theorem exists_shrink {x : Binary64} (hx : x.Finite) (power : Nat) :
    ∃ y, shrink x power = some y ∧ y.Finite := by
  induction power using Nat.strongRecOn generalizing x with
  | ind power ih =>
    rw [shrink]
    split
    · next hp =>
      obtain ⟨d, y, hd, hy, hfinite⟩ := exists_div_pow hx hp
      exact ⟨y, by simpa [hd] using hy, hfinite⟩
    split
    · exact ⟨x, rfl, hx⟩
    · next hp _ =>
      obtain ⟨d, y, hd, hy, hfinite⟩ := exists_div_pow hx le_rfl
      obtain ⟨z, hz⟩ := ih (power - maxPower) (by simp only [maxPower] at hp ⊢; omega) hfinite
      exact ⟨z, by simpa [hd, hy] using hz.1, hz.2⟩

/-! ## Powers that are not negative -/

/-- Half a unit above the second largest number. -/
def ceiling : Nat := (2 ^ 54 - 3) * 2 ^ 970

/-- The largest significand whose exact product with a power of ten is not above the ceiling. -/
def greatest (power : Nat) : Nat := min maxUnsigned (ceiling / 10 ^ power)

theorem greatest_le (power : Nat) : greatest power ≤ maxUnsigned := Nat.min_le_left _ _

/-- Whether the product of the rounded factors is rounded to a number. -/
def Admitted (n power : Nat) : Bool :=
  match Binary64.ofNat n, Binary64.ofNat (10 ^ power) with
  | some x, some y =>
    decide (x.ratio.1 * y.ratio.1 < (2 ^ 54 - 1) * 2 ^ 970 * (x.ratio.2 * y.ratio.2))
  | _, _ => false

/-- The largest power of ten by which every significand may be multiplied. -/
def freePower : Nat := 288

theorem greatest_admitted :
    ∀ power < maxPower + 1, freePower ≤ power → Admitted (greatest power) power = true := by
  decide +kernel

/-- Smaller factors have a smaller product. -/
theorem exists_scale_of_admitted {n m power limit : Nat} (hn : n ≤ m) (hm : m ≤ maxUnsigned)
    (hp : power ≤ limit) (hlimit : limit ≤ maxPower) (h : Admitted m limit = true) :
    ∃ z, scale n power = some z := by
  simp only [Admitted] at h
  split at h
  · next big top hbig htop =>
    have hmax : maxUnsigned ≤ 10 ^ maxPower := by decide +kernel
    have hpow : ∀ {a b : Nat}, a ≤ b → 10 ^ a ≤ 10 ^ b := Nat.pow_le_pow_right (by decide)
    obtain ⟨x, hx, -⟩ := exists_ofNat ((hn.trans hm).trans hmax)
    obtain ⟨y, hy, -⟩ := exists_ofNat (hpow (hp.trans hlimit))
    obtain ⟨hbigpos, hbigm⟩ := big.ratio_spec
    obtain ⟨htoppos, htopm⟩ := top.ratio_spec
    have hbound : big.magnitude * top.magnitude < bound := by
      have hlt := (ratio_lt_bound_iff (Nat.mul_pos hbigpos htoppos)).mpr (of_decide_eq_true h)
      rw [← hbigm, ← htopm, ← mul_div_mul_comm]
      push_cast at hlt
      exact hlt
    have hproduct : x.magnitude * y.magnitude ≤ big.magnitude * top.magnitude :=
      mul_le_mul (ofNat_mono hn hx hbig) (ofNat_mono (hpow hp) hy htop) y.magnitude_nonneg
        big.magnitude_nonneg
    obtain ⟨z, hz⟩ := exists_mul (hproduct.trans_lt hbound)
    have hnonneg : ¬ (power : Int) < 0 := by omega
    refine ⟨z, ?_⟩
    simp only [scale, hx, hy, Option.bind_eq_bind, Option.bind_some, if_neg hnonneg,
      Int.toNat_natCast, if_pos (hp.trans hlimit)]
    exact hz
  · cases h

theorem exists_scale_pow {n power : Nat} (hn : n ≤ maxUnsigned) (hp : power ≤ maxPower)
    (h : n * 10 ^ power ≤ ceiling) : ∃ z, scale n power = some z := by
  rcases le_or_gt freePower power with hfree | hfree
  · have hle : n ≤ greatest power := le_min hn ((Nat.le_div_iff_mul_le (by positivity)).mpr h)
    exact exists_scale_of_admitted hle (greatest_le power) le_rfl hp
      (greatest_admitted power (Nat.lt_succ_of_le hp) hfree)
  · have hall : greatest freePower = maxUnsigned := by decide +kernel
    exact exists_scale_of_admitted (hall ▸ hn) (greatest_le freePower) hfree.le (by decide)
      (greatest_admitted freePower (by decide) le_rfl)

/-! ## Scaling -/

theorem finite_scale {n : Nat} {power : Int} {z : Binary64} (h : scale n power = some z) :
    z.Finite := by
  unfold scale at h
  obtain ⟨x, hx, h⟩ := Option.bind_eq_some_iff.mp h
  have hfinite := finite_ofRatio Nat.one_pos hx
  split at h
  · obtain ⟨y, hy, hyfinite⟩ := exists_shrink hfinite (-power).toNat
    obtain rfl := Option.some.inj (hy.symm.trans h)
    exact hyfinite
  split at h
  · obtain ⟨y, -, h⟩ := Option.bind_eq_some_iff.mp h
    exact finite_mul h
  split at h
  · obtain rfl := Option.some.inj h
    exact hfinite
  · cases h

/-- What is not above the ceiling is scaled. -/
theorem exists_scale {n : Nat} {power : Int} (hn : n ≤ maxUnsigned)
    (h : (n : ℚ) * 10 ^ power ≤ ceiling) : ∃ z, scale n power = some z := by
  have hmax : maxUnsigned ≤ 10 ^ maxPower := by decide +kernel
  obtain ⟨x, hx, hfinite⟩ := exists_ofNat (hn.trans hmax)
  rcases lt_or_ge power 0 with hneg | hnonneg
  · obtain ⟨y, hy, -⟩ := exists_shrink hfinite (-power).toNat
    exact ⟨y, by simp [scale, hx, hneg, hy]⟩
  obtain ⟨p, rfl⟩ := Int.eq_ofNat_of_zero_le hnonneg
  rw [zpow_natCast] at h
  have hle : n * 10 ^ p ≤ ceiling := by exact_mod_cast h
  rcases le_or_gt p maxPower with hp | hp
  · exact exists_scale_pow hn hp hle
  · -- Beyond the largest power only zero remains.
    have hzero : n = 0 := by
      by_contra hne
      have hpow : 10 ^ (maxPower + 1) ≤ 10 ^ p := Nat.pow_le_pow_right (by decide) hp
      have hone : 10 ^ p ≤ n * 10 ^ p := Nat.le_mul_of_pos_left _ (Nat.pos_of_ne_zero hne)
      have hceiling : ceiling < 10 ^ (maxPower + 1) := by decide +kernel
      omega
    subst hzero
    obtain rfl := Option.some.inj hx
    exact ⟨zero, by simp [scale, Binary64.ofNat, ofRatio, zero, isZero, not_le.mpr hp]⟩

end CallArchive.Json.Number
