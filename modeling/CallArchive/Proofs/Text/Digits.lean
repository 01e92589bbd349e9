import CallArchive.Arithmetic
import CallArchive.Text.Digits
import Mathlib.Data.List.Induction
import Mathlib.Tactic.Ring

/-!
# Rows of digits

What is written with `digits` is read with `ofDigits`, and both by the length of the row.
-/

namespace CallArchive.Text

/-- A row of decimal digits. -/
def AllDigits (s : List Char) : Prop := ∀ c ∈ s, c.isDigit = true

@[simp] theorem allDigits_nil : AllDigits [] := List.forall_mem_nil _

@[simp] theorem allDigits_cons {c : Char} {s : List Char} :
    AllDigits (c :: s) ↔ c.isDigit = true ∧ AllDigits s := List.forall_mem_cons

@[simp] theorem allDigits_append {s t : List Char} :
    AllDigits (s ++ t) ↔ AllDigits s ∧ AllDigits t := List.forall_mem_append

@[simp] theorem allDigits_zeros (n : Nat) : AllDigits (List.replicate n '0') := fun c hc => by
  rw [List.eq_of_mem_replicate hc]
  rfl

@[simp] theorem allDigits_digits (n : Nat) : AllDigits (digits n) :=
  fun _ => Nat.isDigit_of_mem_toDigits (by decide) (by decide)

theorem AllDigits.take {s : List Char} (h : AllDigits s) (n : Nat) : AllDigits (s.take n) :=
  fun c hc => h c (List.mem_of_mem_take hc)

theorem AllDigits.drop {s : List Char} (h : AllDigits s) (n : Nat) : AllDigits (s.drop n) :=
  fun c hc => h c (List.mem_of_mem_drop hc)

theorem toNat_of_isDigit {c : Char} (h : c.isDigit = true) : 48 ≤ c.toNat ∧ c.toNat ≤ 57 := by
  simpa [Char.isDigit, UInt32.le_iff_toNat_le] using h

theorem digitValue_le {c : Char} (h : c.isDigit = true) : digitValue c ≤ 9 := by
  have hbounds := toNat_of_isDigit h
  have hzero : '0'.toNat = 48 := rfl
  unfold digitValue
  omega

theorem ofDigits_append (s t : List Char) :
    ofDigits (s ++ t) = ofDigits s * 10 ^ t.length + ofDigits t := by
  have h : Nat.ofDigitChars 10 t (ofDigits s) = 10 ^ t.length * ofDigits s + ofDigits t :=
    Nat.ofDigitChars_eq_ofDigitChars_zero
  rw [Nat.mul_comm]
  exact (Nat.ofDigitChars_append 0).trans h

@[simp] theorem ofDigits_zeros (n : Nat) : ofDigits (List.replicate n '0') = 0 :=
  Nat.ofDigitChars_replicate_zero.trans (Nat.mul_zero _)

theorem ofDigits_digits (n : Nat) : ofDigits (digits n) = n := Nat.ofDigitChars_ten_toDigits

theorem ofDigits_lt {s : List Char} (h : AllDigits s) : ofDigits s < 10 ^ s.length := by
  induction s using List.reverseRecOn with
  | nil => exact Nat.one_pos
  | append_singleton s c ih =>
    obtain ⟨hs, hc⟩ := allDigits_append.mp h
    have hdigit := digitValue_le (hc c List.mem_cons_self)
    have hlt := ih hs
    have hone : ofDigits [c] = digitValue c := Nat.zero_add _
    rw [ofDigits_append, hone, List.length_append, List.length_singleton, pow_succ]
    omega

/-- A number that is not zero does not begin with a zero. -/
theorem exists_digits {n : Nat} (hn : 0 < n) :
    ∃ c s, digits n = c :: s ∧ c.isDigit = true ∧ c ≠ '0' := by
  induction n using Nat.strongRecOn with
  | ind n ih =>
    by_cases hlt : n < 10
    · refine ⟨Nat.digitChar n, [], Nat.toDigits_of_lt_base hlt, ?_⟩
      have hall : ∀ k < 10, 0 < k → (Nat.digitChar k).isDigit = true ∧ Nat.digitChar k ≠ '0' := by
        decide
      exact hall n hlt hn
    · obtain ⟨c, s, heq, hc⟩ := ih (n / 10) (by omega) (by omega)
      refine ⟨c, s ++ [Nat.digitChar (n % 10)], ?_, hc⟩
      rw [digits, Nat.toDigits_of_base_le (by decide) (by omega)]
      exact congrArg (· ++ _) heq

/-! ## Reading -/

theorem readNat_eq_some_iff {s : List Char} {n : Nat} :
    readNat s = some n ↔ s ≠ [] ∧ AllDigits s ∧ ofDigits s = n := by
  have hall : s.all Char.isDigit = true ↔ AllDigits s := List.all_eq_true
  unfold readNat
  split
  · next h =>
    refine iff_of_false (Option.some_ne_none n).symm fun ⟨hne, hdigits, _⟩ => ?_
    rcases Bool.or_eq_true_iff.mp h with hempty | hnot
    · exact hne (List.isEmpty_iff.mp hempty)
    · rw [hall.mpr hdigits] at hnot
      cases hnot
  · next h =>
    rw [Bool.not_eq_true, Bool.or_eq_false_iff, List.isEmpty_eq_false_iff, Bool.not_eq_false',
      hall] at h
    simp [h.1, h.2]

/-- An unsigned number is a row of digits after at most one plus sign. -/
theorem readUnsigned_eq_some_iff {s : List Char} {n : Nat} :
    readUnsigned s = some n ↔
      ∃ sign ds, (sign = [] ∨ sign = ['+']) ∧ s = sign ++ ds ∧ readNat ds = some n := by
  have hplus (ds : List Char) : readNat ('+' :: ds) ≠ some n := fun h =>
    absurd (allDigits_cons.mp (readNat_eq_some_iff.mp h).2.1).1 (by decide)
  constructor
  · intro h
    unfold readUnsigned at h
    split at h
    · next ds => exact ⟨['+'], ds, .inr rfl, rfl, h⟩
    · exact ⟨[], s, .inl rfl, rfl, h⟩
  · rintro ⟨sign, ds, rfl | rfl, rfl, h⟩
    · unfold readUnsigned
      split
      · next ds' => exact absurd h (hplus ds')
      · exact h
    · exact h

end CallArchive.Text
