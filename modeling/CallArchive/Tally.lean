import CallArchive.Arithmetic

/-!
# Tallies

A tally counts how often each kind of thing came up. `entries` lists the kinds that came up at all,
in a given order, and `total` adds up their counts.
-/

namespace CallArchive

structure Tally (κ : Type) where
  count : κ → Nat

namespace Tally

variable {κ : Type}

def empty : Tally κ := ⟨fun _ => 0⟩

def add [DecidableEq κ] (t : Tally κ) (k : κ) : Tally κ :=
  ⟨fun x => if x = k then t.count x + 1 else t.count x⟩

def merge (t u : Tally κ) : Tally κ := ⟨fun x => t.count x + u.count x⟩

def entries (kinds : List κ) (t : Tally κ) : List (κ × Nat) :=
  (kinds.filter fun k => t.count k != 0).map fun k => (k, t.count k)

def total (kinds : List κ) (t : Tally κ) : Nat := ((t.entries kinds).map Prod.snd).sum

theorem ext {t u : Tally κ} (h : ∀ k, t.count k = u.count k) : t = u := by
  cases t; cases u
  exact congrArg mk (funext h)

theorem merge_comm (t u : Tally κ) : t.merge u = u.merge t := ext fun _ => Nat.add_comm ..

theorem merge_assoc (t u v : Tally κ) : (t.merge u).merge v = t.merge (u.merge v) :=
  ext fun _ => Nat.add_assoc ..

@[simp] theorem merge_empty (t : Tally κ) : t.merge empty = t := ext fun _ => rfl

theorem entries_ne_zero {kinds : List κ} {t : Tally κ} {k : κ} {n : Nat}
    (h : (k, n) ∈ t.entries kinds) : n ≠ 0 := by
  simp only [entries, List.mem_map, List.mem_filter, Prod.mk.injEq] at h
  obtain ⟨y, ⟨-, hy⟩, -, rfl⟩ := h
  simpa using hy

/-- Kinds without a count add nothing. -/
theorem total_eq_sum (kinds : List κ) (t : Tally κ) : t.total kinds = (kinds.map t.count).sum := by
  induction kinds with
  | nil => rfl
  | cons k ks ih =>
    by_cases h : t.count k = 0
    · simpa [total, entries, h] using ih
    · simpa [total, entries, h] using ih

end Tally

end CallArchive
