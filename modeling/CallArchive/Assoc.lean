/-!
# Association lists

Pairs of a key and a value, each key once, in the order in which the keys first came. `get?` looks a
key up and `put` gives it a value.
-/

namespace CallArchive

abbrev Assoc (κ υ : Type) := List (κ × υ)

namespace Assoc

variable {κ υ : Type} [DecidableEq κ]

def get? (key : κ) : Assoc κ υ → Option υ
  | [] => none
  | (k, v) :: rest => if k = key then some v else get? key rest

def put (key : κ) (value : υ) : Assoc κ υ → Assoc κ υ
  | [] => [(key, value)]
  | (k, v) :: rest => if k = key then (key, value) :: rest else (k, v) :: put key value rest

def keys (m : Assoc κ υ) : List κ := m.map Prod.fst

def erase (key : κ) (m : Assoc κ υ) : Assoc κ υ := m.filter fun p => p.1 ≠ key

/-- The last value given to a key counts. -/
def ofList (pairs : List (κ × υ)) : Assoc κ υ := pairs.foldl (fun m p => put p.1 p.2 m) []

theorem get?_put (key other : κ) (value : υ) (m : Assoc κ υ) :
    get? other (put key value m) = if key = other then some value else get? other m := by
  induction m with
  | nil => rfl
  | cons p rest ih =>
    obtain ⟨k, v⟩ := p
    unfold put
    split
    · next h => subst h; by_cases ho : k = other <;> simp [get?, ho]
    · next h =>
      simp only [get?, ih]
      by_cases hk : k = other
      · subst hk; simp [Ne.symm h]
      · simp [hk]

theorem get?_erase (key other : κ) (m : Assoc κ υ) :
    get? other (erase key m) = if key = other then none else get? other m := by
  induction m with
  | nil => simp [erase, get?]
  | cons p rest ih =>
    obtain ⟨k, v⟩ := p
    simp only [erase, ne_eq, decide_not] at ih ⊢
    by_cases hk : k = key
    · subst hk
      simp only [decide_true, Bool.not_true, Bool.false_eq_true, not_false_eq_true,
        List.filter_cons_of_neg, ih, get?]
      split <;> rfl
    · simp only [hk, decide_false, Bool.not_false, List.filter_cons_of_pos, get?, ih]
      by_cases ho : k = other
      · subst ho
        simp [Ne.symm hk]
      · simp [ho]

theorem get?_isSome_iff {key : κ} {m : Assoc κ υ} : (get? key m).isSome ↔ key ∈ keys m := by
  induction m with
  | nil => simp [get?, keys]
  | cons p rest ih =>
    obtain ⟨k, v⟩ := p
    by_cases h : k = key
    · simp [get?, keys, h]
    · simp only [get?, h, if_false, keys, List.map_cons, List.mem_cons] at ih ⊢
      rw [ih]
      exact ⟨Or.inr, fun h' => h'.resolve_left (Ne.symm h)⟩

theorem keys_put (key : κ) (value : υ) (m : Assoc κ υ) :
    keys (put key value m) = if key ∈ keys m then keys m else keys m ++ [key] := by
  induction m with
  | nil => simp [put, keys]
  | cons p rest ih =>
    obtain ⟨k, v⟩ := p
    by_cases h : k = key
    · simp [put, keys, h]
    · simp only [put, h, if_false, keys, List.map_cons, List.mem_cons, Ne.symm h, false_or] at ih ⊢
      rw [ih]
      split
      · next hm => simp [hm]
      · next hm => simp [hm]

theorem get?_foldl_put {key : κ} {value : υ} {pairs : List (κ × υ)} {m : Assoc κ υ}
    (h : ∀ v, (key, v) ∈ pairs → v = value)
    (hsome : (key, value) ∈ pairs ∨ get? key m = some value) :
    get? key (pairs.foldl (fun m p => put p.1 p.2 m) m) = some value := by
  induction pairs generalizing m with
  | nil => exact hsome.resolve_left List.not_mem_nil
  | cons p rest ih =>
    obtain ⟨k, v⟩ := p
    refine ih (fun v' hv' => h v' (List.mem_cons_of_mem _ hv')) ?_
    rw [get?_put]
    by_cases hk : k = key
    · subst hk
      exact .inr (by rw [if_pos rfl, h v List.mem_cons_self])
    · rw [if_neg hk]
      refine hsome.imp_left fun hmem => (List.mem_cons.mp hmem).resolve_left fun heq => ?_
      exact hk (congrArg Prod.fst heq).symm

/-- Where a key is always given the same value, the order of the pairs does not matter. -/
theorem get?_ofList {key : κ} {value : υ} {pairs : List (κ × υ)} (hmem : (key, value) ∈ pairs)
    (h : ∀ v, (key, v) ∈ pairs → v = value) : get? key (ofList pairs) = some value :=
  get?_foldl_put h (.inl hmem)

end Assoc

end CallArchive
