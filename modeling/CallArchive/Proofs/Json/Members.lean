import CallArchive.Json.Value

/-!
# Objects with ascending keys

`insert` keeps keys ascending, and two objects with ascending keys are equal if they agree at every
key (`Sorted.ext`). So `merge`, which at each key prefers the new object (`find?_merge`), is
associative and idempotent on them.
-/

namespace CallArchive.Json.Members

@[simp] theorem sorted_nil : Sorted [] := List.Pairwise.nil

theorem sorted_cons {k : String} {v : Value} {m : Members} :
    Sorted ((k, v) :: m) ↔ (∀ x ∈ keys m, k < x) ∧ Sorted m := List.pairwise_cons

theorem lt_or_lt_of_ne {a b : String} (h : a ≠ b) : a < b ∨ b < a := by
  by_cases hlt : a < b
  · exact .inl hlt
  · exact .inr (String.not_le.mp fun hle => h (String.le_antisymm hle (String.not_lt.mp hlt)))

theorem mem_keys_insert {key x : String} {value : Value} {m : Members}
    (h : x ∈ keys (insert key value m)) : x = key ∨ x ∈ keys m := by
  induction m with
  | nil => exact .inl (List.mem_singleton.mp h)
  | cons p rest ih =>
    obtain ⟨k, v⟩ := p
    unfold insert at h
    split at h
    · rcases List.mem_cons.mp h with rfl | h
      · exact .inl rfl
      · exact .inr (List.mem_cons_of_mem _ h)
    · split at h
      · exact List.mem_cons.mp h
      · rcases List.mem_cons.mp h with rfl | h
        · exact .inr List.mem_cons_self
        · exact (ih h).imp_right (List.mem_cons_of_mem _)

theorem Sorted.insert {m : Members} (h : Sorted m) (key : String) (value : Value) :
    Sorted (Members.insert key value m) := by
  induction m with
  | nil => exact List.pairwise_singleton ..
  | cons p rest ih =>
    obtain ⟨k, v⟩ := p
    obtain ⟨hk, hs⟩ := sorted_cons.mp h
    unfold Members.insert
    split
    · next he => exact sorted_cons.mpr ⟨he ▸ hk, hs⟩
    · next hne =>
      split
      · next hlt =>
        refine sorted_cons.mpr ⟨fun x hx => ?_, h⟩
        rcases List.mem_cons.mp hx with rfl | hx
        · exact hlt
        · exact String.lt_trans hlt (hk x hx)
      · next hlt =>
        refine sorted_cons.mpr ⟨fun x hx => ?_, ih hs⟩
        rcases mem_keys_insert hx with rfl | hx
        · exact (lt_or_lt_of_ne hne).resolve_left hlt
        · exact hk x hx

theorem find?_eq_none_iff {key : String} {m : Members} : find? key m = none ↔ key ∉ keys m := by
  induction m with
  | nil => simp [find?, keys]
  | cons p rest ih =>
    obtain ⟨k, v⟩ := p
    by_cases h : k = key
    · simp [find?, keys, h]
    · simp only [keys] at ih
      simp [find?, keys, h, Ne.symm h, ih]

/-- A key below all others has no member. -/
theorem find?_of_lt {key : String} {m : Members} (h : ∀ x ∈ keys m, key < x) :
    find? key m = none :=
  find?_eq_none_iff.mpr fun hm => String.lt_irrefl key (h key hm)

/-- The least key of an object with a member under it is not below that key. -/
theorem not_lt_of_find? {key k : String} {v : Value} {rest : Members}
    (h : ∀ x ∈ keys rest, k < x) (hf : find? key ((k, v) :: rest) ≠ none) : ¬ key < k := by
  refine fun hlt => hf (find?_of_lt fun x hx => ?_)
  rcases List.mem_cons.mp hx with rfl | hx
  · exact hlt
  · exact String.lt_trans hlt (h x hx)

/-- Objects with ascending keys are told apart by their members. -/
theorem Sorted.ext {m n : Members} (hm : Sorted m) (hn : Sorted n)
    (h : ∀ key, find? key m = find? key n) : m = n := by
  induction m generalizing n with
  | nil =>
    cases n with
    | nil => rfl
    | cons q rest => simpa [find?] using h q.1
  | cons p rest ih =>
    obtain ⟨k, v⟩ := p
    cases n with
    | nil => simpa [find?] using h k
    | cons q rest' =>
      obtain ⟨k', v'⟩ := q
      obtain ⟨hk, hs⟩ := sorted_cons.mp hm
      obtain ⟨hk', hs'⟩ := sorted_cons.mp hn
      have hkk : k = k' := Decidable.by_contra fun hne => by
        have h1 : ¬ k < k' := not_lt_of_find? hk' (by rw [← h k]; simp [find?])
        have h2 : ¬ k' < k := not_lt_of_find? hk (by rw [h k']; simp [find?])
        exact (lt_or_lt_of_ne hne).elim h1 h2
      subst hkk
      have hv : v = v' := by simpa [find?] using h k
      have hrest : rest = rest' := ih hs hs' fun key => by
        by_cases he : k = key
        · subst he
          rw [find?_of_lt hk, find?_of_lt hk']
        · simpa [find?, he] using h key
      rw [hv, hrest]

/-! ## Merging -/

theorem Sorted.merge {old : Members} (h : Sorted old) (new : Members) :
    Sorted (Members.merge old new) := by
  induction new generalizing old with
  | nil => exact h
  | cons p rest ih => exact ih (h.insert p.1 p.2)

/-- At each key the new object is preferred. -/
theorem find?_merge {old new : Members} (h : Sorted new) (key : String) :
    find? key (merge old new) = (find? key new).or (find? key old) := by
  induction new generalizing old with
  | nil => rfl
  | cons p rest ih =>
    obtain ⟨k, v⟩ := p
    obtain ⟨hk, hs⟩ := sorted_cons.mp h
    have hstep : find? key (merge old ((k, v) :: rest))
        = (find? key rest).or (find? key (insert k v old)) := ih hs
    rw [hstep, find?_insert, find?]
    by_cases he : k = key
    · subst he
      simp [find?_of_lt hk]
    · simp [he]

theorem merge_assoc {a b c : Members} (ha : Sorted a) (hb : Sorted b) (hc : Sorted c) :
    merge (merge a b) c = merge a (merge b c) := by
  refine ((ha.merge b).merge c).ext (ha.merge _) fun key => ?_
  rw [find?_merge hc, find?_merge hb, find?_merge (hb.merge c), find?_merge hc, Option.or_assoc]

theorem merge_self {a : Members} (h : Sorted a) : merge a a = a := by
  refine (h.merge a).ext h fun key => ?_
  rw [find?_merge h, Option.or_self]

end CallArchive.Json.Members
