import CallArchive.Json.Merge
import CallArchive.Proofs.Json.Drift
import CallArchive.Proofs.Json.Reader

/-!
# Values that can be stored

A value is `Storable` if its numbers are valid and it does not nest too deep. Its text is read as
another such value (`Value.Storable.exists_reread`), so it lasts (`Value.Storable.lasting`).

All that is read is storable (`storable_of_parse`). So texts that are `Readable` can be merged, again
and again (`Readable.merge`). What is written need not be `Readable`: the printer nests as deep as
the value does, and the reader does not follow (`readable_nested_iff`).
-/

namespace CallArchive.Json

open CallArchive.Json.Parser (maxDepth)

mutual

/-- The value has valid numbers, and below `level` open arrays and objects it nests no deeper than
is read. -/
def Value.Storable (level : Nat) : Value → Prop
  | .null | .bool _ | .text _ => True
  | .number n => n.Valid
  | .array xs => level < maxDepth ∧ StorableItems (level + 1) xs
  | .object ms => level < maxDepth ∧ StorableMembers (level + 1) ms
termination_by structural v => v

def StorableItems (level : Nat) : List Value → Prop
  | [] => True
  | x :: xs => Value.Storable level x ∧ StorableItems level xs
termination_by structural xs => xs

def StorableMembers (level : Nat) : List (String × Value) → Prop
  | [] => True
  | (_, v) :: ms => Value.Storable level v ∧ StorableMembers level ms
termination_by structural ms => ms

end

variable {level : Nat}

theorem storableItems_iff {xs : List Value} :
    StorableItems level xs ↔ ∀ x ∈ xs, x.Storable level := by
  induction xs with
  | nil => simp [StorableItems]
  | cons x xs ih => rw [StorableItems, ih, List.forall_mem_cons]

theorem storableMembers_iff {ms : List (String × Value)} :
    StorableMembers level ms ↔ ∀ p ∈ ms, p.2.Storable level := by
  induction ms with
  | nil => simp [StorableMembers]
  | cons p ms ih => rw [StorableMembers, ih, List.forall_mem_cons]

theorem StorableMembers.insert {m : Members} (hm : StorableMembers level m) (key : String)
    {v : Value} (hv : v.Storable level) : StorableMembers level (m.insert key v) := by
  rw [storableMembers_iff] at hm ⊢
  intro p hp
  rcases mem_insert hp with rfl | hp
  · exact hv
  · exact hm p hp

theorem StorableMembers.merge {old new : Members} (hold : StorableMembers level old)
    (hnew : StorableMembers level new) : StorableMembers level (Members.merge old new) := by
  rw [storableMembers_iff] at hold hnew ⊢
  exact fun p hp => (mem_merge hp).elim (hold p) (hnew p)

mutual

/-- What can be stored deep inside can be stored by itself. -/
theorem Value.Storable.of_le {level level' : Nat} (hle : level ≤ level') :
    (v : Value) → v.Storable level' → v.Storable level
  | .null, _ | .bool _, _ | .text _, _ => trivial
  | .number _, h => h
  | .array xs, ⟨hroom, hxs⟩ =>
    ⟨Nat.lt_of_le_of_lt hle hroom, StorableItems.of_le (Nat.succ_le_succ hle) xs hxs⟩
  | .object ms, ⟨hroom, hms⟩ =>
    ⟨Nat.lt_of_le_of_lt hle hroom, StorableMembers.of_le (Nat.succ_le_succ hle) ms hms⟩
termination_by structural v => v

theorem StorableItems.of_le {level level' : Nat} (hle : level ≤ level') :
    (xs : List Value) → StorableItems level' xs → StorableItems level xs
  | [], _ => trivial
  | x :: xs, ⟨hx, hxs⟩ => ⟨Value.Storable.of_le hle x hx, StorableItems.of_le hle xs hxs⟩
termination_by structural xs => xs

theorem StorableMembers.of_le {level level' : Nat} (hle : level ≤ level') :
    (ms : List (String × Value)) → StorableMembers level' ms → StorableMembers level ms
  | [], _ => trivial
  | (_, v) :: ms, ⟨hv, hms⟩ => ⟨Value.Storable.of_le hle v hv, StorableMembers.of_le hle ms hms⟩
termination_by structural ms => ms

end

theorem Value.Storable.item {xs : List Value} (h : (Value.array xs).Storable level) :
    ∀ x ∈ xs, x.Storable level := fun x hx =>
  .of_le (Nat.le_succ level) x (storableItems_iff.mp h.2 x hx)

theorem Value.Storable.member {m : Members} (h : (Value.object m).Storable level) :
    ∀ p ∈ m, p.2.Storable level := fun p hp =>
  .of_le (Nat.le_succ level) p.2 (storableMembers_iff.mp h.2 p hp)

theorem Value.Storable.get? {v w : Value} {key : String} (hv : v.Storable level)
    (h : v.get? key = some w) : w.Storable level := by
  obtain ⟨m, rfl, hmem⟩ := Value.mem_of_get? h
  exact hv.member (key, w) hmem

mutual

/-- What is read in the text of a storable value is storable. -/
theorem Value.Storable.exists_reread (level : Nat) : (v : Value) → v.Storable level →
    ∃ w, v.reread? level = some w ∧ w.Storable level
  | .null, _ => ⟨_, rfl, trivial⟩
  | .bool _, _ => ⟨_, rfl, trivial⟩
  | .text _, _ => ⟨_, rfl, trivial⟩
  | .number n, h => by
    obtain ⟨m, hm⟩ := Number.Valid.exists_reread h
    exact ⟨.number m, by rw [Value.reread?, hm]; rfl, Number.valid_of_reread hm⟩
  | .array xs, ⟨hdepth, hxs⟩ => by
    obtain ⟨ys, hys, hstorable⟩ := StorableItems.exists_reread (level + 1) xs hxs
    exact ⟨.array ys, by rw [Value.reread?, if_pos hdepth, hys]; rfl, hdepth, hstorable⟩
  | .object ms, ⟨hdepth, hms⟩ => by
    obtain ⟨m, hm, hstorable⟩ := StorableMembers.exists_reread (level + 1) ms [] trivial hms
    exact ⟨.object m, by rw [Value.reread?, if_pos hdepth, hm]; rfl, hdepth, hstorable⟩
termination_by structural v => v

theorem StorableItems.exists_reread (level : Nat) : (xs : List Value) → StorableItems level xs →
    ∃ ys, rereadItems? level xs = some ys ∧ StorableItems level ys
  | [], _ => ⟨[], rfl, trivial⟩
  | x :: xs, ⟨hx, hxs⟩ => by
    obtain ⟨y, hy, hystorable⟩ := Value.Storable.exists_reread level x hx
    obtain ⟨ys, hys, hstorable⟩ := StorableItems.exists_reread level xs hxs
    exact ⟨y :: ys, by rw [rereadItems?_cons, hy, hys]; rfl, hystorable, hstorable⟩
termination_by structural xs => xs

theorem StorableMembers.exists_reread (level : Nat) : (ms : List (String × Value)) →
    (done : Members) → StorableMembers level done → StorableMembers level ms →
    ∃ m, rereadMembers? level done ms = some m ∧ StorableMembers level m
  | [], done, hdone, _ => ⟨done, rfl, hdone⟩
  | (k, v) :: ms, done, hdone, ⟨hv, hms⟩ => by
    obtain ⟨w, hw, hwstorable⟩ := Value.Storable.exists_reread level v hv
    obtain ⟨m, hm, hstorable⟩ :=
      StorableMembers.exists_reread level ms _ (hdone.insert k hwstorable) hms
    exact ⟨m, by rw [rereadMembers?_cons, hw]; exact hm, hstorable⟩
termination_by structural ms => ms

end

theorem Value.Storable.lasting {v : Value} (h : v.Storable 1) : Lasting v := by
  have hdrifts : ∀ w, Drifts v w → w.Storable 1 := fun w hw => by
    induction hw with
    | refl => exact h
    | tail _ hstep ih =>
      obtain ⟨next, hnext, hstorable⟩ := Value.Storable.exists_reread 1 _ ih
      exact Option.some.inj (hnext.symm.trans hstep) ▸ hstorable
  intro w hw
  obtain ⟨next, hnext, -⟩ := Value.Storable.exists_reread 1 w (hdrifts w hw)
  rw [hnext]
  rfl

/-- An object as documents are: its keys ascend, and it can be stored. -/
structure Members.Storable (m : Members) : Prop where
  sorted : m.Sorted
  object : (Value.object m).Storable 0

theorem Members.Storable.lasting {m : Members} (h : m.Storable) : ∀ p ∈ m, Lasting p.2 :=
  fun p hp => (storableMembers_iff.mp h.object.2 p hp).lasting

/-! ## What is read -/

theorem hereditary_storable : Hereditary fun level v => v.Storable level where
  null _ := trivial
  bool _ _ := trivial
  number _ _ h := h
  text _ _ := trivial
  array hroom hxs := ⟨hroom, storableItems_iff.mpr hxs⟩
  empty hroom := ⟨hroom, trivial⟩
  insert key hm hv := ⟨hm.1, hm.2.insert key hv⟩

theorem storable_of_parse {text : String} {v : Value} (h : parse text = .ok v) : v.Storable 0 :=
  hereditary_storable.of_parse h

/-- The text is that of a document. -/
def Readable (text : String) : Prop := ∃ v, parse text = .ok v

theorem Value.Storable.readable {v : Value} (h : v.Storable 0) : Readable v.print := by
  obtain ⟨w, hw, -⟩ := Value.Storable.exists_reread 0 v h
  exact ⟨w, toOption_eq_some_iff.mp ((toOption_parse_print v).trans hw)⟩

theorem Value.Storable.merge {v w : Value} (hv : v.Storable 0) (hw : w.Storable 0) :
    (v.merge w).Storable 0 := by
  cases v with
  | object old =>
    cases w with
    | object new => exact ⟨hv.1, hv.2.merge hw.2⟩
    | _ => exact hw
  | _ => exact hw

/-- Two documents can be merged, and the outcome is a document. -/
theorem Readable.merge {old new : String} (hold : Readable old) (hnew : Readable new) :
    ∃ text, mergeTexts (some old) (some new) = .ok text ∧ Readable text := by
  obtain ⟨v, hv⟩ := hold
  obtain ⟨w, hw⟩ := hnew
  refine ⟨(v.merge w).print, ?_, ((storable_of_parse hv).merge (storable_of_parse hw)).readable⟩
  rw [mergeTexts, parseOr, parseOr, hv, hw]
  rfl

theorem readable_of_merge {old new text : String}
    (h : mergeTexts (some old) (some new) = .ok text) : Readable old ∧ Readable new := by
  obtain ⟨v, hv, h⟩ := bind_ok_iff.mp h
  obtain ⟨w, hw, -⟩ := bind_ok_iff.mp h
  exact ⟨⟨v, hv⟩, ⟨w, hw⟩⟩

/-! ## Nesting -/

/-- Arrays in one another. -/
def nested : Nat → Value
  | 0 => .array []
  | n + 1 => .array [nested n]

theorem reread?_nested (level n : Nat) :
    (nested n).reread? level = if level + n < maxDepth then some (nested n) else none := by
  induction n generalizing level with
  | zero => rfl
  | succ n ih =>
    rw [nested, Value.reread?, rereadItems?_cons, ih, Nat.add_right_comm, Nat.add_assoc]
    by_cases hn : level + (n + 1) < maxDepth
    · rw [if_pos hn, if_pos (Nat.lt_of_le_of_lt (Nat.le_add_right ..) hn), if_pos hn]
      rfl
    · rw [if_neg hn, Option.bind_none, Option.map_none, ite_self, if_neg hn]

/-- A document with `n + 1` arrays in one another. -/
def nestedDocument (n : Nat) : Members := [("a", nested n)]

theorem readable_nested_iff {n : Nat} :
    Readable (Value.object (nestedDocument n)).print ↔ n + 1 < maxDepth := by
  have hread := toOption_parse_print (.object (nestedDocument n))
  rw [nestedDocument, Value.reread?, if_pos (by decide), rereadMembers?_cons, reread?_nested,
    Nat.add_comm] at hread
  by_cases hn : n + 1 < maxDepth
  · rw [if_pos hn] at hread
    exact iff_of_true ⟨_, toOption_eq_some_iff.mp hread⟩ hn
  · rw [if_neg hn] at hread
    refine iff_of_false ?_ hn
    rintro ⟨v, hv⟩
    rw [← nestedDocument, hv] at hread
    cases hread

end CallArchive.Json
