import CallArchive.Proofs.Json.ReadsBack
import CallArchive.Proofs.Except
import Mathlib.Data.List.Induction
import Mathlib.Logic.Relation

/-!
# Documents that are written and read again and again

Each merge reads the texts of both documents, so a value is read once more with every later merge:
it `Drifts`. A value that reads as itself stays; one that does not is still found under its key as
long as what has become of it can be read (`Lasting`). `Accumulates` compares a document with all
those that were merged into it, and a further merge keeps it (`Accumulates.merge`).
-/

namespace CallArchive.Json

/-- In an object the text of the first value reads as the second. -/
def Rereads (v w : Value) : Prop := v.reread? 1 = some w

def Drifts : Value → Value → Prop := Relation.ReflTransGen Rereads

/-- Whatever becomes of the value can be read. -/
def Lasting (v : Value) : Prop := ∀ w, Drifts v w → (w.reread? 1).isSome = true

variable {v w : Value} {key : String} {m n d : Members} {docs : List Members}

theorem Drifts.eq_of_rereads (hv : Rereads v v) (h : Drifts v w) : w = v := by
  induction h with
  | refl => rfl
  | tail _ hstep ih =>
    subst ih
    exact Option.some.inj (hstep.symm.trans hv)

/-! ## Reading one document -/

/-- Below its first level an object is read member by member. -/
theorem find?_rereadMembers (hm : m.Sorted) (h : rereadMembers? 1 [] m = some n) (key : String) :
    Option.Rel Rereads (m.find? key) (n.find? key) := by
  rw [rereadMembers?_of_sorted (by exact hm)] at h
  have hread : (m.mapM fun p : String × Value => (p.2.reread? 1).map fun w => (p.1, w)) = some n := by
    simpa using h
  clear h
  induction m generalizing n with
  | nil =>
    obtain rfl := Option.some.inj hread
    exact .none
  | cons p m ih =>
    rw [List.mapM_cons] at hread
    obtain ⟨q, hq, hread⟩ := Option.bind_eq_some_iff.mp hread
    obtain ⟨rest, hrest, hread⟩ := Option.bind_eq_some_iff.mp hread
    obtain ⟨w, hw, rfl⟩ := Option.map_eq_some_iff.mp hq
    obtain rfl := Option.some.inj hread
    by_cases hk : p.1 = key
    · simp only [Members.find?, hk, if_true]
      exact .some hw
    · simp only [Members.find?, hk, if_false]
      exact ih (Members.sorted_cons.mp hm).2 hrest

theorem exists_rereadMembers (hm : m.Sorted) (h : ∀ p ∈ m, (p.2.reread? 1).isSome = true) :
    ∃ n, rereadMembers? 1 [] m = some n := by
  rw [rereadMembers?_of_sorted (by exact hm)]
  have hread : ∃ n, (m.mapM fun p : String × Value => (p.2.reread? 1).map fun w => (p.1, w))
      = some n := by
    clear hm
    induction m with
    | nil => exact ⟨[], rfl⟩
    | cons p m ih =>
      obtain ⟨hp, hm⟩ := List.forall_mem_cons.mp h
      obtain ⟨w, hw⟩ := Option.isSome_iff_exists.mp hp
      obtain ⟨rest, hrest⟩ := ih hm
      exact ⟨(p.1, w) :: rest, by simp [List.mapM_cons, hw, hrest]⟩
  obtain ⟨n, hn⟩ := hread
  exact ⟨n, by rw [hn]; rfl⟩

/-- Two printed objects are merged as they are read. -/
theorem mergeTexts_print_ok {text : String}
    (h : mergeTexts (some (Value.object m).print) (some (Value.object d).print) = .ok text) :
    ∃ old new, rereadMembers? 1 [] m = some old ∧ rereadMembers? 1 [] d = some new ∧
      text = (Value.object (Members.merge old new)).print := by
  have hparse : ∀ {k : Members} {v : Value}, parse (Value.object k).print = .ok v →
      ∃ k', rereadMembers? 1 [] k = some k' ∧ v = .object k' := fun {k v} hk => by
    have hread := toOption_parse_print (.object k)
    rw [hk, Value.reread?, if_pos (by decide)] at hread
    obtain ⟨k', hk', heq⟩ := Option.map_eq_some_iff.mp hread.symm
    exact ⟨k', hk', heq.symm⟩
  obtain ⟨v, hv, h⟩ := bind_ok_iff.mp h
  obtain ⟨w, hw, h⟩ := bind_ok_iff.mp h
  obtain ⟨old, hold, rfl⟩ := hparse hv
  obtain ⟨new, hnew, rfl⟩ := hparse hw
  exact ⟨old, new, hold, hnew, (Except.ok.inj h).symm⟩

/-! ## Merging documents one after the other -/

/-- The value under the key in the last document that has the key. -/
def lastValue? (key : String) (docs : List Members) : Option Value :=
  docs.foldl (fun found d => (d.find? key).or found) none

theorem lastValue?_append (key : String) (docs : List Members) (d : Members) :
    lastValue? key (docs ++ [d]) = (d.find? key).or (lastValue? key docs) := by
  simp [lastValue?]

theorem Members.find?_isSome_iff : (m.find? key).isSome = true ↔ key ∈ m.keys := by
  rw [← not_iff_not, Bool.not_eq_true, Option.isSome_eq_false_iff, Option.isNone_iff_eq_none,
    Members.find?_eq_none_iff]

theorem lastValue?_isSome_iff :
    (lastValue? key docs).isSome = true ↔ ∃ d ∈ docs, key ∈ d.keys := by
  induction docs using List.reverseRecOn with
  | nil => simp [lastValue?]
  | append_singleton docs d ih =>
    rw [lastValue?_append, Option.isSome_or, Bool.or_eq_true, ih, Members.find?_isSome_iff]
    simp [or_comm]

theorem Members.mem_of_find? (h : m.find? key = some v) : (key, v) ∈ m := by
  induction m with
  | nil => cases h
  | cons p m ih =>
    rw [Members.find?] at h
    split at h
    · next hk =>
      obtain rfl := Option.some.inj h
      exact hk ▸ List.mem_cons_self
    · exact List.mem_cons_of_mem _ (ih h)

theorem Value.mem_of_get? (h : v.get? key = some w) : ∃ m, v = .object m ∧ (key, w) ∈ m := by
  obtain ⟨m, hm, hfind⟩ := Option.bind_eq_some_iff.mp h
  cases v with
  | object ms =>
    obtain rfl := Option.some.inj hm
    exact ⟨ms, rfl, Members.mem_of_find? hfind⟩
  | _ => cases hm

theorem Members.find?_of_mem (hm : m.Sorted) {p : String × Value} (hp : p ∈ m) :
    m.find? p.1 = some p.2 := by
  induction m with
  | nil => cases hp
  | cons q m ih =>
    obtain ⟨hlt, hm⟩ := Members.sorted_cons.mp hm
    rcases List.mem_cons.mp hp with rfl | hp
    · exact if_pos rfl
    · have hne : q.1 ≠ p.1 := fun heq =>
        String.lt_irrefl q.1 (heq ▸ hlt p.1 (List.mem_map_of_mem hp))
      rw [Members.find?, if_neg hne]
      exact ih hm hp

theorem mem_of_lastValue? (h : lastValue? key docs = some v) : ∃ d ∈ docs, (key, v) ∈ d := by
  induction docs using List.reverseRecOn with
  | nil => cases h
  | append_singleton docs d ih =>
    rw [lastValue?_append] at h
    rcases Option.or_eq_some_iff.mp h with hd | ⟨-, hdocs⟩
    · exact ⟨d, by simp, Members.mem_of_find? hd⟩
    · obtain ⟨d', hd', hmem⟩ := ih hdocs
      exact ⟨d', List.mem_append_left _ hd', hmem⟩

/-- The document has the keys of all documents, and under each what the last value became. -/
structure Accumulates (docs : List Members) (m : Members) : Prop where
  sorted : m.Sorted
  values : ∀ key, Option.Rel Drifts (lastValue? key docs) (m.find? key)

theorem Accumulates.single (hd : d.Sorted) : Accumulates [d] d := by
  refine ⟨hd, fun key => ?_⟩
  have hlast : lastValue? key [d] = d.find? key := by simp [lastValue?]
  rw [hlast]
  cases d.find? key with
  | none => exact .none
  | some v => exact .some .refl

/-- What is read of an accumulated document accumulates the same documents. -/
theorem Accumulates.reread (h : Accumulates docs m) (hn : rereadMembers? 1 [] m = some n) :
    Accumulates docs n := by
  refine ⟨sorted_of_rereadMembers? Members.sorted_nil hn, fun key => ?_⟩
  have hread := find?_rereadMembers h.sorted hn key
  have hvalues := h.values key
  generalize lastValue? key docs = x at hvalues
  generalize m.find? key = y at hvalues hread
  generalize n.find? key = z at hread
  cases hvalues with
  | none => cases hread; exact .none
  | some hxy => cases hread with | some hyz => exact .some (hxy.tail hyz)

theorem Accumulates.merge {old new : Members} (h : Accumulates docs m) (hd : d.Sorted)
    (hold : rereadMembers? 1 [] m = some old) (hnew : rereadMembers? 1 [] d = some new) :
    Accumulates (docs ++ [d]) (Members.merge old new) := by
  have hfirst := h.reread hold
  have hsecond := (Accumulates.single hd).reread hnew
  refine ⟨hfirst.sorted.merge new, fun key => ?_⟩
  rw [lastValue?_append, Members.find?_merge hsecond.sorted]
  have hx := hfirst.values key
  have hy := hsecond.values key
  have hlast : lastValue? key [d] = d.find? key := by simp [lastValue?]
  rw [hlast] at hy
  generalize lastValue? key docs = x at hx
  generalize old.find? key = x' at hx
  generalize d.find? key = y at hy
  generalize new.find? key = y' at hy
  cases hy with
  | none => simpa using hx
  | some hy => exact .some hy

/-- Where all values last, what has been accumulated can be read. -/
theorem Accumulates.exists_reread (h : Accumulates docs m)
    (hdocs : ∀ d ∈ docs, ∀ p ∈ d, Lasting p.2) : ∃ n, rereadMembers? 1 [] m = some n := by
  refine exists_rereadMembers h.sorted fun p hp => ?_
  have hvalue := h.values p.1
  rw [Members.find?_of_mem h.sorted hp] at hvalue
  cases hlast : lastValue? p.1 docs with
  | none =>
    rw [hlast] at hvalue
    cases hvalue
  | some v =>
    rw [hlast] at hvalue
    cases hvalue with
    | some hdrifts =>
      obtain ⟨d, hd, hmem⟩ := mem_of_lastValue? hlast
      exact hdocs d hd _ hmem p.2 hdrifts

theorem Accumulates.find?_eq_none (h : Accumulates docs m) (hlast : lastValue? key docs = none) :
    m.find? key = none := by
  have hvalue := h.values key
  rw [hlast] at hvalue
  generalize m.find? key = found at hvalue ⊢
  cases hvalue
  rfl

theorem Accumulates.find?_eq_last (h : Accumulates docs m) (hlast : lastValue? key docs = some v)
    (hv : Rereads v v) : m.find? key = some v := by
  have hvalue := h.values key
  rw [hlast] at hvalue
  generalize m.find? key = found at hvalue ⊢
  cases hvalue with
  | some hdrifts => rw [hdrifts.eq_of_rereads hv]

theorem find?_foldl_merge (hdocs : ∀ d ∈ docs, d.Sorted) :
    (docs.foldl Members.merge []).Sorted ∧
      ∀ key, (docs.foldl Members.merge []).find? key = lastValue? key docs := by
  induction docs using List.reverseRecOn with
  | nil => exact ⟨Members.sorted_nil, fun _ => rfl⟩
  | append_singleton docs d ih =>
    obtain ⟨hsorted, hvalues⟩ := ih fun d' hd' => hdocs d' (List.mem_append_left _ hd')
    rw [List.foldl_append]
    refine ⟨hsorted.merge d, fun key => ?_⟩
    rw [lastValue?_append, ← hvalues]
    exact Members.find?_merge (hdocs d (by simp)) key

/-- Documents that read back accumulate to their merge. -/
theorem Accumulates.eq_merge (h : Accumulates docs m) (hdocs : ∀ d ∈ docs, ReadsBack d) :
    m = docs.foldl Members.merge [] := by
  obtain ⟨hsorted, hvalues⟩ := find?_foldl_merge fun d hd => (hdocs d hd).sorted
  refine h.sorted.ext hsorted fun key => ?_
  rw [hvalues]
  cases hlast : lastValue? key docs with
  | none => exact h.find?_eq_none hlast
  | some v =>
    obtain ⟨d, hd, hmem⟩ := mem_of_lastValue? hlast
    exact h.find?_eq_last hlast ((readsBack_iff.mp (hdocs d hd)).2 _ hmem)

/-- What a document shows of those that were merged into it. -/
structure Shows (docs : List Members) (m : Members) : Prop extends Accumulates docs m where
  keys : ∀ key, key ∈ m.keys ↔ ∃ d ∈ docs, key ∈ d.keys
  last : ∀ key v, lastValue? key docs = some v → Rereads v v → m.find? key = some v
  merged : (∀ d ∈ docs, ReadsBack d) → m = docs.foldl Members.merge []

theorem Accumulates.shows (h : Accumulates docs m) : Shows docs m where
  toAccumulates := h
  keys key := by
    rw [← lastValue?_isSome_iff, ← Members.find?_isSome_iff]
    have hvalue := h.values key
    generalize lastValue? key docs = x at hvalue
    generalize m.find? key = y at hvalue
    cases hvalue <;> simp
  last _ _ hlast hv := h.find?_eq_last hlast hv
  merged := h.eq_merge

end CallArchive.Json
