import CallArchive.Proofs.Except
import CallArchive.Proofs.Json.Members
import CallArchive.Proofs.Json.Reread

/-!
# Objects that read back

`ReadsBack` holds of the objects whose text reads as themselves. By `readsBack_iff` it is a property
of the order of the keys and of each value, so the merge of two such objects is one again
(`ReadsBack.merge`), and merging their texts gives the text of the merge (`mergeTexts_print`).
-/

namespace CallArchive.Json

/-- The text of the object reads as the object. -/
def ReadsBack (m : Members) : Prop := objectOf? (Value.object m).print = some m

theorem objectOf?_print (m : Members) :
    objectOf? (Value.object m).print = rereadMembers? 1 [] m := by
  have h := toOption_parse_print (.object m)
  rw [Value.reread?, if_pos (by decide)] at h
  unfold objectOf?
  split
  · next m' hp =>
    rw [hp] at h
    cases hr : rereadMembers? (0 + 1) [] m with
    | none => rw [hr] at h; cases h
    | some n =>
      rw [hr, Option.map_some] at h
      exact congrArg some (by simpa [Except.toOption] using h)
  · next hp =>
    cases hr : rereadMembers? (0 + 1) [] m with
    | none => rfl
    | some n =>
      rw [hr, Option.map_some] at h
      cases hq : parse (Value.object m).print with
      | error e => rw [hq] at h; cases h
      | ok v =>
        rw [hq] at h
        cases h
        exact absurd hq (hp n)

theorem sorted_of_rereadMembers? {level : Nat} {done n : Members} {ms : List (String × Value)}
    (hd : Members.Sorted done) (h : rereadMembers? level done ms = some n) : Members.Sorted n := by
  induction ms generalizing done with
  | nil => cases h; exact hd
  | cons p ms ih =>
    obtain ⟨w, -, h⟩ := Option.bind_eq_some_iff.mp h
    exact ih (hd.insert p.1 w) h

theorem insert_of_lt {k : String} {v : Value} {m : Members} (h : ∀ x ∈ Members.keys m, x < k) :
    m.insert k v = m ++ [(k, v)] := by
  induction m with
  | nil => rfl
  | cons p m ih =>
    have hp := h p.1 List.mem_cons_self
    have hne : k ≠ p.1 := fun he => String.lt_irrefl _ (he ▸ hp)
    rw [Members.insert, if_neg hne, if_neg (String.lt_asymm hp),
      ih fun x hx => h x (List.mem_cons_of_mem _ hx)]
    rfl

/-- Members in order are read one by one. -/
theorem rereadMembers?_of_sorted {level : Nat} {done ms : Members}
    (h : Members.Sorted (done ++ ms)) :
    rereadMembers? level done ms
      = (ms.mapM fun p : String × Value => (p.2.reread? level).map fun w => (p.1, w)).map
          (done ++ ·) := by
  induction ms generalizing done with
  | nil => simp [rereadMembers?]
  | cons p ms ih =>
    have hlt : ∀ x ∈ Members.keys done, x < p.1 := fun x hx => by
      rw [Members.Sorted, Members.keys, List.map_append] at h
      exact (List.pairwise_append.mp h).2.2 x hx p.1 List.mem_cons_self
    rw [rereadMembers?_cons, List.mapM_cons]
    cases p.2.reread? level with
    | none => rfl
    | some w =>
      have hs : Members.Sorted (done ++ [(p.1, w)] ++ ms) := by
        simpa [Members.Sorted, Members.keys] using h
      rw [Option.bind_some, insert_of_lt hlt, ih hs]
      cases ms.mapM fun p : String × Value => (p.2.reread? level).map fun w => (p.1, w) with
      | none => rfl
      | some k => simp

theorem mapM_eq_self_iff {α : Type} {f : α → Option α} {xs : List α} :
    xs.mapM f = some xs ↔ ∀ x ∈ xs, f x = some x := by
  induction xs with
  | nil => simp
  | cons x xs ih =>
    rw [List.mapM_cons, List.forall_mem_cons, ← ih]
    cases f x with
    | none => simp
    | some y => cases xs.mapM f <;> simp

/-- An object reads back if its keys ascend and each value is read as itself inside it. -/
theorem readsBack_iff {m : Members} :
    ReadsBack m ↔ m.Sorted ∧ ∀ p ∈ m, p.2.reread? 1 = some p.2 := by
  have hfix (p : String × Value) :
      ((p.2.reread? 1).map fun w => (p.1, w)) = some p ↔ p.2.reread? 1 = some p.2 := by
    obtain ⟨k, v⟩ := p
    cases v.reread? 1 <;> simp
  rw [ReadsBack, objectOf?_print]
  constructor
  · intro h
    have hs := sorted_of_rereadMembers? Members.sorted_nil h
    refine ⟨hs, fun p hp => ?_⟩
    rw [rereadMembers?_of_sorted (by exact hs)] at h
    exact (hfix p).mp (mapM_eq_self_iff.mp (by simpa using h) p hp)
  · rintro ⟨hs, h⟩
    rw [rereadMembers?_of_sorted (by exact hs),
      mapM_eq_self_iff.mpr fun p hp => (hfix p).mpr (h p hp)]
    rfl

theorem ReadsBack.sorted {m : Members} (h : ReadsBack m) : m.Sorted := (readsBack_iff.mp h).1

theorem mem_insert {p : String × Value} {k : String} {v : Value} {m : Members}
    (h : p ∈ m.insert k v) : p = (k, v) ∨ p ∈ m := by
  induction m with
  | nil => exact .inl (List.mem_singleton.mp h)
  | cons q m ih =>
    unfold Members.insert at h
    split at h
    · exact (List.mem_cons.mp h).imp_right (List.mem_cons_of_mem _)
    split at h
    · exact List.mem_cons.mp h
    · rcases List.mem_cons.mp h with rfl | h
      · exact .inr List.mem_cons_self
      · exact (ih h).imp_right (List.mem_cons_of_mem _)

theorem mem_merge {p : String × Value} {a b : Members} (h : p ∈ Members.merge a b) :
    p ∈ a ∨ p ∈ b := by
  induction b generalizing a with
  | nil => exact .inl h
  | cons q b ih =>
    rcases ih h with h | h
    · exact (mem_insert h).elim (fun e => .inr (e ▸ List.mem_cons_self)) .inl
    · exact .inr (List.mem_cons_of_mem _ h)

theorem ReadsBack.merge {a b : Members} (ha : ReadsBack a) (hb : ReadsBack b) :
    ReadsBack (Members.merge a b) := by
  rw [readsBack_iff] at ha hb ⊢
  exact ⟨ha.1.merge b, fun p hp => (mem_merge hp).elim (ha.2 p) (hb.2 p)⟩

theorem ReadsBack.parse_print {m : Members} (h : ReadsBack m) :
    parse (Value.object m).print = .ok (.object m) := by
  unfold ReadsBack objectOf? at h
  split at h
  · next hp => cases h; exact hp
  · cases h

/-- The merge of the texts of two objects is the text of their merge. -/
theorem mergeTexts_print {a b : Members} (ha : ReadsBack a) (hb : ReadsBack b) :
    mergeTexts (some (Value.object a).print) (some (Value.object b).print)
      = .ok (Value.object (Members.merge a b)).print := by
  simp only [mergeTexts, parseOr, ha.parse_print, hb.parse_print]
  rfl

/-! ## Lists of texts -/

theorem rereadItems?_texts (level : Nat) (ts : List String) :
    rereadItems? level (ts.map .text) = some (ts.map .text) := by
  induction ts with
  | nil => rfl
  | cons t ts ih =>
    rw [List.map_cons, rereadItems?_cons, ih]
    rfl

theorem toOption_parse_ofTexts (ts : List String) :
    (parse (Value.ofTexts ts).print).toOption = some (.ofTexts ts) := by
  rw [toOption_parse_print, Value.ofTexts, Value.reread?, if_pos (by decide), rereadItems?_texts]
  rfl

theorem mapM_text? (ts : List String) : (ts.map Value.text).mapM Value.text? = some ts := by
  induction ts with
  | nil => rfl
  | cons t ts ih => rw [List.map_cons, List.mapM_cons, ih]; rfl

theorem textsOf?_print (ts : List String) : textsOf? (Value.ofTexts ts).print = some ts := by
  rw [textsOf?, toOption_eq_some_iff.mp (toOption_parse_ofTexts ts)]
  exact mapM_text? ts

/-- Different lists of texts are written differently. -/
theorem print_ofTexts_inj {ts us : List String} :
    (Value.ofTexts ts).print = (Value.ofTexts us).print ↔ ts = us := by
  refine ⟨fun h => ?_, fun h => h ▸ rfl⟩
  have hread := toOption_parse_ofTexts ts
  rw [h, toOption_parse_ofTexts] at hread
  have hitems := Value.array.inj (Option.some.inj hread)
  exact (List.map_inj_right fun _ _ => Value.text.inj).mp hitems.symm

end CallArchive.Json
