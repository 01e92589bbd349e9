import CallArchive.Proofs.Record.Identified

/-!
# Records are in order

The members of an object that was read stand in the order of their keys, each key once. So do the
types of a record that was read and the methods of each type (`CallGraph.ascending_of_ofText`).
-/

namespace CallArchive

open Json (Members Value)

/-- The namespaces ascend, and in each type the keys of the methods. -/
structure Ascending (types : List (String × ClassType)) : Prop where
  namespaces : (types.map (·.1)).Pairwise (· < ·)
  keys : ∀ t ∈ types, (t.2.methods.map (·.1)).Pairwise (· < ·)

namespace Decode

variable {α : Type} {v : Value}

theorem keys_of_mapM {item : Value → Decoded α} {m : Members} {l : List (String × α)}
    (h : m.mapM (fun p => (item p.2).map fun x => (p.1, x)) = .ok l) :
    l.map (·.1) = Members.keys m := by
  induction m generalizing l with
  | nil =>
    obtain rfl := Except.ok.inj h
    rfl
  | cons p m ih =>
    obtain ⟨q, hq, rest, hrest, rfl⟩ := mapM_cons_ok_iff.mp h
    obtain ⟨x, -, rfl⟩ := map_ok_iff.mp hq
    exact congrArg (p.1 :: ·) (ih hrest)

/-- A map has the keys of the object, in their order. -/
theorem map_ok {item : Value → Decoded α} {l : List (String × α)} (hv : v.Ordered)
    (h : Decode.map item v = .ok l) :
    (l.map (·.1)).Pairwise (· < ·) ∧ ∀ p ∈ l, ∃ u : Value, u.Ordered ∧ item u = .ok p.2 := by
  cases v with
  | object m =>
    refine ⟨keys_of_mapM h ▸ hv.sorted, fun p hp => ?_⟩
    obtain ⟨q, hq, hone⟩ := (mem_of_mapM_ok h).mp hp
    obtain ⟨x, hx, rfl⟩ := map_ok_iff.mp hone
    exact ⟨q.2, hv.member q hq, hx⟩
  | _ => cases h

theorem classTypeField_ok {t t' : ClassType} {key : String} (h : classTypeField t key v = .ok t') :
    t'.methods = t.methods ∨ map text v = .ok t'.methods := by
  unfold classTypeField at h
  split_ifs at h
  · obtain ⟨methods, hmethods, h⟩ := bind_ok_iff.mp h
    obtain rfl := Except.ok.inj h
    exact .inr hmethods
  all_goals first
    | obtain ⟨_, -, h⟩ := bind_ok_iff.mp h
      obtain rfl := Except.ok.inj h
      exact .inl rfl
    | obtain rfl := Except.ok.inj h
      exact .inl rfl

theorem ascending_of_classType {t : ClassType} (hv : v.Ordered) (h : classType v = .ok t) :
    (t.methods.map (·.1)).Pairwise (· < ·) := by
  cases v with
  | object m =>
    refine fields_invariant (P := fun t : ClassType => (t.methods.map (·.1)).Pairwise (· < ·))
      (fun {t t' key u} hu ht hstep => ?_) hv.member .nil h
    rcases classTypeField_ok hstep with hsame | hread
    · exact hsame ▸ ht
    · exact (map_ok hu hread).1
  | array items =>
    simp only [classType, bind_ok_iff, Prod.exists] at h
    obtain ⟨methods, _, hmethods, _, _, -, _, _, -, _, _, -, _, -, h⟩ := h
    obtain rfl := Except.ok.inj h
    rcases nextOr_ok hmethods with ⟨-, rfl, -⟩ | ⟨u, rfl, hread⟩
    · exact .nil
    · cases hv with
      | array hitems => exact (map_ok (hitems u List.mem_cons_self) hread).1
  | _ => cases h

theorem ascending_of_record {m : Members} {g : CallGraph} (hm : (Value.object m).Ordered)
    (h : record m = .ok g) : Ascending g.types := by
  simp only [record, bind_ok_iff] at h
  obtain ⟨r, hr, _, -, _, -, _, -, _, -, _, -, types, htypes, _, -, h⟩ := h
  obtain rfl := Except.ok.inj h
  have hkept : ∀ ts, r.types = some ts → Ascending ts := by
    refine fields_invariant (P := fun r : PartialRecord => ∀ ts, r.types = some ts → Ascending ts)
      (fun {r r' key v} hv hr hstep => ?_) hm.member (fun _ hnone => by cases hnone) hr
    rw [(recordField_ok hstep).types]
    split
    · intro ts hts
      obtain ⟨hnamespaces, htypes⟩ := map_ok hv (toOption_eq_some_iff.mp hts)
      refine ⟨hnamespaces, fun t ht => ?_⟩
      obtain ⟨u, hu, hread⟩ := htypes t ht
      exact ascending_of_classType hu hread
    · exact hr
  exact hkept types (required_ok_iff.mp htypes)

end Decode

theorem CallGraph.ascending_of_ofText {text : String} {g : CallGraph}
    (h : CallGraph.ofText text = .ok g) : Ascending g.types := by
  obtain ⟨v, m, hparse, hm, -, hrecord⟩ := Decode.exists_record_of_ofText h
  exact Decode.ascending_of_record (Decode.ordered_record hparse hm) hrecord

end CallArchive
