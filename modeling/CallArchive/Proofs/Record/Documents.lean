import CallArchive.Proofs.Json.Storable
import CallArchive.Proofs.Record.Identified

/-!
# Documents of calls

A call out of the package has a document, which is a part of the text of the record. What is read is
storable with all its parts, so the documents of a record can be stored
(`CallGraph.storable_of_ofText`).
-/

namespace CallArchive

open Json (Members Value)

/-- The document of the call can be stored. -/
def ExternalCall.Storable (c : ExternalCall) : Prop := (Value.object c.metadata).Storable 0

namespace Decode

variable {α : Type} {item : Value → Decoded α} {v : Value}

theorem sequence_ok {l : List α} (hv : v.Storable 0) (h : sequence item v = .ok l) :
    ∀ x ∈ l, ∃ u : Value, u.Storable 0 ∧ item u = .ok x := by
  cases v with
  | array items =>
    intro x hx
    obtain ⟨u, hu, hread⟩ := (mem_of_mapM_ok h).mp hx
    exact ⟨u, hv.item u hu, hread⟩
  | _ => cases h

theorem storable_of_externalCall {c : ExternalCall} (hv : v.Storable 0)
    (h : externalCall v = .ok c) : c.Storable := by
  cases v with
  | array items =>
    simp only [externalCall, bind_ok_iff, Prod.exists] at h
    obtain ⟨source, targets, hsource, target, documents, htarget, metadata, left, hmetadata, -, -,
      h⟩ := h
    obtain rfl := Except.ok.inj h
    obtain ⟨_, rfl, -⟩ := next_ok hsource
    obtain ⟨_, rfl, -⟩ := next_ok htarget
    obtain ⟨document, rfl, hread⟩ := next_ok hmetadata
    have hdocument : document.Storable 0 :=
      hv.item document (List.mem_cons_of_mem _ (List.mem_cons_of_mem _ List.mem_cons_self))
    cases document with
    | object m =>
      obtain rfl := Except.ok.inj hread
      exact hdocument
    | _ => cases hread
  | _ => cases h

theorem storable_of_externalCalls {cs : List ExternalCall} (hv : v.Storable 0)
    (h : sequence externalCall v = .ok cs) : ∀ c ∈ cs, c.Storable := fun c hc => by
  obtain ⟨u, hu, hread⟩ := sequence_ok hv h c hc
  exact storable_of_externalCall hu hread

theorem storable_of_calls {cs : Calls} (hv : v.Storable 0) (h : calls v = .ok cs) :
    ∀ c ∈ cs.external, c.Storable := by
  cases v with
  | object m =>
    refine fields_invariant (P := fun cs : Calls => ∀ c ∈ cs.external, c.Storable)
      (fun {cs cs' key u} hu hcs hstep => ?_) hv.member (List.forall_mem_nil _) h
    unfold callsField at hstep
    split_ifs at hstep
    · obtain ⟨_, -, hstep⟩ := bind_ok_iff.mp hstep
      obtain rfl := Except.ok.inj hstep
      exact hcs
    · obtain ⟨_, hread, hstep⟩ := bind_ok_iff.mp hstep
      obtain rfl := Except.ok.inj hstep
      exact storable_of_externalCalls hu hread
    · obtain rfl := Except.ok.inj hstep
      exact hcs
  | array items =>
    simp only [calls, bind_ok_iff, Prod.exists] at h
    obtain ⟨internal, rest, hinternal, external, left, hexternal, -, -, h⟩ := h
    obtain rfl := Except.ok.inj h
    rcases nextOr_ok hexternal with ⟨-, rfl, -⟩ | ⟨u, rfl, hread⟩
    · exact List.forall_mem_nil _
    · rcases nextOr_ok hinternal with ⟨-, -, hnil⟩ | ⟨w, rfl, -⟩
      · cases hnil
      · have hu : u.Storable 0 :=
          hv.item u (List.mem_cons_of_mem _ List.mem_cons_self)
        exact storable_of_externalCalls hu hread
  | _ => cases h

theorem storable_of_record {m : Members} {g : CallGraph} (hm : (Value.object m).Storable 0)
    (h : record m = .ok g) : ∀ c ∈ g.externalCalls, c.Storable := by
  simp only [record, bind_ok_iff] at h
  obtain ⟨r, hr, _, -, _, -, _, -, _, -, _, -, _, -, cs, hcs, h⟩ := h
  obtain rfl := Except.ok.inj h
  refine fields_invariant
    (P := fun r : PartialRecord => ∀ cs, r.calls = some cs → ∀ c ∈ cs.external, c.Storable)
    (fun {r r' key v} hv hr hstep => ?_) hm.member (fun _ hnone => by cases hnone) hr cs
    (required_ok_iff.mp hcs)
  rw [(recordField_ok hstep).calls]
  split
  · exact fun cs hcs => storable_of_calls hv (toOption_eq_some_iff.mp hcs)
  · exact hr

theorem storable_openEnvelope {v : Value} (h : v.Storable 0) : (openEnvelope v).Storable 0 := by
  unfold openEnvelope
  split
  · next m hm => exact h.get? hm
  · exact h

end Decode

theorem CallGraph.storable_of_ofText {text : String} {g : CallGraph}
    (h : CallGraph.ofText text = .ok g) : ∀ c ∈ g.externalCalls, c.Storable := by
  obtain ⟨v, m, hparse, hm, -, hrecord⟩ := Decode.exists_record_of_ofText h
  have hstorable : (Value.object m).Storable 0 :=
    hm ▸ Decode.storable_openEnvelope (Json.storable_of_parse hparse)
  exact Decode.storable_of_record hstorable hrecord

end CallArchive
