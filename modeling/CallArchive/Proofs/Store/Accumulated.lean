import CallArchive.Proofs.Json.Drift
import CallArchive.Proofs.Store.Grown
import Mathlib.Data.List.Dedup

/-!
# What edges accumulate

The documents written for an ordered pair of ends (`written`) are merged one after the other into
the edge between them, whatever is written for other pairs in between (`Held.putEdges`). The edges
are as many as the pairs for which something was written (`length_putEdges`).
-/

namespace CallArchive.Store

open Json (Members Accumulates)

variable {ends : RowId × RowId} {e : NewEdge} {new : List NewEdge} {docs : List Members}
  {edges edges' : List EdgeRow}

/-- The documents for one ordered pair of ends, in order. -/
def written (ends : RowId × RowId) (new : List NewEdge) : List Members :=
  (new.filter fun e => e.ends = ends).map NewEdge.metadata

theorem written_append (ends : RowId × RowId) (new later : List NewEdge) :
    written ends (new ++ later) = written ends new ++ written ends later := by
  simp [written]

theorem written_singleton (ends : RowId × RowId) (e : NewEdge) :
    written ends [e] = if e.ends = ends then [e.metadata] else [] := by
  by_cases h : e.ends = ends <;> simp [written, h]

theorem mem_written {d : Members} :
    d ∈ written ends new ↔ ∃ e ∈ new, e.ends = ends ∧ e.metadata = d := by
  simp [written, and_assoc]

/-! ## One edge -/

theorem edgeRow?_eq_some {source target : RowId} {r : EdgeRow}
    (h : Database.edgeRow? edges source target = some r) :
    r ∈ edges ∧ r.ends = (source, target) := by
  have hboth := List.find?_some h
  rw [Bool.and_eq_true, beq_iff_eq, beq_iff_eq] at hboth
  exact ⟨List.mem_of_find?_eq_some h, Prod.ext hboth.1 hboth.2⟩

theorem edgeRow?_append (edges : List EdgeRow) (r : EdgeRow) :
    Database.edgeRow? (edges ++ [r]) ends.1 ends.2 =
      (Database.edgeRow? edges ends.1 ends.2).or (if r.ends = ends then some r else none) := by
  simp only [Database.edgeRow?, List.find?_append, List.find?_singleton]
  congr 1
  by_cases h : r.ends = ends
  · rw [if_pos h, ← h]
    simp [EdgeRow.ends]
  · have hno : ¬ (r.source = ends.1 ∧ r.target = ends.2) := fun hboth => h (Prod.ext hboth.1 hboth.2)
    simp [h, hno]

/-- A change that leaves the ends of rows alone. -/
theorem edgeRow?_map {f : EdgeRow → EdgeRow} (hf : ∀ r, (f r).ends = r.ends) :
    Database.edgeRow? (edges.map f) ends.1 ends.2 =
      (Database.edgeRow? edges ends.1 ends.2).map f := by
  rw [Database.edgeRow?, Database.edgeRow?, List.find?_map]
  congr 2
  funext r
  obtain ⟨hs, ht⟩ := Prod.mk.inj (hf r)
  simp only [Function.comp, hs, ht]

/-- The rows of other pairs of ends stay. -/
theorem edgeRow?_putEdge_of_ne (h : Database.putEdge edges e = .ok edges') (hne : e.ends ≠ ends) :
    Database.edgeRow? edges' ends.1 ends.2 = Database.edgeRow? edges ends.1 ends.2 := by
  unfold Database.putEdge at h
  split at h
  · obtain rfl := Except.ok.inj h
    have hends : EdgeRow.ends ⟨e.source, e.target, Database.documentText e.metadata⟩ = e.ends := rfl
    rw [edgeRow?_append, hends, if_neg hne, Option.or_none]
  · split at h
    · cases h
    · obtain rfl := Except.ok.inj h
      rw [edgeRow?_map fun r => by split <;> rfl]
      cases hrow : Database.edgeRow? edges ends.1 ends.2 with
      | none => rfl
      | some r =>
        have hother : ¬ (r.source = e.source ∧ r.target = e.target) := fun hboth =>
          hne ((Prod.ext hboth.1 hboth.2 : r.ends = e.ends).symm.trans (edgeRow?_eq_some hrow).2)
        rw [Option.map_some, if_neg hother]

/-- The row of the edge is a new one with its document, or the one that was there with the merged
text. -/
theorem edgeRow?_putEdge_self (h : Database.putEdge edges e = .ok edges') :
    (Database.edgeRow? edges e.ends.1 e.ends.2 = none ∧
      Database.edgeRow? edges' e.ends.1 e.ends.2
        = some ⟨e.source, e.target, Database.documentText e.metadata⟩) ∨
    ∃ old text, Database.edgeRow? edges e.ends.1 e.ends.2 = some old ∧
      Json.mergeTexts (some old.metadata) (some (Database.documentText e.metadata)) = .ok text ∧
      Database.edgeRow? edges' e.ends.1 e.ends.2 = some { old with metadata := text } := by
  unfold Database.putEdge at h
  split at h
  · next hnone =>
    replace hnone : Database.edgeRow? edges e.ends.1 e.ends.2 = none := hnone
    obtain rfl := Except.ok.inj h
    have hends : EdgeRow.ends ⟨e.source, e.target, Database.documentText e.metadata⟩ = e.ends := rfl
    refine .inl ⟨hnone, ?_⟩
    rw [edgeRow?_append, hnone, hends, if_pos rfl, Option.none_or]
  · next old hold =>
    replace hold : Database.edgeRow? edges e.ends.1 e.ends.2 = some old := hold
    split at h
    · cases h
    · next text hmerge =>
      obtain rfl := Except.ok.inj h
      have hboth : old.source = e.source ∧ old.target = e.target :=
        Prod.mk.inj (edgeRow?_eq_some hold).2
      refine .inr ⟨old, text, hold, hmerge, ?_⟩
      rw [edgeRow?_map fun r => by split <;> rfl, hold, Option.map_some, if_pos hboth]

/-- The row of a pair of ends has accumulated the documents, and is there if there are any. -/
def Held (docs : List Members) : Option EdgeRow → Prop
  | none => docs = []
  | some r => docs ≠ [] ∧ ∃ m, r.metadata = Database.documentText m ∧ Accumulates docs m

theorem Held.putEdge (h : Held docs (Database.edgeRow? edges ends.1 ends.2))
    (he : e.ends = ends → e.metadata.Sorted) (hput : Database.putEdge edges e = .ok edges') :
    Held (docs ++ written ends [e]) (Database.edgeRow? edges' ends.1 ends.2) := by
  rw [written_singleton]
  by_cases heq : e.ends = ends
  · subst heq
    rw [if_pos rfl]
    obtain ⟨hnone, hnew⟩ | ⟨old, text, hold, hmerge, hnew⟩ := edgeRow?_putEdge_self hput
    · rw [hnone] at h
      obtain rfl : docs = [] := h
      rw [hnew]
      exact ⟨List.cons_ne_nil _ _, e.metadata, rfl, Accumulates.single (he rfl)⟩
    · rw [hold] at h
      obtain ⟨hne, m, htext, hm⟩ := h
      rw [htext] at hmerge
      obtain ⟨before, after, hbefore, hafter, rfl⟩ := Json.mergeTexts_print_ok hmerge
      rw [hnew]
      exact ⟨by simp, _, rfl, hm.merge (he rfl) hbefore hafter⟩
  · rwa [if_neg heq, List.append_nil, edgeRow?_putEdge_of_ne hput heq]

/-! ## Many edges -/

theorem Held.putEdges (h : Held docs (Database.edgeRow? edges ends.1 ends.2))
    (hnew : ∀ d ∈ written ends new, d.Sorted) (hput : Database.putEdges edges new = .ok edges') :
    Held (docs ++ written ends new) (Database.edgeRow? edges' ends.1 ends.2) := by
  induction new generalizing docs edges with
  | nil =>
    obtain rfl := Except.ok.inj hput
    simpa [written] using h
  | cons e new ih =>
    rw [Database.putEdges, List.foldlM_cons] at hput
    obtain ⟨between, hfirst, hrest⟩ := bind_ok_iff.mp hput
    rw [← List.singleton_append, written_append] at hnew ⊢
    obtain ⟨he, hnew⟩ := List.forall_mem_append.mp hnew
    have hone : e.ends = ends → e.metadata.Sorted := fun heq =>
      he _ (mem_written.mpr ⟨e, List.mem_cons_self, heq, rfl⟩)
    rw [← List.append_assoc]
    exact ih (h.putEdge hone hfirst) hnew hrest

/-- Of edges that are written where there were none each pair of ends has one. -/
theorem length_putEdges (h : Database.putEdges [] new = .ok edges) :
    edges.length = (new.map NewEdge.ends).dedup.length := by
  have hgrown := grown_putEdges h
  have hperm : (edges.map EdgeRow.ends).Perm (new.map NewEdge.ends).dedup := by
    rw [List.perm_ext_iff_of_nodup (hgrown.nodup List.nodup_nil) (List.nodup_dedup _)]
    intro k
    rw [hgrown.keys, List.mem_dedup]
    simp
  rw [← hperm.length_eq, List.length_map]

end CallArchive.Store
