import CallArchive.Proofs.Json.Storable
import CallArchive.Proofs.Store.Accumulated

/-!
# Documents that can be merged

A document is read only when it meets another one of the same pair of ends. So edges are written
without an error exactly if all documents that meet can be read (`exists_putEdges_iff`).
-/

namespace CallArchive.Store

open Json (Readable)

variable {ends : RowId × RowId} {e : NewEdge} {new : List NewEdge} {edges edges' : List EdgeRow}
  {text : String} {texts : List String}

/-- The texts of the documents of a pair of ends: of the one that is there and of those that come. -/
def textsAt (ends : RowId × RowId) (edges : List EdgeRow) (new : List NewEdge) : List String :=
  ((Database.edgeRow? edges ends.1 ends.2).map EdgeRow.metadata).toList
    ++ (written ends new).map Database.documentText

/-- There is at most one document, or all can be read. -/
def Mergeable (texts : List String) : Prop := texts.length ≤ 1 ∨ ∀ t ∈ texts, Readable t

theorem mergeable_cons (h : Readable text) : Mergeable (text :: texts) ↔ ∀ t ∈ texts, Readable t := by
  unfold Mergeable
  rw [List.forall_mem_cons, and_iff_right h]
  refine or_iff_right_of_imp fun hlength => ?_
  rw [List.eq_nil_of_length_eq_zero (Nat.le_zero.mp (Nat.le_of_succ_le_succ hlength))]
  exact List.forall_mem_nil _

theorem mergeable_cons_cons {other : String} :
    Mergeable (text :: other :: texts) ↔
      Readable text ∧ Readable other ∧ ∀ t ∈ texts, Readable t := by
  unfold Mergeable
  rw [List.forall_mem_cons, List.forall_mem_cons]
  exact or_iff_right (by simp)

/-! ## One edge -/

theorem textsAt_cons (ends : RowId × RowId) (edges : List EdgeRow) (e : NewEdge)
    (new : List NewEdge) :
    textsAt ends edges (e :: new) = textsAt ends edges [e] ++
      (written ends new).map Database.documentText := by
  rw [textsAt, textsAt, ← List.singleton_append, written_append, List.map_append,
    List.append_assoc]

/-- Where an edge was written the texts that were there and that of its document have been merged. -/
theorem mergeable_putEdge (h : Database.putEdge edges e = .ok edges') :
    Mergeable (textsAt ends edges' new) ↔ Mergeable (textsAt ends edges (e :: new)) := by
  rw [textsAt_cons, textsAt, textsAt, written_singleton]
  by_cases heq : e.ends = ends
  · subst heq
    rw [if_pos rfl]
    obtain ⟨hnone, hrow⟩ | ⟨old, text, hold, hmerge, hrow⟩ := edgeRow?_putEdge_self h
    · rw [hnone, hrow]
      rfl
    · obtain ⟨hread, hnew⟩ := Json.readable_of_merge hmerge
      obtain ⟨_, hmerged, htext⟩ := hread.merge hnew
      obtain rfl := Except.ok.inj (hmerge.symm.trans hmerged)
      rw [hold, hrow]
      exact (mergeable_cons htext).trans (mergeable_cons_cons.trans
        ((and_iff_right hread).trans (and_iff_right hnew))).symm
  · rw [if_neg heq, edgeRow?_putEdge_of_ne h heq, List.map_nil, List.append_nil]

theorem not_mergeable_of_putEdge {cause : StoreError} (h : Database.putEdge edges e = .error cause) :
    ¬ Mergeable (textsAt e.ends edges (e :: new)) := by
  unfold Database.putEdge at h
  split at h
  · cases h
  · next old hold =>
    split at h
    · next hmerge =>
      rw [textsAt_cons, textsAt, written_singleton, if_pos rfl,
        show Database.edgeRow? edges e.ends.1 e.ends.2 = some old from hold]
      intro hmergeable
      obtain ⟨hread, hnew, -⟩ := mergeable_cons_cons.mp hmergeable
      obtain ⟨text, htext, -⟩ := hread.merge hnew
      cases hmerge.symm.trans htext
    · cases h

/-! ## Many edges -/

/-- Edges are written exactly if no document meets another one while either cannot be read. -/
theorem exists_putEdges_iff : (∃ edges', Database.putEdges edges new = .ok edges') ↔
    ∀ ends, Mergeable (textsAt ends edges new) := by
  induction new generalizing edges with
  | nil =>
    refine iff_of_true ⟨edges, rfl⟩ fun ends => .inl ?_
    rw [textsAt, written, List.filter_nil, List.map_nil, List.map_nil, List.append_nil]
    exact Option.length_toList_le
  | cons e new ih =>
    rw [Database.putEdges, List.foldlM_cons]
    cases hput : Database.putEdge edges e with
    | error cause =>
      refine iff_of_false ?_ fun h => not_mergeable_of_putEdge hput (h e.ends)
      rintro ⟨edges', h⟩
      cases h
    | ok between => exact ih.trans (forall_congr' fun ends => mergeable_putEdge hput)

/-- New documents that can be read are written exactly if those can be read that are there. -/
theorem exists_putEdges_iff_of_readable
    (hnew : ∀ e ∈ new, Readable (Database.documentText e.metadata)) :
    (∃ edges', Database.putEdges edges new = .ok edges') ↔
      ∀ e ∈ new, ∀ old ∈ Database.edgeRow? edges e.source e.target, Readable old.metadata := by
  have htexts : ∀ ends, ∀ t ∈ (written ends new).map Database.documentText, Readable t := by
    intro ends t ht
    obtain ⟨d, hd, rfl⟩ := List.mem_map.mp ht
    obtain ⟨e, he, -, rfl⟩ := mem_written.mp hd
    exact hnew e he
  rw [exists_putEdges_iff]
  constructor
  · intro h e he old hold
    have hmem : Database.documentText e.metadata ∈ (written e.ends new).map Database.documentText :=
      List.mem_map_of_mem (mem_written.mpr ⟨e, he, rfl, rfl⟩)
    have hat := h e.ends
    rw [textsAt, show Database.edgeRow? edges e.ends.1 e.ends.2 = some old from hold] at hat
    rcases hat with hlength | hall
    · have hpos := List.length_pos_of_mem hmem
      simp only [Option.map_some, Option.toList_some, List.length_append, List.length_singleton]
        at hlength
      omega
    · exact hall old.metadata (List.mem_append_left _ List.mem_cons_self)
  · intro h ends
    rw [textsAt]
    cases hrow : Database.edgeRow? edges ends.1 ends.2 with
    | none => exact .inr (htexts ends)
    | some old =>
      cases hdocs : written ends new with
      | nil => exact .inl (Nat.le_refl 1)
      | cons d docs =>
        obtain ⟨e, he, rfl, -⟩ := mem_written.mp (hdocs ▸ List.mem_cons_self)
        refine .inr (List.forall_mem_append.mpr ⟨?_, hdocs ▸ htexts e.ends⟩)
        exact List.forall_mem_singleton.mpr (h e he old hrow)

end CallArchive.Store
