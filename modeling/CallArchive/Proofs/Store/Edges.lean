import CallArchive.Proofs.Json.ReadsBack
import CallArchive.Proofs.Store.Table
import CallArchive.Store.Database

/-!
# Edges as a table of documents

Edges are kept as texts. If no two edges join the same ends and each text is that of an object that
reads back (`Documents.Kept`), they are the rows of a table of documents whose ids are not kept
(`Documents.Shown`). Writing edges is then upserting into that table (`putEdges_shown`), which never
fails, and writing the same edges again changes nothing (`Kept.putEdges_again`).
-/

namespace CallArchive.Store

open Json (Members ReadsBack)

def EdgeRow.ends (e : EdgeRow) : RowId × RowId := (e.source, e.target)

def NewEdge.ends (e : NewEdge) : RowId × RowId := (e.source, e.target)

def NewEdge.entry (e : NewEdge) : (RowId × RowId) × Members := (e.ends, e.metadata)

abbrev Documents := Table (RowId × RowId) Members

namespace Documents

def edgeRow (r : Row (RowId × RowId) Members) : EdgeRow :=
  ⟨r.key.1, r.key.2, Database.documentText r.data⟩

/-- The documents of edges, read from their texts. -/
def ofEdges (edges : List EdgeRow) : Documents :=
  ⟨edges.map fun e => ⟨0, e.ends, (Json.objectOf? e.metadata).getD []⟩, 0⟩

/-- What a database keeps of its edges: no two join the same ends, and their documents read back. -/
structure Kept (edges : List EdgeRow) : Prop where
  ends_nodup : (edges.map EdgeRow.ends).Nodup
  documents : ∀ e ∈ edges, ∃ m, ReadsBack m ∧ e.metadata = Database.documentText m

/-- The edges are the rows of the table, and their documents read back. -/
structure Shown (t : Documents) (edges : List EdgeRow) : Prop where
  edges_eq : edges = t.rows.map edgeRow
  keys_nodup : t.keys.Nodup
  readsBack : ∀ r ∈ t.rows, ReadsBack r.data

theorem Shown.ends_eq {t : Documents} {edges : List EdgeRow} (h : t.Shown edges) :
    edges.map EdgeRow.ends = t.keys := by
  rw [h.edges_eq, List.map_map]
  rfl

theorem Kept.shown {edges : List EdgeRow} (h : Kept edges) : (ofEdges edges).Shown edges := by
  have hread : ∀ e ∈ edges, ∃ m, Json.objectOf? e.metadata = some m ∧ ReadsBack m
      ∧ e.metadata = Database.documentText m := fun e he => by
    obtain ⟨m, hm, htext⟩ := h.documents e he
    exact ⟨m, htext ▸ hm, hm, htext⟩
  refine ⟨?_, ?_, ?_⟩
  · rw [ofEdges, List.map_map]
    refine (List.map_id edges).symm.trans (List.map_congr_left fun e he => ?_)
    obtain ⟨m, ho, -, htext⟩ := hread e he
    obtain ⟨s, t, text⟩ := e
    simp only [Function.comp, edgeRow, EdgeRow.ends, ho, Option.getD_some, id] at htext ⊢
    rw [htext]
  · rw [Table.keys, ofEdges, List.map_map]
    exact h.ends_nodup
  · intro r hr
    obtain ⟨e, he, rfl⟩ := List.mem_map.mp hr
    obtain ⟨m, ho, hm, -⟩ := hread e he
    simp only [ho, Option.getD_some]
    exact hm

theorem edgeRow?_shown {t : Documents} {edges : List EdgeRow} (h : t.Shown edges)
    (source target : RowId) :
    Database.edgeRow? edges source target = (t.find? (source, target)).map edgeRow := by
  rw [h.edges_eq, Database.edgeRow?, List.find?_map, Table.find?]
  congr 2
  funext r
  obtain ⟨id, ⟨s, u⟩, m⟩ := r
  rw [Bool.eq_iff_iff]
  simp [edgeRow]

theorem putEdge_shown {t : Documents} {edges : List EdgeRow} (h : t.Shown edges) {e : NewEdge}
    (he : ReadsBack e.metadata) :
    ∃ edges', Database.putEdge edges e = .ok edges'
      ∧ Shown (t.upsert Members.merge e.ends e.metadata).2 edges' := by
  have hshown {edges'}
      (heq : edges' = (t.upsert Members.merge e.ends e.metadata).2.rows.map edgeRow) :
      Shown (t.upsert Members.merge e.ends e.metadata).2 edges' :=
    ⟨heq, Table.nodup_keys_upsert h.keys_nodup _ _,
      Table.forall_data_upsert h.readsBack (fun hm => hm.merge he) fun _ => he⟩
  cases hf : t.find? e.ends with
  | none =>
    have hk := Table.find?_eq_none_iff.mp hf
    refine ⟨edges ++ [⟨e.source, e.target, Database.documentText e.metadata⟩], ?_, hshown ?_⟩
    · rw [Database.putEdge, edgeRow?_shown h, show (e.source, e.target) = e.ends from rfl, hf]
      rfl
    · rw [Table.upsert_of_not_mem hk, List.map_append, ← h.edges_eq]
      rfl
  | some r =>
    obtain ⟨hr, hkey⟩ := Table.find?_some_key hf
    have hk : e.ends ∈ t.keys := hkey ▸ List.mem_map_of_mem hr
    have hmerge := Json.mergeTexts_print (h.readsBack r hr) he
    refine ⟨edges.map fun q => if q.source = e.source ∧ q.target = e.target then
      { q with metadata := Database.documentText (Members.merge r.data e.metadata) } else q, ?_,
      hshown ?_⟩
    · rw [Database.putEdge, edgeRow?_shown h, show (e.source, e.target) = e.ends from rfl, hf]
      simp only [Option.map_some, edgeRow]
      rw [Database.documentText, Database.documentText, hmerge]
      rfl
    · rw [Table.upsert_of_mem hk, h.edges_eq, List.map_map, List.map_map]
      refine List.map_congr_left fun q hq => ?_
      by_cases hqk : q.key = e.ends
      · have hqr : q = r := List.inj_on_of_nodup_map h.keys_nodup hq hr (hqk.trans hkey.symm)
        subst hqr
        have hs : q.key.1 = e.source ∧ q.key.2 = e.target := by rw [hqk]; exact ⟨rfl, rfl⟩
        simp [edgeRow, Table.absorb, hqk, NewEdge.ends]
      · have hs : ¬ (q.key.1 = e.source ∧ q.key.2 = e.target) := fun hs =>
          hqk (Prod.ext hs.1 hs.2)
        simp [edgeRow, Table.absorb, hqk, hs]

/-- Writing edges is upserting their documents. -/
theorem putEdges_shown {t : Documents} {edges : List EdgeRow} (h : t.Shown edges)
    {new : List NewEdge} (hnew : ∀ e ∈ new, ReadsBack e.metadata) :
    ∃ edges', Database.putEdges edges new = .ok edges'
      ∧ Shown (t.upsertAll Members.merge (new.map NewEdge.entry)) edges' := by
  induction new generalizing t edges with
  | nil => exact ⟨edges, rfl, h⟩
  | cons e new ih =>
    obtain ⟨edges₁, h1, hs1⟩ := putEdge_shown h (hnew e List.mem_cons_self)
    obtain ⟨edges₂, h2, hs2⟩ := ih hs1 fun x hx => hnew x (List.mem_cons_of_mem _ hx)
    refine ⟨edges₂, ?_, hs2⟩
    rw [Database.putEdges, List.foldlM_cons, h1]
    exact h2

theorem band_merge : Table.Band Members.merge ReadsBack :=
  { closed := ReadsBack.merge
    assoc := fun ha hb hc => Members.merge_assoc ha.sorted hb.sorted hc.sorted
    idem := fun ha => Members.merge_self ha.sorted }

/-- Edges that have been written are not changed by writing them again. -/
theorem Kept.putEdges_again {edges edges' : List EdgeRow} (h : Kept edges) {new : List NewEdge}
    (hnew : ∀ e ∈ new, ReadsBack e.metadata) (hput : Database.putEdges edges new = .ok edges') :
    Database.putEdges edges' new = .ok edges' := by
  have hold := h.shown
  obtain ⟨first, hfirst, hshown⟩ := putEdges_shown hold hnew
  obtain rfl : first = edges' := Except.ok.inj (hfirst.symm.trans hput)
  obtain ⟨second, hsecond, hagain⟩ := putEdges_shown hshown hnew
  have hentries : ∀ e ∈ new.map NewEdge.entry, ReadsBack e.2 := List.forall_mem_map.mpr hnew
  have hrows := Table.rows_upsertAll_again band_merge hold.readsBack hentries
  have hsame : second = first := by rw [hagain.edges_eq, hrows, ← hshown.edges_eq]
  rw [hsecond, hsame]

end Documents

end CallArchive.Store
