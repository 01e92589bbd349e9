import CallArchive.Proofs.Ingest.Stages
import CallArchive.Proofs.Json.Storable
import CallArchive.Proofs.Store.Accumulated

/-!
# What edges show after any writes

`Wrote` says which edges have been written in a row of successful calls, in batches of any kind. In
effect they are written one by one (`Wrote.putEdges`), so each ordered pair of ends shows the merge
of the documents written for it (`wrote_shows`).
-/

namespace CallArchive.Ingest

open Json (Members Shows)
open Store (NewEdge EdgeRecord Database RowId Action Counts written Held)

/-! ## Successful writes -/

/-- Edges that have been written one call after the other, directly or in chunks. In between
anything may happen that leaves the edges alone. -/
inductive Wrote (start : Store) : List NewEdge → Store → Prop where
  | nothing : Wrote start [] start
  | direct {new es : List NewEdge} {s s' : Store} {n : Nat} : Wrote start new s →
      ((Store.upsertEdges es).run s : Except Error Nat × Store) = (.ok n, s') →
      Wrote start (new ++ es) s'
  | batched {new es : List NewEdge} {s s' : Store} {n : Nat} (size : Nat) {ids : IdMap}
      {pending : List PendingEdge} : Wrote start new s → ids.remap pending = .ok es →
      ((writeEdges (clampBatchSize size) ids pending).run s : Except Error Nat × Store)
        = (.ok n, s') →
      Wrote start (new ++ es) s'
  | other {new : List NewEdge} {s s' : Store} : Wrote start new s →
      s'.view.edges = s.view.edges → Wrote start new s'

theorem putEdges_of_upsertEdges {es : List NewEdge} {s s' : Store} {n : Nat}
    (h : ((Store.upsertEdges es).run s : Except Error Nat × Store) = (.ok n, s')) :
    Database.putEdges s.view.edges es = .ok s'.view.edges := by
  have hst := Store.statement_of_run_writeMany (fun _ => rfl) h
  obtain ⟨edges, hput, -, -, hdb⟩ := Database.upsertEdges_ok_iff.mp hst
  rw [← hdb]
  exact hput

theorem putEdges_of_chunks {css : List (List NewEdge)} {s s' : Store} {n k : Nat}
    (h : ((css.foldlM (fun n chunk => do return n + (← Store.upsertEdges chunk)) n : Action Nat).run s
      : Except Error Nat × Store) = (.ok k, s')) :
    Database.putEdges s.view.edges css.flatten = .ok s'.view.edges := by
  induction css generalizing s n with
  | nil =>
    obtain ⟨-, rfl⟩ := Prod.mk.inj h
    rfl
  | cons chunk css ih =>
    rw [List.foldlM_cons] at h
    obtain ⟨count, between, hchunk, hrest⟩ := Store.run_bind_ok h
    obtain ⟨m, written, hwrite, hpure⟩ := Store.run_bind_ok hchunk
    obtain ⟨-, rfl⟩ := Prod.mk.inj hpure
    rw [List.flatten_cons, putEdges_append, putEdges_of_upsertEdges hwrite]
    exact ih hrest

theorem putEdges_of_writeEdges {size : Nat} {ids : IdMap} {pending : List PendingEdge}
    {es : List NewEdge} {s s' : Store} {n : Nat} (hes : ids.remap pending = .ok es)
    (h : ((writeEdges (clampBatchSize size) ids pending).run s : Except Error Nat × Store)
      = (.ok n, s')) :
    Database.putEdges s.view.edges es = .ok s'.view.edges := by
  rw [writeEdges, hes] at h
  rw [← flatten_chunks (clampBatchSize_pos size) es]
  exact putEdges_of_chunks h

/-- The calls write all edges one by one. -/
theorem Wrote.putEdges {start s : Store} {new : List NewEdge} (h : Wrote start new s) :
    Database.putEdges start.view.edges new = .ok s.view.edges := by
  induction h with
  | nothing => rfl
  | direct _ hrun ih => rw [putEdges_append, ih]; exact putEdges_of_upsertEdges hrun
  | batched size _ hes hrun ih => rw [putEdges_append, ih]; exact putEdges_of_writeEdges hes hrun
  | other _ hsame ih => rw [hsame]; exact ih

/-! ## What is read -/

theorem edge?_of_held {db : Database} {source target : RowId} {docs : List Members}
    (h : Held docs (Database.edgeRow? db.edges source target))
    (hdocs : ∀ d ∈ docs, Members.Storable d) :
    (docs = [] → db.edge? source target = none) ∧
      (docs ≠ [] → ∃ m, db.edge? source target = some ⟨source, target, m⟩ ∧ Shows docs m) := by
  rw [Database.edge?]
  cases hrow : Database.edgeRow? db.edges source target with
  | none =>
    rw [hrow] at h
    exact ⟨fun _ => rfl, fun hne => absurd h hne⟩
  | some r =>
    rw [hrow] at h
    obtain ⟨hne, m, htext, hm⟩ := h
    refine ⟨fun hnil => absurd hnil hne, fun _ => ?_⟩
    obtain ⟨n, hn⟩ := hm.exists_reread fun d hd => (hdocs d hd).lasting
    obtain ⟨hsource, htarget⟩ := Prod.mk.inj (Store.edgeRow?_eq_some hrow).2
    refine ⟨n, ?_, (hm.reread hn).shows⟩
    have hread : Database.documentOf (some r.metadata) = some n := by
      rw [htext, Database.documentOf, Option.bind_some, Database.documentText,
        Json.objectOf?_print, hn]
    rw [Option.map_some, Database.edgeRecord, hread, hsource, htarget]
    rfl

/-- From a store without edges: there is one edge for each ordered pair of ends that was written,
and it shows the documents written for that pair. -/
theorem wrote_shows {start s : Store} {new : List NewEdge} (hstart : start.view.edges = [])
    (h : Wrote start new s) (hopen : s.isOpen = true) :
    (∃ counts : Counts, (Store.counts.run s : Except Error Counts × Store) = (.ok counts, s) ∧
      counts.edges = (new.map NewEdge.ends).dedup.length) ∧
    ∀ source target, (∀ d ∈ written (source, target) new, Members.Storable d) →
      (written (source, target) new = [] →
        ((Store.edge? source target).run s : Except Error (Option EdgeRecord) × Store)
          = (.ok none, s)) ∧
      (written (source, target) new ≠ [] → ∃ m,
        ((Store.edge? source target).run s : Except Error (Option EdgeRecord) × Store)
          = (.ok (some ⟨source, target, m⟩), s) ∧
        Shows (written (source, target) new) m) := by
  have hput := h.putEdges
  rw [hstart] at hput
  refine ⟨⟨_, Store.run_read hopen, Store.length_putEdges hput⟩, fun source target hdocs => ?_⟩
  have hempty : Held [] (Database.edgeRow? [] (source, target).1 (source, target).2) := rfl
  have hheld := hempty.putEdges (fun d hd => (hdocs d hd).sorted) hput
  obtain ⟨hnone, hsome⟩ := edge?_of_held hheld hdocs
  have hrun : ((Store.edge? source target).run s : Except Error (Option EdgeRecord) × Store)
      = (.ok (s.view.edge? source target), s) := Store.run_read hopen
  rw [hrun]
  refine ⟨fun hnil => by rw [hnone hnil], fun hne => ?_⟩
  obtain ⟨m, hm, hshows⟩ := hsome hne
  exact ⟨m, by rw [hm], hshows⟩

/-- A store with two callables and no edges. -/
def twoCallables : Store :=
  { Store.inMemory .never with
    file := ⟨{ Database.empty with
      callables := ⟨[⟨1, .of "a" false, ⟨none, ⟨none, none⟩⟩⟩,
        ⟨2, .of "b" false, ⟨none, ⟨none, none⟩⟩⟩], 2⟩ }, none⟩ }

/-- A document with one flag. -/
def flagged (key : String) (flag : Bool) : Members := [(key, .bool flag)]

theorem storable_flagged (key : String) (flag : Bool) : (flagged key flag).Storable :=
  ⟨List.pairwise_singleton .., by decide, trivial, trivial⟩

def bothWays : List NewEdge := [⟨1, 2, flagged "x" true⟩, ⟨2, 1, flagged "z" true⟩]

def sameWay : List PendingEdge :=
  [⟨.stored 1, .stored 2, flagged "y" true⟩, ⟨.stored 1, .stored 2, flagged "x" false⟩]

def allWays : List NewEdge :=
  bothWays ++ [⟨1, 2, flagged "y" true⟩, ⟨1, 2, flagged "x" false⟩]

/-- The store after one call, and after another one in chunks. -/
def afterBothWays : Store :=
  ((Store.upsertEdges bothWays).run twoCallables : Except Error Nat × Store).2

def afterSameWay : Store :=
  ((writeEdges (clampBatchSize 1) [] sameWay).run afterBothWays : Except Error Nat × Store).2

theorem wrote_allWays : Wrote twoCallables allWays afterSameWay := by
  have hfirst : ((Store.upsertEdges bothWays).run twoCallables
      : Except Error Nat × Store).1.toOption = some 2 := by decide +kernel
  have hsecond : ((writeEdges (clampBatchSize 1) [] sameWay).run afterBothWays
      : Except Error Nat × Store).1.toOption = some 2 := by decide +kernel
  have hremap : IdMap.remap [] sameWay
      = .ok [⟨1, 2, flagged "y" true⟩, ⟨1, 2, flagged "x" false⟩] := rfl
  exact (Wrote.nothing.direct (Store.run_eq_ok hfirst)).batched 1 hremap (Store.run_eq_ok hsecond)

theorem wrote_shows_allWays :
    (∃ counts : Counts, (Store.counts.run afterSameWay : Except Error Counts × Store)
      = (.ok counts, afterSameWay) ∧ counts.edges = 2) ∧
    ((Store.edge? 1 2).run afterSameWay : Except Error (Option EdgeRecord) × Store)
      = (.ok (some ⟨1, 2, [("x", .bool false), ("y", .bool true)]⟩), afterSameWay) ∧
    ((Store.edge? 2 1).run afterSameWay : Except Error (Option EdgeRecord) × Store)
      = (.ok (some ⟨2, 1, [("z", .bool true)]⟩), afterSameWay) := by
  have hopen : afterSameWay.isOpen = true := by decide +kernel
  obtain ⟨hcounts, hedges⟩ := wrote_shows rfl wrote_allWays hopen
  have hforth : written (1, 2) allWays
      = [flagged "x" true, flagged "y" true, flagged "x" false] := rfl
  have hback : written (2, 1) allWays = [flagged "z" true] := rfl
  obtain ⟨-, hfound⟩ := hedges 1 2 (by simp [hforth, storable_flagged])
  obtain ⟨m, hm, hshows⟩ := hfound (by simp [hforth])
  obtain ⟨-, hfound⟩ := hedges 2 1 (by simp [hback, storable_flagged])
  obtain ⟨n, hn, hshows'⟩ := hfound (by simp [hback])
  rw [hforth] at hshows
  rw [hback] at hshows'
  obtain rfl := hshows.merged (by simp only [List.forall_mem_cons]; exact ⟨rfl, rfl, rfl, nofun⟩)
  obtain rfl := hshows'.merged (by simp only [List.forall_mem_cons]; exact ⟨rfl, nofun⟩)
  exact ⟨hcounts, hm, hn⟩

/-- The double nearest to seven times ten to the power of 23. Its shortest text is read as the
double before it. -/
def sevenE23 : Json.Number := .float ⟨false, 5215406417846680, 27⟩

def beforeSevenE23 : Json.Number := .float ⟨false, 5215406417846679, 27⟩

/-- One document is written for an edge, and the edge shows another one. -/
theorem edge?_upsertEdges_shifted : ∃ s,
    ((Store.upsertEdges [⟨1, 2, [("p", .number sevenE23)]⟩]).run twoCallables
      : Except Error Nat × Store) = (.ok 1, s) ∧
    ((Store.edge? 1 2).run s : Except Error (Option EdgeRecord) × Store)
      = (.ok (some ⟨1, 2, [("p", .number beforeSevenE23)]⟩), s) ∧ beforeSevenE23 ≠ sevenE23 := by
  obtain ⟨s, hrun, hopen⟩ : ∃ s,
      ((Store.upsertEdges [⟨1, 2, [("p", .number sevenE23)]⟩]).run twoCallables
        : Except Error Nat × Store) = (.ok 1, s) ∧ s.isOpen = true :=
    ⟨_, Store.run_eq_ok (by decide +kernel), by decide +kernel⟩
  have hrow : [⟨1, 2, Database.documentText [("p", .number sevenE23)]⟩] = s.view.edges :=
    Except.ok.inj (putEdges_of_upsertEdges hrun)
  have hnumber : sevenE23.reread? = some beforeSevenE23 := by decide +kernel
  have hread : Database.documentOf (some (Database.documentText [("p", .number sevenE23)]))
      = some [("p", .number beforeSevenE23)] := by
    rw [Database.documentOf, Option.bind_some, Database.documentText, Json.objectOf?_print,
      Json.rereadMembers?_cons, Json.Value.reread?, hnumber]
    rfl
  have hedge : s.view.edge? 1 2 = some ⟨1, 2, [("p", .number beforeSevenE23)]⟩ := by
    rw [Database.edge?, ← hrow, Database.edgeRow?, List.find?_cons_of_pos (by decide),
      Option.map_some, Database.edgeRecord, hread]
    rfl
  exact ⟨s, hrun, (Store.run_read hopen).trans (by rw [hedge]), by decide⟩

end CallArchive.Ingest
