import CallArchive.Proofs.Ingest.Accumulated
import CallArchive.Proofs.Ingest.Transaction
import CallArchive.Proofs.Store.Mergeable

/-!
# Edges between local ids

`writeCallables` answers a map of exactly the local ids it was given, each with the id of the
callable that stands under its key (`Covers`). `writeEdges` replaces the ends of edges through that
map: if an end stands for no id the first such end decides the error and nothing is written, and
else exactly the pairs of ids for which the ends stand have come to the edges (`writeEdges_covered`).
That fails only where a document that cannot be read meets another one, as one does that is nested
too deep (`writeEdges_deepEdges`).
-/

namespace CallArchive.Ingest

open Store (RowId NewEdge EdgeRow NewCallable Database Table Grown Mergeable Performs Ready
  exists_putEdges_iff exists_putEdges_iff_of_readable grown_putEdges mergeable_cons_cons textsAt)

variable {db : Database} {ids : IdMap} {pending : List PendingCallable} {edges : List PendingEdge}

/-! ## Callables -/

/-- The map has exactly the local ids, each with the id of the callable under its key. -/
structure Covers (ids : IdMap) (pending : List PendingCallable) (db : Database) : Prop where
  domain : ∀ id, (Assoc.get? id ids).isSome = true ↔ id ∈ pending.map (·.id)
  callable : ∀ p ∈ pending, ∃ r,
    db.callable? p.callable.address p.callable.resolved = some r ∧ Assoc.get? p.id ids = some r.id

theorem callable?_of_mem {c : NewCallable} (h : c.key ∈ db.callables.keys) :
    ∃ r, db.callable? c.address c.resolved = some r ∧ r.id = db.callables.idOf c.key := by
  obtain ⟨row, hrow, hid⟩ := Option.map_eq_some_iff.mp (Table.idOf?_eq_some_idOf h)
  exact ⟨Database.callableRecord c.resolved row,
    congrArg (Option.map (Database.callableRecord c.resolved)) hrow, hid⟩

theorem covers_storedIds (hids : (pending.map (·.id)).Nodup) (db : Database) :
    Covers (IdMap.ofList
        (storedIds (afterCallables (pending.map (·.callable)) db).callables pending))
      pending (afterCallables (pending.map (·.callable)) db) := by
  generalize hafter : afterCallables (pending.map (·.callable)) db = after
  have hkey : ∀ p ∈ pending, p.callable.key ∈ after.callables.keys := fun p hp =>
    hafter ▸ mem_keys_callables (List.mem_map_of_mem hp) db
  have hfst : (storedIds after.callables pending).map Prod.fst = pending.map (·.id) := by
    rw [storedIds, List.map_map]
    rfl
  have hget : ∀ {id row}, Assoc.get? id (IdMap.ofList (storedIds after.callables pending))
      = some row ↔ (id, row) ∈ storedIds after.callables pending :=
    IdMap.get?_ofList_iff (hfst ▸ hids)
  refine ⟨fun id => ?_, fun p hp => ?_⟩
  · rw [Option.isSome_iff_exists, ← hfst, List.mem_map]
    simp only [hget, Prod.exists, exists_and_right, exists_eq_right]
  · obtain ⟨r, hr, hid⟩ := callable?_of_mem (hkey p hp)
    exact ⟨r, hr, hget.mpr (List.mem_map.mpr ⟨p, hp, by rw [hid]⟩)⟩

theorem Covers.hasId (h : Covers ids pending db) {id : LocalId} {row : RowId}
    (hget : Assoc.get? id ids = some row) : db.callables.hasId row = true := by
  obtain ⟨p, hp, rfl⟩ := List.mem_map.mp ((h.domain id).mp (by rw [hget]; rfl))
  obtain ⟨r, hr, hid⟩ := h.callable p hp
  obtain rfl := Option.some.inj (hget.symm.trans hid)
  obtain ⟨row, hrow, rfl⟩ := Option.map_eq_some_iff.mp hr
  exact Table.hasId_iff.mpr ⟨row, (Table.find?_some_key hrow).1, rfl⟩

theorem run_writeCallables_covers {s : Store} (hs : s.Ready) (hf : ¬ Strikes s.faults)
    (hids : (pending.map (·.id)).Nodup)
    (hmodules : ∀ p ∈ pending, s.view.modules.hasId? p.callable.module = true) (size : Nat) :
    ∃ ids s₁, ((writeCallables (clampBatchSize size) pending).run s : Except Error IdMap × Store)
        = (.ok ids, s₁) ∧
      s₁.Ready ∧ ¬ Strikes s₁.faults ∧ Covers ids pending s₁.view ∧
      s₁.view.edges = s.view.edges := by
  obtain ⟨t, hrun⟩ := run_of_not_strikes (writing_writeCallables _ _).performs hs hf
    (run_storeCallables (clampBatchSize_pos size) hmodules)
  refine ⟨_, _, hrun, hs.worked, hf, ?_⟩
  rw [hs.view_worked]
  exact ⟨covers_storedIds hids s.view, rfl⟩

/-! ## Edges -/

/-- An end that is an id of the store is there. -/
def Endpoint.Exists (db : Database) : Endpoint → Prop
  | .local _ => True
  | .stored id => db.callables.hasId id = true

theorem run_writeEdges_unmapped {id : LocalId} (h : FirstUnmapped ids edges id) (size : Nat)
    (s : Store) :
    ((writeEdges size ids edges).run s : Except Error Nat × Store)
      = (.error (.unmappedLocalId id), s) := by
  rw [writeEdges, firstUnmapped_iff.mp h]
  rfl

theorem Covers.endsExist (h : Covers ids pending db)
    (hends : ∀ e ∈ endpoints edges, e.Exists db) {es : List NewEdge}
    (hes : ids.remap edges = .ok es) : ∀ e ∈ es, EndsExist db e := by
  have hexists : ∀ {e : Endpoint} {row}, e ∈ endpoints edges → e.StandsFor ids row →
      db.callables.hasId row = true := by
    rintro (id | id) row he hstands
    · exact h.hasId hstands
    · exact hstands ▸ hends _ he
  intro e he
  obtain ⟨p, hp, hjoins⟩ := (mem_ends_of_remap hes e.ends).mp (List.mem_map_of_mem he)
  exact ⟨hexists (List.mem_flatMap.mpr ⟨p, hp, List.mem_cons_self⟩) hjoins.1,
    hexists (List.mem_flatMap.mpr ⟨p, hp, List.mem_cons_of_mem _ List.mem_cons_self⟩) hjoins.2⟩

theorem run_writeEdges_covered {s : Store} (hs : s.Ready) (hf : ¬ Strikes s.faults)
    (hc : Covers ids pending s.view) (hends : ∀ e ∈ endpoints edges, e.Exists s.view)
    {es : List NewEdge} (hes : ids.remap edges = .ok es) {after : List EdgeRow}
    (hput : Database.putEdges s.view.edges es = .ok after) (size : Nat) :
    ∃ s', ((writeEdges (clampBatchSize size) ids edges).run s : Except Error Nat × Store)
        = (.ok edges.length, s') ∧
      Grown EdgeRow.ends EdgeRow.ends (fun ends => ∃ p ∈ edges, p.Joins ids ends)
        s.view.edges s'.view.edges := by
  have hexist : ∀ es', ids.remap edges = .ok es' → ∀ e ∈ es', EndsExist s.view e :=
    fun es' hes' => hc.endsExist hends hes'
  have hchange := run_storeEdges (clampBatchSize_pos size) hexist
  rw [hes, Except.toOption, Option.bind_some, hput, length_of_mapM_ok hes] at hchange
  obtain ⟨t, hrun⟩ := run_of_not_strikes (writing_writeEdges _ _ _).performs hs hf hchange
  refine ⟨_, hrun, ?_⟩
  rw [hs.view_worked]
  exact (grown_putEdges hput).congr fun ends => mem_ends_of_remap hes ends

/-- Local ids stand for the callables that were written under them, also as ends of edges. Edges whose
local ends were all written are written exactly if all documents can be read that meet another one
of the same pair. -/
theorem writeEdges_covered {s : Store} (hs : s.Ready) (hf : ¬ Strikes s.faults)
    (hids : (pending.map (·.id)).Nodup)
    (hmodules : ∀ p ∈ pending, s.view.modules.hasId? p.callable.module = true) (size : Nat) :
    ∃ ids s₁, ((writeCallables (clampBatchSize size) pending).run s : Except Error IdMap × Store)
        = (.ok ids, s₁) ∧
      Covers ids pending s₁.view ∧ s₁.view.edges = s.view.edges ∧
      ∀ edges : List PendingEdge,
        ((∃ e ∈ endpoints edges, ¬ e.Mapped ids) → ∃ id, FirstUnmapped ids edges id ∧
          ((writeEdges (clampBatchSize size) ids edges).run s₁ : Except Error Nat × Store)
            = (.error (.unmappedLocalId id), s₁)) ∧
        ((∀ e ∈ endpoints edges, e.Mapped ids ∧ e.Exists s₁.view) →
          ∃ es, ids.remap edges = .ok es ∧
            ((∃ n s₂, ((writeEdges (clampBatchSize size) ids edges).run s₁
                : Except Error Nat × Store) = (.ok n, s₂)) ↔
              ∀ ends, Mergeable (textsAt ends s.view.edges es)) ∧
            ∀ n s₂, ((writeEdges (clampBatchSize size) ids edges).run s₁ : Except Error Nat × Store)
                = (.ok n, s₂) →
              n = edges.length ∧
              Grown EdgeRow.ends EdgeRow.ends (fun ends => ∃ p ∈ edges, p.Joins ids ends)
                s₁.view.edges s₂.view.edges) := by
  obtain ⟨ids, s₁, hrun, hready, hquiet, hcovers, hsame⟩ :=
    run_writeCallables_covers hs hf hids hmodules size
  refine ⟨ids, s₁, hrun, hcovers, hsame, fun edges => ⟨fun hnone => ?_, fun hends => ?_⟩⟩
  · obtain ⟨id, hfirst⟩ := exists_firstUnmapped hnone
    exact ⟨id, hfirst, run_writeEdges_unmapped hfirst _ _⟩
  obtain ⟨es, hes⟩ := exists_remap fun e he => (hends e he).1
  have hexists : ∀ e ∈ endpoints edges, e.Exists s₁.view := fun e he => (hends e he).2
  refine ⟨es, hes, ?_, fun n s₂ hwritten => ?_⟩
  · rw [← hsame, ← exists_putEdges_iff]
    constructor
    · rintro ⟨n, s₂, hwritten⟩
      exact ⟨_, putEdges_of_writeEdges hes hwritten⟩
    · rintro ⟨after, hput⟩
      obtain ⟨s₂, hwritten, -⟩ :=
        run_writeEdges_covered hready hquiet hcovers hexists hes hput size
      exact ⟨_, s₂, hwritten⟩
  · -- The call cannot have come this far unless all documents could be merged.
    have hput := putEdges_of_writeEdges hes hwritten
    obtain ⟨s', hagain, hgrown⟩ := run_writeEdges_covered hready hquiet hcovers hexists hes hput size
    obtain ⟨hn, rfl⟩ := Prod.mk.inj (hwritten.symm.trans hagain)
    exact ⟨Except.ok.inj hn, hgrown⟩

def aliasedMethods : List PendingCallable :=
  [⟨{ value := 7 }, .internal 1 "a" none⟩, ⟨{ value := 8 }, .external "b"⟩,
    ⟨{ value := 9 }, .internal 1 "a" none⟩]

def aliasedEdges : List PendingEdge :=
  [⟨.local { value := 7 }, .local { value := 8 }, []⟩, ⟨.local { value := 9 }, .stored 1, []⟩]

/-- A store with a module. -/
def modular : Store :=
  { Store.inMemory .never with
    file := ⟨{ Database.empty with
      packages := ⟨[⟨1, ⟨"p", "m"⟩, ⟨none, none, none⟩⟩], 1⟩
      versions := ⟨[⟨1, ⟨1, "g", "1"⟩, ⟨none, none⟩⟩], 1⟩
      modules := ⟨[⟨1, ⟨1, "n"⟩, ⟨none, ⟨none, none⟩⟩⟩], 1⟩ }, none⟩ }

def aliasedIds : IdMap := [({ value := 7 }, 1), ({ value := 8 }, 2), ({ value := 9 }, 1)]

theorem ids_aliasedMethods : ((writeCallables (clampBatchSize 2) aliasedMethods).run modular
    : Except Error IdMap × Store).1.toOption = some aliasedIds := by decide +kernel

theorem ready_modular : modular.Ready := ⟨rfl, fun _ h => nomatch h⟩

theorem not_strikes_modular : ¬ Strikes modular.faults := fun ⟨_, _, h⟩ => h rfl

/-- Both local ids of the one address stand for its callable, so the second edge is a loop. -/
theorem writeEdges_covered_aliasedMethods : ∃ ids s₁ s₂,
    ((writeCallables (clampBatchSize 2) aliasedMethods).run modular : Except Error IdMap × Store)
      = (.ok ids, s₁) ∧
    ((writeEdges (clampBatchSize 2) ids aliasedEdges).run s₁ : Except Error Nat × Store)
      = (.ok 2, s₂) ∧
    (1, 1) ∈ s₂.view.edges.map EdgeRow.ends := by
  have hnodup : (aliasedMethods.map (·.id)).Nodup := by decide
  obtain ⟨ids, s₁, hrun, hcovers, -, hedges⟩ :=
    writeEdges_covered ready_modular not_strikes_modular hnodup (by decide) 2
  have hids := ids_aliasedMethods
  rw [hrun] at hids
  obtain rfl := Option.some.inj hids
  have hseven : Assoc.get? { value := 7 } aliasedIds = some 1 := rfl
  have hstored : s₁.view.callables.hasId 1 = true := hcovers.hasId hseven
  have hends : ∀ e ∈ endpoints aliasedEdges, e.Mapped aliasedIds ∧ e.Exists s₁.view :=
    List.forall_mem_cons.mpr ⟨⟨⟨1, rfl⟩, trivial⟩, List.forall_mem_cons.mpr
      ⟨⟨⟨2, rfl⟩, trivial⟩, List.forall_mem_cons.mpr ⟨⟨⟨1, rfl⟩, trivial⟩,
        List.forall_mem_singleton.mpr ⟨⟨1, rfl⟩, hstored⟩⟩⟩⟩
  obtain ⟨es, hes, hanswers, hgrows⟩ := (hedges aliasedEdges).2 hends
  obtain rfl : [⟨1, 2, []⟩, ⟨1, 1, []⟩] = es := Except.ok.inj hes
  have hreadable : ∀ e ∈ ([⟨1, 2, []⟩, ⟨1, 1, []⟩] : List NewEdge),
      Json.Readable (Database.documentText e.metadata) :=
    have hempty : Json.Readable (Database.documentText []) := ⟨.object [], rfl⟩
    List.forall_mem_cons.mpr ⟨hempty, List.forall_mem_singleton.mpr hempty⟩
  obtain ⟨n, s₂, hwritten⟩ := hanswers.mpr (exists_putEdges_iff.mp
    ((exists_putEdges_iff_of_readable hreadable).mpr fun _ _ _ h => nomatch h))
  obtain ⟨rfl, hgrown⟩ := hgrows n s₂ hwritten
  exact ⟨_, s₁, s₂, hrun, hwritten, (hgrown.keys (1, 1)).mpr
    (.inr ⟨_, List.mem_cons_of_mem _ List.mem_cons_self, rfl, rfl⟩)⟩

/-- One arc with two documents, the first of which is nested deeper than is read. -/
def deepEdges : List PendingEdge :=
  [⟨.local { value := 7 }, .local { value := 8 }, Json.nestedDocument 126⟩,
    ⟨.local { value := 7 }, .local { value := 8 }, []⟩]

/-- Both ends are mapped, but no edge is written: the engine writes the first document and cannot
read it when the second one comes. -/
theorem writeEdges_deepEdges : ∃ ids s₁ e s₂,
    ((writeCallables (clampBatchSize 2) aliasedMethods).run modular : Except Error IdMap × Store)
      = (.ok ids, s₁) ∧
    (∀ e ∈ endpoints deepEdges, e.Mapped ids ∧ e.Exists s₁.view) ∧
    ((writeEdges (clampBatchSize 2) ids deepEdges).run s₁ : Except Error Nat × Store)
      = (.error e, s₂) := by
  have hnodup : (aliasedMethods.map (·.id)).Nodup := by decide
  obtain ⟨ids, s₁, hrun, -, -, -, hsame⟩ :=
    run_writeCallables_covers ready_modular not_strikes_modular hnodup (by decide) 2
  have hids := ids_aliasedMethods
  rw [hrun] at hids
  obtain rfl := Option.some.inj hids
  have hseven : Endpoint.Mapped aliasedIds (.local { value := 7 }) := ⟨1, rfl⟩
  have height : Endpoint.Mapped aliasedIds (.local { value := 8 }) := ⟨2, rfl⟩
  rcases hwritten : ((writeEdges (clampBatchSize 2) _ deepEdges).run s₁
    : Except Error Nat × Store) with ⟨e | n, s₂⟩
  · refine ⟨_, s₁, e, s₂, hrun, ?_, hwritten⟩
    simp only [endpoints, deepEdges, List.flatMap_cons, List.flatMap_nil, List.append_nil,
      List.cons_append, List.nil_append, List.forall_mem_cons]
    exact ⟨⟨hseven, trivial⟩, ⟨height, trivial⟩, ⟨hseven, trivial⟩, ⟨height, trivial⟩,
      List.forall_mem_nil _⟩
  · have hes : aliasedIds.remap deepEdges
        = .ok [⟨1, 2, Json.nestedDocument 126⟩, ⟨1, 2, []⟩] := rfl
    have hput := putEdges_of_writeEdges hes hwritten
    rw [hsame] at hput
    have hread : Json.Readable (Database.documentText (Json.nestedDocument 126)) :=
      (mergeable_cons_cons.mp (exists_putEdges_iff.mp ⟨_, hput⟩ (1, 2))).1
    exact absurd (Json.readable_nested_iff.mp hread) (by decide)

end CallArchive.Ingest
