import CallArchive.Ingest.IdMap
import CallArchive.Proofs.Except
import CallArchive.Proofs.Store.Edges
import Mathlib.Data.List.Nodup

/-!
# Resolving local ids

What an `IdMap` made from pairs answers, and what `remap` makes of edges. It fails for the first of
their ends that is a local id without an id (`firstUnmapped_iff`), and else each edge has become one
between the ids for which its ends stand (`mem_ends_of_remap`).
-/

namespace CallArchive.Ingest

open Store (RowId NewEdge)

namespace IdMap

/-! ## Looking up -/

theorem insertAll_append (m : IdMap) (xs ys : List (LocalId × RowId)) :
    m.insertAll (xs ++ ys) = (m.insertAll xs).insertAll ys :=
  List.foldl_append

theorem get?_insertAll_of_not_mem {m : IdMap} {pairs : List (LocalId × RowId)} {id : LocalId}
    (h : id ∉ pairs.map Prod.fst) : Assoc.get? id (m.insertAll pairs) = Assoc.get? id m := by
  induction pairs generalizing m with
  | nil => rfl
  | cons p pairs ih =>
    rw [List.map_cons, List.mem_cons, not_or] at h
    refine (ih h.2).trans ?_
    rw [Assoc.get?_put, if_neg (Ne.symm h.1)]

theorem mem_of_get?_insertAll {m : IdMap} {pairs : List (LocalId × RowId)} {id : LocalId}
    {stored : RowId} (h : Assoc.get? id (m.insertAll pairs) = some stored) :
    (id, stored) ∈ pairs ∨ Assoc.get? id m = some stored := by
  induction pairs generalizing m with
  | nil => exact .inr h
  | cons p pairs ih =>
    rcases ih h with hmem | hget
    · exact .inl (List.mem_cons_of_mem _ hmem)
    · rw [Assoc.get?_put] at hget
      split at hget
      · next heq =>
        obtain rfl := heq
        obtain rfl := Option.some.inj hget
        exact .inl List.mem_cons_self
      · exact .inr hget

/-- With distinct local ids every pair is found again. -/
theorem get?_ofList_iff {pairs : List (LocalId × RowId)} (hn : (pairs.map Prod.fst).Nodup)
    {id : LocalId} {stored : RowId} :
    Assoc.get? id (ofList pairs) = some stored ↔ (id, stored) ∈ pairs := by
  constructor
  · intro h
    exact (mem_of_get?_insertAll h).resolve_right nofun
  · intro h
    obtain ⟨before, after, rfl⟩ := List.append_of_mem h
    rw [List.map_append, List.map_cons, List.nodup_append] at hn
    have hafter : id ∉ after.map Prod.fst := (List.nodup_cons.mp hn.2.1).1
    rw [ofList, insertAll_append]
    refine (get?_insertAll_of_not_mem hafter).trans ?_
    rw [Assoc.get?_put, if_pos rfl]

/-! ## Resolving -/

theorem resolve_local_ok_iff {ids : IdMap} {id : LocalId} {stored : RowId} :
    ids.resolve (.local id) = .ok stored ↔ Assoc.get? id ids = some stored := by
  simp only [resolve]
  cases Assoc.get? id ids <;> simp

theorem resolve_stored_ok_iff {ids : IdMap} {id stored : RowId} :
    ids.resolve (.stored id) = .ok stored ↔ id = stored := by
  simp [resolve]

theorem resolveEdge_ok_iff {ids : IdMap} {p : PendingEdge} {e : NewEdge} :
    ids.resolveEdge p = .ok e ↔ ids.resolve p.source = .ok e.source ∧
      ids.resolve p.target = .ok e.target ∧ p.metadata = e.metadata := by
  obtain ⟨source, target, metadata⟩ := e
  simp only [resolveEdge, bind_ok_iff, pure, Except.pure, Except.ok.injEq, NewEdge.mk.injEq]
  constructor
  · rintro ⟨_, hs, _, ht, rfl, rfl, hm⟩
    exact ⟨hs, ht, hm⟩
  · rintro ⟨hs, ht, hm⟩
    exact ⟨source, hs, target, ht, rfl, rfl, hm⟩

end IdMap

/-! ## Ends of edges -/

/-- The ends of edges in order, the source of an edge before its target. -/
def endpoints (edges : List PendingEdge) : List Endpoint :=
  edges.flatMap fun e => [e.source, e.target]

/-- The end has the id in the store. -/
def Endpoint.StandsFor (ids : IdMap) (row : RowId) : Endpoint → Prop
  | .local id => Assoc.get? id ids = some row
  | .stored id => id = row

def Endpoint.Mapped (ids : IdMap) (e : Endpoint) : Prop := ∃ row, e.StandsFor ids row

def PendingEdge.Joins (ids : IdMap) (p : PendingEdge) (ends : RowId × RowId) : Prop :=
  p.source.StandsFor ids ends.1 ∧ p.target.StandsFor ids ends.2

/-- The local id is that of the first end that stands for nothing. -/
def FirstUnmapped (ids : IdMap) (edges : List PendingEdge) (id : LocalId) : Prop :=
  ∃ before after, endpoints edges = before ++ .local id :: after ∧
    (∀ e ∈ before, e.Mapped ids) ∧ ¬ (Endpoint.local id).Mapped ids

section Ends

variable {ids : IdMap} {edges : List PendingEdge}

theorem resolve_ok_iff {e : Endpoint} {row : RowId} :
    ids.resolve e = .ok row ↔ e.StandsFor ids row := by
  cases e with
  | «local» id => exact IdMap.resolve_local_ok_iff
  | stored id => exact IdMap.resolve_stored_ok_iff

/-- Resolving fails for the local ids that the map does not have. -/
theorem resolve_error_iff {e : Endpoint} {cause : Error} :
    ids.resolve e = .error cause ↔
      ∃ id, e = .local id ∧ ¬ e.Mapped ids ∧ cause = .unmappedLocalId id := by
  cases e with
  | stored id => simp [IdMap.resolve]
  | «local» id =>
    cases hget : Assoc.get? id ids with
    | some row => simp [IdMap.resolve, Endpoint.Mapped, Endpoint.StandsFor, hget]
    | none => simp [IdMap.resolve, Endpoint.Mapped, Endpoint.StandsFor, hget, eq_comm]

/-- Replacing the ends of edges fails as replacing one end after the other does. -/
theorem remap_error_iff {cause : Error} :
    ids.remap edges = .error cause ↔ (endpoints edges).mapM ids.resolve = .error cause := by
  induction edges with
  | nil => simp [IdMap.remap, endpoints, pure, Except.pure]
  | cons p edges ih =>
    have hends : endpoints (p :: edges) = p.source :: p.target :: endpoints edges := rfl
    rw [IdMap.remap] at ih ⊢
    rw [hends, List.mapM_cons, List.mapM_cons, List.mapM_cons, IdMap.resolveEdge]
    cases ids.resolve p.source with
    | error => simp [bind, Except.bind]
    | ok source =>
      cases ids.resolve p.target with
      | error => simp [bind, Except.bind]
      | ok target =>
        revert ih
        cases edges.mapM ids.resolveEdge <;> cases (endpoints edges).mapM ids.resolve <;>
          simp [bind, Except.bind, pure, Except.pure]

theorem IdMap.remap_error {cause : Error} (h : ids.remap edges = .error cause) :
    ∃ id, cause = .unmappedLocalId id := by
  obtain ⟨e, -, he⟩ := mapM_error (remap_error_iff.mp h)
  obtain ⟨id, -, -, hid⟩ := resolve_error_iff.mp he
  exact ⟨id, hid⟩

theorem firstUnmapped_iff {id : LocalId} :
    FirstUnmapped ids edges id ↔ ids.remap edges = .error (.unmappedLocalId id) := by
  rw [remap_error_iff, mapM_error_iff]
  simp only [resolve_ok_iff, resolve_error_iff]
  constructor
  · rintro ⟨before, after, heq, hbefore, hnone⟩
    exact ⟨before, .local id, after, heq, hbefore, id, rfl, hnone, rfl⟩
  · rintro ⟨before, _, after, heq, hbefore, _, rfl, hnone, hid⟩
    obtain rfl := Error.unmappedLocalId.inj hid
    exact ⟨before, after, heq, hbefore, hnone⟩

/-- Replacing the ends of edges succeeds if each of them stands for an id. -/
theorem exists_remap (h : ∀ e ∈ endpoints edges, e.Mapped ids) : ∃ es, ids.remap edges = .ok es := by
  cases hr : ids.remap edges with
  | ok es => exact ⟨es, rfl⟩
  | error cause =>
    obtain ⟨before, e, after, heq, -, he⟩ := mapM_error_iff.mp (remap_error_iff.mp hr)
    obtain ⟨id, -, hnone, -⟩ := resolve_error_iff.mp he
    exact absurd (h e (heq ▸ List.mem_append_right _ List.mem_cons_self)) hnone

theorem exists_firstUnmapped (h : ∃ e ∈ endpoints edges, ¬ e.Mapped ids) :
    ∃ id, FirstUnmapped ids edges id := by
  obtain ⟨e, he, hnone⟩ := h
  cases hr : ids.remap edges with
  | error cause =>
    obtain ⟨id, rfl⟩ := IdMap.remap_error hr
    exact ⟨id, firstUnmapped_iff.mpr hr⟩
  | ok es =>
    obtain ⟨p, hp, hmem⟩ := List.mem_flatMap.mp he
    obtain ⟨new, hnew⟩ := ok_of_mapM_ok hr hp
    obtain ⟨hsource, htarget, -⟩ := IdMap.resolveEdge_ok_iff.mp hnew
    rcases List.mem_pair.mp hmem with rfl | rfl
    · exact absurd ⟨_, resolve_ok_iff.mp hsource⟩ hnone
    · exact absurd ⟨_, resolve_ok_iff.mp htarget⟩ hnone

theorem resolveEdge_ok_iff_joins {p : PendingEdge} {e : NewEdge} :
    ids.resolveEdge p = .ok e ↔ p.Joins ids e.ends ∧ p.metadata = e.metadata := by
  rw [IdMap.resolveEdge_ok_iff, resolve_ok_iff, resolve_ok_iff, PendingEdge.Joins, and_assoc]
  exact Iff.rfl

theorem mem_ends_of_remap {es : List NewEdge} (h : ids.remap edges = .ok es)
    (ends : RowId × RowId) :
    ends ∈ es.map NewEdge.ends ↔ ∃ p ∈ edges, p.Joins ids ends := by
  rw [List.mem_map]
  constructor
  · rintro ⟨e, he, rfl⟩
    obtain ⟨p, hp, hresolve⟩ := (mem_of_mapM_ok h).mp he
    exact ⟨p, hp, (resolveEdge_ok_iff_joins.mp hresolve).1⟩
  · rintro ⟨p, hp, hjoins⟩
    have hresolve : ids.resolveEdge p = .ok ⟨ends.1, ends.2, p.metadata⟩ :=
      resolveEdge_ok_iff_joins.mpr ⟨hjoins, rfl⟩
    exact ⟨_, (mem_of_mapM_ok h).mpr ⟨p, hp, hresolve⟩, rfl⟩

end Ends

end CallArchive.Ingest
