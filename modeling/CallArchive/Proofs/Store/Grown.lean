import CallArchive.Proofs.Except
import CallArchive.Proofs.Store.Edges
import Mathlib.Tactic.Tauto

/-!
# Rows that have grown

`Grown` compares the rows of a table before and after some writing: there are rows now for the named
keys, the rows of other keys are as they were, and no row has gone or become another one. It holds
of upserts, of rows that are only added if they are not there, and of edges.
-/

namespace CallArchive.Store

/-- What makes a row the one it is, its `identity`, is never changed. -/
structure Grown {ρ κ σ : Type} (key : ρ → κ) (identity : ρ → σ) (named : κ → Prop)
    (before after : List ρ) : Prop where
  keys : ∀ k, k ∈ after.map key ↔ k ∈ before.map key ∨ named k
  untouched : ∀ r, ¬ named (key r) → (r ∈ after ↔ r ∈ before)
  kept : before.map identity <+: after.map identity
  nodup : (before.map key).Nodup → (after.map key).Nodup

namespace Grown

variable {ρ κ σ : Type} {key : ρ → κ} {identity : ρ → σ} {named later : κ → Prop}
  {before between after : List ρ}

theorem refl (rows : List ρ) : Grown key identity (fun _ => False) rows rows where
  keys := fun _ => (or_iff_left id).symm
  untouched := fun _ _ => Iff.rfl
  kept := List.prefix_rfl
  nodup := id

theorem trans (h : Grown key identity named before between)
    (h' : Grown key identity later between after) :
    Grown key identity (fun k => named k ∨ later k) before after where
  keys := fun k => by rw [h'.keys, h.keys, or_assoc]
  untouched := fun r hr => by
    rw [not_or] at hr
    rw [h'.untouched r hr.2, h.untouched r hr.1]
  kept := h.kept.trans h'.kept
  nodup := h'.nodup ∘ h.nodup

theorem congr (h : Grown key identity named before after) (heq : ∀ k, named k ↔ later k) :
    Grown key identity later before after := by
  obtain rfl : named = later := funext fun k => propext (heq k)
  exact h

/-- One row has been added. -/
theorem add {r : ρ} (h : key r ∉ before.map key) :
    Grown key identity (· = key r) before (before ++ [r]) where
  keys := fun k => by simp [eq_comm]
  untouched := fun r' hr => by
    have hne : r' ≠ r := fun heq => hr (congrArg key heq)
    simp [hne]
  kept := by
    rw [List.map_append]
    exact List.prefix_append _ _
  nodup := fun hn => by
    rw [List.map_append, List.nodup_append]
    refine ⟨hn, List.nodup_singleton _, ?_⟩
    rintro a ha b hb rfl
    rw [List.mem_singleton.mp hb] at ha
    exact h ha

/-- The rows of one key have been changed. -/
theorem change {k : κ} {f : ρ → ρ} (h : k ∈ before.map key)
    (hother : ∀ r, key r ≠ k → f r = r) (hkey : ∀ r, key (f r) = key r)
    (hidentity : ∀ r, identity (f r) = identity r) :
    Grown key identity (· = k) before (before.map f) := by
  have hkeys : (before.map f).map key = before.map key := by
    rw [List.map_map]
    exact List.map_congr_left fun r _ => hkey r
  refine ⟨fun k' => ?_, fun r hr => ?_, ?_, fun hn => hkeys ▸ hn⟩
  · rw [hkeys]
    exact (or_iff_left_of_imp fun heq => heq ▸ h).symm
  · constructor
    · intro hmem
      obtain ⟨r', hr', rfl⟩ := List.mem_map.mp hmem
      rw [hkey] at hr
      rwa [hother r' hr]
    · intro hmem
      exact List.mem_map.mpr ⟨r, hmem, hother r hr⟩
  · have hsame : (before.map f).map identity = before.map identity := by
      rw [List.map_map]
      exact List.map_congr_left fun r _ => hidentity r
    exact hsame ▸ List.prefix_rfl

end Grown

/-! ## Rows that are added once -/

/-- The items of a list that are not among those seen, each once. -/
def fresh {α : Type} [DecidableEq α] (seen : List α) : List α → List α
  | [] => []
  | x :: xs => if x ∈ seen then fresh seen xs else x :: fresh (seen ++ [x]) xs

section Fresh

variable {α : Type} [DecidableEq α] {seen xs : List α} {x : α}

theorem mem_fresh : x ∈ fresh seen xs ↔ x ∈ xs ∧ x ∉ seen := by
  induction xs generalizing seen with
  | nil => simp [fresh]
  | cons y ys ih =>
    unfold fresh
    by_cases hy : y ∈ seen
    · rw [if_pos hy, ih, List.mem_cons]
      refine and_congr_left fun hx => (or_iff_right ?_).symm
      rintro rfl
      exact hx hy
    · rw [if_neg hy, List.mem_cons, ih, List.mem_cons, List.mem_append, List.mem_singleton]
      by_cases hxy : x = y
      · subst hxy
        simp [hy]
      · simp [hxy]

theorem fresh_eq_nil (h : ∀ x ∈ xs, x ∈ seen) : fresh seen xs = [] :=
  List.eq_nil_iff_forall_not_mem.mpr fun _ hx =>
    (mem_fresh.mp hx).2 (h _ (mem_fresh.mp hx).1)

theorem fresh_append (seen xs ys : List α) :
    fresh seen (xs ++ ys) = fresh seen xs ++ fresh (seen ++ fresh seen xs) ys := by
  induction xs generalizing seen with
  | nil => simp [fresh]
  | cons x xs ih => by_cases hx : x ∈ seen <;> simp [fresh, hx, ih]

theorem fresh_cons (seen : List α) (x : α) (xs : List α) :
    fresh seen (x :: xs) = fresh seen [x] ++ fresh (seen ++ fresh seen [x]) xs :=
  fresh_append seen [x] xs

theorem fresh_congr {seen' : List α} (h : ∀ x ∈ xs, x ∈ seen ↔ x ∈ seen') :
    fresh seen xs = fresh seen' xs := by
  induction xs generalizing seen seen' with
  | nil => rfl
  | cons x xs ih =>
    obtain ⟨hx, hxs⟩ := List.forall_mem_cons.mp h
    have hadded : ∀ y ∈ xs, y ∈ seen ++ [x] ↔ y ∈ seen' ++ [x] := fun y hy => by
      rw [List.mem_append, List.mem_append, hxs y hy]
    rw [fresh, fresh, if_congr hx rfl rfl, ih hxs, ih hadded]

/-- Items that a function tells apart are the same once it has been applied. -/
theorem fresh_map {β : Type} [DecidableEq β] {f : α → β}
    (h : ∀ x ∈ xs, ∀ y ∈ seen ++ xs, f x = f y → x = y) :
    (fresh seen xs).map f = fresh (seen.map f) (xs.map f) := by
  induction xs generalizing seen with
  | nil => rfl
  | cons x xs ih =>
    have hseen : f x ∈ seen.map f ↔ x ∈ seen := by
      rw [List.mem_map]
      constructor
      · rintro ⟨y, hy, heq⟩
        exact h x List.mem_cons_self y (List.mem_append_left _ hy) heq.symm ▸ hy
      · exact fun hx => ⟨x, hx, rfl⟩
    rw [List.map_cons, fresh, fresh, if_congr hseen rfl rfl]
    have hrest : ∀ y ∈ xs, ∀ z ∈ seen ++ [x] ++ xs, f y = f z → y = z := fun y hy z hz =>
      h y (List.mem_cons_of_mem _ hy) z (by simpa [or_assoc] using hz)
    split
    · exact ih fun y hy z hz => hrest y hy z (by
        rcases List.mem_append.mp hz with hz | hz
        · exact List.mem_append_left _ (List.mem_append_left _ hz)
        · exact List.mem_append_right _ hz)
    · rw [List.map_cons, ih hrest, List.map_append, List.map_singleton]

theorem nodup_append_fresh (h : seen.Nodup) : (seen ++ fresh seen xs).Nodup := by
  induction xs generalizing seen with
  | nil => simpa [fresh] using h
  | cons y ys ih =>
    unfold fresh
    split
    · exact ih h
    · next hy =>
      have hadd : (seen ++ [y]).Nodup := List.nodup_append.mpr ⟨h, List.nodup_singleton y,
        fun a ha b hb heq => hy (List.mem_singleton.mp hb ▸ heq ▸ ha)⟩
      have hrest := ih hadd
      rwa [List.append_assoc] at hrest

theorem grown_fresh (seen xs : List α) :
    Grown id id (· ∈ xs) seen (seen ++ fresh seen xs) where
  keys := fun k => by
    simp only [List.map_id, List.mem_append, mem_fresh]
    tauto
  untouched := fun r hr => by
    rw [List.mem_append, mem_fresh]
    exact or_iff_left fun h => hr h.1
  kept := by
    rw [List.map_id, List.map_id]
    exact List.prefix_append _ _
  nodup := fun hn => by
    rw [List.map_id] at hn ⊢
    exact nodup_append_fresh hn

end Fresh

/-! ## Tables -/

namespace Table

variable {κ δ σ : Type} [DecidableEq κ] {combine : δ → δ → δ} {identity : Row κ δ → σ}

theorem grown_upsert (h : ∀ key data r, identity (absorb combine key data r) = identity r)
    (t : Table κ δ) (key : κ) (data : δ) :
    Grown Row.key identity (· = key) t.rows (t.upsert combine key data).2.rows := by
  by_cases hk : key ∈ t.keys
  · rw [upsert_of_mem hk]
    refine .change hk (fun r hr => if_neg hr) (fun r => ?_) (h key data)
    unfold absorb
    split <;> rfl
  · rw [upsert_of_not_mem hk]
    have hadd : ∀ r : Row κ δ, r.key ∉ t.rows.map Row.key →
        Grown Row.key identity (· = r.key) t.rows (t.rows ++ [r]) := fun _ => Grown.add
    exact hadd ⟨t.lastId + 1, key, data⟩ hk

theorem grown_upsertAll (h : ∀ key data r, identity (absorb combine key data r) = identity r)
    (t : Table κ δ) (entries : List (κ × δ)) :
    Grown Row.key identity (· ∈ entries.map Prod.fst) t.rows
      (t.upsertAll combine entries).rows := by
  induction entries generalizing t with
  | nil => exact (Grown.refl t.rows).congr fun k => by simp
  | cons e entries ih =>
    refine ((grown_upsert h t e.1 e.2).trans (ih _)).congr fun k => ?_
    rw [List.map_cons, List.mem_cons]

/-- An upsert changes neither ids nor keys. -/
theorem id_key_absorb (key : κ) (data : δ) (r : Row κ δ) :
    ((absorb combine key data r).id, (absorb combine key data r).key) = (r.id, r.key) := by
  unfold absorb
  split <;> rfl

end Table

/-! ## Edges -/

theorem grown_putEdge {edges edges' : List EdgeRow} {e : NewEdge}
    (h : Database.putEdge edges e = .ok edges') :
    Grown EdgeRow.ends EdgeRow.ends (· = e.ends) edges edges' := by
  unfold Database.putEdge at h
  split at h
  · next hnone =>
    obtain rfl := Except.ok.inj h
    have hends : EdgeRow.ends ⟨e.source, e.target, Database.documentText e.metadata⟩ = e.ends := rfl
    rw [← hends]
    refine Grown.add fun hmem => ?_
    obtain ⟨old, hold, heq⟩ := List.mem_map.mp hmem
    obtain ⟨hsource, htarget⟩ := Prod.mk.inj heq
    exact List.find?_eq_none.mp hnone old hold (by simp [hsource, htarget])
  · next old hsome =>
    split at h
    · cases h
    · next merged _ =>
      obtain rfl := Except.ok.inj h
      refine .change (List.mem_map.mpr ⟨old, List.mem_of_find?_eq_some hsome, ?_⟩) (fun r hr => ?_)
        (fun r => ?_) (fun r => ?_)
      · have hboth := List.find?_some hsome
        rw [Bool.and_eq_true, beq_iff_eq, beq_iff_eq] at hboth
        rw [EdgeRow.ends, NewEdge.ends, hboth.1, hboth.2]
      · refine if_neg fun hboth => hr ?_
        rw [EdgeRow.ends, NewEdge.ends, hboth.1, hboth.2]
      · split <;> rfl
      · split <;> rfl

theorem grown_putEdges {edges edges' : List EdgeRow} {new : List NewEdge}
    (h : Database.putEdges edges new = .ok edges') :
    Grown EdgeRow.ends EdgeRow.ends (· ∈ new.map NewEdge.ends) edges edges' := by
  induction new generalizing edges with
  | nil =>
    obtain rfl := Except.ok.inj h
    exact (Grown.refl edges).congr fun k => by simp
  | cons e new ih =>
    rw [Database.putEdges, List.foldlM_cons] at h
    obtain ⟨edges₁, h1, h2⟩ := bind_ok_iff.mp h
    refine ((grown_putEdge h1).trans (ih h2)).congr fun k => ?_
    rw [List.map_cons, List.mem_cons]

end CallArchive.Store
