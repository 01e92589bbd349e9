import CallArchive.Proofs.Store.Table
import Mathlib.Logic.Equiv.Defs

/-!
# Rows by name

Ids are handed out in the order of writing, so what a database holds is better said by names: a row
of a table that refers to no other is named by its key, and any other by the name of the row that it
refers to and the rest of its key (`Naming.within`). Two tables whose rows have the same names differ
by a renaming of ids, which is `Naming.translate`.

`putAll` is what upserts do to the data of a table as a function of its keys. Under names it is the
same function (`bind_putAll`), and the order of entries only matters under one key (`putAll_comm`).
-/

namespace CallArchive.Store

/-! ## Writing under keys -/

section Put

variable {κ ν δ ε : Type} [DecidableEq κ] [DecidableEq ν] (put : Option δ → ε → δ)

/-- The data by keys once an entry has been written. -/
def putAt (f : κ → Option δ) (e : κ × ε) : κ → Option δ :=
  fun k => if k = e.1 then some (put (f k) e.2) else f k

def putAll (f : κ → Option δ) (entries : List (κ × ε)) : κ → Option δ :=
  entries.foldl (putAt put) f

/-- Data takes in what is written under its key. -/
theorem putAll_apply (f : κ → Option δ) (entries : List (κ × ε)) (k : κ) :
    putAll put f entries k
      = (Table.gathered entries k).foldl (fun o x => some (put o x)) (f k) := by
  induction entries generalizing f with
  | nil => rfl
  | cons e entries ih =>
    refine (ih (putAt put f e)).trans ?_
    by_cases h : k = e.1
    · simp [putAt, Table.gathered, h]
    · simp [putAt, Table.gathered, h, Ne.symm h]

theorem gathered_eq_nil {entries : List (κ × ε)} {k : κ} (h : k ∉ entries.map Prod.fst) :
    Table.gathered entries k = [] := by
  have hnone : entries.filter (fun e => decide (e.1 = k)) = [] :=
    List.filter_eq_nil_iff.mpr fun e he hk =>
      h (of_decide_eq_true hk ▸ List.mem_map_of_mem he)
  rw [Table.gathered, hnone, List.map_nil]

/-- Lists of entries may be written in either order if under each key their order is no matter. -/
theorem putAll_comm {xs ys : List (κ × ε)}
    (h : ∀ k, Table.gathered xs k ++ Table.gathered ys k
      = Table.gathered ys k ++ Table.gathered xs k) (f : κ → Option δ) :
    putAll put (putAll put f xs) ys = putAll put (putAll put f ys) xs := by
  funext k
  rw [putAll_apply, putAll_apply, putAll_apply, putAll_apply, ← List.foldl_append,
    ← List.foldl_append, h]

/-- As when only one of the lists has entries for the key, -/
theorem gathered_comm_of_not_mem {xs ys : List (κ × ε)} {k : κ}
    (h : k ∈ xs.map Prod.fst → k ∉ ys.map Prod.fst) :
    Table.gathered xs k ++ Table.gathered ys k = Table.gathered ys k ++ Table.gathered xs k := by
  by_cases hx : k ∈ xs.map Prod.fst
  · rw [gathered_eq_nil (h hx), List.append_nil, List.nil_append]
  · rw [gathered_eq_nil hx, List.append_nil, List.nil_append]

/-- or all entries say the same. -/
theorem gathered_comm_of_eq {xs ys : List (κ × ε)} {k : κ} {x : ε}
    (hx : ∀ e ∈ xs, e.1 = k → e.2 = x) (hy : ∀ e ∈ ys, e.1 = k → e.2 = x) :
    Table.gathered xs k ++ Table.gathered ys k = Table.gathered ys k ++ Table.gathered xs k := by
  have hall : ∀ {zs : List (κ × ε)}, (∀ e ∈ zs, e.1 = k → e.2 = x) →
      Table.gathered zs k = List.replicate (Table.gathered zs k).length x := fun h =>
    List.eq_replicate_of_mem fun z hz => h _ (Table.mem_gathered hz) rfl
  rw [hall hx, hall hy, List.replicate_append_replicate, List.replicate_append_replicate,
    Nat.add_comm]

/-- Writing under keys is writing under their names, where new names may have come to the old ones
and nothing stands under a key without an old name. -/
theorem bind_putAll {name? name'? : ν → Option κ} (hold : ∀ n k, name? n = some k → name'? n = some k)
    (hinj : ∀ n m k, name'? n = some k → name'? m = some k → n = m) {f : κ → Option δ}
    (hf : ∀ k, f k ≠ none → ∃ n, name? n = some k) (key : ν → κ) {named : List (ν × ε)}
    (hkey : ∀ e ∈ named, name'? e.1 = some (key e.1)) (n : ν) :
    (name'? n).bind (putAll put f (named.map fun e => (key e.1, e.2)))
      = putAll put (fun n => (name? n).bind f) named n := by
  rw [putAll_apply]
  cases hn : name'? n with
  | none =>
    have hnone : name? n = none := by
      cases h : name? n with
      | none => rfl
      | some k => rw [hold n k h] at hn; cases hn
    have hnot : n ∉ named.map Prod.fst := fun hmem => by
      obtain ⟨e, he, rfl⟩ := List.mem_map.mp hmem
      rw [hkey e he] at hn
      cases hn
    rw [gathered_eq_nil hnot, hnone]
    rfl
  | some k =>
    have hdata : f k = (name? n).bind f := by
      cases h : name? n with
      | some k' =>
        obtain rfl := Option.some.inj ((hold n k' h).symm.trans hn)
        rfl
      | none =>
        refine Classical.byContradiction fun hne => ?_
        obtain ⟨m, hm⟩ := hf k hne
        obtain rfl := hinj m n k (hold m k hm) hn
        rw [h] at hm
        cases hm
    have hgathered : Table.gathered (named.map fun e => (key e.1, e.2)) k
        = Table.gathered named n := by
      rw [Table.gathered, Table.gathered, List.filter_map, List.map_map]
      congr 1
      refine List.filter_congr fun e he => ?_
      rw [Function.comp, decide_eq_decide]
      constructor
      · rintro rfl
        exact hinj _ _ _ (hkey e he) hn
      · rintro rfl
        exact Option.some.inj ((hkey e he).symm.trans hn)
    rw [Option.bind_some, putAll_apply, hgathered, hdata]

/-- Writing data that is read in another way. -/
theorem map_putAll {δ' ε' : Type} {put' : Option δ' → ε' → δ'} {g : δ → δ'} {g' : ε → ε'}
    (h : ∀ o x, g (put o x) = put' (o.map g) (g' x)) (f : κ → Option δ) (entries : List (κ × ε))
    (k : κ) :
    (putAll put f entries k).map g
      = putAll put' (fun k => (f k).map g) (entries.map fun e => (e.1, g' e.2)) k := by
  induction entries generalizing f with
  | nil => rfl
  | cons e entries ih =>
    refine (ih (putAt put f e)).trans (congrArg (putAll put' · _ k) ?_)
    funext k'
    unfold putAt
    split
    · rw [Option.map_some, h]
    · rfl

end Put

/-! ## Tables by keys and by ids -/

namespace Table

variable {κ δ : Type} [DecidableEq κ]

def data? (t : Table κ δ) (key : κ) : Option δ := (t.find? key).map Row.data

def keyOf? (t : Table κ δ) (id : RowId) : Option κ := (t.rows.find? fun r => r.id == id).map Row.key

/-- Old data, if there is any, takes in the new. -/
def take (combine : δ → δ → δ) (old : Option δ) (new : δ) : δ := old.elim new (combine · new)

theorem data?_upsert (combine : δ → δ → δ) (t : Table κ δ) (key : κ) (data : δ) :
    (t.upsert combine key data).2.data? = putAt (take combine) t.data? (key, data) := by
  funext k
  by_cases hk : key ∈ t.keys
  · have hp : ((fun r : Row κ δ => r.key == k) ∘ absorb combine key data)
        = fun r => r.key == k := by
      funext r
      simp only [Function.comp, absorb]
      split <;> rfl
    rw [upsert_of_mem hk, data?, find?, List.find?_map, hp, Option.map_map]
    cases hr : t.find? k with
    | none =>
      have hne : k ≠ key := fun h => find?_eq_none_iff.mp hr (h ▸ hk)
      rw [putAt, if_neg hne, data?, hr]
      rw [find?] at hr
      rw [hr]
      rfl
    | some r =>
      obtain ⟨-, rfl⟩ := find?_some_key hr
      rw [putAt, data?, hr]
      rw [find?] at hr
      rw [hr]
      by_cases h : r.key = key
      · simp [absorb, h, take]
      · simp [absorb, h]
  · have hnone := find?_eq_none_iff.mpr hk
    rw [upsert_of_not_mem hk, data?, putAt, data?]
    by_cases h : k = key
    · subst h
      rw [if_pos rfl, hnone]
      rw [find?] at hnone
      simp [find?, List.find?_append, hnone, take]
    · rw [if_neg h]
      have hne : ¬ key = k := Ne.symm h
      simp [find?, List.find?_append, hne]

theorem data?_upsertAll (combine : δ → δ → δ) (t : Table κ δ) (entries : List (κ × δ)) :
    (t.upsertAll combine entries).data? = putAll (take combine) t.data? entries := by
  induction entries generalizing t with
  | nil => rfl
  | cons e entries ih =>
    rw [upsertAll_cons, ih, data?_upsert]
    rfl

theorem data?_eq_none_iff {t : Table κ δ} {key : κ} : t.data? key = none ↔ key ∉ t.keys := by
  rw [data?, Option.map_eq_none_iff, find?_eq_none_iff]

theorem find?_eq_some_iff {t : Table κ δ} {key : κ} {r : Row κ δ} :
    t.find? key = some r ↔ r.key = key ∧ t.idOf? key = some r.id ∧ t.data? key = some r.data := by
  constructor
  · intro h
    exact ⟨(find?_some_key h).2, congrArg (Option.map Row.id) h, congrArg (Option.map Row.data) h⟩
  · rintro ⟨rfl, hid, hdata⟩
    obtain ⟨r', hr', hid⟩ := Option.map_eq_some_iff.mp hid
    rw [data?, hr'] at hdata
    obtain ⟨id, key, data⟩ := r
    obtain ⟨id', key', data'⟩ := r'
    obtain rfl : data' = data := Option.some.inj hdata
    obtain rfl : id' = id := hid
    obtain rfl : key' = key := (find?_some_key hr').2
    exact hr'

section Sound

variable {t : Table κ δ} (h : t.Sound)

include h

theorem Sound.mem_rows_iff {id : RowId} {key : κ} {data : δ} :
    ⟨id, key, data⟩ ∈ t.rows ↔ t.idOf? key = some id ∧ t.data? key = some data := by
  constructor
  · intro hr
    cases hf : t.find? key with
    | none => exact absurd (List.mem_map_of_mem hr) (find?_eq_none_iff.mp hf)
    | some r =>
      obtain ⟨hmem, hkey⟩ := find?_some_key hf
      obtain rfl := List.inj_on_of_nodup_map h.keys_nodup hmem hr hkey
      exact ⟨by rw [idOf?, hf]; rfl, by rw [data?, hf]; rfl⟩
  · rintro ⟨hid, hdata⟩
    obtain ⟨r, hf, rfl⟩ := Option.map_eq_some_iff.mp hid
    rw [data?, hf] at hdata
    obtain rfl := Option.some.inj hdata
    obtain ⟨hmem, rfl⟩ := find?_some_key hf
    exact hmem

theorem Sound.keyOf?_eq_some_iff {id : RowId} {key : κ} :
    t.keyOf? id = some key ↔ t.idOf? key = some id := by
  constructor
  · intro hkey
    obtain ⟨⟨_, _, data⟩, hf, rfl⟩ := Option.map_eq_some_iff.mp hkey
    have hid := List.find?_some hf
    obtain rfl := beq_iff_eq.mp hid
    exact (h.mem_rows_iff.mp (List.mem_of_find?_eq_some hf)).1
  · intro hid
    obtain ⟨r, hf, rfl⟩ := Option.map_eq_some_iff.mp hid
    obtain ⟨hmem, rfl⟩ := find?_some_key hf
    have hsome : (t.rows.find? fun r' => r'.id == r.id).isSome = true :=
      List.find?_isSome.mpr ⟨r, hmem, beq_self_eq_true _⟩
    obtain ⟨r', hf'⟩ := Option.isSome_iff_exists.mp hsome
    have hid' := List.find?_some hf'
    obtain rfl := List.inj_on_of_nodup_map h.ids_nodup (List.mem_of_find?_eq_some hf') hmem
      (beq_iff_eq.mp hid')
    rw [keyOf?, hf']
    rfl

theorem Sound.exists_key {id : RowId} (hid : t.hasId id = true) : ∃ key, t.idOf? key = some id := by
  obtain ⟨⟨_, key, data⟩, hr, rfl⟩ := hasId_iff.mp hid
  exact ⟨key, (h.mem_rows_iff.mp hr).1⟩

end Sound

end Table

/-! ## Names -/

/-- Names of the ids that have rows. -/
structure Naming (ν : Type) where
  id? : ν → Option RowId
  name? : RowId → Option ν
  name?_iff : ∀ {id n}, name? id = some n ↔ id? n = some id

namespace Naming

variable {ν κ δ β : Type}

theorem name_inj (N : Naming ν) {n m : ν} {id : RowId} (hn : N.id? n = some id)
    (hm : N.id? m = some id) : n = m :=
  Option.some.inj ((N.name?_iff.mpr hn).symm.trans (N.name?_iff.mpr hm))

/-- The key for a name, where keys are made from the id of the row that is referred to. -/
def key? (N : Naming ν) (e : RowId × β ≃ κ) (n : ν × β) : Option κ :=
  (N.id? n.1).map fun id => e (id, n.2)

theorem key?_eq_some_iff {N : Naming ν} {e : RowId × β ≃ κ} {n : ν × β} {k : κ} :
    N.key? e n = some k ↔ N.id? n.1 = some (e.symm k).1 ∧ n.2 = (e.symm k).2 := by
  rw [key?, Option.map_eq_some_iff]
  constructor
  · rintro ⟨id, hid, rfl⟩
    rw [e.symm_apply_apply]
    exact ⟨hid, rfl⟩
  · rintro ⟨hid, hrest⟩
    exact ⟨_, hid, by rw [hrest]; exact e.apply_symm_apply k⟩

theorem key?_inj (N : Naming ν) (e : RowId × β ≃ κ) (n m : ν × β) (k : κ)
    (hn : N.key? e n = some k) (hm : N.key? e m = some k) : n = m := by
  rw [key?_eq_some_iff] at hn hm
  exact Prod.ext (N.name_inj hn.1 hm.1) (hn.2.trans hm.2.symm)

/-- Pairs of names stand for pairs of ids. -/
def pair? (N : Naming ν) (n : ν × ν) : Option (RowId × RowId) :=
  (N.id? n.1).bind fun id => (N.id? n.2).map (id, ·)

theorem pair?_eq_some_iff {N : Naming ν} {n : ν × ν} {ids : RowId × RowId} :
    N.pair? n = some ids ↔ N.id? n.1 = some ids.1 ∧ N.id? n.2 = some ids.2 := by
  simp only [pair?, Option.bind_eq_some_iff, Option.map_eq_some_iff]
  constructor
  · rintro ⟨_, hsource, _, htarget, rfl⟩
    exact ⟨hsource, htarget⟩
  · rintro ⟨hsource, htarget⟩
    exact ⟨_, hsource, _, htarget, rfl⟩

theorem pair?_inj (N : Naming ν) (n m : ν × ν) (ids : RowId × RowId) (hn : N.pair? n = some ids)
    (hm : N.pair? m = some ids) : n = m := by
  rw [pair?_eq_some_iff] at hn hm
  exact Prod.ext (N.name_inj hn.1 hm.1) (N.name_inj hn.2 hm.2)

section Tables

variable [DecidableEq κ] {t t' : Table κ δ}

/-- Rows are named by their keys. -/
def ofTable (h : t.Sound) : Naming κ := ⟨t.idOf?, t.keyOf?, h.keyOf?_eq_some_iff⟩

/-- Rows are named within the rows that they refer to. -/
def within (N : Naming ν) (h : t.Sound) (e : RowId × β ≃ κ) : Naming (ν × β) where
  id? n := (N.key? e n).bind t.idOf?
  name? id := (t.keyOf? id).bind fun k => (N.name? (e.symm k).1).map (·, (e.symm k).2)
  name?_iff := by
    rintro id ⟨n, b⟩
    simp only [Option.bind_eq_some_iff, Option.map_eq_some_iff, key?_eq_some_iff,
      h.keyOf?_eq_some_iff, N.name?_iff, Prod.mk.injEq]
    constructor
    · rintro ⟨k, hid, _, hn, rfl, rfl⟩
      exact ⟨k, ⟨hn, rfl⟩, hid⟩
    · rintro ⟨k, ⟨hn, rfl⟩, hid⟩
      exact ⟨k, hid, n, hn, rfl, rfl⟩

/-- Each row that refers to one with a name has a name. -/
theorem exists_within (N : Naming ν) (h : t.Sound) (e : RowId × β ≃ κ)
    (href : ∀ k ∈ t.keys, ∃ n, N.id? n = some (e.symm k).1) {id : RowId}
    (hid : t.hasId id = true) : ∃ n, (N.within h e).id? n = some id := by
  obtain ⟨k, hk⟩ := h.exists_key hid
  obtain ⟨n, hn⟩ := href k (Table.mem_keys_of_idOf? hk)
  exact ⟨(n, (e.symm k).2), Option.bind_eq_some_iff.mpr ⟨k, key?_eq_some_iff.mpr ⟨hn, rfl⟩, hk⟩⟩

end Tables

/-! ## Later names -/

/-- An old name has the id that it had. -/
def Extends (N' N : Naming ν) : Prop := ∀ n id, N.id? n = some id → N'.id? n = some id

section Extends

variable {N N' N'' : Naming ν}

theorem Extends.refl (N : Naming ν) : N.Extends N := fun _ _ hn => hn

theorem Extends.trans (h' : N''.Extends N') (h : N'.Extends N) : N''.Extends N :=
  fun n id hn => h' n id (h n id hn)

theorem Extends.name? (h : N'.Extends N) {id : RowId} {n : ν} (hn : N.name? id = some n) :
    N'.name? id = some n :=
  N'.name?_iff.mpr (h n id (N.name?_iff.mp hn))

theorem Extends.key? (h : N'.Extends N) (e : RowId × β ≃ κ) (n : ν × β) (k : κ)
    (hk : N.key? e n = some k) : N'.key? e n = some k := by
  rw [key?_eq_some_iff] at hk ⊢
  exact ⟨h _ _ hk.1, hk.2⟩

theorem Extends.pair? (h : N'.Extends N) (n : ν × ν) (ids : RowId × RowId)
    (hn : N.pair? n = some ids) : N'.pair? n = some ids := by
  rw [pair?_eq_some_iff] at hn ⊢
  exact ⟨h _ _ hn.1, h _ _ hn.2⟩

theorem Extends.within [DecidableEq κ] (h : N'.Extends N) {t t' : Table κ δ} {ht : t.Sound}
    {ht' : t'.Sound} (htt' : ∀ k id, t.idOf? k = some id → t'.idOf? k = some id)
    (e : RowId × β ≃ κ) : (N'.within ht' e).Extends (N.within ht e) := by
  intro n id hn
  obtain ⟨k, hk, hid⟩ := Option.bind_eq_some_iff.mp hn
  exact Option.bind_eq_some_iff.mpr ⟨k, h.key? e n k hk, htt' k id hid⟩

/-- Upserting rows that refer to one row is writing under names within its name. -/
theorem Extends.bind_upsertAll [DecidableEq κ] [DecidableEq ν] [DecidableEq β] (h : N'.Extends N)
    (e : RowId × β ≃ κ) {t : Table κ δ} (href : ∀ k ∈ t.keys, ∃ n, N.id? n = some (e.symm k).1)
    (combine : δ → δ → δ) {above : ν} {id : RowId} (hid : N'.id? above = some id)
    (entries : List (β × δ)) (n : ν × β) :
    (N'.key? e n).bind (t.upsertAll combine (entries.map fun x => (e (id, x.1), x.2))).data?
      = putAll (Table.take combine) (fun n => (N.key? e n).bind t.data?)
          (entries.map fun x => ((above, x.1), x.2)) n := by
  have hdata : ∀ k, t.data? k ≠ none → ∃ n, N.key? e n = some k := fun k hk => by
    obtain ⟨n, hn⟩ := href k (not_not.mp (mt Table.data?_eq_none_iff.mpr hk))
    exact ⟨(n, (e.symm k).2), key?_eq_some_iff.mpr ⟨hn, rfl⟩⟩
  have hkeys : ∀ x ∈ entries.map fun x => ((above, x.1), x.2),
      N'.key? e x.1 = some (e (id, x.1.2)) := fun x hx => by
    obtain ⟨y, -, rfl⟩ := List.mem_map.mp hx
    exact Option.map_eq_some_iff.mpr ⟨id, hid, rfl⟩
  rw [← bind_putAll (Table.take combine) (h.key? e) (N'.key?_inj e) hdata
    (fun n => e (id, n.2)) hkeys, Table.data?_upsertAll, List.map_map]
  rfl

end Extends

/-! ## Renaming -/

/-- The id in other rows for the name that an id has in these. -/
def translate (N N' : Naming ν) (id : RowId) : RowId := ((N.name? id).bind N'.id?).getD id

theorem translate_eq {N N' : Naming ν} {n : ν} {id id' : RowId} (h : N.id? n = some id)
    (h' : N'.id? n = some id') : N.translate N' id = id' := by
  rw [translate, N.name?_iff.mpr h, Option.bind_some, h', Option.getD_some]

/-- The same names have ids. -/
def Alike (N N' : Naming ν) : Prop := ∀ n, (N.id? n).isSome = (N'.id? n).isSome

theorem Alike.symm {N N' : Naming ν} (h : N.Alike N') : N'.Alike N := fun n => (h n).symm

theorem Alike.exists_id {N N' : Naming ν} (h : N.Alike N') {n : ν} {id : RowId}
    (hn : N.id? n = some id) : ∃ id', N'.id? n = some id' :=
  Option.isSome_iff_exists.mp (h n ▸ by rw [hn]; rfl)

theorem Alike.translate_inj {N N' : Naming ν} (h : N.Alike N') {n m : ν} {i j : RowId}
    (hi : N.id? n = some i) (hj : N.id? m = some j) (heq : N.translate N' i = N.translate N' j) : i = j := by
  obtain ⟨i', hi'⟩ := h.exists_id hi
  obtain ⟨j', hj'⟩ := h.exists_id hj
  rw [translate_eq hi hi', translate_eq hj hj'] at heq
  obtain rfl := N'.name_inj hi' (heq ▸ hj')
  exact Option.some.inj (hi.symm.trans hj)

end Naming

end CallArchive.Store
