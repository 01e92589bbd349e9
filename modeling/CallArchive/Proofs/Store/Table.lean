import CallArchive.Store.Table
import Mathlib.Data.List.Nodup

/-!
# Sequences of upserts into a table

`upsertAll` writes a list of keyed data into a table one after the other. `rows_upsertAll` says what
becomes of the rows: each old row keeps its place, id and key and combines its data with all that is
written under its key (`gathered`), and the rows after them are new. If `combine` is associative and
idempotent (`Band`), writing the same list again changes no row (`rows_upsertAll_again`).

`Sound` is the invariant of tables: no key and no id stands twice, and no id is beyond the last one
given away.
-/

namespace CallArchive.Store.Table

variable {κ δ : Type}

/-! ## The invariant -/

structure Sound (t : Table κ δ) : Prop where
  keys_nodup : (t.rows.map Row.key).Nodup
  ids_nodup : (t.rows.map Row.id).Nodup
  ids_le : ∀ r ∈ t.rows, r.id ≤ t.lastId

theorem Sound.empty : (empty : Table κ δ).Sound :=
  ⟨List.nodup_nil, List.nodup_nil, fun _ h => nomatch h⟩

theorem hasId_iff {t : Table κ δ} {id : RowId} : t.hasId id = true ↔ ∃ r ∈ t.rows, r.id = id := by
  simp [hasId]

theorem hasId_eq_of_ids {t u : Table κ δ} (h : t.rows.map Row.id = u.rows.map Row.id) (id : RowId) :
    t.hasId id = u.hasId id := by
  rw [Bool.eq_iff_iff, hasId_iff, hasId_iff, ← List.mem_map (f := Row.id), h, List.mem_map]

/-- The keys that have rows. -/
def keys (t : Table κ δ) : List κ := t.rows.map Row.key

theorem Sound.existsUnique_row {t : Table κ δ} (h : t.Sound) {key : κ} (hkey : key ∈ t.keys) :
    ∃! r, r ∈ t.rows ∧ r.key = key := by
  obtain ⟨r, hr, rfl⟩ := List.mem_map.mp hkey
  exact ⟨r, ⟨hr, rfl⟩, fun r' hr' => List.inj_on_of_nodup_map h.keys_nodup hr'.1 hr hr'.2⟩

variable [DecidableEq κ]

/-- The id of the key's row. -/
def idOf? (t : Table κ δ) (key : κ) : Option RowId := (t.find? key).map Row.id

/-- The id of a key that has a row. -/
def idOf (t : Table κ δ) (key : κ) : RowId := (t.idOf? key).getD 0

theorem hasKey_iff {t : Table κ δ} {key : κ} : t.hasKey key = true ↔ key ∈ t.keys := by
  simp [hasKey, find?, keys]

theorem find?_eq_none_iff {t : Table κ δ} {key : κ} : t.find? key = none ↔ key ∉ t.keys := by
  rw [← hasKey_iff, hasKey]; cases t.find? key <;> simp

theorem exists_row {t : Table κ δ} {key : κ} (h : key ∈ t.keys) :
    ∃ r ∈ t.rows, t.find? key = some r ∧ r.key = key := by
  obtain ⟨r, hr⟩ := Option.isSome_iff_exists.mp (hasKey_iff.mpr h)
  obtain ⟨hmem, hkey⟩ := find?_some_key hr
  exact ⟨r, hmem, hr, hkey⟩

theorem hasId_of_idOf? {t : Table κ δ} {key : κ} {id : RowId} (h : t.idOf? key = some id) :
    t.hasId id = true := by
  obtain ⟨r, hr, rfl⟩ := Option.map_eq_some_iff.mp h
  exact hasId_iff.mpr ⟨r, (find?_some_key hr).1, rfl⟩

theorem mem_keys_of_idOf? {t : Table κ δ} {key : κ} {id : RowId} (h : t.idOf? key = some id) :
    key ∈ t.keys := by
  obtain ⟨r, hr, -⟩ := Option.map_eq_some_iff.mp h
  obtain ⟨hmem, rfl⟩ := find?_some_key hr
  exact List.mem_map_of_mem hmem

theorem idOf_of_idOf? {t : Table κ δ} {key : κ} {id : RowId} (h : t.idOf? key = some id) :
    t.idOf key = id := by
  rw [idOf, h, Option.getD_some]

theorem idOf?_eq_some_idOf {t : Table κ δ} {key : κ} (h : key ∈ t.keys) :
    t.idOf? key = some (t.idOf key) := by
  rw [idOf, idOf?]
  cases hf : t.find? key with
  | none => exact absurd h (find?_eq_none_iff.mp hf)
  | some r => rfl

theorem hasId_idOf {t : Table κ δ} {key : κ} (h : key ∈ t.keys) : t.hasId (t.idOf key) = true :=
  hasId_of_idOf? (idOf?_eq_some_idOf h)

/-! ## One upsert -/

variable {combine : δ → δ → δ}

/-- A row after `data` has been written under `key`. -/
def absorb (combine : δ → δ → δ) (key : κ) (data : δ) (r : Row κ δ) : Row κ δ :=
  if r.key = key then { r with data := combine r.data data } else r

theorem upsert_of_mem {t : Table κ δ} {key : κ} (h : key ∈ t.keys) (data : δ) :
    (t.upsert combine key data).2 = ⟨t.rows.map (absorb combine key data), t.lastId + 1⟩ := by
  cases hf : t.find? key with
  | none => exact absurd h (find?_eq_none_iff.mp hf)
  | some r => simp only [upsert, hf]; rfl

theorem upsert_of_not_mem {t : Table κ δ} {key : κ} (h : key ∉ t.keys) (data : δ) :
    (t.upsert combine key data).2
      = ⟨t.rows ++ [⟨t.lastId + 1, key, data⟩], t.lastId + 1⟩ := by
  simp only [upsert, find?_eq_none_iff.mpr h]

theorem mem_keys_upsert {t : Table κ δ} {key other : κ} {data : δ} :
    other ∈ (t.upsert combine key data).2.keys ↔ other ∈ t.keys ∨ other = key := by
  by_cases h : key ∈ t.keys
  · have hk := keys_update combine key data t.rows
    simp only [upsert_of_mem h, keys] at hk h ⊢
    rw [show t.rows.map (absorb combine key data) = update combine key data t.rows from rfl, hk]
    exact ⟨Or.inl, fun ho => ho.elim id fun e => e ▸ h⟩
  · simp [upsert_of_not_mem h, keys]

theorem nodup_keys_upsert {t : Table κ δ} (h : t.keys.Nodup) (key : κ) (data : δ) :
    (t.upsert combine key data).2.keys.Nodup := by
  by_cases hk : key ∈ t.keys
  · rw [upsert_of_mem hk]
    have hkeys := keys_update combine key data t.rows
    exact (congrArg List.Nodup hkeys).mpr h
  · rw [upsert_of_not_mem hk, keys, List.map_append]
    refine List.nodup_append.mpr ⟨h, List.nodup_singleton _, ?_⟩
    rintro a ha b hb rfl
    rw [List.mem_singleton.mp hb] at ha
    exact hk ha

theorem Sound.upsert {t : Table κ δ} (h : t.Sound) (key : κ) (data : δ) :
    (t.upsert combine key data).2.Sound := by
  refine ⟨nodup_keys_upsert h.keys_nodup key data, ?_, fun r hr => ?_⟩
  · by_cases hk : key ∈ t.keys
    · rw [upsert_of_mem hk]
      exact ids_update combine key data t.rows ▸ h.ids_nodup
    · rw [upsert_of_not_mem hk, List.map_append]
      refine List.nodup_append.mpr ⟨h.ids_nodup, List.nodup_singleton _, ?_⟩
      rintro a ha b hb rfl
      rw [List.mem_singleton.mp hb] at ha
      obtain ⟨r, hr, he⟩ := List.mem_map.mp ha
      exact Int.not_le.mpr (Int.lt_succ _) (he ▸ h.ids_le r hr)
  · rw [lastId_upsert]
    by_cases hk : key ∈ t.keys
    · rw [upsert_of_mem hk] at hr
      have hi : r.id ∈ (update combine key data t.rows).map Row.id := List.mem_map_of_mem hr
      rw [ids_update] at hi
      obtain ⟨r', hr', he⟩ := List.mem_map.mp hi
      exact Int.le_add_one (he ▸ h.ids_le r' hr')
    · rw [upsert_of_not_mem hk] at hr
      rcases List.mem_append.mp hr with hr | hr
      · exact Int.le_add_one (h.ids_le r hr)
      · obtain rfl := List.mem_singleton.mp hr
        exact Int.le_refl _

theorem forall_keys_upsert {P : κ → Prop} {t : Table κ δ} {key : κ} {data : δ}
    (h : ∀ k ∈ t.keys, P k) (hk : key ∉ t.keys → P key) :
    ∀ k ∈ (t.upsert combine key data).2.keys, P k := by
  intro k hm
  by_cases hold : k ∈ t.keys
  · exact h k hold
  · obtain rfl := (mem_keys_upsert.mp hm).resolve_left hold
    exact hk hold

theorem forall_rows_upsert {P : κ → δ → Prop} {t : Table κ δ} {key : κ} {data : δ}
    (h : ∀ r ∈ t.rows, P r.key r.data) (hc : ∀ {a}, P key a → P key (combine a data))
    (hd : key ∉ t.keys → P key data) :
    ∀ r ∈ (t.upsert combine key data).2.rows, P r.key r.data := by
  intro r hr
  by_cases hk : key ∈ t.keys
  · rw [upsert_of_mem hk] at hr
    obtain ⟨r', hr', rfl⟩ := List.mem_map.mp hr
    unfold absorb
    split
    · next heq =>
      subst heq
      exact hc (h r' hr')
    · exact h r' hr'
  · rw [upsert_of_not_mem hk] at hr
    rcases List.mem_append.mp hr with hr | hr
    · exact h r hr
    · rw [List.mem_singleton.mp hr]
      exact hd hk

theorem forall_data_upsert {P : δ → Prop} {t : Table κ δ} {key : κ} {data : δ}
    (h : ∀ r ∈ t.rows, P r.data) (hc : ∀ {a}, P a → P (combine a data))
    (hd : key ∉ t.keys → P data) : ∀ r ∈ (t.upsert combine key data).2.rows, P r.data :=
  forall_rows_upsert (P := fun _ => P) h hc hd

/-- An upsert takes no id away. -/
theorem hasId_upsert {t : Table κ δ} {key : κ} {data : δ} {id : RowId} (h : t.hasId id = true) :
    (t.upsert combine key data).2.hasId id = true := by
  by_cases hk : key ∈ t.keys
  · rw [upsert_of_mem hk, ← hasId_eq_of_ids (t := t) (ids_update combine key data t.rows).symm]
    exact h
  · obtain ⟨r, hr, he⟩ := hasId_iff.mp h
    rw [upsert_of_not_mem hk]
    exact hasId_iff.mpr ⟨r, List.mem_append_left _ hr, he⟩

theorem idOf?_upsert_self {t : Table κ δ} {key : κ} {data : δ} :
    (t.upsert combine key data).2.idOf? key = some (t.upsert combine key data).1 :=
  find?_upsert_self combine t key data

/-- The id of a key is for good. -/
theorem idOf?_upsert {t : Table κ δ} {key other : κ} {data : δ} {id : RowId}
    (h : t.idOf? other = some id) : (t.upsert combine key data).2.idOf? other = some id := by
  obtain ⟨r, hr, rfl⟩ := Option.map_eq_some_iff.mp h
  by_cases hk : key ∈ t.keys
  · have hp : ((fun r : Row κ δ => r.key == other) ∘ absorb combine key data)
        = fun r => r.key == other := by
      funext r
      simp only [Function.comp, absorb]
      split <;> rfl
    have hid : (absorb combine key data r).id = r.id := by
      unfold absorb
      split <;> rfl
    rw [upsert_of_mem hk, idOf?, find?, List.find?_map, hp]
    rw [find?] at hr
    simp [hr, hid]
  · rw [find?] at hr
    simp [upsert_of_not_mem hk, idOf?, find?, List.find?_append, hr]

/-! ## Many upserts -/

/-- Writes keyed data one after the other. -/
def upsertAll (combine : δ → δ → δ) (t : Table κ δ) (entries : List (κ × δ)) : Table κ δ :=
  entries.foldl (fun t e => (t.upsert combine e.1 e.2).2) t

@[simp] theorem upsertAll_nil {t : Table κ δ} : t.upsertAll combine [] = t := rfl

@[simp] theorem upsertAll_cons {t : Table κ δ} {e : κ × δ} {entries : List (κ × δ)} :
    t.upsertAll combine (e :: entries) = (t.upsert combine e.1 e.2).2.upsertAll combine entries :=
  rfl

theorem upsertAll_append {t : Table κ δ} {xs ys : List (κ × δ)} :
    t.upsertAll combine (xs ++ ys) = (t.upsertAll combine xs).upsertAll combine ys :=
  List.foldl_append

theorem mem_keys_upsertAll {t : Table κ δ} {entries : List (κ × δ)} {key : κ} :
    key ∈ (t.upsertAll combine entries).keys ↔ key ∈ t.keys ∨ key ∈ entries.map Prod.fst := by
  induction entries generalizing t with
  | nil => simp
  | cons e entries ih =>
    rw [upsertAll_cons, ih, mem_keys_upsert, List.map_cons, List.mem_cons, or_assoc]

theorem mem_keys_upsertAll_of_mem {t : Table κ δ} {entries : List (κ × δ)} {e : κ × δ}
    (h : e ∈ entries) : e.1 ∈ (t.upsertAll combine entries).keys :=
  mem_keys_upsertAll.mpr (.inr (List.mem_map_of_mem h))

theorem idOf?_upsertAll {t : Table κ δ} {entries : List (κ × δ)} {key : κ} {id : RowId}
    (h : t.idOf? key = some id) : (t.upsertAll combine entries).idOf? key = some id := by
  induction entries generalizing t with
  | nil => exact h
  | cons e entries ih => exact ih (idOf?_upsert h)

theorem idOf_upsertAll {t : Table κ δ} {entries : List (κ × δ)} {key : κ} (h : key ∈ t.keys) :
    (t.upsertAll combine entries).idOf key = t.idOf key := by
  rw [idOf, idOf?_upsertAll (idOf?_eq_some_idOf h), Option.getD_some]

theorem hasId_upsertAll {t : Table κ δ} {entries : List (κ × δ)} {id : RowId}
    (h : t.hasId id = true) : (t.upsertAll combine entries).hasId id = true := by
  induction entries generalizing t with
  | nil => exact h
  | cons e entries ih => exact ih (hasId_upsert h)

theorem Sound.upsertAll {t : Table κ δ} (h : t.Sound) (entries : List (κ × δ)) :
    (t.upsertAll combine entries).Sound := by
  induction entries generalizing t with
  | nil => exact h
  | cons e entries ih => exact ih (h.upsert e.1 e.2)

theorem forall_keys_upsertAll {P : κ → Prop} {t : Table κ δ} {entries : List (κ × δ)}
    (h : ∀ k ∈ t.keys, P k) (he : ∀ e ∈ entries, P e.1) :
    ∀ k ∈ (t.upsertAll combine entries).keys, P k := by
  intro k hk
  rcases mem_keys_upsertAll.mp hk with hk | hk
  · exact h k hk
  · obtain ⟨e, hmem, rfl⟩ := List.mem_map.mp hk
    exact he e hmem

theorem forall_rows_upsertAll {P : κ → δ → Prop} {t : Table κ δ} {entries : List (κ × δ)}
    (h : ∀ r ∈ t.rows, P r.key r.data) (hc : ∀ {k a b}, P k a → P k b → P k (combine a b))
    (he : ∀ e ∈ entries, P e.1 e.2) :
    ∀ r ∈ (t.upsertAll combine entries).rows, P r.key r.data := by
  induction entries generalizing t with
  | nil => exact h
  | cons e entries ih =>
    obtain ⟨hhead, htail⟩ := List.forall_mem_cons.mp he
    exact ih (forall_rows_upsert h (fun ha => hc ha hhead) fun _ => hhead) htail

theorem forall_data_upsertAll {P : δ → Prop} {t : Table κ δ} {entries : List (κ × δ)}
    (h : ∀ r ∈ t.rows, P r.data) (hc : ∀ {a b}, P a → P (combine a b))
    (he : ∀ e ∈ entries, P e.2) : ∀ r ∈ (t.upsertAll combine entries).rows, P r.data :=
  forall_rows_upsertAll (P := fun _ => P) h (fun ha _ => hc ha) he

/-- The id that an upsert answers is the one to be found after all that follow. -/
theorem idOf_upsertAll_cons {t : Table κ δ} {key : κ} {data : δ} {entries : List (κ × δ)} :
    (t.upsertAll combine ((key, data) :: entries)).idOf key = (t.upsert combine key data).1 := by
  rw [upsertAll_cons, idOf, idOf?_upsertAll idOf?_upsert_self, Option.getD_some]

/-- The data written under a key, in order. -/
def gathered (entries : List (κ × δ)) (key : κ) : List δ :=
  (entries.filter fun e => e.1 = key).map Prod.snd

/-- A row after all that is written under its key. -/
def absorbAll (combine : δ → δ → δ) (entries : List (κ × δ)) (r : Row κ δ) : Row κ δ :=
  { r with data := (gathered entries r.key).foldl combine r.data }

@[simp] theorem absorbAll_key (entries : List (κ × δ)) (r : Row κ δ) :
    (absorbAll combine entries r).key = r.key := rfl

theorem absorbAll_absorb {e : κ × δ} {entries : List (κ × δ)} (r : Row κ δ) :
    absorbAll combine entries (absorb combine e.1 e.2 r) = absorbAll combine (e :: entries) r := by
  by_cases h : r.key = e.1
  · simp [absorbAll, absorb, gathered, h]
  · simp [absorbAll, absorb, gathered, h, Ne.symm h]

/-- A row that came with the entries: its data is what they say under its key. -/
structure FromEntries (combine : δ → δ → δ) (t : Table κ δ) (entries : List (κ × δ))
    (r : Row κ δ) : Prop where
  key_not_mem : r.key ∉ t.keys
  key_mem : r.key ∈ entries.map Prod.fst
  data_eq : ∃ d ds, gathered entries r.key = d :: ds ∧ r.data = ds.foldl combine d

/-- Old rows keep their places, and the others came with the entries. -/
theorem rows_upsertAll (combine : δ → δ → δ) (t : Table κ δ) (entries : List (κ × δ)) :
    ∃ new, (t.upsertAll combine entries).rows = t.rows.map (absorbAll combine entries) ++ new ∧
      ∀ r ∈ new, FromEntries combine t entries r := by
  induction entries generalizing t with
  | nil => exact ⟨[], by rw [List.append_nil]; exact (List.map_id _).symm, by simp⟩
  | cons e entries ih =>
    obtain ⟨new, hrows, hnew⟩ := ih (t.upsert combine e.1 e.2).2
    have hkeys : ∀ r ∈ new, r.key ∉ t.keys ∧ r.key ≠ e.1 := fun r hr => by
      have := (hnew r hr).key_not_mem
      rwa [mem_keys_upsert, not_or] at this
    have hlater : ∀ r ∈ new, FromEntries combine t (e :: entries) r := fun r hr => by
      obtain ⟨hk, hne⟩ := hkeys r hr
      obtain ⟨-, hm, d, ds, hg, hd⟩ := hnew r hr
      exact ⟨hk, List.mem_cons_of_mem _ hm, d, ds, by simpa [gathered, Ne.symm hne] using hg, hd⟩
    by_cases h : e.1 ∈ t.keys
    · refine ⟨new, ?_, hlater⟩
      rw [upsertAll_cons, hrows, upsert_of_mem h]
      simp only [List.map_map, Function.comp_def, absorbAll_absorb]
    · rw [upsert_of_not_mem h] at hrows
      refine ⟨absorbAll combine entries ⟨t.lastId + 1, e.1, e.2⟩ :: new, ?_, ?_⟩
      · have hold : t.rows.map (absorbAll combine entries)
            = t.rows.map (absorbAll combine (e :: entries)) := List.map_congr_left fun r hr => by
          have hne : r.key ≠ e.1 := fun he => h (he ▸ List.mem_map_of_mem hr)
          rw [← absorbAll_absorb, absorb, if_neg hne]
        rw [upsertAll_cons, upsert_of_not_mem h, hrows]
        simp [hold]
      · rintro r (_ | ⟨_, hr⟩)
        · refine ⟨h, List.mem_cons_self, e.2, gathered entries e.1, ?_, rfl⟩
          rw [absorbAll_key]
          simp [gathered]
        · exact hlater r hr

/-- Where every key has a row no row is new. -/
theorem rows_upsertAll_of_keys {t : Table κ δ} {entries : List (κ × δ)}
    (h : ∀ e ∈ entries, e.1 ∈ t.keys) :
    (t.upsertAll combine entries).rows = t.rows.map (absorbAll combine entries) := by
  obtain ⟨new, hrows, hnew⟩ := rows_upsertAll combine t entries
  have hnil : new = [] := List.eq_nil_iff_forall_not_mem.mpr fun r hr => by
    obtain ⟨e, he, hk⟩ := List.mem_map.mp (hnew r hr).key_mem
    exact (hnew r hr).key_not_mem (hk ▸ h e he)
  rw [hrows, hnil, List.append_nil]

/-! ## Writing the same again -/

/-- On the data with `P` combining is associative, and combining with the same changes nothing. -/
structure Band (combine : δ → δ → δ) (P : δ → Prop) : Prop where
  closed : ∀ {a b}, P a → P b → P (combine a b)
  assoc : ∀ {a b c}, P a → P b → P c → combine (combine a b) c = combine a (combine b c)
  idem : ∀ {a}, P a → combine a a = a

section Again

variable {P : δ → Prop}

omit [DecidableEq κ] in
theorem Band.foldl (hb : Band combine P) {x : δ} {ds : List δ} (hx : P x) (h : ∀ d ∈ ds, P d) :
    P (ds.foldl combine x) := by
  induction ds generalizing x with
  | nil => exact hx
  | cons d ds ih =>
    exact ih (hb.closed hx (h d List.mem_cons_self)) fun y hy => h y (List.mem_cons_of_mem _ hy)

omit [DecidableEq κ] in
theorem Band.foldl_combine (hb : Band combine P) {x d : δ} {ds : List δ} (hx : P x) (hd : P d)
    (h : ∀ y ∈ ds, P y) : ds.foldl combine (combine x d) = combine x (ds.foldl combine d) := by
  induction ds generalizing d with
  | nil => rfl
  | cons y ds ih =>
    have hy := h y List.mem_cons_self
    rw [List.foldl_cons, List.foldl_cons, hb.assoc hx hd hy]
    exact ih (hb.closed hd hy) fun z hz => h z (List.mem_cons_of_mem _ hz)

omit [DecidableEq κ] in
/-- Data that has taken in a list is not changed by it. -/
theorem Band.foldl_again (hb : Band combine P) {x : δ} {ds : List δ} (hx : P x)
    (h : ∀ d ∈ ds, P d) : ds.foldl combine (ds.foldl combine x) = ds.foldl combine x := by
  cases ds with
  | nil => rfl
  | cons d ds =>
    have hd := h d List.mem_cons_self
    have hr : ∀ y ∈ ds, P y := fun y hy => h y (List.mem_cons_of_mem _ hy)
    have hw := hb.foldl hd hr
    rw [List.foldl_cons, List.foldl_cons, hb.foldl_combine hx hd hr,
      hb.foldl_combine (hb.closed hx hw) hd hr, hb.assoc hx hw hw, hb.idem hw]

theorem mem_gathered {entries : List (κ × δ)} {key : κ} {d : δ} (h : d ∈ gathered entries key) :
    (key, d) ∈ entries := by
  obtain ⟨e, he, rfl⟩ := List.mem_map.mp h
  obtain ⟨hm, hk⟩ := List.mem_filter.mp he
  rw [← of_decide_eq_true hk]
  exact hm

theorem FromEntries.absorbAll (hb : Band combine P) {t : Table κ δ} {entries : List (κ × δ)}
    {r : Row κ δ} (he : ∀ e ∈ entries, P e.2) (h : FromEntries combine t entries r) :
    absorbAll combine entries r = r := by
  obtain ⟨-, -, d, ds, hg, hd⟩ := h
  have hall : ∀ y ∈ d :: ds, P y := fun y hy => he _ (mem_gathered (hg ▸ hy))
  have hd' := hall d List.mem_cons_self
  have hr : ∀ y ∈ ds, P y := fun y hy => hall y (List.mem_cons_of_mem _ hy)
  have hw := hb.foldl hd' hr
  simp only [Table.absorbAll, hg, List.foldl_cons]
  rw [hd, hb.foldl_combine hw hd' hr, hb.idem hw, ← hd]

theorem rows_upsertAll_again (hb : Band combine P) {t : Table κ δ} {entries : List (κ × δ)}
    (ht : ∀ r ∈ t.rows, P r.data) (he : ∀ e ∈ entries, P e.2) :
    ((t.upsertAll combine entries).upsertAll combine entries).rows
      = (t.upsertAll combine entries).rows := by
  rw [rows_upsertAll_of_keys fun e he => mem_keys_upsertAll.mpr (.inr (List.mem_map_of_mem he))]
  obtain ⟨new, hrows, hnew⟩ := rows_upsertAll combine t entries
  rw [hrows, List.map_append, List.map_map]
  congr 1
  · refine List.map_congr_left fun r hr => ?_
    have hg : ∀ d ∈ gathered entries r.key, P d := fun d hd => he _ (mem_gathered hd)
    simp only [Function.comp, absorbAll, hb.foldl_again (ht r hr) hg]
  · refine (List.map_congr_left fun r hr => ?_).trans (List.map_id new)
    exact (hnew r hr).absorbAll hb he

end Again

end CallArchive.Store.Table
