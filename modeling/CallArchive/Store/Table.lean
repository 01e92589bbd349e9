/-!
# Tables of identified rows

A row has an id, a natural key and data. `upsert` is the only way in: it adds a row under a key that
the table does not have, and else combines the data of the row that has it with the new data. Every
upsert uses up the next id, also one that finds its key.
-/

namespace CallArchive.Store

/-- Ids are handed out from 1 on; callers may ask for any number. -/
abbrev RowId := Int

structure Row (κ δ : Type) where
  id : RowId
  key : κ
  data : δ
  deriving DecidableEq, Repr

structure Table (κ δ : Type) where
  rows : List (Row κ δ)
  lastId : RowId
  deriving DecidableEq, Repr

namespace Table

variable {κ δ : Type}

def empty : Table κ δ := ⟨[], 0⟩

def size (t : Table κ δ) : Nat := t.rows.length

def hasId (t : Table κ δ) (id : RowId) : Bool := t.rows.any fun r => r.id == id

/-- Whether a reference that may be absent names a row. -/
def hasId? (t : Table κ δ) (id : Option RowId) : Bool := id.all t.hasId

variable [DecidableEq κ]

def find? (t : Table κ δ) (key : κ) : Option (Row κ δ) := t.rows.find? fun r => r.key == key

def hasKey (t : Table κ δ) (key : κ) : Bool := (t.find? key).isSome

/-- Combines the data of the row that has the key with new data. -/
def update (combine : δ → δ → δ) (key : κ) (data : δ) (rows : List (Row κ δ)) : List (Row κ δ) :=
  rows.map fun r => if r.key = key then { r with data := combine r.data data } else r

/-- The id of the key's row, and the table with it. -/
def upsert (combine : δ → δ → δ) (t : Table κ δ) (key : κ) (data : δ) : RowId × Table κ δ :=
  let next := t.lastId + 1
  match t.find? key with
  | some row => (row.id, ⟨update combine key data t.rows, next⟩)
  | none => (next, ⟨t.rows ++ [⟨next, key, data⟩], next⟩)

theorem find?_some_key {t : Table κ δ} {key : κ} {row : Row κ δ} (h : t.find? key = some row) :
    row ∈ t.rows ∧ row.key = key :=
  ⟨List.mem_of_find?_eq_some h, by simpa using List.find?_some h⟩

theorem lastId_upsert (combine : δ → δ → δ) (t : Table κ δ) (key : κ) (data : δ) :
    (t.upsert combine key data).2.lastId = t.lastId + 1 := by
  unfold upsert
  split <;> rfl

theorem keys_update (combine : δ → δ → δ) (key : κ) (data : δ) (rows : List (Row κ δ)) :
    (update combine key data rows).map Row.key = rows.map Row.key := by
  simp only [update, List.map_map]
  refine List.map_congr_left fun r _ => ?_
  simp only [Function.comp]
  split <;> rfl

theorem ids_update (combine : δ → δ → δ) (key : κ) (data : δ) (rows : List (Row κ δ)) :
    (update combine key data rows).map Row.id = rows.map Row.id := by
  simp only [update, List.map_map]
  refine List.map_congr_left fun r _ => ?_
  simp only [Function.comp]
  split <;> rfl

/-- After an upsert the key has a row, and its id is the one answered. -/
theorem find?_upsert_self (combine : δ → δ → δ) (t : Table κ δ) (key : κ) (data : δ) :
    ((t.upsert combine key data).2.find? key).map Row.id = some (t.upsert combine key data).1 := by
  unfold upsert
  split
  · next row h =>
    simp only [find?] at h ⊢
    rw [update, List.find?_map]
    have hp : ((fun r : Row κ δ => r.key == key) ∘ fun r : Row κ δ =>
        if r.key = key then { r with data := combine r.data data } else r)
        = fun r => r.key == key := by
      funext r
      simp only [Function.comp]
      split <;> rfl
    rw [hp, h]
    have hk : row.key = key := by simpa using List.find?_some h
    simp [hk]
  · next h =>
    simp only [find?] at h ⊢
    rw [List.find?_append, h]
    simp

end Table

end CallArchive.Store
