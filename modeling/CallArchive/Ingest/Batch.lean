import CallArchive.Ingest.IdMap

/-!
# Writing in batches

The engine binds only so many parameters in one statement, so callables and edges are written in
chunks of a bounded size. `writeCallables` maps each local id to the id that the store gave to the
callable at the same place; `writeEdges` replaces all local ids before it writes the first edge.
-/

namespace CallArchive.Ingest

open Store (RowId NewCallable Action)

/-- A method that is to be stored under its local id. -/
structure PendingCallable where
  id : LocalId
  callable : NewCallable
  deriving Repr

/-- The most rows of five columns that one statement can bind. -/
def maxBatchSize : Nat := 6553

def defaultBatchSize : Nat := 4096

/-- A size between one and the largest. -/
def clampBatchSize (n : Nat) : Nat := max 1 (min n maxBatchSize)

def chunksWithin (size : Nat) : Nat → List α → List (List α)
  | 0, _ => []
  | _ + 1, [] => []
  | fuel + 1, x :: xs => (x :: xs).take size :: chunksWithin size fuel ((x :: xs).drop size)

/-- Pieces of `size` items in order, the last one perhaps shorter. -/
def chunks (size : Nat) (xs : List α) : List (List α) := chunksWithin size xs.length xs

theorem clampBatchSize_pos (n : Nat) : 0 < clampBatchSize n := by
  unfold clampBatchSize; omega

theorem flatten_chunksWithin {size : Nat} (hs : 0 < size) (fuel : Nat) (xs : List α)
    (h : xs.length ≤ fuel) : (chunksWithin size fuel xs).flatten = xs := by
  induction fuel generalizing xs with
  | zero => simp_all [chunksWithin]
  | succ fuel ih =>
    cases xs with
    | nil => rfl
    | cons x xs =>
      have hl : ((x :: xs).drop size).length ≤ fuel := by
        simp only [List.length_drop, List.length_cons] at h ⊢; omega
      simp only [chunksWithin, List.flatten_cons, ih _ hl, List.take_append_drop]

theorem flatten_chunks {size : Nat} (hs : 0 < size) (xs : List α) : (chunks size xs).flatten = xs :=
  flatten_chunksWithin hs _ xs (Nat.le_refl _)

def writeCallableChunk (ids : IdMap) (chunk : List PendingCallable) : Action IdMap := do
  let stored ← Store.upsertCallables (chunk.map (·.callable))
  return ids.insertAll ((chunk.map (·.id)).zip stored)

def writeCallables (batchSize : Nat) (pending : List PendingCallable) : Action IdMap :=
  (chunks batchSize pending).foldlM writeCallableChunk []

/-- Answers the number of rows written. -/
def writeEdges (batchSize : Nat) (ids : IdMap) (pending : List PendingEdge) : Action Nat := do
  let edges ← liftExcept (ids.remap pending)
  (chunks batchSize edges).foldlM (fun n chunk => do return n + (← Store.upsertEdges chunk)) 0
where
  liftExcept (e : Except Error (List Store.NewEdge)) : Action (List Store.NewEdge) :=
    match e with
    | .ok edges => return edges
    | .error cause => throw cause

end CallArchive.Ingest
