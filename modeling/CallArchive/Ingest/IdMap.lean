import CallArchive.Assoc
import CallArchive.Store.Basic

/-!
# From local ids to ids of the store

While a record is written its methods get ids in the store. An `IdMap` remembers them by local id,
and `remap` puts them in place of the local ids of edges. The first local id without an id decides
the error, the source of an edge before its target.
-/

namespace CallArchive.Ingest

open Store (RowId NewEdge)

abbrev IdMap := Assoc LocalId RowId

/-- One end of an edge: a method of the record or a callable of the store. -/
inductive Endpoint where
  | local (id : LocalId)
  | stored (id : RowId)
  deriving DecidableEq, Repr

structure PendingEdge where
  source : Endpoint
  target : Endpoint
  metadata : Json.Members
  deriving Repr

namespace IdMap

/-- The last id given to a local id counts. -/
def insertAll (m : IdMap) (pairs : List (LocalId × RowId)) : IdMap :=
  pairs.foldl (fun m p => Assoc.put p.1 p.2 m) m

def ofList (pairs : List (LocalId × RowId)) : IdMap := insertAll [] pairs

def resolve (m : IdMap) : Endpoint → Except Error RowId
  | .stored id => .ok id
  | .local id =>
    match Assoc.get? id m with
    | some stored => .ok stored
    | none => .error (.unmappedLocalId id)

def resolveEdge (m : IdMap) (e : PendingEdge) : Except Error NewEdge := do
  let source ← m.resolve e.source
  let target ← m.resolve e.target
  return { source, target, metadata := e.metadata }

def remap (m : IdMap) (edges : List PendingEdge) : Except Error (List NewEdge) :=
  edges.mapM m.resolveEdge

end IdMap

end CallArchive.Ingest
