/-!
# Progress

While records are ingested an observer is told how many there are, of each one when it is done, and
of the end. `ProgressTally` counts what has been stored and what has failed.
-/

namespace CallArchive.Ingest

inductive ProgressEvent where
  | begin (records : Nat)
  | done (label : String) (failure : Option String)
  | finished
  deriving DecidableEq, Repr

structure ProgressTally where
  stored : Nat
  failed : Nat
  deriving DecidableEq, Repr

namespace ProgressTally

def zero : ProgressTally := ⟨0, 0⟩

/-- A new beginning starts the count again. -/
def observe (t : ProgressTally) : ProgressEvent → ProgressTally
  | .begin _ => zero
  | .done _ none => { t with stored := t.stored + 1 }
  | .done _ (some _) => { t with failed := t.failed + 1 }
  | .finished => t

end ProgressTally

end CallArchive.Ingest
