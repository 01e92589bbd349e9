import CallArchive.Tally
import CallArchive.Validation.NodeRule

/-!
# Counting admitted and dropped arcs

A report counts the arcs it was told of, those accepted, and those dropped for each reason. Reports
of parts merge by adding their counts.
-/

namespace CallArchive

structure ArcReport where
  total : Nat
  accepted : Nat
  rejected : Tally Rejection

namespace ArcReport

def empty : ArcReport := ⟨0, 0, .empty⟩

def accept (r : ArcReport) : ArcReport :=
  { r with total := r.total + 1, accepted := r.accepted + 1 }

def reject (r : ArcReport) (reason : Rejection) : ArcReport :=
  { r with total := r.total + 1, rejected := r.rejected.add reason }

def merge (r s : ArcReport) : ArcReport :=
  ⟨r.total + s.total, r.accepted + s.accepted, r.rejected.merge s.rejected⟩

/-- The reasons for which arcs were dropped, in order, with their counts. -/
def rejections (r : ArcReport) : List (Rejection × Nat) := r.rejected.entries Rejection.all

def rejectedCount (r : ArcReport) : Nat := r.rejected.total Rejection.all

theorem merge_comm (r s : ArcReport) : r.merge s = s.merge r := by
  simp [merge, Nat.add_comm, Tally.merge_comm]

theorem merge_assoc (r s t : ArcReport) : (r.merge s).merge t = r.merge (s.merge t) := by
  simp [merge, Nat.add_assoc, Tally.merge_assoc]

@[simp] theorem merge_empty (r : ArcReport) : r.merge empty = r := by
  simp [merge, empty]

end ArcReport

end CallArchive
