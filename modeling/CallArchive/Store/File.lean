import CallArchive.Store.Database

/-!
# Database files

Several connections share a file. One of them at most has a transaction open; it works on a copy
that replaces the committed content when the transaction is committed. The others read what is
committed and may not write.
-/

namespace CallArchive.Store

abbrev ConnectionName := String

/-- The open transaction of a file. -/
structure Writer where
  owner : ConnectionName
  working : Database
  deriving DecidableEq, Repr

structure File where
  committed : Database
  writer : Option Writer
  deriving DecidableEq, Repr

namespace File

def new : File := ⟨.empty, none⟩

/-- What a connection reads. -/
def view (f : File) (c : ConnectionName) : Database :=
  match f.writer with
  | some w => if w.owner = c then w.working else f.committed
  | none => f.committed

/-- Whether the transaction of the file is that of the connection. -/
def isWriter (f : File) (c : ConnectionName) : Bool := f.writer.any fun w => w.owner == c

/-- Runs a statement in the connection's transaction, or in one of its own. -/
def write (f : File) (c : ConnectionName) (s : Statement α) : Except StoreError α × File :=
  match f.writer with
  | none =>
    match s f.committed with
    | .ok (a, db) => (.ok a, { f with committed := db })
    | .error e => (.error e, f)
  | some w =>
    if w.owner = c then
      match s w.working with
      | .ok (a, db) => (.ok a, { f with writer := some { w with working := db } })
      | .error e => (.error e, f)
    else (.error .locked, f)

def begin (f : File) (c : ConnectionName) : Except StoreError Unit × File :=
  match f.writer with
  | none => (.ok (), { f with writer := some ⟨c, f.committed⟩ })
  | some w => (.error (if w.owner = c then .nestedTransaction else .locked), f)

def commit (f : File) (c : ConnectionName) : Except StoreError Unit × File :=
  match f.writer with
  | some w =>
    if w.owner = c then (.ok (), ⟨w.working, none⟩) else (.error .noTransactionToCommit, f)
  | none => (.error .noTransactionToCommit, f)

/-- Takes back what the connection has not committed, if it has a transaction open. -/
def disconnect (f : File) (c : ConnectionName) : File :=
  if f.isWriter c then { f with writer := none } else f

def rollback (f : File) (c : ConnectionName) : Except StoreError Unit × File :=
  if f.isWriter c then (.ok (), f.disconnect c) else (.error .noTransactionToRollback, f)

/-- Connecting prepares the file, which is a write. -/
def connect (f : File) (c : ConnectionName) : Except StoreError Unit × File :=
  f.write c Database.prepare

theorem committed_disconnect (f : File) (c : ConnectionName) :
    (f.disconnect c).committed = f.committed := by
  unfold disconnect
  split <;> rfl

theorem disconnect_of_not_isWriter {f : File} {c : ConnectionName} (h : f.isWriter c = false) :
    f.disconnect c = f := by
  simp [disconnect, h]

/-- A statement that fails leaves the file as it was. -/
theorem write_eq_of_error {f : File} {c : ConnectionName} {s : Statement α} {e : StoreError}
    (h : (f.write c s).1 = .error e) : (f.write c s).2 = f := by
  obtain ⟨db, writer⟩ := f
  cases writer with
  | none => cases hs : s db <;> simp_all [write]
  | some w => by_cases hw : w.owner = c <;> cases hs : s w.working <;> simp_all [write]

end File

end CallArchive.Store
