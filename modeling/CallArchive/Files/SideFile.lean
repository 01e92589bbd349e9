import CallArchive.Files.Tree

/-!
# Files beside databases

While a database is open the engine keeps files of its own beside it, under names that begin with
that of the database. They are gone when the database is closed, and so is what was in their place.
-/

namespace CallArchive.Files

/-- What the engine keeps in a file of its own. -/
inductive SideFile where
  /-- What the database was before a change that is going on. -/
  | journal
  /-- What has been written, before it is in the database. -/
  | log
  /-- Where what has been written is in the log. -/
  | index
  deriving DecidableEq, Repr

namespace SideFile

/-- What the name of the database is extended by. -/
def suffix : SideFile → String
  | .journal => "-journal"
  | .log => "-wal"
  | .index => "-shm"

/-- The names of the file beside a database. -/
def names (side : SideFile) (database : List String) : List String :=
  database.dropLast ++ [database.getLast?.getD "" ++ side.suffix]

/-- The order in which the engine looks for the files beside a database. -/
def order (main : Content) : List SideFile :=
  if main.isNew then [.log, .journal, .index] else [.journal, .log, .index]

/-- What a database is written with: a new one has no log yet. -/
def needed (main : Content) : SideFile := if main.isNew then .journal else .log

/-- Whether a file that is there before is gone after the database has been opened and closed. A
journal counts only if its first byte does, unless the database is new; and what is no database is
found to be none before its index is looked for. -/
def goes (main content : Content) : SideFile → Bool
  | .journal => main.isNew || content.isMarked
  | .log => main.database?.isSome || content.size != 0
  | .index => main.database?.isSome

/-- What the engine fails with if a directory is there instead. -/
def blocked (main : Content) : SideFile → Option StoreError
  | .journal => some (if main.isNew then .notOpened else .notRead)
  | .log => some (if main.isNew then .notDeleted else .notOpened)
  | .index => if main.database?.isSome then some .readOnly else none

end SideFile

end CallArchive.Files
