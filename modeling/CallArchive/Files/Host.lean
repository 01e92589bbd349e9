import CallArchive.Files.DatabaseName

/-!
# What commands need from a file system

Commands are written over any `Host`: what they find out and change goes through its operations, so
the same commands run on the files of a machine and on a `FileTree`.
-/

namespace CallArchive.Files

inductive FileKind where
  | file
  | directory
  /-- What can be read and written, but is no file. -/
  | device
  deriving DecidableEq, Repr

/-- Why a file could not be read or written. -/
inductive FileError where
  | notFound
  | exists
  | notADirectory
  | isADirectory
  | nameTooLong
  | badName
  | notText
  | other (text : String)
  deriving DecidableEq, Repr

/-- The wording of the operating system, with its number of the error. -/
def FileError.message : FileError → String
  | .notFound => "No such file or directory (os error 2)"
  | .exists => "File exists (os error 17)"
  | .notADirectory => "Not a directory (os error 20)"
  | .isADirectory => "Is a directory (os error 21)"
  | .badName => "file name contained an unexpected NUL byte"
  | .nameTooLong => "File name too long (os error 36)"
  | .notText => "stream did not contain valid UTF-8"
  | .other text => text

structure Host (m : Type → Type) where
  kind? : Path → m (Option FileKind)
  readText : Path → m (Except FileError String)
  writeText : Path → String → m (Except FileError Unit)
  makeDirectories : Path → m (Except FileError Unit)
  /-- The names in a directory. -/
  names : Path → m (List String)
  /-- Opens the file of a database; where no file is, an empty one is made if that is wanted. -/
  openFile : (creates : Bool) → Path → m (Except StoreError Unit)
  /-- The database in a file that has been opened. -/
  loadDatabase : (writable : Bool) → Path → m (Except StoreError Store.Database)
  saveDatabase : Path → Store.Database → m Unit
  /-- The size of a file in bytes. -/
  size : Path → m Nat

namespace Host

variable {m : Type → Type} [Monad m]

def isFile (host : Host m) (p : Path) : m Bool := do return (← host.kind? p) == some .file

def isDirectory (host : Host m) (p : Path) : m Bool := do
  return (← host.kind? p) == some .directory

def exists? (host : Host m) (p : Path) : m Bool := do return (← host.kind? p).isSome

/-- Opens the place of a name. -/
def openPlace (host : Host m) (name : Path) : m (Except StoreError DatabasePlace) := do
  match DatabaseName.place name with
  | .error e => return .error e
  | .ok (.memory writable) => return .ok (.memory writable)
  | .ok (.file p creates writable) =>
    return (← host.openFile creates p).map fun _ => .file p creates writable

/-- What a place holds before it is made ready for use. -/
def loadPlace (host : Host m) : DatabasePlace → m (Except StoreError Store.Database)
  | .memory _ => return .ok .empty
  | .file p _ writable => host.loadDatabase writable p

/-- Keeps a database, unless it is one in memory. -/
def savePlace (host : Host m) (db : Store.Database) : DatabasePlace → m Unit
  | .memory _ => return ()
  | .file p _ _ => host.saveDatabase p db

/-- Makes the database of a place that has been opened ready for use; that is a write. -/
def prepareDatabase (host : Host m) (place : DatabasePlace) :
    m (Except StoreError Store.Database) := do
  match ← host.loadPlace place with
  | .error e => return .error e
  | .ok db =>
    match if place.isWritable then Store.Database.prepare db else .error .readOnly with
    | .error e => return .error e
    | .ok ((), db) =>
      host.savePlace db place
      return .ok db

end Host

end CallArchive.Files
