import CallArchive.CommandLine.Run
import CallArchive.Files.Disk
import CallArchive.Store.Snapshot

/-!
# The program

Runs the command line on the files of the machine. A database file holds the snapshot of the
database as a JSON text.
-/

namespace CallArchive.Main

open Files (Path FileKind FileError Host Content SideFile)

def fileError : IO.Error → FileError
  | .noFileOrDirectory .. => .notFound
  | .alreadyExists .. => .exists
  | .inappropriateType .. => .isADirectory
  | e => .other (toString e)

/-- Performs a step and gives back its error as a value. -/
def trying (step : IO α) : IO (Except FileError α) := do
  try
    return .ok (← step)
  catch e =>
    return .error (fileError e)

def kind? (p : Path) : IO (Option FileKind) := do
  try
    let info ← ((← IO.currentDir) / p).metadata
    match info.type with
    | .dir => return some .directory
    | .file => return some .file
    | _ => return some .device
  catch _ =>
    return none

def readText (p : Path) : IO (Except FileError String) := do
  if (← kind? p) == some .directory then return .error .isADirectory
  match ← trying (IO.FS.readBinFile p) with
  | .error e => return .error e
  | .ok bytes =>
    match String.fromUTF8? bytes with
    | some text => return .ok text
    | none => return .error .notText

def writeText (p : Path) (text : String) : IO (Except FileError Unit) := do
  if (← kind? p) == some .directory then return .error .isADirectory
  trying (IO.FS.writeFile p text)

def makeDirectories (p : Path) : IO (Except FileError Unit) := do
  match ← kind? p with
  | some .directory => return .ok ()
  | some _ => return .error .exists
  | none => trying (IO.FS.createDirAll p)

def names (p : Path) : IO (List String) := do
  try
    let entries ← ((← IO.currentDir) / p).readDir
    return entries.toList.map (·.fileName)
  catch _ =>
    return []

def saveDatabase (p : Path) (db : Store.Database) : IO Unit :=
  IO.FS.writeFile p (db.snapshot.print ++ "\n")

def openFile (creates : Bool) (p : Path) : IO (Except StoreError Unit) := do
  match ← kind? p with
  | some .directory => return .error (.cannotOpen p)
  | some .file | some .device => return .ok ()
  | none =>
    if !creates then return .error (.cannotOpen p)
    return (← trying (IO.FS.writeFile p "")).mapError fun _ => .cannotOpen p

/-- What is in a file. -/
def content? (p : Path) : IO (Option Content) := do
  match ← trying (IO.FS.readBinFile p) with
  | .error _ => return none
  | .ok bytes =>
    match String.fromUTF8? bytes with
    | none => return some (.bytes bytes.toList)
    | some text =>
      match (Json.parse text).toOption.bind Store.Database.ofSnapshot? with
      | some db => return some (.database db)
      | none => return some (.text text)

/-- Takes away what is in the place of a file beside a database, as far as the engine does that. -/
def clear (p : Path) (main : Content) (side : SideFile) : IO Unit := do
  if (← kind? (p ++ side.suffix)) == some .file then
    if let some content ← content? (p ++ side.suffix) then
      if side.goes main content then
        let _ ← trying (IO.FS.removeFile (p ++ side.suffix))

def loadDatabase (writable : Bool) (p : Path) : IO (Except StoreError Store.Database) := do
  match ← kind? p with
  | some .device => return .error .notFlushed
  | some .directory | none => return .error (.cannotOpen p)
  | some .file =>
    let some main ← content? p | return .error (.cannotOpen p)
    let sides := if writable then SideFile.order main else []
    for side in sides do
      if (← kind? (p ++ side.suffix)) == some .directory then
        if let some e := side.blocked main then return .error e
    sides.forM (clear p main)
    match main.database? with
    | some db => return .ok db
    | none => return .error .notADatabase

def size (p : Path) : IO Nat := do
  try
    return (← ((← IO.currentDir) / p).metadata).byteSize.toNat
  catch _ =>
    return 0

def host : Host IO :=
  { kind?, readText, writeText, makeDirectories, names, openFile, loadDatabase, saveDatabase, size }

end CallArchive.Main

def main (arguments : List String) : IO UInt32 := do
  let outcome ← CallArchive.CommandLine.run CallArchive.Main.host arguments
  (← IO.getStdout).putStr outcome.stdout
  (← IO.getStderr).putStr outcome.stderr
  return outcome.code.toUInt32
