import CallArchive.Files.SideFile

/-!
# Disks

A disk is a tree of files with the directory in which commands run. Its paths are followed step by
step, as an operating system does it; only a database is found by the spelling of its path alone
(`databaseNames?`). `Disk.host` lets commands work on a disk.
-/

namespace CallArchive.Files

structure Disk where
  root : FileTree
  /-- The names of the directories down to the one in which commands run. -/
  here : List String

namespace Disk

/-- A tree as the directory in which commands run. -/
def within (here : List String) (t : FileTree) : Disk := ⟨FileTree.empty.put here t, here⟩

/-! ## Following paths -/

/-- The number of bytes that a name may have. -/
def maxName : Nat := 255

/-- The number of bytes that no path reaches. -/
def pathLimit : Nat := 4096

def checkName (name : String) : Except FileError Unit :=
  if maxName < name.utf8ByteSize then .error .nameTooLong else .ok ()

/-- Follows steps from a list of names that is given backwards. All that is passed through must be a
directory; the root is its own parent. -/
def follow (t : FileTree) :
    (names : List String) → List (List Char) → Except FileError (List String)
  | names, [] => .ok names.reverse
  | names, step :: rest => do
    t.checkDirectory names.reverse
    if step = [] ∨ step = Path.here then follow t names rest
    else if step = Path.above then follow t names.tail rest
    else
      checkName (String.ofList step)
      follow t (String.ofList step :: names) rest

/-- Where a path begins, given backwards. -/
def start (d : Disk) (p : Path) : List String := if p.isAbsolute then [] else d.here.reverse

def checkPath (p : Path) : Except FileError Unit :=
  if p = "" then .error .notFound
  else if '\x00' ∈ p.toList then .error .badName
  else if pathLimit ≤ p.utf8ByteSize then .error .nameTooLong
  else .ok ()

/-- The names that a path stands for. -/
def resolve (d : Disk) (p : Path) : Except FileError (List String) := do
  checkPath p
  follow d.root (d.start p) (Text.segments '/' p.toList)

/-- The directory in which the last step of a path is looked up, and the name that it looks up; none
if the path ends in a step that stays or goes up. -/
def locate (d : Disk) (p : Path) : Except FileError (List String × Option String) := do
  checkPath p
  let steps := ((Text.segments '/' p.toList).reverse.dropWhile (· = [])).reverse
  match steps.getLast? with
  | none => return ([], none)
  | some last =>
    if last = Path.here ∨ last = Path.above then return (← follow d.root (d.start p) steps, none)
    else
      let names ← follow d.root (d.start p) steps.dropLast
      d.root.checkDirectory names
      return (names, some (String.ofList last))

/-! ## Files and directories -/

def find (d : Disk) (p : Path) : Except FileError FileTree := do
  match d.root.node? (← d.resolve p) with
  | some node => return node
  | none => throw .notFound

def kind? (d : Disk) (p : Path) : Option FileKind := (d.find p).toOption.map FileTree.kind

def put (d : Disk) (names : List String) (node : FileTree) : Disk :=
  { d with root := d.root.put names node }

def readText (d : Disk) (p : Path) : Except FileError String := do
  match ← d.find p with
  | .file (.text s) => return s
  | .file _ => throw .notText
  | .directory _ => throw .isADirectory
  | .void => return ""

/-- A file cannot be made under a path that ends like that of a directory. -/
def writeText (d : Disk) (p : Path) (s : String) : Except FileError Disk := do
  match ← d.locate p with
  | (_, none) => throw .isADirectory
  | (names, some name) =>
    if p.endsInSlash then throw .isADirectory
    checkName name
    match d.root.node? (names ++ [name]) with
    | some (.directory _) => throw .isADirectory
    | some .void => return d
    | _ => return d.put (names ++ [name]) (.file (.text s))

def makeDirectory (d : Disk) (p : Path) : Except FileError Disk := do
  match ← d.locate p with
  | (_, none) => throw .exists
  | (names, some name) =>
    checkName name
    match d.root.node? (names ++ [name]) with
    | some _ => throw .exists
    | none => return d.put (names ++ [name]) .empty

/-- Makes a directory if there is none. -/
def ensureDirectory (d : Disk) (p : Path) : Except FileError Disk :=
  match d.makeDirectory p with
  | .ok d => .ok d
  | .error e => if d.kind? p = some .directory then .ok d else .error e

/-- Makes the first directory of a list. Each next path is that of the directory of the one before
it, and is made first where it is missing; what has been made stays if something fails later. -/
def ensureAll (d : Disk) : List Path → Except FileError Unit × Disk
  | [] => (.error .notFound, d)
  | p :: parents =>
    if p = "" then (.ok (), d)
    else
      match d.ensureDirectory p with
      | .ok d => (.ok (), d)
      | .error .notFound =>
        match d.ensureAll parents with
        | (.error e, d) => (.error e, d)
        | (.ok (), d) =>
          match d.ensureDirectory p with
          | .ok d => (.ok (), d)
          | .error e => (.error e, d)
      | .error e => (.error e, d)

def makeDirectories (d : Disk) (p : Path) : Except FileError Unit × Disk :=
  d.ensureAll (Path.ancestors (p.length + 1) p)

def names (d : Disk) (p : Path) : List String :=
  match d.find p with
  | .ok node => node.entries.keys
  | .error _ => []

/-- The number of bytes that a directory takes up. -/
def directorySize : Nat := 4096

def size (d : Disk) (p : Path) : Nat :=
  match d.find p with
  | .ok (.file c) => c.size
  | .ok (.directory _) => directorySize
  | .ok .void | .error _ => 0

/-! ## Databases -/

/-- The number of bytes that the path of a database may have, from the root down. -/
def maxDatabasePath : Nat := 504

def spelledSize (names : List String) : Nat := (names.map fun n => n.utf8ByteSize + 1).sum

/-- Goes one step on in the path of a database. A step upwards takes back the step before it, even
if nothing is there. -/
def databaseStep (t : FileTree) (names : List String) (step : List Char) : Option (List String) :=
  let name := String.ofList step
  if step = [] ∨ step = Path.here then some names
  else if step = Path.above then some names.dropLast
  else if maxDatabasePath + SideFile.journal.suffix.length ≤ spelledSize (names ++ [name]) then none
  else
    match t.node? names with
    | some (.file _) | some .void => none
    | some (.directory _) => if maxName < name.utf8ByteSize then none else some (names ++ [name])
    | none => some (names ++ [name])

/-- The names of the file that the path of a database stands for. -/
def databaseNames? (d : Disk) (p : Path) : Option (List String) := do
  let names ← (Text.segments '/' p.toList).foldlM (databaseStep d.root) (d.start p).reverse
  if names.isEmpty || maxDatabasePath < spelledSize names then none else some names

/-- Opens the file of a database. A new one is there even if it cannot be used. -/
def openFile (d : Disk) (creates : Bool) (p : Path) : Except StoreError Unit × Disk :=
  match d.databaseNames? p with
  | none => (.error (.cannotOpen p), d)
  | some names =>
    match d.root.node? names with
    | some (.directory _) => (.error (.cannotOpen p), d)
    | some (.file _) | some .void => (.ok (), d)
    | none =>
      if !creates || (d.root.checkDirectory names.dropLast).toOption.isNone then
        (.error (.cannotOpen p), d)
      else (.ok (), d.put names (.file .empty))

/-- Whether a file beside a database can have its name. -/
def hasRoom (names : List String) (side : SideFile) : Bool :=
  decide ((names.getLast?.getD "").utf8ByteSize + side.suffix.utf8ByteSize ≤ maxName)

/-- Takes away what is in the place of a file beside a database, as far as the engine does that. -/
def clear (names : List String) (main : Content) (d : Disk) (side : SideFile) : Disk :=
  match d.root.node? (side.names names) with
  | some (.file content) =>
    if side.goes main content then { d with root := d.root.erase (side.names names) } else d
  | some (.directory _) | some .void | none => d

/-- What is in the way of a database: a directory in the place of a file beside it. -/
def obstacle? (d : Disk) (names : List String) (main : Content) (side : SideFile) :
    Option StoreError :=
  match d.root.node? (side.names names) with
  | some (.directory _) => side.blocked main
  | some (.file _) | some .void | none => none

/-- The database that a file holds, if the file that it is written with can be there. -/
def databaseIn (names : List String) (main : Content) : Except StoreError Store.Database :=
  match main.database? with
  | none => .error .notADatabase
  | some db => if hasRoom names (SideFile.needed main) then .ok db else .error .notOpened

/-- The database in a file that has been opened. If it may be written, the files beside it are the
engine's to use. -/
def loadDatabase (d : Disk) (writable : Bool) (p : Path) : Except StoreError Store.Database × Disk :=
  match d.databaseNames? p with
  | none => (.error (.cannotOpen p), d)
  | some names =>
    match d.root.node? names with
    | some (.file main) =>
      let sides := if writable then SideFile.order main else []
      match sides.findSome? (d.obstacle? names main) with
      | some e => (.error e, d)
      | none => (databaseIn names main, sides.foldl (clear names main) d)
    | some .void => (.error .notFlushed, d)
    | some (.directory _) | none => (.error (.cannotOpen p), d)

def saveDatabase (d : Disk) (p : Path) (db : Store.Database) : Disk :=
  match d.databaseNames? p with
  | some names => d.put names (.file (.database db))
  | none => d

/-! ## Commands -/

def host : Host (StateM Disk) :=
  { kind? := fun p => return (← get).kind? p
    readText := fun p => return (← get).readText p
    writeText := fun p s d =>
      match d.writeText p s with
      | .ok d => (.ok (), d)
      | .error e => (.error e, d)
    makeDirectories := fun p d => d.makeDirectories p
    names := fun p => return (← get).names p
    openFile := fun creates p d => d.openFile creates p
    loadDatabase := fun writable p d => d.loadDatabase writable p
    saveDatabase := fun p db => modify (·.saveDatabase p db)
    size := fun p => return (← get).size p }

end Disk

end CallArchive.Files
