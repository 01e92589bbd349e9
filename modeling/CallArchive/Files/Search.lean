import CallArchive.Files.Glob
import CallArchive.Files.Host

/-!
# Finding files

`expand` turns the file arguments of a command into paths: a file that exists is taken as it is,
anything else is a pattern. The entries of a directory are looked at in the order of their names,
each with all below it before the next, and no file comes twice.
-/

namespace CallArchive.Files

/-- Why arguments do not name files. -/
inductive SearchError where
  | badPattern (pattern : String) (cause : GlobError)
  | noMatch (pattern : String)
  deriving DecidableEq, Repr

namespace Search

/-- More steps than a path can have. -/
def maxDepth : Nat := 4096

def specialNames : List String := ["..", "."]

/-- The entry of a directory; the directory in which a search begins is not named. -/
def entry (directory : Path) (name : String) : Path :=
  if directory.same "." then name else directory.join name

/-- Skips steps that stand for any directories. -/
def skipRecursive : List Glob → List Glob
  | g :: rest => if g.isRecursive then skipRecursive rest else g :: rest
  | [] => []

variable {m : Type → Type} [Monad m]

def fileOnly (host : Host m) (p : Path) : m (List Path) := do
  return if ← host.isFile p then [p] else []

mutual

/-- The files below a directory that a pattern matches, given by its steps. -/
def below (host : Host m) : (depth : Nat) → Path → List Glob → m (List Path)
  | 0, _, _ | _, _, [] => return []
  | depth + 1, directory, g :: rest => do
    match g.literal? with
    | some name =>
      let name := String.ofList name
      let p := entry directory name
      let found ← if name ∈ specialNames then host.isDirectory directory else host.exists? p
      if found then proceed host depth p rest else return []
    | none =>
      if !(← host.isDirectory directory) then return []
      let dotted := if g.head? = some (.char '.') then specialNames else []
      let special ← (dotted.filter fun s => g.accepts s.toList).mapM fun s =>
        proceed host depth (directory.join s) rest
      let names := (← host.names directory).mergeSort fun a b => decide (a ≤ b)
      let found ← names.mapM fun name => enter host depth (entry directory name) name g rest
      return special.flatten ++ found.flatten
termination_by depth => (depth, 0)

/-- Goes on with the steps after one that a path has matched. -/
def proceed (host : Host m) (depth : Nat) (p : Path) (rest : List Glob) : m (List Path) :=
  if rest.isEmpty then fileOnly host p else below host depth p rest
termination_by (depth, 1)

/-- The files at an entry of a directory or below it. -/
def enter (host : Host m) (depth : Nat) (p : Path) (name : String) (g : Glob) (rest : List Glob) :
    m (List Path) := do
  if !g.isRecursive then
    if g.accepts name.toList then proceed host depth p rest else return []
  else
    let inside ← if ← host.isDirectory p then below host depth p (g :: skipRecursive rest) else
      pure []
    match skipRecursive rest with
    | [] => return inside
    | next :: rest =>
      let own ← if next.accepts name.toList then proceed host depth p rest else pure []
      return own ++ inside
termination_by (depth, 2)

end

/-- The directory in which a pattern begins, and its steps. -/
def start (pattern : String) : Path × List (List Char) :=
  let s := pattern.toList
  let (root, s) := if Path.isAbsolute pattern then ("/", s.drop 1) else (".", s)
  let pieces := Text.segments '/' s
  (root, if pieces.getLast? = some [] then pieces.dropLast else pieces)

/-- A pattern that ends in a slash matches directories only. -/
def matching (host : Host m) (pattern : String) : m (Except GlobError (List Path)) := do
  let (root, pieces) := start pattern
  match (do let _ ← Glob.parse pattern.toList; pieces.mapM Glob.parse : Except _ _) with
  | .error e => return .error e
  | .ok steps =>
    if Path.endsInSlash pattern then return .ok []
    else return .ok (← below host maxDepth root steps)

def addNew (files : List Path) (p : Path) : List Path :=
  if files.any (Path.same p) then files else files ++ [p]

def expandFrom (host : Host m) (files : List Path) :
    List String → m (Except SearchError (List Path))
  | [] => return .ok files
  | argument :: rest => do
    if ← host.isFile argument then expandFrom host (addNew files argument) rest
    else
      match ← matching host argument with
      | .error cause => return .error (.badPattern argument cause)
      | .ok [] => return .error (.noMatch argument)
      | .ok found => expandFrom host (found.foldl addNew files) rest

/-- The files that the arguments of a command name. -/
def expand (host : Host m) (arguments : List String) : m (Except SearchError (List Path)) :=
  expandFrom host [] arguments

end Search

end CallArchive.Files
