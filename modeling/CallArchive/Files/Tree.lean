import CallArchive.Assoc
import CallArchive.Files.Host
import CallArchive.Store.Snapshot

/-!
# Trees of files

A tree of directories and files as a value. Nodes are addressed by lists of names, from the root
down.
-/

namespace CallArchive.Files

/-- What a file holds; bytes are not a text. -/
inductive Content where
  | text (value : String)
  | bytes (value : List UInt8)
  | database (value : Store.Database)

namespace Content

def empty : Content := .text ""

/-- The number of bytes. -/
def size : Content → Nat
  | .text s => s.utf8ByteSize
  | .bytes bs => bs.length
  | .database db => db.snapshot.print.utf8ByteSize

/-- Whether nothing has been written as a database yet. A single byte does not count. -/
def isNew : Content → Bool
  | .database _ => false
  | c => decide (c.size ≤ 1)

/-- The database in a file. -/
def database? : Content → Option Store.Database
  | .database db => some db
  | c => if c.isNew then some .empty else none

/-- Whether the first byte is there and not zero. -/
def isMarked : Content → Bool
  | .text s => s.toList.head?.any (· ≠ '\x00')
  | .bytes bs => bs.head?.any (· ≠ 0)
  | .database _ => true

end Content

inductive FileTree where
  | file (content : Content)
  | directory (entries : List (String × FileTree))
  /-- A device that is always empty and keeps nothing that is written to it. -/
  | void

namespace FileTree

def empty : FileTree := .directory []

def entries : FileTree → Assoc String FileTree
  | .directory es => es
  | .file _ | .void => []

def kind : FileTree → FileKind
  | .file _ => .file
  | .directory _ => .directory
  | .void => .device

/-- The node under a list of names. -/
def node? : List String → FileTree → Option FileTree
  | [], t => some t
  | name :: rest, t => (Assoc.get? name t.entries).bind (node? rest)

/-- The tree with a node put under a list of names, with the directories that this needs. -/
def put (t : FileTree) : List String → FileTree → FileTree
  | [], node => node
  | name :: rest, node =>
    let child := (Assoc.get? name t.entries).getD empty
    .directory (Assoc.put name (put child rest node) t.entries)

/-- The tree without the node under a list of names; the tree itself stays. -/
def erase (t : FileTree) : List String → FileTree
  | [] => t
  | name :: rest =>
    match Assoc.get? name t.entries with
    | none => t
    | some child =>
      .directory
        (if rest = [] then Assoc.erase name t.entries
        else Assoc.put name (erase child rest) t.entries)

/-- There must be a directory under a list of names. -/
def checkDirectory (t : FileTree) (names : List String) : Except FileError Unit :=
  match t.node? names with
  | some (.directory _) => .ok ()
  | some (.file _) | some .void => .error .notADirectory
  | none => .error .notFound

theorem node?_put (t : FileTree) (names : List String) (node : FileTree) :
    (t.put names node).node? names = some node := by
  induction names generalizing t with
  | nil => rfl
  | cons name rest ih => simp [put, node?, entries, Assoc.get?_put, ih]

end FileTree

end CallArchive.Files
