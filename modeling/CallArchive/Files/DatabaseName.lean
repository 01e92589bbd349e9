import CallArchive.Address.Escape
import CallArchive.Assoc
import CallArchive.Files.Path
import CallArchive.Store.File

/-!
# Names of databases

A database is named by the path of its file, or by `:memory:` if it need not outlast the command. A
name that begins with `file:` has a path too, in which percent escapes are decoded; it ends at a
question mark, after which come options, or at a number sign, after which nothing counts.
-/

namespace CallArchive.Files

/-- Where a database is, and what may be done to it. -/
inductive DatabasePlace where
  | memory (writable : Bool)
  | file (path : Path) (creates writable : Bool)
  deriving DecidableEq, Repr

def DatabasePlace.isWritable : DatabasePlace → Bool
  | .memory writable | .file _ _ writable => writable

/-- What the options of a name ask for. -/
structure Opening where
  /-- The access that has been asked for, as a sum of the bits below. -/
  access : Nat
  layer : String
  /-- Whether the file is said never to change, by the first option that tells. -/
  isFixed : Option Bool
  deriving DecidableEq, Repr

namespace Opening

def readBit : Nat := 1

def writeBit : Nat := 2

def createBit : Nat := 4

def memoryBit : Nat := 128

def modes : List (String × Nat) :=
  [("ro", readBit), ("rw", writeBit), ("rwc", writeBit + createBit), ("memory", memoryBit)]

def caches : List String := ["shared", "private"]

def memoryLayer : String := "memdb"

/-- The layers between a database and the files of the machine. -/
def layers : List String := ["unix", "unix-none", "unix-dotfile", "unix-excl", memoryLayer]

/-- How a database is opened without options. -/
def plain : Opening := ⟨writeBit + createBit, "unix", none⟩

/-- Whether an option is switched on by a value. -/
def isOn (value : String) : Bool :=
  match value.toList.takeWhile Char.isDigit with
  | [] => value.toLower ∈ ["on", "yes", "true"]
  | ds => Text.ofDigits ds % 256 != 0

def unknownMode (kind value : String) : StoreError :=
  .engine (some 1) s!"no such {kind} mode: {value}"

/-- An access may be narrowed, but not widened again. -/
def setMode (o : Opening) (value : String) : Except StoreError Opening :=
  match Assoc.get? value modes with
  | none => .error (unknownMode "access" value)
  | some mode =>
    if mode ≠ memoryBit ∧ o.access < mode then
      .error (.engine (some 3) s!"access mode not allowed: {value}")
    else .ok { o with access := mode }

def set (o : Opening) (name value : String) : Except StoreError Opening :=
  match name with
  | "mode" => o.setMode value
  | "cache" => if value ∈ caches then .ok o else .error (unknownMode "cache" value)
  | "vfs" => .ok { o with layer := value }
  | "immutable" => .ok { o with isFixed := o.isFixed.or (isOn value) }
  | _ => .ok o

def place (o : Opening) (path : Path) : DatabasePlace :=
  let writable := o.access ≠ readBit
  let changeable := writable && o.isFixed != some true
  if path = "" ∨ path = ":memory:" ∨ o.access = memoryBit then .memory writable
  else if o.layer = memoryLayer then .memory changeable
  else .file path (o.access = writeBit + createBit) changeable

end Opening

namespace DatabaseName

def addressMark : List Char := "file:".toList

/-- The bytes of a text with its percent escapes decoded; an escaped zero ends it. -/
def decode : List Char → List UInt8
  | [] => []
  | '%' :: a :: b :: rest =>
    if Address.isHexDigit a && Address.isHexDigit b then
      match 16 * Address.hexValue a + Address.hexValue b with
      | 0 => []
      | n + 1 => UInt8.ofNat (n + 1) :: decode rest
    else 37 :: decode (a :: b :: rest)
  | c :: rest => String.utf8EncodeChar c ++ decode rest

/-- Bytes that make no text stand for the characters with their numbers. -/
def decodeText (s : List Char) : String :=
  let bytes := decode s
  (String.fromUTF8? ⟨bytes.toArray⟩).getD
    (String.ofList (bytes.map fun b => Char.ofNat b.toNat))

/-- What stands before a mark, and what after it. -/
def splitAt (mark : Char) (s : List Char) : List Char × List Char :=
  (Text.cutAt mark s).getD (s, [])

/-- The options with their values. One without a name does not count. -/
def options (s : List Char) : List (String × String) :=
  let pairs := (Text.segments '&' s).map fun part =>
    let (name, value) := splitAt '=' part
    (decodeText name, decodeText value)
  pairs.filter fun p => p.1 ≠ ""

/-- Drops the name of a machine, which may only be this one. -/
def dropMachine : List Char → Except StoreError (List Char)
  | '/' :: '/' :: rest =>
    let machine := String.ofList (rest.takeWhile (· != '/'))
    if machine = "" ∨ machine = "localhost" then .ok (rest.dropWhile (· != '/'))
    else .error (.engine (some 1) s!"invalid uri authority: {machine}")
  | s => .ok s

/-- The place that a name with options stands for. -/
def ofAddress (s : List Char) : Except StoreError DatabasePlace := do
  let s := (splitAt '#' (← dropMachine s)).1
  let (path, query) := splitAt '?' s
  let opening ← (options query).foldlM (fun o p => o.set p.1 p.2) Opening.plain
  if opening.layer ∈ Opening.layers then return opening.place (decodeText path)
  else throw (.engine (some 1) s!"no such vfs: {opening.layer}")

/-- The place that a name stands for. No name has a zero byte in it. -/
def place (name : Path) : Except StoreError DatabasePlace :=
  match Text.cutAt '\x00' name.toList with
  | some (before, _) => .error (.badName (String.ofList before).utf8ByteSize)
  | none =>
    if addressMark.isPrefixOf name.toList then ofAddress (name.toList.drop addressMark.length)
    else .ok (Opening.plain.place name)

example : decode "a%20b%00c".toList = [97, 32, 98] := by decide +kernel

example : (place ":memory:").toOption = some (.memory true) := by decide +kernel

end DatabaseName

end CallArchive.Files
