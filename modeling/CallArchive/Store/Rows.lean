import CallArchive.Failure
import CallArchive.Json.Value
import CallArchive.Store.Table
import CallArchive.Time.Instant

/-!
# Keys and rows of the store

For each kind of row its natural key, the columns that an upsert may change, and what callers give
and get. Timestamps and documents are stored as text. A column that is not set never overwrites one
that is (`Option.or`). In a column that is not of text another program may have left one
(`Content`).
-/

namespace CallArchive.Store

open Time (Instant)

abbrev Bytes := List UInt8

/-- What stands in a column: what the store writes there, or a text from elsewhere. -/
inductive Content (α : Type) where
  | own (value : α)
  | foreign (text : String)
  deriving DecidableEq, Repr

namespace Content

/-- Reading a column, which has an index and a name. -/
def read (index : Nat) (name : String) : Content α → Except StoreError α
  | .own value => .ok value
  | .foreign _ => .error (.textInColumn index name)

end Content

/-! ## Settings -/

/-- What the database says of itself. The store itself names every setting. -/
structure Setting where
  key : Option String
  value : String
  deriving DecidableEq, Repr

/-! ## Packages -/

structure PackageKey where
  name : String
  forge : String
  deriving DecidableEq, Repr

structure PackageData where
  projectName : Option String
  repository : Option String
  createdAt : Option String
  deriving DecidableEq, Repr

def PackageData.combine (old new : PackageData) : PackageData :=
  ⟨new.projectName.or old.projectName, new.repository.or old.repository,
    new.createdAt.or old.createdAt⟩

structure NewPackage where
  name : String
  forge : String
  projectName : Option String
  repository : Option String
  createdAt : Option Instant
  deriving DecidableEq, Repr

/-- A package of which only the key is known. -/
def NewPackage.named (name forge : String) : NewPackage := ⟨name, forge, none, none, none⟩

structure PackageRecord where
  id : RowId
  name : String
  forge : String
  projectName : Option String
  repository : Option String
  createdAt : Option Instant
  deriving DecidableEq, Repr

/-! ## Versions -/

structure VersionKey where
  package : RowId
  generator : String
  version : String
  deriving DecidableEq, Repr

/-- The columns that versions and callables share. -/
structure Stamp where
  createdAt : Option String
  metadata : Option String
  deriving DecidableEq, Repr

def Stamp.combine (old new : Stamp) : Stamp :=
  ⟨new.createdAt.or old.createdAt, new.metadata.or old.metadata⟩

structure NewVersion where
  package : RowId
  generator : String
  version : String
  createdAt : Option Instant
  metadata : Option Json.Members
  deriving Repr

structure VersionRecord where
  id : RowId
  package : RowId
  generator : String
  version : String
  createdAt : Option Instant
  metadata : Option Json.Members
  deriving Repr

/-! ## Dependencies -/

/-- A version depends on a package, under a list of ranges stored as a document. -/
structure DependencyRow where
  version : RowId
  package : RowId
  ranges : String
  deriving DecidableEq, Repr

structure NewDependency where
  version : RowId
  package : RowId
  ranges : List String
  deriving DecidableEq, Repr

structure DependencyRecord where
  version : RowId
  package : RowId
  ranges : List String
  deriving DecidableEq, Repr

/-! ## Modules and files -/

structure ModuleKey where
  version : RowId
  «namespace» : String
  deriving DecidableEq, Repr

structure FileKey where
  version : RowId
  path : String
  deriving DecidableEq, Repr

/-- The columns that modules and files share; the digest is the checksum of their text. -/
structure DigestData where
  digest : Option (Content Bytes)
  stamp : Stamp
  deriving DecidableEq, Repr

def DigestData.combine (old new : DigestData) : DigestData :=
  ⟨new.digest.or old.digest, old.stamp.combine new.stamp⟩

structure NewModule where
  version : RowId
  «namespace» : String
  digest : Option Bytes
  createdAt : Option Instant
  metadata : Option Json.Members
  deriving Repr

structure ModuleRecord where
  id : RowId
  version : RowId
  «namespace» : String
  digest : Option Bytes
  createdAt : Option Instant
  metadata : Option Json.Members
  deriving Repr

structure NewFile where
  version : RowId
  path : String
  digest : Option Bytes
  createdAt : Option Instant
  metadata : Option Json.Members
  deriving Repr

structure FileRecord where
  id : RowId
  version : RowId
  path : String
  digest : Option Bytes
  createdAt : Option Instant
  deriving DecidableEq, Repr

/-- A module is defined in a file. -/
structure Link where
  module : RowId
  file : RowId
  deriving DecidableEq, Repr

/-! ## Callables -/

/-- A callable is resolved if it belongs to an ingested package. The column of that flag is a
number, zero for no. -/
structure CallableKey where
  address : String
  flag : Content Int
  deriving DecidableEq, Repr

def CallableKey.of (address : String) (resolved : Bool) : CallableKey :=
  ⟨address, .own (if resolved then 1 else 0)⟩

theorem CallableKey.of_inj {a b : String} {r s : Bool} :
    CallableKey.of a r = CallableKey.of b s ↔ a = b ∧ r = s := by
  cases r <;> cases s <;> simp [CallableKey.of]

structure CallableData where
  module : Option RowId
  stamp : Stamp
  deriving DecidableEq, Repr

/-- The module of a callable is the one it was first stored with. -/
def CallableData.combine (old new : CallableData) : CallableData :=
  ⟨old.module, old.stamp.combine new.stamp⟩

structure NewCallable where
  module : Option RowId
  address : String
  resolved : Bool
  createdAt : Option Instant
  metadata : Option Json.Members
  deriving Repr

namespace NewCallable

def key (c : NewCallable) : CallableKey := .of c.address c.resolved

/-- A callable defined by a module. -/
def internal (module : RowId) (address : String) (createdAt : Option Instant) : NewCallable :=
  ⟨some module, address, true, createdAt, none⟩

/-- A callable that is known only as the target of a call. -/
def external (address : String) : NewCallable := ⟨none, address, false, none, none⟩

end NewCallable

structure CallableRecord where
  id : RowId
  module : Option RowId
  address : String
  resolved : Bool
  createdAt : Option Instant
  metadata : Option Json.Members
  deriving Repr

/-! ## Edges -/

structure EdgeRow where
  source : RowId
  target : RowId
  metadata : String
  deriving DecidableEq, Repr

structure NewEdge where
  source : RowId
  target : RowId
  metadata : Json.Members
  deriving Repr

structure EdgeRecord where
  source : RowId
  target : RowId
  metadata : Json.Members
  deriving Repr

/-! ## Counts -/

/-- How many rows each counted table has. -/
structure Counts where
  packages : Nat
  versions : Nat
  dependencies : Nat
  modules : Nat
  files : Nat
  callables : Nat
  edges : Nat
  deriving DecidableEq, Repr

def Counts.total (c : Counts) : Nat :=
  c.packages + c.versions + c.dependencies + c.modules + c.files + c.callables + c.edges

end CallArchive.Store
