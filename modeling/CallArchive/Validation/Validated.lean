import CallArchive.Record.Basic
import CallArchive.Record.Error
import CallArchive.Text.Blank
import CallArchive.Validation.ArcReport

/-!
# Validated records

`CallGraph.validate` turns a record into what can be stored. A dependency without product or forge,
a method with a bad local id or a bad address, and a local id defined twice refuse the record; an
arc that may not be stored is only dropped and counted.
-/

namespace CallArchive

/-- A dependency with the normal forms of its version ranges. -/
structure DependencySpec where
  product : String
  forge : String
  ranges : List String
  deriving DecidableEq, Repr

structure Method where
  id : LocalId
  address : String
  deriving DecidableEq, Repr

/-- A type that is stored as a module, with its supertypes as metadata. -/
structure ModuleSpec where
  «namespace» : String
  sourceFile : Option String
  metadata : Json.Members
  methods : List Method
  deriving Repr

structure InternalArc where
  source : LocalId
  target : LocalId
  deriving DecidableEq, Repr

structure ExternalArc where
  source : LocalId
  target : String
  metadata : Json.Members
  deriving Repr

structure Validated where
  product : String
  forge : String
  generator : String
  version : String
  millis : Option Int
  dependencies : List DependencySpec
  modules : List ModuleSpec
  internalArcs : List InternalArc
  externalArcs : List ExternalArc
  report : ArcReport

namespace Validated

def artifact (v : Validated) : String := CallGraph.artifact v.product v.version

def methodCount (v : Validated) : Nat := (v.modules.map fun m => m.methods.length).sum

def arcCount (v : Validated) : Nat := v.internalArcs.length + v.externalArcs.length

end Validated

namespace Dependency

def validate (d : Dependency) : Except RecordError DependencySpec :=
  if Text.isBlankText d.product then .error (.missingField "depset.product")
  else if Text.isBlankText d.forge then .error (.missingField "depset.forge")
  else .ok ⟨d.product, d.forge, d.ranges.map VersionRange.text⟩

end Dependency

/-- The methods seen so far by local id. -/
abbrev MethodTable := List Method

namespace MethodTable

def find? (table : MethodTable) (id : LocalId) : Option Method :=
  List.find? (fun m => m.id == id) table

def address? (table : MethodTable) (id : LocalId) : Option String :=
  (table.find? id).map (·.address)

end MethodTable

namespace CallGraph

/-- The local id and the address of a method, which no method of the table may share the id with. -/
def validateMethod (table : MethodTable) (entry : String × String) : Except RecordError Method := do
  let id ← match LocalId.ofText? entry.1 with
    | some id => pure id
    | none => throw (.invalidLocalId entry.1)
  if let .error cause := Address.ofString entry.2 then throw (.invalidAddress entry.2 cause)
  if (table.find? id).isSome then throw (.duplicateLocalId id)
  return ⟨id, entry.2⟩

/-- The methods of one type, after those of the table. -/
def validateMethods (table : MethodTable) :
    List (String × String) → Except RecordError (List Method)
  | [] => .ok []
  | entry :: rest => do
    let m ← validateMethod table entry
    let ms ← validateMethods (table ++ [m]) rest
    return m :: ms

/-- The supertypes of a type as its metadata. -/
def supertypes (t : ClassType) : Json.Members :=
  [("superClasses", .ofTexts t.superClasses), ("superInterfaces", .ofTexts t.superInterfaces)]

def moduleSpec (ns : String) (t : ClassType) (methods : List Method) : ModuleSpec :=
  { «namespace» := ns, sourceFile := t.sourceFile.filter (· ≠ ""), metadata := supertypes t,
    methods }

/-- The modules of the types, and the table of all their methods after those of `table`. -/
def validateTypes (table : MethodTable) :
    List (String × ClassType) → Except RecordError (List ModuleSpec × MethodTable)
  | [] => .ok ([], table)
  | (ns, t) :: rest => do
    let ms ← validateMethods table t.methods
    let (modules, table) ← validateTypes (table ++ ms) rest
    return (moduleSpec ns t ms :: modules, table)

/-- Why a call inside the package is dropped. -/
def checkInternal (product : String) (table : MethodTable) (c : LocalId × LocalId) :
    Except Rejection InternalArc :=
  match table.address? c.1, table.address? c.2 with
  | some s, some t => do
    let _ ← Address.checkArc product.toList s.toList t.toList
    return ⟨c.1, c.2⟩
  | _, _ => .error .unknownLocalId

def checkExternal (product : String) (table : MethodTable) (c : ExternalCall) :
    Except Rejection ExternalArc :=
  match table.address? c.source with
  | some s => do
    let (_, target) ← Address.checkArc product.toList s.toList c.target.toList
    return ⟨c.source, target.text, c.metadata⟩
  | none => .error .unknownLocalId

/-- Keeps the calls that pass and counts all of them. -/
def sift (check : α → Except Rejection β) (report : ArcReport) : List α → List β × ArcReport
  | [] => ([], report)
  | c :: rest =>
    match check c with
    | .ok arc =>
      let (arcs, report) := sift check report.accept rest
      (arc :: arcs, report)
    | .error reason => sift check (report.reject reason) rest

def validate (g : CallGraph) : Except RecordError Validated := do
  let dependencies ← g.dependencies.mapM Dependency.validate
  let (modules, table) ← validateTypes [] g.types
  let (internalArcs, report) := sift (checkInternal g.product table) .empty g.internalCalls
  let (externalArcs, report) := sift (checkExternal g.product table) report g.externalCalls
  return { product := g.product, forge := g.forge, generator := g.generator, version := g.version,
           millis := millis g.timestamp, dependencies, modules, internalArcs, externalArcs,
           report }

end CallGraph

end CallArchive
