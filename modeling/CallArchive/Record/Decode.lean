import CallArchive.Record.Basic
import CallArchive.Record.Error
import CallArchive.Text.Blank

/-!
# Records from JSON

`CallGraph.ofText` reads a record. The text must be a document; an envelope with the record under
`payload` is taken off; the four fields that identify the record must be texts that are not blank;
then the members are read in the order of their keys, and the first value of the wrong shape decides
the error. Fields that are missing are reported after all that are there, in the order of
declaration. Members of other names are ignored.

Graphs, types and dependencies may also be written as arrays of their fields in the order of
declaration, where fields that may be missing may be left out at the end.
-/

namespace CallArchive

abbrev Decoded := Except Mismatch

namespace Decode

open Json

def wrong (v : Value) (expected : Shape) : Decoded α := .error (.wrongType (.ofValue v) expected)

def text (v : Value) : Decoded String :=
  match v with
  | .text s => .ok s
  | _ => wrong v .text

def sequence (item : Value → Decoded α) (v : Value) : Decoded (List α) :=
  match v with
  | .array items => items.mapM item
  | _ => wrong v .sequence

def map (item : Value → Decoded α) (v : Value) : Decoded (List (String × α)) :=
  match v with
  | .object members => members.mapM fun p => (item p.2).map fun x => (p.1, x)
  | _ => wrong v .map

def members (v : Value) : Decoded Members :=
  match v with
  | .object m => .ok m
  | _ => wrong v .map

def optional (item : Value → Decoded α) (v : Value) : Decoded (Option α) :=
  match v with
  | .null => .ok none
  | _ => (item v).map some

/-- An integer of 64 bits with a sign. -/
def signed (v : Value) : Decoded Int :=
  match v with
  | .number (.integer z) => if z < 2 ^ 63 then .ok z else .error (.tooLarge z)
  | _ => wrong v .signed

/-- A local id is an unsigned number or a text that reads as one. -/
def localId (v : Value) : Decoded LocalId :=
  match v with
  | .number (.integer z) =>
    match LocalId.ofInt? z with
    | some id => .ok id
    | none => .error .notALocalId
  | .text s =>
    match LocalId.ofText? s with
    | some id => .ok id
    | none => .error (.badLocalId s)
  | _ => .error .notALocalId

def versionRange (v : Value) : Decoded VersionRange := do
  let s ← text v
  match VersionRange.ofText? s with
  | some r => return r
  | none => throw (.badVersionRange s)

/-- The item that stands next in an array, or the default if the array has ended. -/
def nextOr (default : α) (item : Value → Decoded α) : List Value → Decoded (α × List Value)
  | [] => .ok (default, [])
  | v :: rest => (item v).map fun x => (x, rest)

/-- The item that stands next in an array, which must not have ended. -/
def next (taken : Nat) (shape : Shape) (item : Value → Decoded α) :
    List Value → Decoded (α × List Value)
  | [] => .error (.tooFew taken shape)
  | v :: rest => (item v).map fun x => (x, rest)

/-- Nothing may be left of an array of the given length. -/
def finished (length : Nat) (left : List Value) : Decoded Unit :=
  if left.isEmpty then .ok () else .error (.tooMany length)

/-- A field of an object that has been read, or the error that it is missing. -/
def required (field : String) : Option α → Decoded α
  | some x => .ok x
  | none => .error (.missing field)

/-- The fields of an object read so far: each member that has a name in `step` is taken over. -/
def fields (start : σ) (step : σ → String → Value → Decoded σ) (m : Members) : Decoded σ :=
  m.foldlM (fun st p => step st p.1 p.2) start

def call (v : Value) : Decoded (LocalId × LocalId) :=
  match v with
  | .array items => do
    let (source, left) ← next 0 .pair localId items
    let (target, left) ← next 1 .pair localId left
    finished items.length left
    return (source, target)
  | _ => wrong v .pair

def externalCall (v : Value) : Decoded ExternalCall :=
  match v with
  | .array items => do
    let (source, left) ← next 0 .externalCall localId items
    let (target, left) ← next 1 .externalCall text left
    let (metadata, left) ← next 2 .externalCall members left
    finished items.length left
    return { source, target, metadata }
  | _ => wrong v .externalCall

/-- The fields of a dependency seen so far. -/
structure PartialDependency where
  product : Option String := none
  forge : Option String := none
  ranges : List VersionRange := []

def dependencyField (d : PartialDependency) (key : String) (v : Value) :
    Decoded PartialDependency := do
  if key = "product" then return { d with product := some (← text v) }
  else if key = "forge" then return { d with forge := some (← text v) }
  else if key = "constraints" then return { d with ranges := ← sequence versionRange v }
  else return d

def dependency (v : Value) : Decoded Dependency :=
  match v with
  | .object m => do
    let d ← fields {} dependencyField m
    return { product := ← required "product" d.product, forge := ← required "forge" d.forge,
             ranges := d.ranges }
  | .array items => do
    let (product, left) ← next 0 .dependency text items
    let (forge, left) ← next 1 .dependency text left
    let (ranges, left) ← nextOr [] (sequence versionRange) left
    finished items.length left
    return { product, forge, ranges }
  | _ => wrong v .dependency

def noClassType : ClassType := ⟨[], [], [], none⟩

def classTypeField (t : ClassType) (key : String) (v : Value) : Decoded ClassType := do
  if key = "methods" then return { t with methods := ← map text v }
  else if key = "superClasses" then return { t with superClasses := ← sequence text v }
  else if key = "superInterfaces" then return { t with superInterfaces := ← sequence text v }
  else if key = "sourceFile" then return { t with sourceFile := ← optional text v }
  else return t

def classType (v : Value) : Decoded ClassType :=
  match v with
  | .object m => fields noClassType classTypeField m
  | .array items => do
    let (methods, left) ← nextOr [] (map text) items
    let (superClasses, left) ← nextOr [] (sequence text) left
    let (superInterfaces, left) ← nextOr [] (sequence text) left
    let (sourceFile, left) ← nextOr none (optional text) left
    finished items.length left
    return { methods, superClasses, superInterfaces, sourceFile }
  | _ => wrong v .classType

/-- The calls of a record. -/
structure Calls where
  internal : List (LocalId × LocalId) := []
  external : List ExternalCall := []

def callsField (c : Calls) (key : String) (v : Value) : Decoded Calls := do
  if key = "internalCalls" then return { c with internal := ← sequence call v }
  else if key = "externalCalls" then return { c with external := ← sequence externalCall v }
  else return c

def calls (v : Value) : Decoded Calls :=
  match v with
  | .object m => fields {} callsField m
  | .array items => do
    let (internal, left) ← nextOr [] (sequence call) items
    let (external, left) ← nextOr [] (sequence externalCall) left
    finished items.length left
    return { internal, external }
  | _ => wrong v .graph

/-- The fields of a record seen so far. -/
structure PartialRecord where
  product : Option String := none
  forge : Option String := none
  generator : Option String := none
  version : Option String := none
  timestamp : Option Int := none
  dependencySets : Option (List (List Dependency)) := none
  types : Option (List (String × ClassType)) := none
  calls : Option Calls := none

def recordField (r : PartialRecord) (key : String) (v : Value) : Decoded PartialRecord := do
  if key = "product" then return { r with product := some (← text v) }
  else if key = "forge" then return { r with forge := some (← text v) }
  else if key = "generator" then return { r with generator := some (← text v) }
  else if key = "version" then return { r with version := some (← text v) }
  else if key = "timestamp" then return { r with timestamp := ← optional signed v }
  else if key = "depset" then
    return { r with dependencySets := some (← sequence (sequence dependency) v) }
  else if key = "cha" then return { r with types := some (← map classType v) }
  else if key = "graph" then return { r with calls := some (← calls v) }
  else return r

def record (m : Members) : Decoded CallGraph := do
  let r ← fields {} recordField m
  let product ← required "product" r.product
  let forge ← required "forge" r.forge
  let generator ← required "generator" r.generator
  let version ← required "version" r.version
  let dependencySets ← required "depset" r.dependencySets
  let types ← required "cha" r.types
  let calls ← required "graph" r.calls
  return { product, forge, generator, version, timestamp := r.timestamp, dependencySets, types,
           internalCalls := calls.internal, externalCalls := calls.external }

/-- The record inside an envelope, which is an object with an object under `payload`. -/
def openEnvelope (v : Value) : Value :=
  match v.get? "payload" with
  | some (.object m) => .object m
  | _ => v

/-- The fields without which a record is not looked at, in the order of the check. -/
def identifying : List String := ["product", "forge", "generator", "version"]

def isPresent (m : Members) (field : String) : Bool :=
  match Members.find? field m with
  | some (.text s) => !Text.isBlankText s
  | _ => false

end Decode

namespace CallGraph

open Decode

def ofValue (v : Json.Value) : Except RecordError CallGraph :=
  match openEnvelope v with
  | .object m =>
    match identifying.find? fun field => !isPresent m field with
    | some field => .error (.missingField field)
    | none => (record m).mapError .mismatch
  | _ => .error .notAnObject

def ofText (s : String) : Except RecordError CallGraph := do
  let v ← (Json.parse s).mapError .syntaxError
  ofValue v

end CallGraph

end CallArchive
