import CallArchive.Json.Printer
import CallArchive.Record.LocalId

/-!
# Building records

A draft collects what a record says and `Draft.build` writes it as a JSON document. `Draft.chain`
is the record of one type whose methods call each other in a row.
-/

namespace CallArchive

open Json

structure Draft where
  product : String
  forge : String
  version : String
  generator : String
  timestamp : Option Int
  dependencies : List Value
  types : Members
  internalCalls : List (LocalId × LocalId)
  externalCalls : List (LocalId × String × Members)

namespace Draft

def defaultForge : String := "mvn"

def defaultGenerator : String := "OPAL"

def rootClass : String := "/java.lang/Object"

def new (product version : String) : Draft :=
  { product, version, forge := defaultForge, generator := defaultGenerator, timestamp := none,
    dependencies := [], types := [], internalCalls := [], externalCalls := [] }

def withGenerator (d : Draft) (generator : String) : Draft := { d with generator }

def withTimestamp (d : Draft) (timestamp : Int) : Draft := { d with timestamp := some timestamp }

/-- Each dependency is a set of its own. -/
def dependency (d : Draft) (product : String) (ranges : List String) : Draft :=
  let entry := Value.object (Members.ofList
    [("product", .text product), ("forge", .text d.forge), ("constraints", .ofTexts ranges)])
  { d with dependencies := d.dependencies ++ [.array [entry]] }

/-- What stands after the last slash of a namespace. -/
def lastSegment (ns : String) : String :=
  String.ofList ((Text.segments '/' ns.toList).getLastD [])

/-- The type of a namespace with its methods; it replaces an earlier one of that namespace. -/
def type (d : Draft) (ns : String) (methods : List (LocalId × String)) : Draft :=
  let entries := Members.ofList (methods.map fun m => (m.1.text, .text m.2))
  let value := Value.object (Members.ofList
    [("methods", .object entries), ("superClasses", .ofTexts [rootClass]),
      ("superInterfaces", .array []), ("sourceFile", .text (lastSegment ns ++ ".java"))])
  { d with types := d.types.insert ns value }

def call (d : Draft) (source target : LocalId) : Draft :=
  { d with internalCalls := d.internalCalls ++ [(source, target)] }

/-- Metadata that is not an object counts as empty. -/
def externalCall (d : Draft) (source : LocalId) (target : String) (metadata : Value) : Draft :=
  let entry := (source, target, metadata.members?.getD [])
  { d with externalCalls := d.externalCalls ++ [entry] }

def callValue (c : LocalId × LocalId) : Value := .array [.ofNat c.1.value, .ofNat c.2.value]

def externalCallValue (c : LocalId × String × Members) : Value :=
  .array [.text c.1.text, .text c.2.1, .object c.2.2]

/-- The record; an unknown time is written as minus one. -/
def build (d : Draft) : Value :=
  let calls := Value.object (Members.ofList
    [("internalCalls", .array (d.internalCalls.map callValue)),
      ("externalCalls", .array (d.externalCalls.map externalCallValue))])
  .object (Members.ofList
    [("product", .text d.product), ("forge", .text d.forge), ("version", .text d.version),
      ("generator", .text d.generator), ("timestamp", .ofInt (d.timestamp.getD (-1))),
      ("depset", .array d.dependencies), ("cha", .object d.types), ("graph", calls)])

def print (d : Draft) : String := d.build.print

/-- The name of the `i`-th method of a chain. -/
def chainMethod (i : Nat) : String := s!"/ns/C.m{i}()V"

def chainIds (methods : Nat) : List LocalId := (List.range methods).filterMap LocalId.ofNat?

/-- A type with the given number of methods, each of which calls the next. -/
def chain (product : String) (methods : Nat) : Draft :=
  let ids := chainIds methods
  let d := (new product "1.0.0").type "/ns/C" (ids.map fun id => (id, chainMethod id.value))
  (ids.zip ids.tail).foldl (fun d c => d.call c.1 c.2) d

example : (((chain "p" 2).build.get? "graph").bind (Value.get? "internalCalls")).map Value.print
    = some "[[0,1]]" := by
  decide +kernel

end Draft

end CallArchive
