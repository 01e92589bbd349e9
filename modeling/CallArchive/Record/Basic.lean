import CallArchive.Json.Value
import CallArchive.Record.LocalId
import CallArchive.Record.VersionRange

/-!
# Call graphs of package versions

A record holds the call graph of one version of a package: what the package is and depends on, the
types it defines with their methods under local ids, and the calls. Calls inside the package join
two local ids, calls out of it a local id and an address.
-/

namespace CallArchive

structure Dependency where
  product : String
  forge : String
  ranges : List VersionRange
  deriving DecidableEq, Repr

/-- A type of the class hierarchy. The methods are under the local ids as the producer spelled
them, in the order of the spellings. -/
structure ClassType where
  methods : List (String × String)
  superClasses : List String
  superInterfaces : List String
  sourceFile : Option String
  deriving DecidableEq, Repr

structure ExternalCall where
  source : LocalId
  target : String
  metadata : Json.Members
  deriving Repr

/-- A call graph. The types are in the order of their namespaces. -/
structure CallGraph where
  product : String
  forge : String
  generator : String
  version : String
  timestamp : Option Int
  dependencySets : List (List Dependency)
  types : List (String × ClassType)
  internalCalls : List (LocalId × LocalId)
  externalCalls : List ExternalCall
  deriving Repr

namespace CallGraph

/-- The milliseconds of a year of 365 days: smaller timestamps are in seconds. -/
def secondsThreshold : Int := 1000 * 60 * 60 * 24 * 365

def minTimestamp : Int := -2 ^ 63

def maxTimestamp : Int := 2 ^ 63 - 1

/-- The timestamp in milliseconds since the epoch. Minus one stands for an unknown time, and a
number of seconds that would grow too large is cut off at the ends of the range. -/
def millis (timestamp : Option Int) : Option Int :=
  match timestamp with
  | none => none
  | some t =>
    if t = -1 then none
    else if t < secondsThreshold then some (max minTimestamp (min maxTimestamp (1000 * t)))
    else some t

/-- The package version by which reports name the record. -/
def artifact (product version : String) : String := s!"{product}@{version}"

def methodCount (g : CallGraph) : Nat := (g.types.map fun t => t.2.methods.length).sum

def callCount (g : CallGraph) : Nat := g.internalCalls.length + g.externalCalls.length

/-- The dependencies of all sets in order. -/
def dependencies (g : CallGraph) : List Dependency := g.dependencySets.flatten

/-- Every method with its spelled local id, by namespace and then by spelling. -/
def methods (g : CallGraph) : List (String × String) := g.types.flatMap fun t => t.2.methods

end CallGraph

end CallArchive
