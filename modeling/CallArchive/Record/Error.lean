import CallArchive.Address.Basic
import CallArchive.Json.Parser
import CallArchive.Record.LocalId
import CallArchive.Text.Printable

/-!
# Why a record is refused

A record can fail as a text (`syntaxError`), as a document whose values have the wrong shape
(`mismatch`), or by what it says. `Mismatch` names the value found and the shape expected.
-/

namespace CallArchive

/-- A value as an error message names it. -/
inductive Found where
  | null
  | bool (value : Bool)
  | integer (value : Int)
  | float (value : Decimal.Binary64)
  | text (value : String)
  | sequence
  | map
  deriving DecidableEq, Repr

/-- The shapes that the parts of a record have. -/
inductive Shape where
  | text
  | sequence
  | map
  | signed
  | pair
  | externalCall
  | graph
  | classType
  | dependency
  deriving DecidableEq, Repr

/-- Why a JSON value does not have the shape that its place in a record asks for. -/
inductive Mismatch where
  | wrongType (found : Found) (expected : Shape)
  | tooLarge (value : Int)
  | tooFew (length : Nat) (expected : Shape)
  | tooMany (length : Nat)
  | missing (field : String)
  | notALocalId
  | badLocalId (text : String)
  | badVersionRange (text : String)
  deriving DecidableEq, Repr

inductive RecordError where
  | syntaxError (cause : Json.ParseError)
  | mismatch (cause : Mismatch)
  | notAnObject
  | missingField (field : String)
  | invalidAddress (text : String) (cause : AddressError)
  | invalidVersionRange (text : String)
  | invalidLocalId (text : String)
  | duplicateLocalId (id : LocalId)
  deriving DecidableEq, Repr

namespace Found

def ofValue : Json.Value → Found
  | .null => .null
  | .bool b => .bool b
  | .number (.integer z) => .integer z
  | .number (.float x) => .float x
  | .text s => .text s
  | .array _ => .sequence
  | .object _ => .map

def describe : Found → String
  | .null => "null"
  | .bool b => s!"boolean `{b}`"
  | .integer z => s!"integer `{z}`"
  | .float x => s!"floating point `{String.ofList (Json.Number.floatChars x)}`"
  | .text s => s!"string {Text.shown s}"
  | .sequence => "sequence"
  | .map => "map"

end Found

namespace Shape

def describe : Shape → String
  | .text => "a string"
  | .sequence => "a sequence"
  | .map => "a map"
  | .signed => "i64"
  | .pair => "a tuple of size 2"
  | .externalCall => "tuple struct ExternalCall"
  | .graph => "struct Graph"
  | .classType => "struct ChaType"
  | .dependency => "struct Dependency"

/-- The shape with the number of its parts, where the shape alone does not tell it. -/
def describeLength : Shape → String
  | .externalCall => "tuple struct ExternalCall with 3 elements"
  | .dependency => "struct Dependency with 3 elements"
  | shape => shape.describe

end Shape

def badLocalIdMessage (text : String) : String := s!"Invalid local id '{text}'"

def badVersionRangeMessage (text : String) : String := s!"Invalid version constraint '{text}'"

namespace Mismatch

def message : Mismatch → String
  | .wrongType found expected => s!"invalid type: {found.describe}, expected {expected.describe}"
  | .tooLarge z => s!"invalid value: integer `{z}`, expected {Shape.signed.describe}"
  | .tooFew n expected => s!"invalid length {n}, expected {expected.describeLength}"
  | .tooMany n => s!"invalid length {n}, expected fewer elements in array"
  | .missing field => s!"missing field `{field}`"
  | .notALocalId => "data did not match any variant of untagged enum RawLocalId"
  | .badLocalId text => badLocalIdMessage text
  | .badVersionRange text => badVersionRangeMessage text

end Mismatch

namespace RecordError

def message : RecordError → String
  | .syntaxError cause => s!"JSON error: {cause.message}"
  | .mismatch cause => s!"JSON error: {cause.message}"
  | .notAnObject => "Record is not a JSON object"
  | .missingField field => s!"Missing or empty required field '{field}'"
  | .invalidAddress text cause => s!"Invalid URI '{text}': {cause.message}"
  | .invalidVersionRange text => badVersionRangeMessage text
  | .invalidLocalId text => badLocalIdMessage text
  | .duplicateLocalId id => s!"Local id {id.text} is defined more than once"

end RecordError

end CallArchive
