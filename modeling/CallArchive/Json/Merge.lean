import CallArchive.Json.Parser
import CallArchive.Json.Printer

/-!
# Merging stored documents

`mergeTexts` merges two documents given as texts. A missing text counts as the empty object. Two
objects are united member by member, the second winning; if either document is not an object the
second replaces the first.
-/

namespace CallArchive.Json

def Value.merge : Value → Value → Value
  | .object old, .object new => .object (Members.merge old new)
  | _, new => new

def parseOr (text : Option String) : Except ParseError Value :=
  match text with
  | none => .ok (.object [])
  | some t => parse t

/-- The first text that is not a document decides the error. -/
def mergeTexts (old new : Option String) : Except ParseError String := do
  let old ← parseOr old
  let new ← parseOr new
  return (old.merge new).print

/-- The document of a text that holds an object. -/
def objectOf? (text : String) : Option Members :=
  match parse text with
  | .ok (.object m) => some m
  | _ => none

/-- The texts of a text that holds an array of texts. -/
def textsOf? (text : String) : Option (List String) :=
  match parse text with
  | .ok (.array items) => items.mapM Value.text?
  | _ => none

example : (mergeTexts (some "\x7b\"a\":1,\"b\":[2]\x7d") (some "\x7b\"a\":null\x7d")).toOption
    = some "\x7b\"a\":null,\"b\":[2]\x7d" := by
  decide +kernel

end CallArchive.Json
