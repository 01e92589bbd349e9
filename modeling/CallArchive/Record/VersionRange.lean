import CallArchive.Text.Blank
import CallArchive.Text.Cut

/-!
# Version ranges

A dependency constrains the versions it accepts by `[lower..upper]`, where an empty bound is no
bound and `[v]` stands for the one version `v`. Blanks around a bound do not count. `text` writes
the normal form with both bounds.
-/

namespace CallArchive

structure VersionRange where
  lower : Option (List Char)
  upper : Option (List Char)
  deriving DecidableEq, Repr

namespace VersionRange

def separator : List Char := ['.', '.']

/-- What stands between the brackets. -/
def inside? : List Char → Option (List Char)
  | '[' :: rest => if rest.getLast? = some ']' then some rest.dropLast else none
  | _ => none

def bound (s : List Char) : Option (List Char) := Text.nonEmpty? (Text.trim s)

/-- The separator may occur once; without it both bounds are the same. -/
def ofInside? (inner : List Char) : Option VersionRange :=
  match Text.cutAtText separator inner with
  | some (lower, upper) =>
    if Text.contains separator upper then none else some ⟨bound lower, bound upper⟩
  | none => some ⟨bound inner, bound inner⟩

def ofChars? (s : List Char) : Option VersionRange := (inside? s).bind ofInside?

def ofText? (s : String) : Option VersionRange := ofChars? s.toList

def chars (r : VersionRange) : List Char :=
  '[' :: (r.lower.getD [] ++ separator ++ r.upper.getD [] ++ [']'])

def text (r : VersionRange) : String := String.ofList r.chars

example : (ofText? "[ 1.0 .. ]").map text = some "[1.0..]" := by decide +kernel

example : (ofText? "[2.0]").map text = some "[2.0..2.0]" := by decide +kernel

end VersionRange

end CallArchive
