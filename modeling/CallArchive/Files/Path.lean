import CallArchive.Text.Cut

/-!
# Paths

A path is a text of names divided by slashes. Repeated slashes, and steps that stay where they are,
do not count, except that a path may begin with such a step. `steps` lists what counts, `join`
descends by one name, and `parent?` is the directory of a path as it is spelled.
-/

namespace CallArchive.Files

abbrev Path := String

namespace Path

def isAbsolute (p : Path) : Bool := p.toList.head? == some '/'

def here : List Char := ['.']

def above : List Char := ['.', '.']

/-- What stands between the slashes, without empty steps and steps that stay. -/
def steps (p : Path) : List (List Char) :=
  (Text.segments '/' p.toList).filter fun s => s ≠ [] ∧ s ≠ here

def startsHere (p : Path) : Bool := (Text.segments '/' p.toList).head? == some here

/-- Whether two spellings name the same path. -/
def same (p q : Path) : Bool :=
  p.isAbsolute == q.isAbsolute && startsHere p == startsHere q && steps p == steps q

def endsInSlash (p : Path) : Bool := p.toList.getLast? == some '/'

def join (p : Path) (name : String) : Path :=
  if isAbsolute name then name
  else if p = "" || endsInSlash p then p ++ name
  else p ++ "/" ++ name

/-- Drops what does not count at the end of a path that is given backwards. -/
def trimBackwards : List Char → List Char
  | '/' :: c :: rest => trimBackwards (c :: rest)
  | '.' :: '/' :: c :: rest => trimBackwards (c :: rest)
  | s => s

/-- The directory of a path; that of a single name is the empty path. -/
def parent? (p : Path) : Option Path :=
  match trimBackwards p.toList.reverse with
  | [] | ['/'] => none
  | s => some (String.ofList (trimBackwards (s.dropWhile (· != '/'))).reverse)

/-- A path, its directory, the directory of that, and so on. -/
def ancestors : (fuel : Nat) → Path → List Path
  | 0, _ => []
  | fuel + 1, p => p :: (parent? p).elim [] (ancestors fuel)

example : parent? "a//b/./c/" = some "a//b" := by decide +kernel

example : parent? "/a" = some "/" ∧ parent? "a" = some "" ∧ parent? "./a" = some "." := by
  decide +kernel

end Path

end CallArchive.Files
