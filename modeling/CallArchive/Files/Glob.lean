import CallArchive.Text.Cut

/-!
# File patterns

A pattern is matched against one name: a question mark stands for one character, an asterisk for any
number of them, brackets for one character of a set or, after an exclamation mark, outside it. Two
asterisks stand for directories at any depth and must fill a whole step of a path.
-/

namespace CallArchive.Files

/-- A character of a set, or all between two. -/
inductive CharSpan where
  | single (c : Char)
  | between (first last : Char)
  deriving DecidableEq, Repr

def CharSpan.holds (c : Char) : CharSpan → Bool
  | .single x => c == x
  | .between a b => decide (a ≤ c) && decide (c ≤ b)

inductive GlobToken where
  | char (c : Char)
  | anyChar
  | anyText
  | anyDirectories
  | within (set : List CharSpan)
  | except (set : List CharSpan)
  deriving DecidableEq, Repr

abbrev Glob := List GlobToken

/-- Why a text is no pattern, and at which character. -/
inductive GlobError where
  | wildcards (position : Nat)
  | directories (position : Nat)
  | brackets (position : Nat)
  deriving DecidableEq, Repr

namespace GlobError

def position : GlobError → Nat
  | .wildcards n | .directories n | .brackets n => n

def reason : GlobError → String
  | .wildcards _ => "wildcards are either regular `*` or recursive `**`"
  | .directories _ => "recursive wildcards must form a single path component"
  | .brackets _ => "invalid range pattern"

def message (e : GlobError) : String :=
  s!"Pattern syntax error near position {e.position}: {e.reason}"

end GlobError

namespace Glob

/-- The spans between brackets. -/
def spans : List Char → List CharSpan
  | a :: '-' :: b :: rest => .between a b :: spans rest
  | a :: rest => .single a :: spans rest
  | [] => []

/-- The set after an opening bracket, of which the first character may be a closing one. -/
def takeSet : List Char → Option (GlobToken × List Char)
  | '!' :: c :: rest =>
    (Text.cutAt ']' rest).map fun p => (.except (spans (c :: p.1)), p.2)
  | '!' :: [] => none
  | c :: rest => (Text.cutAt ']' rest).map fun p => (.within (spans (c :: p.1)), p.2)
  | [] => none

/-- Reads a pattern from a position on, after the given character if there is one. -/
def parseFrom (fuel position : Nat) (previous : Option Char) (s : List Char) :
    Except GlobError Glob :=
  match fuel, s with
  | 0, _ | _, [] => .ok []
  | fuel + 1, '?' :: rest =>
    (parseFrom fuel (position + 1) (some '?') rest).map (.anyChar :: ·)
  | fuel + 1, '*' :: rest =>
    let more := rest.takeWhile (· == '*')
    let after := rest.drop more.length
    if 2 ≤ more.length then .error (.wildcards (position + 2))
    else if more.length = 1 then
      if previous.any (· != '/') then .error (.directories (position - 1))
      else
        match after with
        | [] => .ok [.anyDirectories]
        | '/' :: rest =>
          (parseFrom fuel (position + 3) (some '/') rest).map (.anyDirectories :: ·)
        | _ => .error (.directories (position + 2))
    else (parseFrom fuel (position + 1) (some '*') after).map (.anyText :: ·)
  | fuel + 1, '[' :: rest =>
    match takeSet rest with
    | some (set, after) =>
      let width := 1 + (rest.length - after.length)
      (parseFrom fuel (position + width) (some ']') after).map (set :: ·)
    | none => .error (.brackets position)
  | fuel + 1, c :: rest => (parseFrom fuel (position + 1) (some c) rest).map (.char c :: ·)

def parse (s : List Char) : Except GlobError Glob := parseFrom s.length 0 none s

/-- Whether a test holds of a rest of the text. -/
def anySuffix (test : List Char → Bool) : List Char → Bool
  | [] => test []
  | c :: rest => test (c :: rest) || anySuffix test rest

def accepts : Glob → List Char → Bool
  | [], s => s.isEmpty
  | .char x :: rest, s => s.head? == some x && accepts rest s.tail
  | .anyChar :: rest, s => !s.isEmpty && accepts rest s.tail
  | .within set :: rest, s => s.head?.any (fun c => set.any (·.holds c)) && accepts rest s.tail
  | .except set :: rest, s => s.head?.any (fun c => !set.any (·.holds c)) && accepts rest s.tail
  | .anyText :: rest, s | .anyDirectories :: rest, s => anySuffix (accepts rest) s

/-- The name that a pattern without wildcards spells. -/
def literal? : Glob → Option (List Char)
  | [] => some []
  | .char c :: rest => (literal? rest).map (c :: ·)
  | _ => none

def isRecursive (g : Glob) : Bool := g.contains .anyDirectories

example : ((parse "a*[!b-d]?".toList).map (accepts · "axxez".toList)).toOption = some true := by
  decide +kernel

end Glob

end CallArchive.Files
