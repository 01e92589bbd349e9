import CallArchive.Text.Cut

/-!
# Dot segments

The segments of a path stand between its slashes. `removeDotSegments` drops each segment `.` and
drops each segment `..` together with the one kept before it; a path that ends in such a segment
keeps its final slash, unless nothing is left before it. A text without a leading slash stays as
it is.
-/

namespace CallArchive.Address

def dot : List Char := ['.']

def dotDot : List Char := ['.', '.']

/-- The segments kept, last first, and whether the path ended in a dot segment. -/
def keepSegments (kept : List (List Char)) : List (List Char) → List (List Char) × Bool
  | [] => (kept, false)
  | segment :: rest =>
    if segment = dot then
      if rest.isEmpty then (kept, true) else keepSegments kept rest
    else if segment = dotDot then
      if rest.isEmpty then (kept.tail, true) else keepSegments kept.tail rest
    else keepSegments (segment :: kept) rest

def removeDotSegments : List Char → List Char
  | '/' :: body =>
    let (kept, open?) := keepSegments [] (Text.segments '/' body)
    let slash := if open? && !kept.isEmpty then ['/'] else []
    '/' :: (Text.join '/' kept.reverse ++ slash)
  | path => path

example : removeDotSegments "/a/b/../c/.".toList = "/a/c/".toList := by decide

example : removeDotSegments "/../..".toList = "/".toList := by decide

end CallArchive.Address
