import Highlight.Text

/-!
# Paths

The last part of a path with slashes, and its extension. Empty parts and single dots do
not count, so `a//b/.` ends in `b`; a path that goes up at its end names no file.
-/

namespace Highlight.Path

def splitOnSlash : Text → List Text
  | [] => [[]]
  | c :: t =>
    match splitOnSlash t with
    | [] => [[c]]
    | p :: ps => if c = '/' then [] :: p :: ps else (c :: p) :: ps

def fileName? (path : Text) : Option Text :=
  match ((splitOnSlash path).filter fun p => p ≠ [] ∧ p ≠ ['.']).getLast? with
  | some p => if p = ['.', '.'] then none else some p
  | none => none

def splitLastDot? : Text → Option (Text × Text)
  | [] => none
  | c :: t =>
    match splitLastDot? t with
    | some (before, after) => some (c :: before, after)
    | none => if c = '.' then some ([], t) else none

/-- What stands behind the last dot of the file name, if something stands in front. -/
def extension? (path : Text) : Option Text :=
  match (fileName? path).bind splitLastDot? with
  | some (before, after) => if before = [] then none else some after
  | none => none

end Highlight.Path
