import PocketKernel.Volume.Path

/-!
# Paths from a working directory

The shell turns every path that it is given into an absolute one before it uses it. It does so by
the text alone: empty segments and `.` are dropped, `..` takes back the segment before it, and
stays at the root when there is none. A result that is too long is refused.

## Main definitions

* `Path.fold`: the segments that are left.
* `Path.absolute`: segments as an absolute path.
* `Path.resolve?`: the absolute path that a path means in a working directory.
-/

namespace PocketKernel.Path

/-- The bytes that an absolute path has to stay below. -/
def pathLimit : Nat := 256

/-- Follow one segment. -/
def follow (reached : List Text) (segment : Text) : List Text :=
  if segment = [] || segment = ['.'] then reached
  else if segment = ['.', '.'] then reached.dropLast
  else reached ++ [segment]

/-- The segments that are left when some are followed from the root. -/
def fold (segments : List Text) : List Text := segments.foldl follow []

/-- Segments as an absolute path. -/
def absolute : List Text → Text
  | [] => ['/']
  | segments => segments.flatMap fun segment => '/' :: segment

/-- The path starts at the root. -/
def isAbsolute (path : Text) : Bool := path.head? = some '/'

/-- The absolute path that a path means in a working directory, unless it is too long. -/
def resolve? (directory path : Text) : Option Text :=
  let start := if isAbsolute path then [] else directory.splitOn '/'
  let result := absolute (fold (start ++ path.splitOn '/'))
  if Text.utf8Size result < pathLimit then some result else none

example : resolve? "/a/b".toList "../c".toList = some "/a/c".toList := by rfl
example : resolve? "/a".toList "../../..".toList = some "/".toList := by rfl
example : resolve? "/a".toList "//b/./c/".toList = some "/b/c".toList := by rfl

end PocketKernel.Path
