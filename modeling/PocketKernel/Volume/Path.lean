import PocketKernel.Text.Utf8
import PocketKernel.Volume.Error

/-!
# Paths

A path is read as a row of segments between slashes. Empty segments and `.` mean nothing and are
dropped; `..` stays, because what it leads to is up to the directories on the disk. A path is
refused if it has more than eight segments that count or one of 32 bytes or more, since a stored
name has to leave room for the zero byte behind it.

## Main definitions

* `Path.components`: the segments that a walk follows.
* `Path.basename`: the last segment that is not empty.
* `Path.leafName`: the name that a new entry at this path would get.
-/

namespace PocketKernel.Path

/-- The bytes set aside for a name, the zero byte behind it included. -/
def nameLimit : Nat := 32

/-- How many segments a walk may follow. -/
def depthLimit : Nat := 8

/-- The segments of a path that count: neither empty nor `.`. -/
def segments (path : Text) : List Text :=
  (path.splitOn '/').filter fun segment => segment != [] && segment != ['.']

/-- The segments that a walk along the path follows. -/
def components (path : Text) : Except VolumeError (List Text) :=
  let parts := segments path
  if parts.length ≤ depthLimit && parts.all (Text.utf8Size · < nameLimit) then
    .ok parts
  else
    .error .invalidPath

/-- The last segment that is not empty, or `/` if there is none. -/
def basename (path : Text) : Text :=
  ((path.splitOn '/').filter (· != [])).getLast?.getD ['/']

/-- The name of a new entry at this path. It must be a real name: not the root, `.` or `..`. -/
def leafName (path : Text) : Except VolumeError Text :=
  let leaf := basename path
  if leaf = ['/'] || leaf = ['.'] || leaf = ['.', '.'] || Text.utf8Size leaf ≥ nameLimit then
    .error .invalidPath
  else
    .ok leaf

example : components "//a/./b/".toList = .ok ["a".toList, "b".toList] := by rfl
example : components "a/../b".toList = .ok ["a".toList, "..".toList, "b".toList] := by rfl
example : components "/1/2/3/4/5/6/7/8/9".toList = .error .invalidPath := by rfl
example : basename "/home/".toList = "home".toList := by rfl
example : basename "///".toList = "/".toList := by rfl
example : leafName "/home/..".toList = .error .invalidPath := by rfl

end PocketKernel.Path
