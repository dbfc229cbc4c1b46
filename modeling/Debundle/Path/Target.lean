import Debundle.Path.Normal
import Debundle.Text.Quoted

/-!
# Where files go

Modules are written below an output directory.  Their paths come out of bundles, so a path that
would leave the directory is refused.

* `Path.withSuffix`: a path with an ending.
* `Path.safeComponents?`: the components of a path inside the directory.
* `Path.safeJoin`: the place of a module below the directory.
-/

namespace Debundle.Path

/-- The path with an ending, unless it has it. -/
def withSuffix (path suffix : Text) : Text :=
  if Text.endsWith path suffix then path else path ++ suffix

/-- A path that leads out of the output directory. -/
structure Refusal where
  /-- The path. -/
  path : Text
deriving DecidableEq, Repr

/-- What is said of a path that leads out of the output directory. -/
def Refusal.message (r : Refusal) : Text :=
  "Refusing to write outside the output directory: " ++ r.path.quoted

/-- The components of a path inside a directory, if it stays inside and is not the directory
itself.  Backslashes count as slashes, and a path from the root is taken from the directory. -/
def safeComponents? (relative : Text) : Option (List Text) :=
  let path := (normal (Text.replace '\\' slash relative)).dropWhile (· == slash)
  if path.isEmpty || path == here || path == up || Text.startsWith path "../" then none
  else some (Text.split slash path)

/-- A path with one more component. -/
def child (root component : Text) : Text :=
  if Text.startsWith component "/" then component
  else if root.isEmpty || Text.endsWith root "/" then root ++ component
  else root ++ "/" ++ component

/-- The place of a path below a directory. -/
def safeJoin (root relative : Text) : Except Refusal Text :=
  match safeComponents? relative with
  | none => .error ⟨relative⟩
  | some components => .ok (components.foldl child root)

end Debundle.Path
