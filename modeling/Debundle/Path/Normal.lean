import Debundle.Text.Basic

/-!
# Normal paths

A path is read as a list of components between slashes.  Empty components and `.` mean nothing,
and `..` takes back the component before it; what cannot be taken back stays in front, or is
lost at the root.

* `Path.resolve`: the components that a list of components comes to.
* `Path.normal`: the shortest path with the same meaning.
* `Path.normalKeepingSlash`: the same, with a slash at the end if the path has one.
* `Path.normalRequire`: the normal form of the path by which one module asks for another.
-/

namespace Debundle.Path

/-- The separator of components. -/
def slash : CodePoint := '/'

/-- The component that stands for the directory itself. -/
def here : Text := "."

/-- The component that stands for the directory above. -/
def up : Text := ".."

/-- Adds one component to a path whose components are kept with the last one first. -/
def push (rooted : Bool) (stack : List Text) (component : Text) : List Text :=
  if component.isEmpty || component == here then stack
  else if component != up then component :: stack
  else
    match stack with
    | [] => if rooted then [] else [up]
    | last :: below => if last == up then up :: stack else below

/-- The components that a list of components comes to; at the root nothing is above. -/
def resolve (rooted : Bool) (components : List Text) : List Text :=
  (components.foldl (push rooted) []).reverse

/-- The slashes at the front that count: two stay two, any other number is one. -/
def leadingSlashes (path : Text) : Nat :=
  match path with
  | a :: b :: rest =>
    if a != slash then 0
    else if b == slash && rest.head? != some slash then 2
    else 1
  | [a] => if a == slash then 1 else 0
  | [] => 0

/-- The shortest path with the same meaning; a path to nowhere else is `.`. -/
def normal (path : Text) : Text :=
  let slashes := leadingSlashes path
  let body := Text.join [slash] (resolve (slashes != 0) (Text.split slash path))
  let result := List.replicate slashes slash ++ body
  if result.isEmpty then here else result

/-- The shortest path with the same meaning, with one slash at the front if it has any, and with
a slash at the end if the path has one. -/
def normalKeepingSlash (path : Text) : Text :=
  if path.isEmpty then here
  else
    let result := normal path
    let result :=
      if Text.startsWith result "//" then slash :: result.dropWhile (· == slash) else result
    if Text.endsWith path "/" && !Text.endsWith result "/" then result ++ "/" else result

/-- The normal form of the path by which a module asks for another: a path that starts with `./`
still shows that it is relative. -/
def normalRequire (path : Text) : Text :=
  let result := normalKeepingSlash path
  if Text.startsWith path "./" && !Text.startsWith result "." then "./" ++ result else result

end Debundle.Path
