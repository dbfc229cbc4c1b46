import Debundle.Forest.Merge

/-!
# Evidence from require paths

That module `current` asks for module `target` by a path says two things: how the file of
`target` and the directories right above it are called, and which directory above `target` is the
same as which directory above `current`.

* `Forest.nameUpwards`: names the directories above the target.
* `Forest.climb`: goes up from the asking module, as many levels as the path says.
* `Forest.require`: takes one require path into the forest.
-/

namespace Debundle.Forest

/-- Names the directories above an item by the given components, the nearest first, up to the
first component that is `.` or `..`.  Gives the item where the names end and the components that
are left, the nearest first; if a name is refused, nothing is left. -/
def nameUpwards : Text → List Text → Step (Text × List Text)
  | branch, [] => return (branch, [])
  | branch, component :: rest => do
    if component == Path.here || component == Path.up then return (branch, component :: rest)
    else
      match (← Action.get).parent? branch with
      | none =>
        let above ← addParent branch (some component)
        nameUpwards above rest
      | some above =>
        if ← claimName above component .directory then nameUpwards above.id rest
        else return (branch, [])

/-- Goes up one level for each `..`, making directories where there are none. -/
def climb (path : Text) : Text → List Text → Step Text
  | branch, [] => return branch
  | branch, component :: rest => do
    if component == Path.here then climb path branch rest
    else if component != Path.up then Action.fail (.badPath path)
    else
      match (← Action.get).parentId? branch with
      | some above => climb path above rest
      | none =>
        let above ← addParent branch none
        climb path above rest

/-- Makes sure of a file. -/
def ensureFile (id name : Text) (isPlaceholder : Bool) : Step Unit := do
  if !(← Action.get).has id then
    let _ ← addFile id name isPlaceholder

/-- Takes into the forest that `current` asks for `target` by a path. -/
def require (current target path : Text) : Step Unit := do
  if path.isEmpty || Text.endsWith path "/" then Action.fail (.badPath path)
  else if target.isEmpty then Action.fail .badTarget
  else
    let components := Text.split Path.slash (Path.normalKeepingSlash path)
    say .debug ("Resolving " ++ current ++ " -> " ++ target ++ " via " ++ path)
    let baseName := components.getLastD []
    ensureFile target baseName false
    let file ← get target
    if !(← claimName file baseName .file) then
      say .debug ("Keeping file name " ++ file.name ++ " for " ++ target ++ " (referrer " ++ current ++ ")")
    let (branch, left) ← nameUpwards target components.dropLast.reverse
    if left.isEmpty && !Text.startsWith path "." then return ()
    else
      ensureFile current current true
      let own ← climb path current left.reverse
      merge branch own

end Debundle.Forest
