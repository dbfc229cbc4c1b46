import Debundle.Session.Basic

/-!
# Dependencies

The same module may be asked for as `./util`, `./util/index` or `./util/index.js`.  The more a
path says, the better, so the most specific path decides how all paths to a module are written.

* `fileNameScore`: how specific a path is.
* `extendPath`: a path made as specific as a score demands.
* `Session.resolveDependency`: the path to record for a dependency.
-/

namespace Debundle

/-- How specific a path is: `3` with the ending of the file, `2` with the name `index`, else `1`. -/
def fileNameScore (path : Text) : Nat :=
  if Text.endsWith path ".js" then 3 else if Text.endsWith path "index" then 2 else 1

/-- A path made as specific as a score demands. -/
def extendPath (path : Text) (score : Nat) : Text :=
  let current := fileNameScore path
  let path : Text := if 2 ≤ score && current < 2 then path ++ "/index" else path
  if 3 ≤ score && current < 3 then path ++ ".js" else path

/-- A path to a directory leads to its index. -/
def completePath (path : Text) : Text := if Text.endsWith path "/" then path ++ "index" else path

namespace Session

/-- Whether a referrer has a path for a dependency that a better path replaces. -/
def isOutdated (s : Session) (dependency referrer : Text) : Bool :=
  match s.modules.get? referrer with
  | none => false
  | some record => ((record.dependencies.get? dependency).getD []) != []

/-- Replaces the path for a dependency in the record of a referrer. -/
def setPath (s : Session) (dependency path referrer : Text) : Session :=
  match s.modules.get? referrer with
  | none => s
  | some record =>
    let record := { record with dependencies := record.dependencies.insert dependency path }
    { s with modules := s.modules.insert referrer record }

/-- Replaces the path for a dependency in the records of referrers that have one. -/
def backfill {ε : Type} (dependency path : Text) : List Text → Action Session ε Unit
  | [] => return ()
  | referrer :: rest => do
    let s ← Action.get
    if s.isOutdated dependency referrer then
      say .debug ("Backfilling " ++ referrer ++ " -> " ++ dependency ++ " with " ++ path)
      Action.set (s.setPath dependency path referrer)
    backfill dependency path rest

/-- A set of ids with one more id in it. -/
def addReferrer (id : Text) (ids : List Text) : List Text := if ids.contains id then ids else ids ++ [id]

/-- The path to record for a dependency that a module asks for by a path.  A path more specific
than all before replaces them in the records of earlier referrers. -/
def resolveDependency {ε : Type} (dependency path referrer : Text) : Action Session ε Text := do
  let path := completePath path
  let score := fileNameScore path
  let s ← Action.get
  let final ←
    match s.scores.get? dependency with
    | none =>
      Action.modify fun s => { s with scores := s.scores.insert dependency score }
      pure path
    | some best =>
      if best < score then
        Action.modify fun s => { s with scores := s.scores.insert dependency score }
        let final := extendPath path score
        backfill dependency final ((s.referrers.get? dependency).getD [])
        pure final
      else pure (extendPath path best)
  Action.modify fun s =>
    let known := (s.referrers.get? dependency).getD []
    { s with referrers := s.referrers.insert dependency (addReferrer referrer known) }
  return final

end Session

end Debundle
