import Debundle.Bundle.Amd
import Debundle.Bundle.Packed

/-!
# Bundles inside bundles

A module of a bundle may be a bundle itself.  A stack holds the modules that are still to be
looked at: a bundle on it is replaced by its modules, and what is no bundle is given out.  Every
path is looked at once.

A packed bundle gives out all modules that the session knows, so a module that is a bundle and
asks for itself can keep the stack growing for ever.  The number of steps is therefore limited,
and running out of them is a failure of its own.

* `Progress`: the paths that were looked at, and the session.
* `expand`: the modules of a bundle; none for a leaf.
* `workOff`: works off a stack.
* `Candidate`, `unpackCandidate`: an input that need not be well-formed.
-/

namespace Debundle

open Script

/-- How far the unpacking has come. -/
structure Progress where
  /-- The paths that were looked at. -/
  seen : List Scalar
  /-- The session, once there was a packed bundle. -/
  session : Option Session
deriving DecidableEq, Repr

namespace Progress

/-- Before the first module. -/
def start : Progress := ⟨[], none⟩

/-- Whether a path was looked at. -/
def hasSeen (p : Progress) (path : Scalar) : Bool := p.seen.any (·.sameKey path)

/-- Remembers a path. -/
def mark (p : Progress) (path : Scalar) : Progress := { p with seen := p.seen ++ [path] }

end Progress

/-- An action of the unpacking. -/
abbrev UnpackStep (α : Type) := Action Progress Fault α

/-- An action on the session, which begins now if it has not begun. -/
def onSession {α : Type} (a : SessionStep α) : UnpackStep α :=
  Action.within (fun p => p.session.getD Session.empty) (fun s p => { p with session := some s }) a

/-- The modules of a bundle of a kind. -/
def unpackKind (kind : BundleKind) (source : Source) : UnpackStep (List SourceModule) :=
  match kind with
  | .packed => onSession (unpackPacked source)
  | .amd => unpackAmd source
  | .leaf => return []

/-- The modules of a bundle; a leaf, and a source that is no script, has none. -/
def expand (m : SourceModule) : UnpackStep (List SourceModule) := do
  match Source.parse m.source with
  | .error e =>
    Action.say .warning Channel.unpack
      ("Failed to parse module at " ++ m.path.display ++ ", keeping as is: " ++ e.message)
    return []
  | .ok source =>
    let kind ← Action.ofExcept ((BundleKind.ofStatements source.statements).mapError Fault.literal)
    if kind != .leaf then
      Action.say .debug Channel.unpack
        ("Unpacking " ++ m.path.display ++ " as a " ++ kind.name ++ " bundle")
    unpackKind kind source

/-- Works off a stack of modules in at most `fuel` steps, and gives out the leaves. -/
def workOff : Nat → List SourceModule → UnpackStep (List SourceModule)
  | _, [] => return []
  | 0, _ :: _ => Action.fail .exhausted
  | fuel + 1, m :: stack => do
    if (← Action.get).hasSeen m.path then workOff fuel stack
    else
      Action.modify (·.mark m.path)
      match ← expand m with
      | [] => return m :: (← workOff fuel stack)
      | first :: rest => workOff fuel (first :: rest ++ stack)

/-! ## Inputs -/

/-- An input as it was given: its path and its source may be anything. -/
structure Candidate where
  /-- Its path. -/
  path : Value
  /-- Its source. -/
  source : Value
  /-- Its id, if it has one. -/
  id : Option Text

/-- A value that counts as given, or the empty text. -/
def orEmpty (v : Option Value) : Value :=
  match v with
  | some v => if v.isTruthy then v else .scalar (.text [])
  | none => .scalar (.text [])

/-- The input that a mapping describes by its entries `path`, `source` and `id`. -/
def Candidate.ofMapping (m : Mapping) : Candidate :=
  let id :=
    match m.get? (.text "id") with
    | none | some (.scalar .null) => none
    | some v => some v.display
  ⟨orEmpty (m.get? (.text "path")), orEmpty (m.get? (.text "source")), id⟩

/-- Unpacks an input into its leaves.  An input whose path was looked at is passed over; a path
has to be a scalar and the source a text. -/
def unpackCandidate (fuel : Nat) (c : Candidate) : UnpackStep (List SourceModule) := do
  match c.path with
  | .scalar path =>
    if (← Action.get).hasSeen path then return []
    else
      match c.source with
      | .scalar (.text source) => workOff fuel [⟨path, source, c.id⟩]
      | _ =>
        Action.modify (·.mark path)
        Action.fail .badSource
  | _ => Action.fail .badPath

end Debundle
