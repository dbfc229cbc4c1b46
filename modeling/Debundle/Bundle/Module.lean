import Debundle.Data.Value
import Debundle.Factory
import Debundle.Forest.Growth
import Debundle.Script.Literal

/-!
# Modules and what can go wrong with them

* `SourceModule`: a source with the path it is to be written to.
* `EntryFlaw`: why one module of a bundle is left out; the rest of the bundle is not affected.
* `Fault`: why the unpacking as a whole is given up.
-/

namespace Debundle

open Script

/-- A source with the path it is to be written to.  Paths are texts, except that whoever asks for
the unpacking may name its input by any scalar.  A module out of a packed bundle has the id by
which it is recognised in other bundles. -/
structure SourceModule where
  /-- Where it is to be written. -/
  path : Scalar
  /-- The source. -/
  source : Text
  /-- The id, if it has one. -/
  id : Option Text
deriving DecidableEq, Repr

/-- Why one module of a bundle is left out. -/
inductive EntryFlaw where
  /-- Its factory is no script. -/
  | unparsable (e : ParseError)
  /-- Its factory is a script, but no factory. -/
  | factory (f : FactoryFlaw)
  /-- The table of modules has something else in it. -/
  | notAPair (kind : Kind)
  /-- The id of the module is computed or empty. -/
  | noId
  /-- What it asks for is not written as an object. -/
  | dependenciesNotObject (id : Text)
  /-- The object has something else than pairs in it. -/
  | dependencyNotAPair (kind : Kind) (id : Text)
  /-- The path by which it asks is computed. -/
  | computedPath (id : Text)
deriving DecidableEq, Repr

/-- What is said about a module that is left out. -/
def EntryFlaw.message : EntryFlaw → Text
  | .unparsable e => e.message
  | .factory f => f.message
  | .notAPair kind => "unexpected " ++ kind.name ++ " in module map"
  | .noId => "module map entry has a computed or empty key"
  | .dependenciesNotObject id => "dependency map of " ++ id ++ " is not an object literal"
  | .dependencyNotAPair kind id => "unexpected " ++ kind.name ++ " in dependency map of " ++ id
  | .computedPath id => "computed key in dependency map of " ++ id

/-- Why the unpacking is given up. -/
inductive Fault where
  /-- A literal has no value. -/
  | literal (e : LiteralError)
  /-- A source has no digest. -/
  | noDigest
  /-- A source cannot be put together. -/
  | unedited (e : EditError)
  /-- The forest cannot be changed. -/
  | forest (e : Forest.Error)
  /-- The path of an input is a list or a mapping. -/
  | badPath
  /-- The source of an input is no text. -/
  | badSource
  /-- The number of steps that were allowed is used up. -/
  | exhausted
deriving DecidableEq, Repr

/-- Why a module of a bundle cannot be read. -/
inductive EntryError where
  /-- The module is left out. -/
  | flaw (f : EntryFlaw)
  /-- The unpacking is given up. -/
  | fault (f : Fault)
deriving DecidableEq, Repr

/-- Whether a factory that cannot be restored is left out or stops everything. -/
def FactoryError.toEntryError : FactoryError → EntryError
  | .unparsable e => .flaw (.unparsable e)
  | .malformed f => .flaw (.factory f)
  | .unedited e => .fault (.unedited e)

/-- An action that reads a module of a bundle, on a state that it may change. -/
abbrev EntryStep (σ α : Type) := Action σ EntryError α

/-- The source of the module that a factory makes, with entries about the renamed parameters. -/
def restoreEntry {σ : Type} (code : Text) : EntryStep σ Text := do
  let restored ← Action.ofExcept ((restore code).mapError FactoryError.toEntryError)
  Action.sayAll (restored.renamed.map ParameterRename.entry)
  return restored.source

/-- The value of a literal; without one everything stops. -/
def literalEntry {σ α : Type} (x : Except LiteralError α) : EntryStep σ α :=
  Action.ofExcept (x.mapError fun e => .fault (.literal e))

/-- Leaves the module out. -/
def leaveOut {σ α : Type} (f : EntryFlaw) : EntryStep σ α := Action.fail (.flaw f)

end Debundle
