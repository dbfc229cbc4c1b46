import Debundle.Text.Quoted

/-!
# Names in the forest

A directory whose name is not known has a placeholder for a name, made of its child's id.

* `compressParents`: the short form of a placeholder with several `parent` in front.
* `NameConflict`: two names that were claimed for one node.
-/

namespace Debundle.Forest

/-- The word that placeholders begin with. -/
def parentWord : Text := "parent"

/-- The id of the directory that is made for a node. -/
def parentIdOf (id : Text) : Text := parentWord ++ "-" ++ id

/-- `parent-…-parent-leaf` with at least two parents becomes `parentN-leaf`, where `N` counts
them; every other name stays. -/
def compressParents (name : Text) : Text :=
  let parts := Text.split '-' name
  let leading := (parts.dropLast.takeWhile (· == parentWord)).length
  if 2 ≤ leading && leading + 1 == parts.length then
    parentWord ++ Text.ofNat leading ++ "-" ++ parts.getLastD []
  else name

/-- What two names disagree about. -/
inductive ConflictKind where
  /-- The name of a file. -/
  | file
  /-- The name of a directory. -/
  | directory
  /-- The name of a directory that two branches turn out to share. -/
  | parentDirectory
deriving DecidableEq, Repr

/-- What a conflict is about, in words. -/
def ConflictKind.name : ConflictKind → Text
  | .file => "file"
  | .directory => "directory"
  | .parentDirectory => "parent directory"

/-- Two names that were claimed for one node. -/
structure NameConflict where
  /-- What they disagree about. -/
  kind : ConflictKind
  /-- The id of the node. -/
  node : Text
  /-- The name it keeps. -/
  kept : Text
  /-- The name it does not get. -/
  rejected : Text
deriving DecidableEq, Repr

/-- What is said about two names that were claimed for one node. -/
def describeConflict (kind node kept rejected : Text) : Text :=
  "Conflicting " ++ kind ++ " names for node " ++ node ++ ": kept " ++ kept.quoted ++ ", rejected "
    ++ rejected.quoted

/-- What is said about a conflict. -/
def NameConflict.describe (c : NameConflict) : Text :=
  describeConflict c.kind.name c.node c.kept c.rejected

end Debundle.Forest
