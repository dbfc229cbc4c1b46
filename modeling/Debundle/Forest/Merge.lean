import Debundle.Forest.Growth
import Debundle.Ranking

/-!
# Merging branches

When two items turn out to be in the same directory, the directories above them are the same
too, level by level.  Of each two directories the better known one survives and takes over the
children of the other.

* `Forest.MergeRank`: how well a directory is known.
* `Forest.adoptChildren`: one directory takes over the children of another.
* `Forest.mergeUp`: merges level by level as long as both branches have one.
* `Forest.merge`: makes two items share their directory.
-/

namespace Debundle.Forest

/-- How well a directory is known: a settled name is better than a placeholder, then fewer
levels above it or a shorter placeholder are better. -/
structure MergeRank where
  /-- Whether the name is settled. -/
  settled : Bool
  /-- The smaller, the better. -/
  burden : Nat
deriving DecidableEq, Repr

/-- Whether one rank is above another. -/
def MergeRank.above (a b : MergeRank) : Bool :=
  (a.settled && !b.settled) || (a.settled == b.settled && a.burden < b.burden)

/-- The rank of a directory. -/
def mergeRank (f : Forest) (item : Item) : MergeRank :=
  if item.isPlaceholder then ⟨false, (compressParents item.name).length⟩
  else ⟨true, f.depth item.id⟩

/-- Moves items into a directory, except those that are in it already. -/
def adopt (survivor : Text) : List Text → Step Unit
  | [] => return ()
  | child :: rest => do
    let f ← Action.get
    if !(f.childrenOf survivor).contains child then
      let _ ← attach child survivor
    adopt survivor rest

/-- One directory takes over the children of another. -/
def adoptChildren (survivor discarded : Text) : Step Unit := do
  adopt survivor ((← Action.get).childrenOf discarded)

/-- Merges two directories. -/
def mergeDirectories (p q : Item) : Step Unit := do
  let f ← Action.get
  let above (a b : Item) : Bool := (mergeRank f a).above (mergeRank f b)
  let (survivor, discarded) := prefer above p q
  if !p.isPlaceholder && !q.isPlaceholder && p.name != q.name then
    Action.modify (·.record ⟨.parentDirectory, survivor.id, survivor.name, discarded.name⟩)
    say .warning
      ("Conflicting parent paths: " ++ p.name ++ " vs " ++ q.name ++ ", merged into " ++ survivor.name)
  adoptChildren survivor.id discarded.id

/-- Merges the directories above two items, level by level and at most `fuel` levels, and gives
the items at which no two different directories are left to merge. -/
def mergeUp : Nat → Text → Text → Step (Text × Text)
  | 0, first, second => return (first, second)
  | fuel + 1, first, second => do
    let f ← Action.get
    match f.parent? first, f.parent? second with
    | some p, some q =>
      if p.id == q.id then return (first, second)
      else
        mergeDirectories p q
        mergeUp fuel p.id q.id
    | _, _ => return (first, second)

/-- Gives an item without a directory the one that the other item has; if both have none, one is
made. -/
def joinRoots (first second : Text) : Step Unit := do
  let f ← Action.get
  match f.parentId? first, f.parentId? second with
  | some _, some _ => return ()
  | none, some shared =>
    let _ ← attach first shared
  | some shared, none =>
    let _ ← attach second shared
  | none, none =>
    let shared ← addParent second none
    let _ ← attach first shared

/-- Makes two items share their directory, and merges the directories above them.  There are
fewer levels than items. -/
def merge (first second : Text) : Step Unit := do
  let f ← Action.get
  let (first, second) ← mergeUp f.items.length first second
  joinRoots first second

end Debundle.Forest
