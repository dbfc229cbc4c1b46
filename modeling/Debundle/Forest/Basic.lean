import Debundle.Forest.Name
import Debundle.Path.Normal

/-!
# The forest of files and directories

Bundles do not say where their modules came from; they say by which relative paths the modules
ask for one another.  Out of these paths a forest of files and directories is grown.  Its nodes
are kept in the order in which they came, and refer to one another by id.

* `Forest.Item`: a file or directory.
* `Forest`: the items, and the conflicts between the names claimed for them.
* `Forest.lineage`: an item and what is above it, up to a root.
* `Forest.pathOf`: the path of an item from its root.
-/

namespace Debundle

namespace Forest

/-- A file or directory. -/
structure Item where
  /-- Its id; never empty. -/
  id : Text
  /-- Its name. -/
  name : Text
  /-- Whether it is a file. -/
  isFile : Bool
  /-- Whether the name is a placeholder. -/
  isPlaceholder : Bool
  /-- The id of the directory it is in. -/
  parent : Option Text
  /-- The ids of the items in it. -/
  children : List Text
deriving DecidableEq, Repr

/-- The name of an item in a path: placeholders in short form. -/
def Item.displayName (i : Item) : Text :=
  if i.isPlaceholder then compressParents i.name else i.name

end Forest

/-- A forest of files and directories. -/
structure Forest where
  /-- The items in the order in which they came. -/
  items : List Forest.Item
  /-- The conflicts in the order in which they were found. -/
  conflicts : List Forest.NameConflict
deriving DecidableEq, Repr

namespace Forest

/-- The forest without items. -/
def empty : Forest := ⟨[], []⟩

/-! ## Looking up -/

/-- The item with an id. -/
def find? (f : Forest) (id : Text) : Option Item := f.items.find? (·.id == id)

/-- Whether there is an item with an id. -/
def has (f : Forest) (id : Text) : Bool := (f.find? id).isSome

/-- The id of the directory that an item is in. -/
def parentId? (f : Forest) (id : Text) : Option Text := (f.find? id).bind Item.parent

/-- The directory that an item is in. -/
def parent? (f : Forest) (id : Text) : Option Item := (f.parentId? id).bind f.find?

/-- The ids of the items in a directory. -/
def childrenOf (f : Forest) (id : Text) : List Text := ((f.find? id).map Item.children).getD []

/-- An item and what is above it, at most `fuel` of them. -/
def lineageFor (f : Forest) : Nat → Text → List Item
  | 0, _ => []
  | fuel + 1, id =>
    match f.find? id with
    | none => []
    | some item =>
      item ::
        match item.parent with
        | none => []
        | some above => lineageFor f fuel above

/-- An item and what is above it, up to a root.  No lineage is longer than the forest has items. -/
def lineage (f : Forest) (id : Text) : List Item := lineageFor f f.items.length id

/-- Whether an item is another one or above it. -/
def isAtOrAbove (f : Forest) (candidate id : Text) : Bool :=
  (f.lineage id).any (·.id == candidate)

/-- The number of items from an item up to its root, both included. -/
def depth (f : Forest) (id : Text) : Nat := (f.lineage id).length

/-- The path that some names make, the name of the item itself first. -/
def pathOfNames : List Text → Text
  | [name] => name
  | names =>
    let joined := Text.join [Path.slash] (names.reverse.filter fun n => !n.isEmpty)
    if joined.isEmpty then Path.here else Path.normalKeepingSlash joined

/-- The path of an item from its root. -/
def pathOf (f : Forest) (id : Text) : Text := pathOfNames ((f.lineage id).map Item.displayName)

/-! ## Changing -/

/-- Changes the item with an id. -/
def update (f : Forest) (id : Text) (change : Item → Item) : Forest :=
  { f with items := f.items.map fun i => if i.id == id then change i else i }

/-- Adds an item at the end. -/
def insert (f : Forest) (item : Item) : Forest := { f with items := f.items ++ [item] }

/-- Records a conflict. -/
def record (f : Forest) (c : NameConflict) : Forest := { f with conflicts := f.conflicts ++ [c] }

/-- Gives an item a name for good. -/
def settle (f : Forest) (id name : Text) : Forest :=
  f.update id fun i => { i with name := name, isPlaceholder := false }

/-- Moves an item out of the directory it is in and into another one. -/
def move (f : Forest) (child parent : Text) : Forest :=
  let f :=
    match f.parentId? child with
    | none => f
    | some old => f.update old fun i => { i with children := i.children.erase child }
  let f := f.update child fun i => { i with parent := some parent }
  f.update parent fun i =>
    if i.children.contains child then i else { i with children := i.children ++ [child] }

end Forest

end Debundle
