import Debundle.Forest.Basic
import Debundle.Journal.Action

/-!
# Growing the forest

The single steps by which a forest grows.  Each of them keeps it a forest: an item is never put
below itself, and a name that is settled stays.

* `Forest.addItem`: a new file or directory.
* `Forest.attach`: puts an item into a directory, unless that would make a cycle.
* `Forest.addParent`: makes the directory above an item.
* `Forest.claimName`: settles the name of an item, or records the conflict.
-/

namespace Debundle.Forest

/-! ## Failures -/

/-- Why the forest cannot be changed as asked. -/
inductive Error where
  /-- The empty id. -/
  | emptyId
  /-- An id that is taken. -/
  | taken (id : Text)
  /-- An id that no item has. -/
  | missing (id : Text)
  /-- A path that cannot lead to a file. -/
  | badPath (path : Text)
  /-- A path to a file with the empty id. -/
  | badTarget
  /-- A directory that is below the item it should be above. -/
  | cycle (child parent : Text)
deriving DecidableEq, Repr

/-- What is said when the forest cannot be changed as asked. -/
def Error.message : Error → Text
  | .emptyId => "Invalid node id: ''"
  | .taken id => "Node with id " ++ id ++ " already exists"
  | .missing id => "Node with id " ++ id ++ " does not exist"
  | .badPath path => "Invalid require path: " ++ path.quoted
  | .badTarget => "Invalid require file id: ''"
  | .cycle child parent => "Cannot place " ++ child ++ " under " ++ parent ++ " without a cycle"

/-- An action on a forest. -/
abbrev Step (α : Type) := Action Forest Error α

/-- Makes an entry about the forest. -/
def say (level : Level) (message : Text) : Step Unit := Action.say level Channel.forest message

/-! ## Items -/

/-- The item with an id. -/
def get (id : Text) : Step Item := do
  match (← Action.get).find? id with
  | some item => return item
  | none => Action.fail (.missing id)

/-- Adds an item. -/
def addItem (id name : Text) (isFile isPlaceholder : Bool) : Step Item := do
  let f ← Action.get
  if id.isEmpty then Action.fail .emptyId
  else if f.has id then Action.fail (.taken id)
  else
    let item : Item := ⟨id, name, isFile, isPlaceholder, none, []⟩
    Action.set (f.insert item)
    return item

/-- Adds a file. -/
def addFile (id name : Text) (isPlaceholder : Bool) : Step Item := addItem id name true isPlaceholder

/-- Adds a directory. -/
def addDirectory (id name : Text) (isPlaceholder : Bool) : Step Item :=
  addItem id name false isPlaceholder

/-! ## Places -/

/-- Puts an item into a directory, and says whether it could be done: an item is not put below
itself. -/
def attach (child parent : Text) : Step Bool := do
  let f ← Action.get
  if f.parentId? child == some parent then return true
  else if f.isAtOrAbove child parent then
    say .debug ("Refusing to move " ++ child ++ " under its own descendant " ++ parent)
    return false
  else
    Action.set (f.move child parent)
    return true

/-- Makes sure of the directory that is made for an item: it gets the name if one is given and it
has none yet, and is a placeholder for itself otherwise. -/
def ensureParent (parent : Text) (name : Option Text) : Step Unit := do
  let f ← Action.get
  match f.find? parent, name with
  | none, some n =>
    let _ ← addDirectory parent n false
  | none, none =>
    let _ ← addDirectory parent parent true
  | some existing, some n => if existing.isPlaceholder then Action.set (f.settle parent n)
  | some _, none => return ()

/-- Puts an item into the directory that is made for it, and gives the id of that directory.  An
empty name is none. -/
def addParent (child : Text) (name : Option Text) : Step Text := do
  let parent := parentIdOf child
  ensureParent parent (name.filter fun n => !n.isEmpty)
  if ← attach child parent then return parent
  else Action.fail (.cycle child parent)

/-! ## Names -/

/-- Settles the name of an item.  If it has another name already that one stays, the conflict is
recorded, and the answer is no. -/
def claimName (item : Item) (name : Text) (kind : ConflictKind) : Step Bool := do
  if item.isPlaceholder then
    Action.modify (·.settle item.id name)
    return true
  else if item.name != name then
    let conflict : NameConflict := ⟨kind, item.id, item.name, name⟩
    Action.modify (·.record conflict)
    say .warning conflict.describe
    return false
  else return true

end Debundle.Forest
