import Debundle.Storage.Error

/-!
# Disks

A model of a file system: what stands at every place.  A place is the list of names that lead to
it from the root.  Paths are followed step by step as a system does it, so that `..` leaves the
directory that was really reached, and a path through a file leads nowhere.

* `Item`, `Place`, `Disk`: files and directories by their places.
* `Disk.walk`: the place that a list of names leads to.
* `Disk.makeDirectory`, `Disk.createFile`, `Disk.fillFile`, `Disk.move`, `Disk.removeFile`,
  `Disk.openFile`: the steps that change a disk.
* `Disk.item?_put_self`, `Disk.item?_put_of_ne`, `Disk.item?_erase_of_ne`: what a change does to
  the places.
-/

namespace Debundle

/-- What stands at a place. -/
inductive Item where
  /-- A directory. -/
  | directory
  /-- A file with its content. -/
  | file (content : Bytes)
deriving DecidableEq, Repr

/-- The names that lead from the root to a place. -/
abbrev Place := List Bytes

/-- What stands at every place but the root, which is a directory. -/
structure Disk where
  /-- The items by their places. -/
  items : List (Place × Item)
deriving DecidableEq, Repr

namespace Disk

/-! ## Places -/

/-- The disk with nothing on it. -/
def empty : Disk := ⟨[]⟩

/-- The item that a list has for a place. -/
def find? (place : Place) : List (Place × Item) → Option Item
  | [] => none
  | (p, i) :: rest => if p = place then some i else find? place rest

/-- What stands at a place. -/
def item? (d : Disk) (place : Place) : Option Item :=
  if place = [] then some .directory else find? place d.items

/-- The list with an item at a place: where it was if there was one, at the end otherwise. -/
def putItem (place : Place) (item : Item) : List (Place × Item) → List (Place × Item)
  | [] => [(place, item)]
  | (p, i) :: rest => if p = place then (p, item) :: rest else (p, i) :: putItem place item rest

/-- The disk with an item at a place. -/
def put (d : Disk) (place : Place) (item : Item) : Disk := ⟨putItem place item d.items⟩

/-- The disk without the item at a place. -/
def erase (d : Disk) (place : Place) : Disk := ⟨d.items.filter fun e => e.1 ≠ place⟩

theorem find?_putItem_self (place : Place) (item : Item) (l : List (Place × Item)) :
    find? place (putItem place item l) = some item := by
  induction l with
  | nil => simp [putItem, find?]
  | cons e rest ih =>
    obtain ⟨p, i⟩ := e
    by_cases h : p = place <;> simp [putItem, find?, h, ih]

theorem find?_putItem_of_ne {place other : Place} (item : Item) (l : List (Place × Item))
    (h : other ≠ place) : find? other (putItem place item l) = find? other l := by
  induction l with
  | nil => simp [putItem, find?, Ne.symm h]
  | cons e rest ih =>
    obtain ⟨p, i⟩ := e
    by_cases hp : p = place
    · subst hp
      simp [putItem, find?, Ne.symm h]
    · simp [putItem, find?, hp, ih]

theorem find?_filter_of_ne {place other : Place} (l : List (Place × Item)) (h : other ≠ place) :
    find? other (l.filter fun e => e.1 ≠ place) = find? other l := by
  induction l with
  | nil => rfl
  | cons e rest ih =>
    obtain ⟨p, i⟩ := e
    by_cases hp : p = place
    · subst hp
      simpa [find?, Ne.symm h] using ih
    · by_cases ho : p = other <;> simp_all [find?]

@[simp] theorem item?_nil (d : Disk) : d.item? [] = some .directory := by simp [item?]

theorem item?_put_self (d : Disk) {place : Place} (item : Item) (h : place ≠ []) :
    (d.put place item).item? place = some item := by
  simp [item?, put, h, find?_putItem_self]

theorem item?_put_of_ne (d : Disk) {place other : Place} (item : Item) (h : other ≠ place) :
    (d.put place item).item? other = d.item? other := by
  simp [item?, put, find?_putItem_of_ne item d.items h]

theorem item?_erase_of_ne (d : Disk) {place other : Place} (h : other ≠ place) :
    (d.erase place).item? other = d.item? other := by
  simp only [item?, erase, find?_filter_of_ne d.items h]

/-! ## Paths -/

/-- How many bytes a name may have. -/
def longestName : Nat := 255

/-- How many bytes a path may have. -/
def longestPath : Nat := 4095

/-- The place that one name leads to. -/
def follow (place : Place) (name : Bytes) : Place :=
  if name = Text.bytes "." then place
  else if name = Text.bytes ".." then place.dropLast
  else place ++ [name]

/-- The place that a list of names leads to, from a place on.  Every place on the way has to be a
directory. -/
def walk (d : Disk) : Place → List Bytes → Except Cause Place
  | place, [] => .ok place
  | place, name :: names =>
    match d.item? place with
    | none => .error .missing
    | some (.file _) => .error .notDirectory
    | some .directory =>
      if longestName < name.length then .error .nameTooLong else walk d (follow place name) names

/-- The pieces of a path between its slashes, as far as they are names. -/
def namesOf : Bytes → List Bytes
  | [] => []
  | b :: rest =>
    if b = 0x2F then namesOf rest
    else
      match rest with
      | [] => [[b]]
      | c :: _ =>
        if c = 0x2F then [b] :: namesOf rest
        else
          match namesOf rest with
          | [] => [[b]]
          | name :: names => (b :: name) :: names

/-- The place from which a path leads on: the root or the working directory. -/
def startOf (workingDirectory : Place) (path : Bytes) : Place :=
  if path.head? = some 0x2F then [] else workingDirectory

/-- The place that a path leads to; nothing need stand there. -/
def locate (d : Disk) (workingDirectory : Place) (path : Bytes) : Except Cause Place :=
  if path.isEmpty then .error .missing
  else if longestPath < path.length then .error .nameTooLong
  else d.walk (startOf workingDirectory path) (namesOf path)

/-- The directory in which a path ends, and the last name.  There is none in a path that ends at
the root, in `.` or in `..`. -/
def locateLast (d : Disk) (workingDirectory : Place) (path : Bytes) :
    Except Cause (Place × Option Bytes) := do
  if path.isEmpty then .error .missing
  else if longestPath < path.length then .error .nameTooLong
  else
    let names := namesOf path
    let directory ← d.walk (startOf workingDirectory path) names.dropLast
    match d.item? directory with
    | none => .error .missing
    | some (.file _) => .error .notDirectory
    | some .directory =>
      match names.getLast? with
      | none => return (directory, none)
      | some name =>
        if name = Text.bytes "." || name = Text.bytes ".." then return (directory, none)
        else if longestName < name.length then .error .nameTooLong
        else return (directory, some name)

/-! ## Steps -/

/-- The item at a path. -/
def lookUp (d : Disk) (workingDirectory : Place) (path : Bytes) : Except Cause Item := do
  match d.item? (← d.locate workingDirectory path) with
  | none => .error .missing
  | some item => .ok item

/-- The content of a file. -/
def contentOf (d : Disk) (workingDirectory : Place) (path : Bytes) : Except Cause Bytes := do
  match ← d.lookUp workingDirectory path with
  | .directory => .error .isDirectory
  | .file content => .ok content

/-- Puts an item at a path where nothing stands. -/
def create (d : Disk) (workingDirectory : Place) (path : Bytes) (item : Item) :
    Except Cause Disk := do
  match ← d.locateLast workingDirectory path with
  | (_, none) => .error .taken
  | (directory, some name) =>
    match d.item? (directory ++ [name]) with
    | some _ => .error .taken
    | none => .ok (d.put (directory ++ [name]) item)

/-- Makes a directory. -/
def makeDirectory (d : Disk) (workingDirectory : Place) (path : Bytes) : Except Cause Disk :=
  d.create workingDirectory path .directory

/-- Creates an empty file. -/
def createFile (d : Disk) (workingDirectory : Place) (path : Bytes) : Except Cause Disk :=
  d.create workingDirectory path (.file [])

/-- Gives a file a content; it is created if there is none.  The place of the file comes with the
disk. -/
def openFile (d : Disk) (workingDirectory : Place) (path content : Bytes) :
    Except Cause (Disk × Place) := do
  match ← d.locateLast workingDirectory path with
  | (_, none) => .error .isDirectory
  | (directory, some name) =>
    match d.item? (directory ++ [name]) with
    | some .directory => .error .isDirectory
    | _ => .ok (d.put (directory ++ [name]) (.file content), directory ++ [name])

/-- Puts a file in the place of another one, or where nothing stands.  The new place of the file
comes with the disk. -/
def move (d : Disk) (workingDirectory : Place) (path target : Bytes) :
    Except Cause (Disk × Place) := do
  let place ← d.locate workingDirectory path
  match ← d.locateLast workingDirectory target with
  | (_, none) => .error .busy
  | (directory, some name) =>
    match d.item? place, d.item? (directory ++ [name]) with
    | none, _ => .error .missing
    | some .directory, _ => .error .notDirectory
    | some (.file _), some .directory => .error .isDirectory
    | some (.file content), _ =>
      .ok ((d.erase place).put (directory ++ [name]) (.file content), directory ++ [name])

/-- Removes a file. -/
def removeFile (d : Disk) (workingDirectory : Place) (path : Bytes) : Except Cause Disk := do
  let place ← d.locate workingDirectory path
  match d.item? place with
  | none => .error .missing
  | some .directory => .error .isDirectory
  | some (.file _) => .ok (d.erase place)

/-- Adds to the content of the file at a place, if there is one. -/
def appendAt (d : Disk) (place : Place) (more : Bytes) : Disk :=
  match d.item? place with
  | some (.file content) => d.put place (.file (content ++ more))
  | _ => d

end Disk

end Debundle
