import Debundle.Storage.Disk
import Debundle.Storage.Host

/-!
# A machine to run the command on

The model of a machine has a disk and two texts for what was printed.  Any step on files may be
refused by the machine for reasons of its own, such as a full disk, and a step that is refused
changes nothing.

* `World`: what a step can change.
* `Surroundings`: what it cannot.
* `World.host`: the steps that the command needs.
-/

namespace Debundle

/-- What the steps of the command change. -/
structure World where
  /-- The files. -/
  disk : Disk
  /-- The place of the file that the journal goes to, as long as it has a name. -/
  journal : Option Place
  /-- What was printed. -/
  printed : Text
  /-- What was printed where errors go. -/
  errors : Text
  /-- How many steps on files there were. -/
  steps : Nat
deriving DecidableEq, Repr

/-- What stays the same while the command runs. -/
structure Surroundings where
  /-- The path of the working directory. -/
  workingDirectory : Text
  /-- Names for temporary files. -/
  temporaryName : Nat → Text
  /-- Whether the machine refuses a step of its own accord, by the number of the step. -/
  refuses : Nat → Option Cause
  /-- Whether errors go to a terminal. -/
  terminal : Bool
  /-- The time. -/
  time : Text
  /-- The encoding of what is printed. -/
  output : Encoding := .unlimited

namespace World

/-- The machine before anything was printed. -/
def ofDisk (d : Disk) : World := ⟨d, none, [], [], 0⟩

/-- The place of the working directory. -/
def placeOf (s : Surroundings) : Place := Disk.namesOf s.workingDirectory.bytes

/-- The first of `fuel` names from the `n`th on that is not in use in a directory. -/
def freshName (s : Surroundings) (d : Disk) (directory : Text) : Nat → Nat → Text
  | 0, n => Path.child directory (s.temporaryName n)
  | fuel + 1, n =>
    let path := Path.child directory (s.temporaryName n)
    match d.lookUp (placeOf s) path.bytes with
    | .ok _ => freshName s d directory fuel (n + 1)
    | .error _ => path

/-- A step on files: the machine may refuse it, and a step that fails changes nothing. -/
def step {α : Type} (s : Surroundings) (path : Text) (target : Option Text)
    (act : World → Bytes → Except Cause (α × World)) : StateM World (Except StorageError α) :=
  fun w =>
    let after := { w with steps := w.steps + 1 }
    match systemPath path with
    | .error e => (.error e, after)
    | .ok bytes =>
      match s.refuses w.steps with
      | some cause => (.error (.refused cause path target), after)
      | none =>
        match act after bytes with
        | .error cause => (.error (.refused cause path target), after)
        | .ok (result, w) => (.ok result, w)

/-- The world with another disk. -/
def withDisk (w : World) (d : Disk) : Unit × World := ((), { w with disk := d })

/-- Puts a file in the place of another one.  The journal loses its name if its file is the one
that is replaced. -/
def replace (s : Surroundings) (path target : Text) : StateM World (Except StorageError Unit) :=
  match systemPath target with
  | .error e => return .error e
  | .ok goal => step s path (some target) fun w bytes => do
    let (disk, place) ← w.disk.move (placeOf s) bytes goal
    let journal := if w.journal = some place then none else w.journal
    return ((), { w with disk := disk, journal := journal })

/-- Creates a temporary file. -/
def createTemporary (s : Surroundings) (directory : Text) :
    StateM World (Except StorageError Text) := fun w =>
  let path := freshName s w.disk (Path.absolute s.workingDirectory directory) w.disk.items.length 0
  step s path none (fun w bytes => do
    let disk ← w.disk.createFile (placeOf s) bytes
    return (path, { w with disk := disk })) w

/-- Removes a file.  The machine never refuses this of its own accord. -/
def remove (s : Surroundings) (path : Text) : StateM World (Except StorageError Unit) :=
  step { s with refuses := fun _ => none } path none fun w bytes => do
    return w.withDisk (← w.disk.removeFile (placeOf s) bytes)

/-- Whether what stands at a path is of some kind. -/
def test (s : Surroundings) (path : Text) (p : Item → Bool) : StateM World Bool := fun w =>
  match systemPath path with
  | .error _ => (false, w)
  | .ok bytes =>
    match w.disk.lookUp (placeOf s) bytes with
    | .error _ => (false, w)
    | .ok item => (p item, w)

/-- Prints a text if it has bytes. -/
def print (s : Surroundings) (text : Text) : StateM World (Except StorageError Unit) :=
  match s.output.check text with
  | .error e => return .error e
  | .ok () => fun w => (.ok (), { w with printed := w.printed ++ text })

/-- The steps that the command needs, on the model of a machine. -/
def host (s : Surroundings) : Host (StateM World) where
  workingDirectory := return s.workingDirectory
  readFile path := step s path none fun w bytes => do
    return (← w.disk.contentOf (placeOf s) bytes, w)
  makeDirectory path := step s path none fun w bytes => do
    return w.withDisk (← w.disk.makeDirectory (placeOf s) bytes)
  isPresent path := test s path fun _ => true
  isDirectory path := test s path fun item => item == .directory
  createTemporary := createTemporary s
  fill path content := step s path none fun w bytes => do
    return w.withDisk (← w.disk.openFile (placeOf s) bytes content).1
  replace := replace s
  remove := remove s
  openJournal path := step s path none fun w bytes => do
    let (disk, place) ← w.disk.openFile (placeOf s) bytes []
    return ((), { w with disk := disk, journal := some place })
  appendJournal text := modify fun w =>
    match w.journal with
    | none => w
    | some place => { w with disk := w.disk.appendAt place text.bytes }
  print := print s
  printError text := modify fun w => { w with errors := w.errors ++ text }
  terminal := return s.terminal
  now := return s.time

end World

end Debundle
