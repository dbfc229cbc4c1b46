import Debundle.Data.Json
import Debundle.Journal.Console
import Debundle.Path.Location
import Debundle.Path.Target
import Debundle.Storage.Error
import Debundle.Text.Lines

/-!
# What the command asks of its surroundings

The command reads and writes files and prints lines.  It does so through a `Host`, a record of
the steps it needs in some monad, so that it can be run on a real machine and on a model of one.

A file is written in three steps: a temporary file beside it is created, filled, and put in its
place.  Whoever reads the file meanwhile sees the old content or the new one, and never a part; and
if a step fails, the temporary file is removed again.

* `Host`: the steps.
* `Host.ensureDirectory`: makes a directory and those above it.
* `Host.writeText`, `Host.writeJson`: write a file in one go.
* `Host.readText`: reads a file.
* `Host.note`: shows journal entries.
-/

namespace Debundle

/-- The steps that the command needs.  A step on a file that is not done gives the reason, and so does
a text that is not printed.  Where errors go, everything can be shown. -/
structure Host (m : Type → Type) where
  /-- The path of the working directory. -/
  workingDirectory : m Text
  /-- The content of a file. -/
  readFile : Text → m (Except StorageError Bytes)
  /-- Makes a directory in one that exists. -/
  makeDirectory : Text → m (Except StorageError Unit)
  /-- Whether there is something at a path. -/
  isPresent : Text → m Bool
  /-- Whether there is a directory at a path. -/
  isDirectory : Text → m Bool
  /-- Creates an empty file with a new name in a directory, and gives its path. -/
  createTemporary : Text → m (Except StorageError Text)
  /-- Gives a file a content. -/
  fill : Text → Bytes → m (Except StorageError Unit)
  /-- Puts a file in the place of another one. -/
  replace : Text → Text → m (Except StorageError Unit)
  /-- Removes a file. -/
  remove : Text → m (Except StorageError Unit)
  /-- Begins the journal in a file, which is emptied. -/
  openJournal : Text → m (Except StorageError Unit)
  /-- Adds lines to the journal. -/
  appendJournal : Text → m Unit
  /-- Prints a text, all of it or nothing. -/
  print : Text → m (Except StorageError Unit)
  /-- Prints a text where errors go. -/
  printError : Text → m Unit
  /-- Whether errors go to a terminal. -/
  terminal : m Bool
  /-- The time, as the journal shows it. -/
  now : m Text

/-- The path without a detour from the root on. -/
def Path.absolute (workingDirectory path : Text) : Text :=
  Path.normal (Path.child workingDirectory path)

/-- The path above a path: all before the last component, empty if there is only one. -/
def Path.above (path : Text) : Text :=
  Path.directoryOf (Text.trimRight (· == Path.slash) path)

/-- The paths above a path from the nearest one on, `fuel` of them at most. -/
def Path.ancestors : Nat → Text → List Text
  | 0, _ => []
  | fuel + 1, path =>
    let head := Path.above path
    if head.isEmpty || head.all (· == Path.slash) then [] else head :: Path.ancestors fuel head

namespace Host

variable {m : Type → Type} [Monad m]

/-! ## Directories -/

/-- Makes a directory; it is no failure if there is one. -/
def ensureOne (h : Host m) (path : Text) : m (Except StorageError Unit) := do
  match ← h.makeDirectory path with
  | .ok () => return .ok ()
  | .error (.refused cause p target) =>
    if ← h.isDirectory path then return .ok () else return .error (.refused cause p target)
  | .error e => return .error e

/-- Makes those of some directories that are missing, each of which is in the one behind it; a
directory that is there ends the search. -/
def ensureAncestors (h : Host m) : List Text → m (Except StorageError Unit)
  | [] => return .ok ()
  | path :: above => do
    if ← h.isPresent path then return .ok ()
    else
      match ← ensureAncestors h above with
      | .error e => return .error e
      | .ok () =>
        match ← ensureOne h path with
        | .error (.refused .taken _ _) => return .ok ()
        | result => return result

/-- Makes a directory and those above it that are missing. -/
def ensureDirectory (h : Host m) (path : Text) : m (Except StorageError Unit) := do
  match ← ensureAncestors h (Path.ancestors path.length path) with
  | .error e => return .error e
  | .ok () => ensureOne h path

/-- Makes the directory at a location whose ancestors are given, the nearest first.  They are
made only once it turns out that one of them is missing. -/
def ensureChain (h : Host m) : List Text → m (Except StorageError Unit)
  | [] => return .ok ()
  | path :: above => do
    match ← h.makeDirectory path with
    | .ok () => return .ok ()
    | .error (.refused .missing p target) =>
      if above.isEmpty then return .error (.refused .missing p target)
      else
        match ← ensureChain h above with
        | .error e => return .error e
        | .ok () => ensureOne h path
    | .error (.refused cause p target) =>
      if ← h.isDirectory path then return .ok () else return .error (.refused cause p target)
    | .error e => return .error e

/-! ## Files -/

/-- Gives a temporary file its content and puts it in the place of another one. -/
def publish (h : Host m) (temporary path content : Text) : m (Except StorageError Unit) := do
  match contentBytes content with
  | .error e => return .error e
  | .ok bytes =>
    match ← h.fill temporary bytes with
    | .error e => return .error e
    | .ok () => h.replace temporary path

/-- The bytes of some pieces up to the first one that has none, and why this one has none. -/
def encodePieces : List Text → Bytes × Option StorageError
  | [] => ([], none)
  | piece :: rest =>
    match contentBytes piece with
    | .error e => ([], some e)
    | .ok bytes =>
      let (more, failure) := encodePieces rest
      (bytes ++ more, failure)

/-- The bytes of a written value as far as it goes, and why it breaks off. -/
def encodeJson (text : JsonText) : Bytes × Option StorageError :=
  let (bytes, failure) := encodePieces text.pieces
  (bytes, failure <|> text.fault.map fun fault => .unencodable (.value fault))

/-- Gives a temporary file a written value and puts it in the place of another one.  If the value
breaks off, what stands before was written nevertheless. -/
def publishJson (h : Host m) (temporary path : Text) (text : JsonText) :
    m (Except StorageError Unit) := do
  let (bytes, failure) := encodeJson text
  match ← h.fill temporary bytes with
  | .error e => return .error e
  | .ok () =>
    match failure with
    | some e => return .error e
    | none => h.replace temporary path

/-- Removes a temporary file after a failure, which stays the reason unless the file cannot be
removed. -/
def discard (h : Host m) (temporary : Text) (reason : StorageError) : m StorageError := do
  match ← h.remove temporary with
  | .ok () => return reason
  | .error (.refused .missing _ _) => return reason
  | .error e => return e

/-- The directory that a file at a path is in. -/
def directoryFor (path : Text) : Text :=
  let directory := Path.directoryOf path
  if directory.isEmpty then Path.here else directory

/-- Writes a file in one go, and makes the directory it is in.  How a temporary file gets its
content and is put in the place of the file is given. -/
def writeThrough (h : Host m) (path : Text) (publish : Text → m (Except StorageError Unit)) :
    m (Except StorageError Unit) := do
  match ← ensureDirectory h (directoryFor path) with
  | .error e => return .error e
  | .ok () =>
    match ← h.createTemporary (directoryFor path) with
    | .error e => return .error e
    | .ok temporary =>
      match ← publish temporary with
      | .ok () => return .ok ()
      | .error e => return .error (← discard h temporary e)

/-- Writes a text to a file. -/
def writeText (h : Host m) (path content : Text) : m (Except StorageError Unit) :=
  writeThrough h path fun temporary => publish h temporary path content

/-- Writes a value to a file, over as many lines as it has items, with the keys of mappings in order
if that is asked for. -/
def writeJson (h : Host m) (path : Text) (v : Value) (sorted : Bool) :
    m (Except StorageError Unit) :=
  writeThrough h path fun temporary =>
    publishJson h temporary path (v.jsonText sorted)

/-- Why a file has no text. -/
inductive ReadError where
  /-- It cannot be read. -/
  | storage (e : StorageError)
  /-- It is not UTF-8. -/
  | undecodable (e : Bytes.DecodeError)

/-- What is said of a file without a text. -/
def ReadError.message : ReadError → Text
  | .storage e => e.message
  | .undecodable e => e.message

/-- The error about a path that no file can have. -/
def ReadError.misnamed? : ReadError → Option StorageError
  | .storage e => if e.isRefusal then none else some e
  | .undecodable _ => none

/-- The text of a file, with line feeds at the ends of its lines. -/
def readText (h : Host m) (path : Text) : m (Except ReadError Text) := do
  match ← h.readFile path with
  | .error e => return .error (.storage e)
  | .ok bytes =>
    match bytes.decode with
    | .error e => return .error (.undecodable e)
    | .ok text => return .ok text.plainLineEnds

/-! ## The journal -/

/-- Begins the journal in a file, and makes the directory it is in. -/
def beginJournal (h : Host m) (location : Location) : m (Except StorageError Unit) := do
  match ← ensureChain h (location.above.map Location.toText) with
  | .error e => return .error e
  | .ok () => h.openJournal (Path.absolute (← h.workingDirectory) location.toText)

/-- Shows journal entries on the console and in the file. -/
def note (h : Host m) (setup : Setup) (entries : List Entry) : m Unit := do
  if !entries.isEmpty then
    h.printError (setup.consoleLines entries)
    h.appendJournal (setup.fileLines (← h.now) entries)

end Host

end Debundle
