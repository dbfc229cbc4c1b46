import Debundle.Command.Run
import Std.Time.Format
import Std.Time.Zoned

/-!
# The command on a real machine

The steps that the command needs, done by the system it runs on, and the entry point.
-/

namespace Debundle.Machine

/-- The number of a reason; some parts of the system give it with the opposite sign. -/
def numberOf (n : UInt32) : Nat := if n < 0x80000000 then n.toNat else (0 - n).toNat

/-- The reason that the system gives. -/
def causeOf : IO.Error → Cause
  | .alreadyExists _ n t | .invalidArgument _ n t | .permissionDenied _ n t
  | .resourceExhausted _ n t | .inappropriateType _ n t | .noSuchThing _ n t
  | .noFileOrDirectory _ n t | .interrupted _ n t | .otherError n t | .resourceBusy n t
  | .resourceVanished n t | .unsupportedOperation n t | .hardwareFault n t
  | .unsatisfiedConstraints n t | .illegalOperation n t | .protocolError n t
  | .timeExpired n t => .ofNumber (numberOf n) t
  | .unexpectedEof => .other 5 "Input/output error"
  | .userError t => .other 5 t

/-- Does a step on a file, whose path has to be a string. -/
def attempt {α : Type} (path : Text) (target : Option Text) (act : String → IO α) :
    IO (Except StorageError α) := do
  match systemPath path, contentBytes path with
  | .error e, _ => return .error e
  | .ok _, .error e => return .error e
  | .ok _, .ok _ =>
    try
      return .ok (← act path.toString)
    catch e => return .error (.refused (causeOf e) path target)

/-- Puts a file in the place of another one. -/
def replace (path target : Text) : IO (Except StorageError Unit) := do
  match systemPath target, contentBytes target with
  | .error e, _ => return .error e
  | .ok _, .error e => return .error e
  | .ok _, .ok _ => attempt path (some target) fun p => IO.FS.rename p target.toString

/-- Creates an empty file with a new name in a directory. -/
def createTemporary (directory : Text) : IO (Except StorageError Text) := do
  let working := Text.ofString (← IO.currentDir).toString
  let name := ".tmp-" ++ Text.ofNatPadded 12 (← IO.rand 0 999999999999) ++ ".partial"
  let path := Path.child (Path.absolute working directory) name
  attempt path none fun p => do
    discard (IO.FS.Handle.mk p .writeNew)
    return path

/-- Prints a text if it has bytes. -/
def print (text : Text) : IO (Except StorageError Unit) := do
  match Encoding.utf8.check text with
  | .error e => return .error e
  | .ok () =>
    (← IO.getStdout).putStr text.toString
    return .ok ()

/-- A text as it is shown where errors go; a surrogate is replaced. -/
def shown (t : Text) : String :=
  Text.toString (t.map fun c => if c.isSurrogate then '\uFFFD' else c)

/-- The answer to a question about a file, which is no if it cannot be asked. -/
def ask (path : Text) (question : String → IO Bool) : IO Bool := do
  match ← attempt path none question with
  | .ok answer => return answer
  | .error _ => return false

/-- The steps that the command needs; the journal is kept open. -/
def host (journal : IO.Ref (Option IO.FS.Handle)) : Host IO where
  workingDirectory := return Text.ofString (← IO.currentDir).toString
  readFile path := attempt path none fun p => return (← IO.FS.readBinFile p).toList
  makeDirectory path := attempt path none fun p => IO.FS.createDir p
  isPresent path := ask path fun p => do return (← IO.FS.realPath p).toString.length != 0
  isDirectory path := ask path fun p => do (← IO.FS.realPath p).isDir
  createTemporary := createTemporary
  fill path content := attempt path none fun p => IO.FS.writeBinFile p ⟨content.toArray⟩
  replace := replace
  remove path := attempt path none fun p => IO.FS.removeFile p
  openJournal path := attempt path none fun p => do
    journal.set (some (← IO.FS.Handle.mk p .write))
  appendJournal text := do
    match ← journal.get with
    | none => return ()
    | some file =>
      file.putStr (shown text)
      file.flush
  print := print
  printError text := do (← IO.getStderr).putStr (shown text)
  terminal := do return ← (← IO.getStderr).isTty
  now := do return Text.ofString ((← Std.Time.PlainDateTime.now).format "uuuu-MM-dd HH:mm:ss")

/-- Runs the command and gives the exit status. -/
def run (words : List String) : IO UInt32 := do
  let journal ← IO.mkRef none
  match ← (Command.run (host journal) (words.map Text.ofString)).run with
  | .ok status => return status.toUInt32
  | .error e =>
    (← IO.getStderr).putStrLn (shown ("unpack-bundle: " ++ e.message))
    return 1

end Debundle.Machine

/-- The entry point. -/
def main (words : List String) : IO UInt32 := Debundle.Machine.run words
