import Debundle.Data.Json
import Debundle.Storage.Name

/-!
# Why the file system refuses

* `Cause`: the reason that the system gives.
* `EncodeError`: why something cannot be made into bytes.
* `StorageError`: a step that was not done, with the paths it was about.
* `StorageError.message`: what is said about it.
-/

namespace Debundle

/-- Why the system refuses a step. -/
inductive Cause where
  /-- There is nothing at the path. -/
  | missing
  /-- It is not allowed. -/
  | denied
  /-- The place cannot be taken away. -/
  | busy
  /-- There is something at the path. -/
  | taken
  /-- The path leads through something that is no directory. -/
  | notDirectory
  /-- There is a directory at the path. -/
  | isDirectory
  /-- The path, or a name in it, has too many bytes. -/
  | nameTooLong
  /-- Any other reason, with its number and its text. -/
  | other (number : Nat) (text : Text)
deriving DecidableEq, Repr

namespace Cause

/-- The number of a reason. -/
def number : Cause → Nat
  | .missing => 2
  | .denied => 13
  | .busy => 16
  | .taken => 17
  | .notDirectory => 20
  | .isDirectory => 21
  | .nameTooLong => 36
  | .other number _ => number

/-- The text of a reason. -/
def text : Cause → Text
  | .missing => "No such file or directory"
  | .denied => "Permission denied"
  | .busy => "Device or resource busy"
  | .taken => "File exists"
  | .notDirectory => "Not a directory"
  | .isDirectory => "Is a directory"
  | .nameTooLong => "File name too long"
  | .other _ text => text

/-- The reason with a number; the text is for a reason that has no name here. -/
def ofNumber (number : Nat) (text : Text) : Cause :=
  let named : List Cause := [missing, denied, busy, taken, notDirectory, isDirectory, nameTooLong]
  (named.find? fun c => c.number == number).getD (.other number text)

end Cause

/-- Why something cannot be made into bytes. -/
inductive EncodeError where
  /-- There are characters without bytes in it. -/
  | characters (u : Unencodable)
  /-- It is a value that cannot be written. -/
  | value (fault : JsonFault)
deriving DecidableEq, Repr

/-- What is said about something that cannot be made into bytes. -/
def EncodeError.message : EncodeError → Text
  | .characters u => u.message
  | .value fault => fault.message

/-- Why a step was not done. -/
inductive StorageError where
  /-- The system refused it; a step that moves a file is about two paths. -/
  | refused (cause : Cause) (path : Text) (target : Option Text)
  /-- The path has a null character in it. -/
  | nullInPath
  /-- A path, a content or a printed text cannot be made into bytes. -/
  | unencodable (e : EncodeError)
deriving DecidableEq, Repr

namespace StorageError

/-- What is said about a step that was not done. -/
def message : StorageError → Text
  | .refused cause path target =>
    let moved : Text :=
      match target with
      | some t => " -> " ++ t.quoted
      | none => []
    "[Errno " ++ Text.ofNat cause.number ++ "] " ++ cause.text ++ ": " ++ path.quoted ++ moved
  | .nullInPath => "embedded null byte"
  | .unencodable e => e.message

/-- Whether the system itself refused, and not already the form of the path or the content. -/
def isRefusal : StorageError → Bool
  | .refused _ _ _ => true
  | _ => false

end StorageError

/-- The bytes by which the file system knows a path. -/
def systemPath (path : Text) : Except StorageError Bytes := do
  let bytes ← path.nameBytes.mapError fun u => .unencodable (.characters u)
  if bytes.contains 0 then .error .nullInPath else .ok bytes

/-- The bytes of a content. -/
def contentBytes (content : Text) : Except StorageError Bytes :=
  (Text.contentBytesFrom 0 content).mapError fun u => .unencodable (.characters u)

/-- A printed text must be one that the encoding covers. -/
def Encoding.check (e : Encoding) (text : Text) : Except StorageError Unit :=
  match e.gap? text with
  | some u => .error (.unencodable (.characters u))
  | none => .ok ()

end Debundle
