import Debundle.Data.Table
import Debundle.Digest
import Debundle.Forest.Require

/-!
# Sessions

A session remembers what earlier bundles said, so that a module that several bundles contain is
known as one, and so that what one bundle says about a module helps with the others.

* `ModuleRecord`: what is known about a module.
* `Session`: the records, the ids that stand for other ids, who asks for which module, the best
  paths so far, the digests of the sources, and the forest.
* `Session.canonicalId`: the id under which a module is known.
* `Session.register`: takes in a record.
-/

namespace Debundle

/-- What is known about a module. -/
structure ModuleRecord where
  /-- The id it has in its bundle. -/
  rawId : Text
  /-- The id under which it is known. -/
  canonicalId : Text
  /-- Its source. -/
  source : Text
  /-- The ids of the modules it asks for, each with the path it asks by. -/
  dependencies : Table Text
  /-- Whether it only stands for a module that is somewhere else. -/
  isStub : Bool
deriving DecidableEq, Repr

/-- What is remembered from bundle to bundle. -/
structure Session where
  /-- The records, each under the id by which the module is known. -/
  modules : Table ModuleRecord
  /-- The id under which the module with a raw id is known. -/
  aliases : Table Text
  /-- For every module that is asked for, the ids of the modules that ask for it. -/
  referrers : Table (List Text)
  /-- For every module that is asked for, how specific the best path to it is. -/
  scores : Table Nat
  /-- The id of the first module with a digest. -/
  hashes : Table Text
  /-- The files and directories. -/
  forest : Forest
deriving DecidableEq, Repr

namespace Session

/-- The session before the first bundle. -/
def empty : Session := ⟨[], [], [], [], [], Forest.empty⟩

/-- Makes an entry about the session. -/
def say {ε : Type} (level : Level) (message : Text) : Action Session ε Unit :=
  Action.say level Channel.session message

/-- An action on the forest of a session. -/
def onForest {α : Type} (a : Forest.Step α) : Action Session Forest.Error α :=
  Action.within Session.forest (fun f s => { s with forest := f }) a

/-! ## Identity -/

/-- The id under which a module is known: that of the first module with the same digest.  Fails,
and remembers nothing, if the source has no digest; the offset of the surrogate is the error. -/
def canonicalId (rawId source : Text) : Action Session Nat Text := do
  let digest ← Action.ofExcept source.digest
  let s ← Action.get
  let known := (s.hashes.get? digest).getD rawId
  if known != rawId then say .debug ("Module " ++ rawId ++ " has the same source as " ++ known)
  Action.set
    { s with hashes := s.hashes.insertNew digest rawId, aliases := s.aliases.insert rawId known }
  return known

/-- The id under which the module with an id is known; the id itself if nothing is known. -/
def resolveAlias (s : Session) (id : Text) : Text := (s.aliases.get? id).getD id

/-! ## Records -/

/-- A record together with what another sighting of the same module says. -/
def mergeRecords (known new : ModuleRecord) : ModuleRecord :=
  { known with
    dependencies := known.dependencies.insertAll new.dependencies
    isStub := known.isStub && new.isStub }

/-- The record that is kept when another one comes in. -/
def registered (s : Session) (new : ModuleRecord) : ModuleRecord :=
  match s.modules.get? new.canonicalId with
  | none => new
  | some known => mergeRecords known new

/-- Takes in a record and gives the one that is kept. -/
def register {ε : Type} (new : ModuleRecord) : Action Session ε ModuleRecord := do
  let s ← Action.get
  let record := s.registered new
  Action.set { s with modules := s.modules.insert new.canonicalId record }
  return record

/-- The records of modules that are more than stand-ins. -/
def liveRecords (s : Session) : List ModuleRecord :=
  (s.modules.map Prod.snd).filter fun r => !r.isStub

end Session

end Debundle
