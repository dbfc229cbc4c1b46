import Debundle.Bundle.Module
import Debundle.Bundle.Shape
import Debundle.Session.Dependency
import Debundle.Text.Blank

/-!
# Packed bundles

The first argument of a packed bundle is a table `{id: [factory, {path: id, …}], …}`.  Every
entry is read into the session; then all that the session knows about who asks for whom is taken
into the forest, and every module gets the path that it has there.

* `syntheticId`: the id for a module that is in another bundle.
* `readDependencies`, `readEntry`: one module of the table.
* `growForest`: all require paths into the forest.
* `unpackPacked`: the modules of a packed bundle and of all before it.
-/

namespace Debundle

open Script

/-! ## Reading the table -/

/-- The id for a module in another bundle: the last component of the path to it. -/
def syntheticId (path : Text) : Text :=
  let last := Text.lastPiece Path.slash path
  if last.isEmpty then path else last

/-- How a module in another bundle is asked for. -/
def crossBundleKind (path : Text) : Text :=
  if Text.startsWith path "./" || Text.startsWith path "../" then "Relative cross-bundle dependency"
  else if Text.startsWith path "@" then "Scoped cross-bundle dependency"
  else "Bare cross-bundle dependency"

/-- The entry about a module in another bundle. -/
def crossBundleEntry (path : Text) : Entry :=
  ⟨.info, Channel.packed, crossBundleKind path ++ ": " ++ path ++ " -> " ++ syntheticId path⟩

/-- The id of a dependency: the value of a literal, or one made from the path. -/
def dependencyId (path : Text) (value : Option Node) : EntryStep Session Text := do
  let found ←
    match value with
    | none => pure none
    | some v => literalEntry v.literalValue
  match found with
  | some id => return id
  | none =>
    Action.sayAll [crossBundleEntry path]
    return syntheticId path

/-- The text of the key of a pair. -/
def keyOf (pair : Node) : EntryStep Session (Option Text) :=
  match pair.part? .key with
  | none => return none
  | some key => literalEntry key.propertyKey

/-- Reads what a module asks for, pair by pair, into a table of paths. -/
def readPairs (id : Text) : List Node → Table Text → EntryStep Session (Table Text)
  | [], found => return found
  | pair :: rest, found => do
    if pair.kind != .pair then leaveOut (.dependencyNotAPair pair.kind id)
    else
      match ← keyOf pair with
      | none => leaveOut (.computedPath id)
      | some path =>
        let dependency ← dependencyId path (pair.part? .value)
        let final ← Session.resolveDependency dependency (Path.normalRequire path) id
        readPairs id rest (found.insert dependency final)

/-- Reads what a module asks for. -/
def readDependencies (object : Node) (id : Text) : EntryStep Session (Table Text) :=
  if object.kind != .objectLiteral then leaveOut (.dependenciesNotObject id)
  else readPairs id object.parts []

/-- The factory and the dependencies of a module: the first two items of an array. -/
def entryItems? (value : Option Node) : Option (Node × Node) := do
  let v ← value
  guard (v.kind == .arrayLiteral)
  match v.parts with
  | factory :: dependencies :: _ => some (factory, dependencies)
  | _ => none

/-- Reads one entry of the table; an entry that is not an array of two items is passed over. -/
def readEntry (source : Source) (entry : Node) : EntryStep Session (Option ModuleRecord) := do
  if entry.kind != .pair then leaveOut (.notAPair entry.kind)
  else
    match (← keyOf entry).filter (!·.isEmpty) with
    | none => leaveOut .noId
    | some rawId =>
      match entryItems? (entry.part? .value) with
      | none =>
        Action.say .warning Channel.packed ("Invalid module format for id: " ++ rawId)
        return none
      | some (factory, object) =>
        let text ← restoreEntry (source.textOf factory)
        let id ← (Session.canonicalId rawId text).mapError fun _ => EntryError.fault .noDigest
        let dependencies ← readDependencies object id
        let isStub := text.all CodePoint.isBlank && dependencies.isEmpty
        return some ⟨rawId, id, text, dependencies, isStub⟩

/-! ## Unpacking -/

/-- An action on a session that may have to give up. -/
abbrev SessionStep (α : Type) := Action Session Fault α

/-- Reads entries into the session; one that cannot be read is left out. -/
def readEntries (source : Source) : List Node → SessionStep Unit
  | [] => return ()
  | entry :: rest => do
    match ← Action.attempt (readEntry source entry) with
    | .ok none => pure ()
    | .ok (some record) =>
      let _ ← Session.register record
    | .error (.flaw flaw) =>
      Action.say .warning Channel.packed ("Failed to parse module: " ++ flaw.message)
    | .error (.fault fault) => Action.fail fault
    readEntries source rest

/-- Takes one require path into the forest; a path that is refused is passed over. -/
def requireEdge (current target path : Text) : SessionStep Unit := do
  match ← Action.attempt (Session.onForest (Forest.require current target path)) with
  | .ok () => return ()
  | .error (.missing id) => Action.fail (.forest (.missing id))
  | .error e =>
    Action.say .warning Channel.packed
      ("Failed to resolve path for " ++ current ++ " -> " ++ path ++ ": " ++ e.message)

/-- Takes what a module asks for into the forest; a module that only stands for another one gets
no place. -/
def growEdges (current : Text) : List (Text × Text) → SessionStep Unit
  | [] => return ()
  | (dependency, path) :: rest => do
    let s ← Action.get
    let target := s.resolveAlias dependency
    if (s.modules.get? target).any ModuleRecord.isStub then
      Action.say .info Channel.packed ("Skipped external stub: " ++ path ++ " -> " ++ target)
    else requireEdge current target path
    growEdges current rest

/-- Takes all that modules ask for into the forest. -/
def growForest : List ModuleRecord → SessionStep Unit
  | [] => return ()
  | record :: rest => do
    let id := record.canonicalId
    (Session.onForest (Forest.ensureFile id id true)).mapError Fault.forest
    growEdges id record.dependencies
    growForest rest

/-- The module of a record, with the path that it has in the forest. -/
def Session.moduleOf (s : Session) (r : ModuleRecord) : SourceModule :=
  ⟨.text (s.forest.pathOf r.canonicalId), r.source, some r.canonicalId⟩

/-- Reads a packed bundle into the session and gives all modules that the session knows; a script
of another shape, or with an empty table, changes nothing and gives none. -/
def unpackPacked (source : Source) : SessionStep (List SourceModule) := do
  match (packedArguments? source.statements).bind List.head? with
  | none => return []
  | some table =>
    if table.parts.isEmpty then return []
    else
      readEntries source table.parts
      growForest (← Action.get).liveRecords
      let s ← Action.get
      return s.liveRecords.map s.moduleOf

end Debundle
