import Debundle.Journal.Entry
import Debundle.Script.Edit
import Debundle.Script.Scope
import Debundle.Script.Source
import Debundle.Text.Alphanumeric

/-!
# Exported variables

A minified module often ends with `exports.parseUrl = a`.  Renaming `a` to `parseUrl` makes the
module easier to read.  The variable is renamed between the last place before the export where
it is given a value and the first place behind it.

* `inferName?`: the name that a file name suggests.
* `targetName`: the name that an exported variable gets.
* `exportedVariable?`: what a statement exports.
* `renameVariable`: the source with one variable renamed.
* `renameExports`: the source with all exported variables renamed.
-/

namespace Debundle

open Script

/-! ## Names -/

/-- Whether a code point may stand in a variable name that is taken from a file name. -/
def isWordPart (c : CodePoint) : Bool := c.isAlphanumeric || c.is '_' || c.is '$'

/-- Whether a text is a variable name, perhaps with one line feed behind it. -/
def isVariableName (t : Text) : Bool :=
  match t with
  | [] => false
  | c :: cs =>
    let cs := if cs.getLast?.any (·.is '\n') then cs.dropLast else cs
    (c.isLetter || c.is '_' || c.is '$') && cs.all isWordPart

/-- A file name without its ending: the last point and what follows it, unless nothing does. -/
def stem (base : Text) : Text :=
  let ending := base.reverse.takeWhile fun c => !c.is '.'
  if ending.isEmpty || ending.length == base.length then base
  else base.take (base.length - ending.length - 1)

/-- The variable name that a file name suggests. -/
def inferName? (fileName : Option Text) : Option Text := do
  let name ← fileName
  guard !name.isEmpty
  let s := stem (Text.lastPiece '/' (Text.replace '\\' '/' name))
  if isVariableName s then some s else none

/-- The name that the default export gets if the file name suggests none. -/
def defaultExportName : Text := "DefaultExport"

/-- The name that a variable gets which is exported under a name. -/
def targetName (exported variableName : Text) (fileName : Option Text) : Text :=
  if exported == variableName then variableName
  else if exported == Text.ofString "default" then (inferName? fileName).getD defaultExportName
  else exported

/-! ## Exports -/

/-- A variable that a statement exports. -/
structure ExportedVariable where
  /-- The assignment that exports it. -/
  assignment : Node
  /-- The name under which it is exported. -/
  exported : Text
  /-- The name of the variable. -/
  variableName : Text

/-- What a statement `exports.name = variable` exports. -/
def exportedVariable? (statement : Node) : Option ExportedVariable := do
  guard (statement.kind == .expressionStatement)
  let assignment ← statement.expression?
  guard (assignment.kind == .assignmentExpression)
  let left ← assignment.part? .left
  let right ← assignment.part? .right
  guard (left.kind == .memberExpression && right.kind == .identifier)
  let object ← left.part? .object
  let property ← left.part? .property
  guard (object.kind == .identifier && object.text == Text.ofString "exports")
  guard (property.kind == .propertyIdentifier)
  return ⟨assignment, property.text, right.text⟩

/-! ## Renaming one variable -/

/-- Whether `outer` is another span that covers `inner`. -/
def covers (outer inner : Nat × Nat) : Bool :=
  outer != inner && outer.1 ≤ inner.1 && inner.2 ≤ outer.2

/-- The nodes of a list that are not inside another one of the list. -/
def outermost (sites : List Node) : List Node :=
  sites.filter fun site => !sites.any fun other => covers other.span site.span

/-- The first node with the greatest key. -/
def firstMaximal (key : Node → Nat) : List Node → Option Node
  | [] => none
  | n :: ns =>
    match firstMaximal key ns with
    | none => some n
    | some m => if key n < key m then some m else some n

/-- The first node with the least key. -/
def firstMinimal (key : Node → Nat) : List Node → Option Node
  | [] => none
  | n :: ns =>
    match firstMinimal key ns with
    | none => some n
    | some m => if key m < key n then some m else some n

/-- The references that are renamed for an export: the one that gets its value last before the
export, and all from there to where it gets its next value. -/
def renamedReferences (root assignment : Node) (variableName : Text) : List Node :=
  let sites := bindingSites root variableName
  let before := outermost (sites.filter (·.start < assignment.start))
  let after := outermost (sites.filter (assignment.stop < ·.start))
  let last := firstMaximal Node.stop before
  let following := firstMinimal Node.start after
  let target := last.bind (bindingTarget? · variableName)
  let inRange (ref : Node) : Bool :=
    !(target.any (·.span == ref.span)) && !(last.any (ref.start < ·.stop))
      && !(following.any (·.start ≤ ref.start))
  target.toList ++ (references root variableName).filter inRange

/-- The source with the variable of an export renamed. -/
def renameVariable (source : Source) (e : ExportedVariable) (new : Text) : Except EditError Text :=
  applyEdits source.bytes 0 source.bytes.length
    (renameEdits new (renamedReferences source.root e.assignment e.variableName))

/-- Whether a variable is declared, and not only assigned. -/
def isDeclared (root : Node) (variableName : Text) : Bool :=
  (bindingSites root variableName).any fun site =>
    site.kind != .assignmentExpression && site.kind != .augmentedAssignmentExpression

/-! ## Renaming all -/

/-- A source in which exported variables have been renamed. -/
structure Renaming where
  /-- The source. -/
  source : Text
  /-- The old and the new names, in the order in which they were renamed. -/
  renamed : List (Text × Text)
  /-- What is noted about it. -/
  entries : List Entry

/-- The name of a file in a message. -/
def shownName (fileName : Option Text) : Text := fileName.getD "None"

/-- Notes something about the renaming. -/
def exportsEntry (level : Level) (message : Text) : Entry := ⟨level, Channel.exports, message⟩

/-- Renames the exports of the statements from `index` on, in at most `fuel` steps. -/
def renameFrom (fileName : Option Text) :
    Nat → Nat → Source → Except EditError Renaming
  | 0, _, source => .ok ⟨source.text, [], []⟩
  | fuel + 1, index, source =>
    match source.statements[index]? with
    | none => .ok ⟨source.text, [], []⟩
    | some statement =>
      match exportedVariable? statement with
      | none => renameFrom fileName fuel (index + 1) source
      | some e =>
        let new := targetName e.exported e.variableName fileName
        if new == e.variableName || !isDeclared source.root e.variableName then
          renameFrom fileName fuel (index + 1) source
        else do
          let text ← renameVariable source e new
          let what := e.variableName ++ " to " ++ new ++ " in " ++ shownName fileName
          match Source.parse text with
          | .error flaw =>
            return ⟨source.text, [], [exportsEntry .warning
              ("Renaming " ++ what ++ " broke the source: " ++ flaw.message)]⟩
          | .ok changed =>
            let rest ← renameFrom fileName fuel (index + 1) changed
            return ⟨rest.source, (e.variableName, new) :: rest.renamed,
              exportsEntry .debug ("Renamed " ++ what) :: rest.entries⟩

/-- The source with the variables behind its exports renamed.  A source that is no script stays
as it is; so does everything from the first renaming on that would break the source. -/
def renameExports (source : Text) (fileName : Option Text) : Except EditError Renaming :=
  match Source.parse source with
  | .error flaw =>
    .ok ⟨source, [], [exportsEntry .debug
      ("Skipping export renaming for " ++ shownName fileName ++ ": " ++ flaw.message)]⟩
  | .ok parsed => renameFrom fileName (parsed.bytes.length + 1) 0 parsed

end Debundle
