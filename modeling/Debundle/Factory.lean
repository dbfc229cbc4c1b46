import Debundle.Data.Table
import Debundle.Journal.Entry
import Debundle.Script.Edit
import Debundle.Script.Scope
import Debundle.Script.Source

/-!
# Module factories

A bundle wraps each module into a function, and a minifier renames the parameters of that
function.  Restoring a module renames them back and gives out the body of the function.  The same
module out of two bundles then has the same source, whatever the minifier did.

A reference is renamed only up to the first place where the parameter is given another value.
Directives at the front of the body are left out, and a comment stays with the statement behind
it.

* `Factory.read`: the function in a text.
* `Factory.renames`: which parameters get which names.
* `Factory.statementSpans`: the pieces of the body that are kept.
* `restore`: the source of a module.
-/

namespace Debundle

open Script

/-! ## Failures -/

/-- In which way a text is no module factory. -/
inductive FactoryFlaw where
  /-- It is not one expression. -/
  | notSingle
  /-- The expression is no function. -/
  | notFunction
  /-- The function has no block for a body. -/
  | noBlock
deriving DecidableEq, Repr

/-- What is said of a text that is no module factory. -/
def FactoryFlaw.message : FactoryFlaw → Text
  | .notSingle => "module factory is not a single expression"
  | .notFunction => "module factory is not a function expression"
  | .noBlock => "module factory has no block body"

/-- Why a module cannot be restored. -/
inductive FactoryError where
  /-- The text is no script. -/
  | unparsable (e : ParseError)
  /-- The script is no module factory. -/
  | malformed (flaw : FactoryFlaw)
  /-- The source cannot be put together. -/
  | unedited (e : EditError)
deriving DecidableEq, Repr

namespace Factory

/-! ## Reading -/

/-- The function that a script consists of, and its body. -/
def read (source : Source) : Except FactoryFlaw (Node × Node) :=
  match source.statements with
  | [statement] =>
    match statement.expression? with
    | none => .error .notFunction
    | some function =>
      if function.kind.isFunctionExpression || function.kind == .arrowFunction then
        match function.part? .body with
        | none => .error .noBlock
        | some body =>
          if body.kind == .statementBlock then .ok (function, body) else .error .noBlock
      else .error .notFunction
  | _ => .error .notSingle

/-! ## Renaming -/

/-- The names that the parameters of a factory have by convention. -/
def parameterNames : List Text :=
  [Text.ofString "require", Text.ofString "module", Text.ofString "exports"]

/-- The old and the new names of the parameters that are to be renamed.  The last of two
parameters with the same name decides. -/
def renames (function : Node) : Table Text :=
  let parameters := ((function.part? .parameters).map Node.parts).getD []
  (parameters.zip parameterNames).foldl (fun found (p, new) =>
    if p.kind == .identifier && p.text != new then found.insert p.text new else found) []

/-- The references to a parameter that are renamed: those before the parameter is first given
another value. -/
def selected (body : Node) (old : Text) : List Node :=
  match firstReassignment body old with
  | none => references body old
  | some cutoff => (references body old).filter (·.start < cutoff)

/-! ## The pieces of the body -/

/-- How far the pieces of a body have been gathered. -/
structure Pieces where
  /-- The pieces, the last one first. -/
  spans : List (Nat × Nat)
  /-- Where the comments since the last statement begin. -/
  pending : Option Nat
  /-- Where they end. -/
  trailing : Option Nat

/-- Takes in one child of the body. -/
def Pieces.add (wanted : List (Nat × Nat)) (p : Pieces) (child : Node) : Pieces :=
  if child.kind == .comment then
    ⟨p.spans, some (p.pending.getD child.start), some child.stop⟩
  else if wanted.contains child.span then
    ⟨(p.pending.getD child.start, child.stop) :: p.spans, none, none⟩
  else ⟨p.spans, none, none⟩

/-- The pieces of a body from left to right; comments behind the last statement go with it. -/
def Pieces.finish (p : Pieces) : List (Nat × Nat) :=
  match p.spans, p.trailing with
  | (start, _) :: rest, some stop => ((start, stop) :: rest).reverse
  | spans, _ => spans.reverse

/-- The pieces of a body that are kept: each statement behind the directives, with the comments
before it. -/
def statementSpans (body : Node) : List (Nat × Nat) :=
  let wanted := body.bodyStatements.map Node.span
  let children := body.children.filter (·.kind != .keyword)
  (children.foldl (Pieces.add wanted) ⟨[], none, none⟩).finish

end Factory

/-! ## Restoring -/

/-- One renamed parameter. -/
structure ParameterRename where
  /-- Its name in the bundle. -/
  old : Text
  /-- Its name in the module. -/
  new : Text
  /-- The references that are renamed. -/
  uses : List Node

/-- The journal entry about a renamed parameter. -/
def ParameterRename.entry (r : ParameterRename) : Entry :=
  ⟨.debug, Channel.factory,
    "Renaming " ++ Text.ofNat r.uses.length ++ " reference(s) of " ++ r.old ++ " to " ++ r.new⟩

/-- A restored module. -/
structure Restored where
  /-- Its source. -/
  source : Text
  /-- The parameters that were renamed. -/
  renamed : List ParameterRename

/-- The parameters of a function that are renamed, with their references in the body. -/
def parameterRenames (function body : Node) : List ParameterRename :=
  (Factory.renames function).map fun (old, new) => ⟨old, new, Factory.selected body old⟩

/-- The source of the module that a factory makes. -/
def restore (code : Text) : Except FactoryError Restored := do
  let source ← (Source.parse ("(" ++ code ++ ")")).mapError .unparsable
  let (function, body) ← (Factory.read source).mapError .malformed
  let renamed := parameterRenames function body
  let edits := renamed.flatMap fun r => renameEdits r.new r.uses
  let pieces ← (Factory.statementSpans body).mapM fun (start, stop) =>
    (applyEdits source.bytes start stop edits).mapError .unedited
  return ⟨Text.join "\n" pieces, renamed⟩

end Debundle
