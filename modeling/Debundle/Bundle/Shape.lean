import Debundle.Script.Literal

/-!
# The shapes of bundles

A script is a bundle if it has one of two shapes.

A *packed* bundle is one call `prelude(modules, cache, entries)`, perhaps behind one other
statement, negated, assigned, or inside the wrapper that makes a library usable everywhere.  An
*AMD* bundle has calls `define("path.js", function …)` among its statements.  Every other script
is a leaf.

* `packedArguments?`: the three arguments of a packed bundle.
* `definition?`: what one statement of an AMD bundle defines.
* `BundleKind.ofStatements`: which shape a script has.
-/

namespace Debundle

open Script

/-- The shape of a script. -/
inductive BundleKind where
  /-- A table of modules. -/
  | packed
  /-- A sequence of definitions. -/
  | amd
  /-- Neither. -/
  | leaf
deriving DecidableEq, Repr

/-- The name of a shape. -/
def BundleKind.name : BundleKind → Text
  | .packed => "packed"
  | .amd => "amd"
  | .leaf => "leaf"

/-! ## Packed bundles -/

/-- The arguments of the call inside a library wrapper: the only argument of the outer call is a
function whose second statement returns the result of calling what that call returns. -/
def standaloneArguments? (factory : Node) : Option (List Node) := do
  guard factory.kind.isFunctionExpression
  let body ← factory.part? .body
  let second ← body.bodyStatements[1]?
  guard (second.kind == .returnStatement)
  let returned ← second.expression?
  guard (returned.kind == .callExpression)
  let callee := (← returned.part? .function).unwrap
  guard (callee.kind == .callExpression)
  callee.callArguments?

/-- The call of a statement, perhaps negated or assigned. -/
def statementCall? (n : Node) : Option Node := do
  guard (n.kind == .expressionStatement)
  let e ← n.expression?
  let e ←
    match e.kind with
    | .unaryExpression => (e.part? .argument).map Node.unwrap
    | .assignmentExpression => (e.part? .right).map Node.unwrap
    | _ => some e
  guard (e.kind == .callExpression)
  return e

/-- The kinds of the three arguments of a packed bundle. -/
def packedKinds : List Kind := [.objectLiteral, .objectLiteral, .arrayLiteral]

/-- The three arguments of a packed bundle: modules, cache and entries. -/
def packedArguments? (statements : List Node) : Option (List Node) := do
  let body := statements.filter (·.kind != .emptyStatement)
  guard (body.length ≤ 2)
  let call ← statementCall? (← body.getLast?)
  let outer ← call.callArguments?
  let arguments :=
    match outer with
    | [factory] =>
      match standaloneArguments? factory with
      | some (first :: rest) => first :: rest
      | _ => outer
    | _ => outer
  guard (arguments.map Node.kind == packedKinds)
  return arguments

/-! ## AMD bundles -/

/-- A module that a statement defines. -/
structure Definition where
  /-- The path under which it is defined. -/
  path : Text
  /-- The function that makes it. -/
  factory : Node

/-- The endings of the paths under which modules are defined. -/
def definitionEndings : List Text := [Text.ofString ".js", Text.ofString ".ts"]

/-- The path and the function of a statement that looks like a definition. -/
def definitionParts? (n : Node) : Option (Node × Node) := do
  guard (n.kind == .expressionStatement)
  let call ← n.expression?
  guard (call.kind == .callExpression)
  let callee ← call.part? .function
  guard (callee.kind == .identifier && callee.text == Text.ofString "define")
  match ← call.callArguments? with
  | [path, factory] =>
    guard (path.kind == .stringLiteral && factory.kind.isFunctionExpression)
    return (path, factory)
  | _ => none

/-- The module that a statement defines, if it defines one. -/
def definition? (n : Node) : Except LiteralError (Option Definition) :=
  match definitionParts? n with
  | none => .ok none
  | some (path, factory) => do
    let value ← path.stringValue
    return if definitionEndings.any (Text.endsWith value) then some ⟨value, factory⟩ else none

/-- The modules that statements define. -/
def definitions : List Node → Except LiteralError (List Definition)
  | [] => .ok []
  | n :: ns => do
    let found ← definition? n
    return found.toList ++ (← definitions ns)

/-- Whether a statement defines a module; statements behind the first one that does are not
looked at. -/
def hasDefinition : List Node → Except LiteralError Bool
  | [] => .ok false
  | n :: ns => do
    match ← definition? n with
    | some _ => return true
    | none => hasDefinition ns

/-! ## Both -/

/-- The shape of a script with the given statements. -/
def BundleKind.ofStatements (statements : List Node) : Except LiteralError BundleKind :=
  match packedArguments? statements with
  | some _ => .ok .packed
  | none => do return if ← hasDefinition statements then .amd else .leaf

end Debundle
