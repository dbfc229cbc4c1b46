import Debundle.Script.Node

/-!
# Scopes

What the renaming passes need to know about names: which nodes give a name a meaning of their
own, where below a node a name keeps the meaning it has there, and where it is given a value.

* `patternNames`: the names that a pattern binds.
* `functionBinds`, `blockBinds`, `rebinds`: whether a node introduces a name.
* `walk`: the nodes below a root where a name keeps its meaning.
* `references`: the uses of a name among them.
* `bindingSites`, `firstReassignment`: the declarations and assignments of a name among them.
-/

namespace Debundle.Script

/-! ## Names that a pattern binds -/

/-- The names that a parameter or a destructuring pattern binds, from left to right. -/
def patternNames : Node → List Text
  | ⟨kind, _, _, _, text, children⟩ =>
    match kind with
    | .identifier | .shorthandPropertyIdentifierPattern => [text]
    | .assignmentPattern | .objectAssignmentPattern => inRole .left children
    | .pairPattern => inRole .value children
    | .objectPattern | .arrayPattern | .restPattern | .formalParameters => inAll children
    | _ => []
where
  /-- The names that the first child in a role binds. -/
  inRole (role : Role) : List Node → List Text
    | [] => []
    | c :: cs => if c.role == some role then patternNames c else inRole role cs
  /-- The names that all parts bind. -/
  inAll : List Node → List Text
    | [] => []
    | c :: cs => if c.isPart then patternNames c ++ inAll cs else inAll cs

/-- The names that the child in a role binds. -/
def Node.namesOf (n : Node) (role : Role) : List Text :=
  match n.part? role with
  | some p => patternNames p
  | none => []

/-! ## Names that a node introduces -/

/-- The names that a declaration declares. -/
def declaredNames (n : Node) : List Text :=
  (n.parts.filter (·.kind == .variableDeclarator)).flatMap (·.namesOf .name)

/-- The text of the own name of a function or class. -/
def Node.ownName? (n : Node) : Option Text := (n.part? .name).map Node.text

/-- Whether a kind declares a function. -/
def Kind.declaresFunction : Kind → Bool
  | .functionDeclaration | .generatorFunctionDeclaration => true
  | _ => false

/-- Whether a kind is a declaration with a name of its own. -/
def Kind.isNamedDeclaration : Kind → Bool
  | .functionDeclaration | .generatorFunctionDeclaration | .classDeclaration => true
  | _ => false

/-- Whether the declarations inside nodes of a kind are not seen from outside. -/
def Kind.enclosesVariables (k : Kind) : Bool :=
  k.isFunctionLike || k == .classDeclaration || k == .classExpression

/-- The names that a node and what is below it declare in the surrounding function: `var`
declarations and functions, but nothing inside functions and classes. -/
def hoistedNames : Node → List Text
  | ⟨kind, role, start, stop, text, children⟩ =>
    let self : Node := ⟨kind, role, start, stop, text, children⟩
    if kind.declaresFunction then self.ownName?.toList
    else if kind.enclosesVariables then []
    else
      let own := if kind == .variableDeclaration then declaredNames self else []
      own ++ inParts children
where
  /-- The names that the parts of a node declare. -/
  inParts : List Node → List Text
    | [] => []
    | c :: cs => if c.isPart then hoistedNames c ++ inParts cs else inParts cs

/-- Whether a block introduces a name: by `let` or `const`, or as a function or class, directly
among its statements; in the head of a loop; or as the parameter of a handler. -/
def blockBinds (n : Node) (name : Text) : Bool :=
  match n.kind with
  | .statementBlock | .switchBody | .classBody | .program =>
    n.parts.any fun c =>
      (c.kind == .lexicalDeclaration && (declaredNames c).contains name)
        || (c.kind.isNamedDeclaration && c.ownName? == some name)
  | .forStatement =>
    match n.part? .initializer with
    | some first => first.kind == .lexicalDeclaration && (declaredNames first).contains name
    | none => false
  | .forInStatement =>
    match n.part? .kind with
    | some w => w.text != Text.ofString "var" && (n.namesOf .left).contains name
    | none => false
  | .catchClause => (n.namesOf .parameter).contains name
  | _ => false

/-- Whether a function introduces a name: as a parameter, as its own name if it is an expression,
or by a declaration in its body. -/
def functionBinds (n : Node) (name : Text) : Bool :=
  (n.namesOf .parameters).contains name
    || (n.namesOf .parameter).contains name
    || ((n.kind.isFunctionExpression || n.kind == .generatorFunction) && n.ownName? == some name)
    || match n.part? .body with
      | some body =>
        body.kind == .statementBlock
          && ((body.parts.flatMap hoistedNames).contains name || blockBinds body name)
      | none => false

/-- Whether a node gives a name a meaning of its own. -/
def rebinds (n : Node) (name : Text) : Bool :=
  if n.kind.isFunctionLike then functionBinds n name else blockBinds n name

/-! ## Where a name keeps its meaning -/

/-- Works off a stack of nodes: one that rebinds the name is dropped with all that is below it,
any other is given out and replaced by its children. -/
def walkStack (name : Text) : Nat → List Node → List Node
  | 0, _ => []
  | _ + 1, [] => []
  | fuel + 1, n :: stack =>
    if rebinds n name then walkStack name fuel stack
    else n :: walkStack name fuel (n.children ++ stack)

/-- The nodes below a root where a name keeps the meaning it has at the root, parents before
children. -/
def walk (root : Node) (name : Text) : List Node := walkStack name root.size root.children

/-- Whether a leaf uses a name. -/
def isReference (n : Node) (name : Text) : Bool :=
  (n.kind == .identifier || n.kind == .shorthandPropertyIdentifier) && n.text == name

/-- The uses of a name below a root. -/
def references (root : Node) (name : Text) : List Node :=
  (walk root name).filter (isReference · name)

/-- What a node gives a value to: the target of an assignment, or the name in a declaration. -/
def Node.target? (n : Node) : Option Node :=
  match n.kind with
  | .assignmentExpression | .augmentedAssignmentExpression => n.part? .left
  | .variableDeclarator => n.part? .name
  | k => if k.isNamedDeclaration then n.part? .name else none

/-- The identifier to which a node gives a value, if that is the given name. -/
def bindingTarget? (n : Node) (name : Text) : Option Node :=
  n.target?.filter fun t => t.kind == .identifier && t.text == name

/-- The nodes below a root that give a name a value. -/
def bindingSites (root : Node) (name : Text) : List Node :=
  (walk root name).filter fun n => (bindingTarget? n name).isSome

/-- The first offset at which a name is given a value below a root. -/
def firstReassignment (root : Node) (name : Text) : Option Nat :=
  ((bindingSites root name).map Node.start).min?

end Debundle.Script
