import Debundle.Script.Kind

/-!
# Syntax trees

A node carries its kind, the role it plays in its parent, the byte offsets between which it
stands, and its children from left to right.  Leaves also carry their text, so the analyses are
functions of the tree alone.

* `Node.parts`: the children without comments and keywords.
* `Node.part?`: the child in a role.
* `Node.all`: the node and everything below it, parents before children.
* `Node.unwrap`: what stands inside parentheses.
-/

namespace Debundle.Script

/-- A node of a syntax tree. -/
structure Node where
  /-- What the node is. -/
  kind : Kind
  /-- The role it plays in its parent. -/
  role : Option Role
  /-- The byte offset of its first byte. -/
  start : Nat
  /-- The byte offset behind its last byte. -/
  stop : Nat
  /-- The text of a leaf; empty for every other node. -/
  text : Text
  /-- The children from left to right, comments among them. -/
  children : List Node
deriving Repr, Inhabited

namespace Node

/-- A node without children. -/
def leaf (kind : Kind) (start stop : Nat) (text : Text) : Node :=
  ⟨kind, none, start, stop, text, []⟩

/-- A node with children. -/
def branch (kind : Kind) (start stop : Nat) (children : List Node) : Node :=
  ⟨kind, none, start, stop, [], children⟩

/-- The node in a role. -/
def as (n : Node) (role : Role) : Node := { n with role := some role }

/-- The node with another kind. -/
def withKind (n : Node) (kind : Kind) : Node := { n with kind := kind }

/-- Whether a child is a part of its parent: no comment and no keyword. -/
def isPart (n : Node) : Bool := !n.kind.isExtra && n.kind != .keyword

/-- The children that are parts of the node. -/
def parts (n : Node) : List Node := n.children.filter isPart

/-- The first child in a role. -/
def part? (n : Node) (role : Role) : Option Node := n.children.find? fun c => c.role == some role

/-- The offsets of a node. -/
def span (n : Node) : Nat × Nat := (n.start, n.stop)

/-- The node and everything below it, parents before children and from left to right. -/
def all : Node → List Node
  | ⟨kind, role, start, stop, text, children⟩ =>
    ⟨kind, role, start, stop, text, children⟩ :: allOf children
where
  /-- Everything in a list of trees. -/
  allOf : List Node → List Node
    | [] => []
    | c :: cs => c.all ++ allOf cs

/-- The number of nodes of a tree. -/
def size : Node → Nat
  | ⟨_, _, _, _, _, children⟩ => sizeOf children + 1
where
  /-- The number of nodes of a list of trees. -/
  sizeOf : List Node → Nat
    | [] => 0
    | c :: cs => c.size + sizeOf cs

/-- What stands inside all the parentheses around a node.  Parentheses around several parts
are kept. -/
def unwrap : Node → Node
  | ⟨kind, role, start, stop, text, children⟩ =>
    if kind == .parenthesizedExpression then
      (unwrapOnly children).getD ⟨kind, role, start, stop, text, children⟩
    else ⟨kind, role, start, stop, text, children⟩
where
  /-- The only part of a list of children, without its parentheses. -/
  unwrapOnly : List Node → Option Node
    | [] => none
    | c :: cs =>
      if c.isPart then
        if cs.any isPart then none else some c.unwrap
      else unwrapOnly cs

/-- The expression of a statement: its first part, without parentheses. -/
def expression? (n : Node) : Option Node := n.parts.head?.map unwrap

/-- The arguments of a call, each without parentheses.  A call with a template has none. -/
def callArguments? (n : Node) : Option (List Node) :=
  match n.part? .arguments with
  | some args => if args.kind == .arguments then some (args.parts.map unwrap) else none
  | none => none

/-- Whether a statement is a string literal on its own. -/
def isDirective (n : Node) : Bool :=
  n.kind == .expressionStatement &&
    match n.parts with
    | [inner] => inner.kind == .stringLiteral
    | _ => false

/-- The statements of a block behind its leading directives. -/
def bodyStatements (n : Node) : List Node := n.parts.dropWhile isDirective

end Node

end Debundle.Script
