import Debundle.Script.Grammar

/-!
# Parsed sources

`Source.parse` reads a script.  It fails on a text that has no UTF-8 form and on a text that is
no script; it never repairs anything.

Comments are collected while reading and then put into the tree: each one goes into the
innermost node that begins before it and ends behind it.
-/

namespace Debundle.Script

/-! ## Comments in the tree -/

mutual

/-- Puts comments, in the order of the source, among the children of a node that surrounds them. -/
def Node.withRemarks (remarks : List Node) : Node → Node
  | ⟨kind, role, start, stop, text, children⟩ =>
    ⟨kind, role, start, stop, text, Node.weave remarks children⟩

/-- Puts comments between or into the nodes of a list. -/
def Node.weave (remarks : List Node) : List Node → List Node
  | [] => remarks
  | c :: cs =>
    let before := remarks.takeWhile (·.start < c.start)
    let rest := remarks.drop before.length
    let inside := rest.takeWhile (·.stop ≤ c.stop)
    before ++ Node.withRemarks inside c :: Node.weave (rest.drop inside.length) cs

end

/-! ## Parsing -/

/-- Why a text is no script. -/
inductive ParseError where
  /-- The text has a surrogate at the given offset. -/
  | unencodable (offset : Nat)
  /-- The text does not follow the grammar. -/
  | malformed
deriving DecidableEq, Repr

/-- What is said of a text that is no script. -/
def ParseError.message : ParseError → Text
  | .unencodable offset =>
    "source cannot be encoded as UTF-8: surrogates not allowed at offset " ++ Text.ofNat offset
  | .malformed => "syntax error"

/-- A source with its tree. -/
structure Source where
  /-- The text as it was given. -/
  text : Text
  /-- Its bytes, to which the offsets of the tree refer. -/
  bytes : Bytes
  /-- The tree. -/
  root : Node

namespace Source

/-- The tree of a text that follows the grammar. -/
def tree? (text : Text) : Option Node := do
  let (found, reader) ← Grammar.program (4 * text.length + 8) (Reader.start text)
  let remarks := reader.comments.reverse ++ reader.skipped.map Remark.node
  let children := Node.weave remarks found
  let start := (children.head?.map Node.start).getD reader.total
  let root := Node.branch .program start reader.total children
  if root.isSettled then some root else none

/-- Reads a script. -/
def parse (text : Text) : Except ParseError Source :=
  match text.encode with
  | .error offset => .error (.unencodable offset)
  | .ok bytes =>
    match tree? text with
    | none => .error .malformed
    | some root => .ok ⟨text, bytes, root⟩

/-- The statements at the top. -/
def statements (s : Source) : List Node := s.root.parts

/-- The text between the offsets of a node. -/
def textOf (s : Source) (n : Node) : Text :=
  match (s.bytes.slice n.start n.stop).decode with
  | .ok t => t
  | .error _ => []

end Source

end Debundle.Script
