import Debundle.Script.Node
import Debundle.Text.Utf8

/-!
# Edits

Sources are changed by replacing spans of bytes.

* `applyEdits`: a range of bytes with the edits inside it applied, from left to right.  An edit
  that overlaps an earlier one or leaves the range is passed over.
* `renameEdits`: the edits that rename references.  A property written in short form keeps its
  key.
-/

namespace Debundle.Script

/-- The replacement of a span of bytes by a text. -/
structure Edit where
  /-- The offset of the first byte that is replaced. -/
  start : Nat
  /-- The offset behind the last one. -/
  stop : Nat
  /-- What stands there instead. -/
  text : Text
deriving DecidableEq, Repr

namespace Edit

/-- The order in which edits are applied: by place, then by text. -/
def le (a b : Edit) : Bool :=
  if a.start != b.start then a.start < b.start
  else if a.stop != b.stop then a.stop < b.stop
  else Text.le a.text b.text

end Edit

/-- The bytes from `cursor` to `stop` with sorted edits applied. -/
def editedBytes (bytes : Bytes) (stop : Nat) : Nat → List Edit → Bytes
  | cursor, [] => bytes.slice cursor stop
  | cursor, e :: edits =>
    if e.start < cursor || stop < e.stop then editedBytes bytes stop cursor edits
    else bytes.slice cursor e.start ++ e.text.bytes ++ editedBytes bytes stop e.stop edits

/-- Why a range cannot be edited. -/
inductive EditError where
  /-- The text of an edit has no UTF-8 form. -/
  | unencodable
  /-- The result is not UTF-8. -/
  | undecodable
deriving DecidableEq, Repr

/-- The edits that are applied: those that neither overlap an earlier one nor leave the range. -/
def effectiveEdits (stop : Nat) : Nat → List Edit → List Edit
  | _, [] => []
  | cursor, e :: edits =>
    if e.start < cursor || stop < e.stop then effectiveEdits stop cursor edits
    else e :: effectiveEdits stop e.stop edits

/-- The text of a range of bytes with the edits inside it applied. -/
def applyEdits (bytes : Bytes) (start stop : Nat) (edits : List Edit) : Except EditError Text :=
  let sorted := edits.mergeSort Edit.le
  if (effectiveEdits stop start sorted).any fun e => e.text.surrogateAt?.isSome then
    .error .unencodable
  else
    match (editedBytes bytes stop start sorted).decode with
    | .ok text => .ok text
    | .error _ => .error .undecodable

/-- The edit that renames one reference. -/
def renameEdit (new : Text) (n : Node) : Edit :=
  let text := if n.kind == .shorthandPropertyIdentifier then n.text ++ ": " ++ new else new
  ⟨n.start, n.stop, text⟩

/-- The edits that rename references. -/
def renameEdits (new : Text) (refs : List Node) : List Edit := refs.map (renameEdit new)

end Debundle.Script
