import Debundle.Yaml.Node

/-!
# The value of a document

* `Node.toValue`: the value that a tree stands for.
* `Yaml.load`: the value of a document.
-/

namespace Debundle.Yaml

/-- The value of a scalar with a tag. -/
def scalarValue (tag text : Text) : Except Error Scalar :=
  if tag == Meaning.null.tag then .ok .null
  else if tag == Meaning.bool.tag then readBool text
  else if tag == Meaning.int.tag then readInteger text
  else if tag == Meaning.float.tag then readFloat text
  else if tag == Meaning.time.tag then readTime text
  else if tag == Meaning.text.tag then .ok (.text text)
  else .error .malformed

/-- The value of a key: a scalar, where the mark for the value of a mapping is a text. -/
def keyValue : Node → Except Error Scalar
  | .scalar tag text => if tag == Meaning.default.tag then .ok (.text text) else scalarValue tag text
  | _ => .error .malformed

/-- Whether a key takes in another mapping. -/
def isMergeKey : Node → Bool
  | .scalar tag _ => tag == Meaning.merge.tag
  | .sequence tag _ => tag == Meaning.merge.tag
  | .mapping tag _ => tag == Meaning.merge.tag

/-- The mapping that entries make; a later value for a key takes the place of an earlier one. -/
def mappingOf (entries : List (Scalar × Value)) : Mapping :=
  entries.foldl (fun m e => Mapping.insert e.1 e.2 m) []

mutual

/-- The value that a tree stands for. -/
def Node.toValue : Node → Except Error Value
  | .scalar tag text => Value.scalar <$> scalarValue tag text
  | .sequence tag items =>
    if tag == sequenceTag then Value.list <$> itemValues items else .error .malformed
  | .mapping tag entries =>
    if tag == mappingTag then do
      let (merged, own) ← entryValues entries
      return .mapping (mappingOf (merged ++ own))
    else .error .malformed

/-- The values of items. -/
def itemValues : List Node → Except Error (List Value)
  | [] => .ok []
  | n :: ns => do
    let v ← n.toValue
    return v :: (← itemValues ns)

/-- The entries that a mapping takes in, and its own entries. -/
def entryValues : List (Node × Node) → Except Error (Mapping × Mapping)
  | [] => .ok ([], [])
  | (k, v) :: rest => do
    if isMergeKey k then
      let taken ← mergedEntries v
      let (merged, own) ← entryValues rest
      return (taken ++ merged, own)
    else
      let key ← keyValue k
      let value ← v.toValue
      let (merged, own) ← entryValues rest
      return (merged, (key, value) :: own)

/-- The entries of a mapping, or of a sequence of mappings, that is taken in. -/
def mergedEntries : Node → Except Error Mapping
  | .scalar _ _ => .error .malformed
  | .mapping _ entries => do
    let (merged, own) ← entryValues entries
    return merged ++ own
  | .sequence _ items => mergedItems items

/-- The entries of mappings that are taken in together: those of the last one first. -/
def mergedItems : List Node → Except Error Mapping
  | [] => .ok []
  | .mapping _ entries :: rest => do
    let (merged, own) ← entryValues entries
    return (← mergedItems rest) ++ merged ++ own
  | _ :: _ => .error .malformed

end

/-- The value of a document; an empty one is null. -/
def load (t : Text) : Except Error Value := do
  match ← Node.ofTokens (← Token.scan t) with
  | none => return .scalar .null
  | some n => n.toValue

end Debundle.Yaml
