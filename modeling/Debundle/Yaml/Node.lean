import Debundle.Data.Table
import Debundle.Yaml.Plain
import Debundle.Yaml.Token

/-!
# Nodes

The tokens of a document make a tree of scalars, sequences and mappings, each with a tag that
says what it stands for.  A node that was given a name may be used again by that name.

* `Node`: the tree.
* `Builder`: reads nodes from tokens, with the names and the tag handles that are known.
* `Node.ofTokens`: the tree of a stream with at most one document.
-/

namespace Debundle.Yaml

/-- A scalar, sequence or mapping with its tag. -/
inductive Node where
  /-- A scalar. -/
  | scalar (tag text : Text)
  /-- A sequence. -/
  | sequence (tag : Text) (items : List Node)
  /-- A mapping. -/
  | mapping (tag : Text) (entries : List (Node × Node))
deriving Inhabited

/-! ## Tags -/

/-- What the tags of the format itself begin with. -/
def coreTag : Text := "tag:yaml.org,2002:"

/-- The tag for a meaning. -/
def Meaning.tag : Meaning → Text
  | .null => coreTag ++ "null"
  | .bool => coreTag ++ "bool"
  | .int => coreTag ++ "int"
  | .float => coreTag ++ "float"
  | .time => coreTag ++ "timestamp"
  | .text => coreTag ++ "str"
  | .merge => coreTag ++ "merge"
  | .default => coreTag ++ "value"

/-- The tag of a sequence that has none. -/
def sequenceTag : Text := coreTag ++ "seq"

/-- The tag of a mapping that has none. -/
def mappingTag : Text := coreTag ++ "map"

/-- The tag that leaves the choice open. -/
def openTag : Text := "!"

/-- The handles that are known without a directive. -/
def knownHandles : Table Text := [(Text.ofString "!", openTag), (Text.ofString "!!", coreTag)]

/-! ## Builders -/

/-- What has been read, and what is left to read. -/
structure BuilderState where
  /-- The tokens that are left. -/
  tokens : List Token
  /-- The nodes that have a name. -/
  anchors : Table Node
  /-- What the handles of tags stand for. -/
  handles : Table Text

/-- Reads from tokens. -/
abbrev Builder (α : Type) := StateT BuilderState (Except Error) α

namespace Builder

/-- Fails because the document does not follow the format. -/
def fail {α : Type} : Builder α := throw .malformed

/-- The next token. -/
def peek : Builder (Option Token) := return (← get).tokens.head?

/-- Whether the next token is one of some tokens. -/
def sees (ts : List Token) : Builder Bool := return (← peek).any ts.contains

/-- Passes over a token. -/
def skip : Builder Unit := modify fun s => { s with tokens := s.tokens.drop 1 }

/-- Reads the given token. -/
def expect (t : Token) : Builder Unit := do
  if ← sees [t] then skip else fail

/-- Reads the given token if it is there. -/
def accept (t : Token) : Builder Bool := do
  if ← sees [t] then
    skip
    return true
  else return false

/-- A scalar that is not written at all. -/
def absent : Node := .scalar Meaning.null.tag []

/-- The full form of a tag. -/
def fullTag (t : Tag) : Builder Text := do
  match t.handle with
  | none => return t.suffix
  | some h =>
    match (← get).handles.get? h with
    | some meaning => return meaning ++ t.suffix
    | none => fail

/-- Reads the name and the tag before a node, in either order. -/
def properties : Builder (Option Text × Option Text) := do
  match ← peek with
  | some (.anchor name) =>
    skip
    match ← peek with
    | some (.tag t) =>
      skip
      return (some name, some (← fullTag t))
    | _ => return (some name, none)
  | some (.tag t) =>
    skip
    match ← peek with
    | some (.anchor name) =>
      skip
      return (some name, some (← fullTag t))
    | _ => return (none, some (← fullTag t))
  | _ => return (none, none)

/-- The tag of a collection: the written one, unless that leaves the choice open. -/
def collectionTag (written : Option Text) (usual : Text) : Text :=
  match written with
  | none => usual
  | some t => if t == openTag then usual else t

/-- The tag of a scalar: the written one, or what a plain scalar looks like. -/
def scalarTag (written : Option Text) (text : Text) (isPlain : Bool) : Text :=
  match written with
  | none => if isPlain then (Meaning.ofPlain text).tag else Meaning.text.tag
  | some t => if t == openTag then (Meaning.ofPlain text).tag else t

/-- Where a node stands: what may begin there. -/
inductive Position where
  /-- In brackets: no block collections. -/
  | flow
  /-- In a block. -/
  | block
  /-- In a block mapping, where a sequence need not be indented. -/
  | value
deriving DecidableEq, Repr

/-- Collects items until there is none, for at most as many rounds as there are tokens. -/
def many {α : Type} (item : Builder (Option α)) : Builder (List α) := do
  let rec go : Nat → List α → Builder (List α)
    | 0, found => pure found.reverse
    | fuel + 1, found => do
      match ← item with
      | none => pure found.reverse
      | some a => go fuel (a :: found)
  go ((← get).tokens.length + 1) []

/-- A node, unless one of some tokens follows: then there is none. -/
def absentBefore (ts : List Token) (node : Builder Node) : Builder Node := do
  if ← sees ts then return absent else node

/-! ### Collections

Each of these takes the reader for the nodes inside. -/

/-- The items of a block sequence. -/
def blockSequence (inner : Position → Builder Node) : Builder (List Node) := do
  expect .blockSequence
  let items ← many do
    if ← accept .dash then some <$> absentBefore [.dash, .blockEnd] (inner .block) else return none
  expect .blockEnd
  return items

/-- The items of a sequence that is not indented. -/
def flatSequence (inner : Position → Builder Node) : Builder (List Node) :=
  many do
    if ← accept .dash then some <$> absentBefore [.dash, .key, .value, .blockEnd] (inner .block)
    else return none

/-- The entries of a block mapping. -/
def blockMapping (inner : Position → Builder Node) : Builder (List (Node × Node)) := do
  expect .blockMapping
  let ends := [Token.key, Token.value, Token.blockEnd]
  let entries ← many do
    if ← accept .key then
      let k ← absentBefore ends (inner .value)
      let v ← if ← accept .value then absentBefore ends (inner .value) else pure absent
      return some (k, v)
    else return none
  expect .blockEnd
  return entries

/-- A key with its value between brackets or braces. -/
def flowPair (inner : Position → Builder Node) (close : Token) : Builder (Node × Node) := do
  let k ← absentBefore [.value, .comma, close] (inner .flow)
  let v ← if ← accept .value then absentBefore [.comma, close] (inner .flow) else pure absent
  return (k, v)

/-- Items between brackets or braces, with commas between them and perhaps behind the last. -/
def flowItems {α : Type} (close : Token) (item : Builder α) : Builder (List α) := do
  if ← accept close then return []
  else
    let first ← item
    let rest ← many do
      if ← sees [close] then return none
      else
        expect .comma
        if ← sees [close] then return none else some <$> item
    expect close
    return first :: rest

/-- The items of a flow sequence; a key with its value is a mapping of its own. -/
def flowSequence (inner : Position → Builder Node) : Builder (List Node) := do
  expect .flowSequence
  flowItems .flowSequenceEnd do
    if ← accept .key then return .mapping mappingTag [← flowPair inner .flowSequenceEnd]
    else inner .flow

/-- The entries of a flow mapping; a node alone is a key without a value. -/
def flowMapping (inner : Position → Builder Node) : Builder (List (Node × Node)) := do
  expect .flowMapping
  flowItems .flowMappingEnd do
    if ← accept .key then flowPair inner .flowMappingEnd else return (← inner .flow, absent)

/-! ### Nodes -/

/-- Reads a node behind its name and tag. -/
def content (inner : Position → Builder Node) (position : Position) (named : Bool)
    (tag : Option Text) : Builder Node := do
  let inBlock := position != .flow
  match ← peek with
  | some (.scalar text isPlain) =>
    skip
    return .scalar (scalarTag tag text isPlain) text
  | some .flowSequence => return .sequence (collectionTag tag sequenceTag) (← flowSequence inner)
  | some .flowMapping => return .mapping (collectionTag tag mappingTag) (← flowMapping inner)
  | some .dash =>
    if position == .value then
      return .sequence (collectionTag tag sequenceTag) (← flatSequence inner)
    else empty
  | some .blockSequence =>
    if inBlock then return .sequence (collectionTag tag sequenceTag) (← blockSequence inner)
    else empty
  | some .blockMapping =>
    if inBlock then return .mapping (collectionTag tag mappingTag) (← blockMapping inner)
    else empty
  | _ => empty
where
  /-- A node that only has a name or a tag. -/
  empty : Builder Node := if named || tag.isSome then return .scalar (scalarTag tag [] true) [] else fail

/-- Gives a node a name, which may not be taken. -/
def setAnchor (name : Text) (n : Node) : Builder Unit := do
  if (← get).anchors.has name then fail
  else modify fun s => { s with anchors := s.anchors.insert name n }

/-- Reads a node, with the reader for the nodes inside it. -/
def nodeWith (inner : Position → Builder Node) (position : Position) : Builder Node := do
  match ← peek with
  | some (.alias name) =>
    skip
    match (← get).anchors.get? name with
    | some n => return n
    | none => fail
  | _ =>
    let (name, tag) ← properties
    let n ← content inner position name.isSome tag
    match name with
    | some a => setAnchor a n
    | none => pure ()
    return n

/-- Reads a node of at most the given depth. -/
def node : Nat → Position → Builder Node
  | 0, _ => fail
  | depth + 1, position => nodeWith (node depth) position

/-! ### Documents -/

/-- Takes in the directives before a document. -/
def directives : Builder Unit := do
  let found ← many do
    match ← peek with
    | some (.directive d) =>
      skip
      return some d
    | _ => return none
  let versions := found.filterMap fun | .version n => some n | _ => none
  let handles := found.filterMap fun | .handle h meaning => some (h, meaning) | _ => none
  if 1 < versions.length || versions.any (· != 1) then fail
  else if !(handles.map Prod.fst).Nodup then fail
  else modify fun s => { s with handles := knownHandles.insertAll handles }

/-- Whether something other than a document's content follows. -/
def seesEdge : Builder Bool := do
  match ← peek with
  | none => return true
  | some (.directive _) | some .documentStart | some .documentEnd => return true
  | _ => return false

/-- Reads the only document of a stream, if there is one. -/
def document (depth : Nat) : Builder (Option Node) := do
  match ← peek with
  | none => return none
  | some (.directive _) | some .documentStart =>
    directives
    expect .documentStart
    some <$> if ← seesEdge then pure absent else node depth .block
  | _ => some <$> node depth .block

/-- Reads a stream with at most one document. -/
def stream (depth : Nat) : Builder (Option Node) := do
  let found ← document depth
  let _ ← many do
    if ← accept .documentEnd then return some () else return none
  if (← get).tokens.isEmpty then return found else fail

end Builder

/-- The tree of a stream with at most one document; no node if there is none. -/
def Node.ofTokens (tokens : List Token) : Except Error (Option Node) :=
  ((Builder.stream (tokens.length + 1)).run ⟨tokens, [], knownHandles⟩).map Prod.fst

end Debundle.Yaml
