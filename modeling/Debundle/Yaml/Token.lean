import Debundle.Yaml.Lexeme

/-!
# Tokens

A document is a sequence of tokens.  In block collections some of them are not written: the
layout begins and ends a collection, and a mapping key shows only by the colon behind it.  So a
place where a key may begin is remembered, and when the colon comes the tokens for the key are
put in there.

* `Token`: the tokens.
* `Tokenizer`: how far a document has been read, with the open block collections and the places
  where a key may have begun.
* `Token.scan`: the tokens of a document.
-/

namespace Debundle.Yaml

/-- A token. -/
inductive Token where
  /-- A directive. -/
  | directive (d : Directive)
  /-- The mark that begins a document. -/
  | documentStart
  /-- The mark that ends a document. -/
  | documentEnd
  /-- The layout begins a sequence. -/
  | blockSequence
  /-- The layout begins a mapping. -/
  | blockMapping
  /-- The layout ends a collection. -/
  | blockEnd
  /-- An opening bracket. -/
  | flowSequence
  /-- A closing bracket. -/
  | flowSequenceEnd
  /-- An opening brace. -/
  | flowMapping
  /-- A closing brace. -/
  | flowMappingEnd
  /-- A comma. -/
  | comma
  /-- The dash before an item. -/
  | dash
  /-- The beginning of a key. -/
  | key
  /-- The colon before a value. -/
  | value
  /-- The name of a node that stands elsewhere. -/
  | alias (name : Text)
  /-- A name for the node that follows. -/
  | anchor (name : Text)
  /-- A tag for the node that follows. -/
  | tag (t : Tag)
  /-- A scalar, and whether it is written plainly. -/
  | scalar (text : Text) (isPlain : Bool)
deriving DecidableEq, Repr

/-- A place where a key may have begun. -/
structure KeyMark where
  /-- How many tokens stand before it. -/
  token : Nat
  /-- Whether a key has to begin there. -/
  required : Bool
  /-- The place. -/
  index : Nat
  /-- Its line. -/
  line : Nat
  /-- Its column. -/
  column : Nat
deriving DecidableEq, Repr

/-- How far a document has been read. -/
structure Tokenizer where
  /-- The tokens so far. -/
  tokens : List Token
  /-- How many brackets and braces are open. -/
  flowLevel : Nat
  /-- The column of the innermost block collection; before the first one `-1`. -/
  indent : Int
  /-- The columns of those around it. -/
  indents : List Int
  /-- Whether a key may begin here. -/
  allowKey : Bool
  /-- For each level of brackets the place where a key may have begun. -/
  keys : List (Nat × KeyMark)

/-- A reader of tokens. -/
abbrev Lex (α : Type) := StateT Tokenizer (StateT Place (Except Error)) α

namespace Lex

/-- How far a key may reach from its beginning to the colon. -/
def keyReach : Nat := 1024

/-- Whether brackets are open. -/
def inFlow : Lex Bool := return 0 < (← get).flowLevel

/-- Adds a token. -/
def emit (t : Token) : Lex Unit := modify fun s => { s with tokens := s.tokens ++ [t] }

/-- Says whether a key may begin here. -/
def setAllowKey (b : Bool) : Lex Unit := modify fun s => { s with allowKey := b }

/-- The place. -/
def place : Lex Place := fun s p => .ok ((p, s), p)

/-- Fails because the document does not follow the format. -/
def fail {α : Type} : Lex α := throw .malformed

/-- Goes on only if the condition holds. -/
def require (b : Bool) : Lex Unit := if b then pure () else fail

/-! ## Keys -/

/-- Forgets the places where a key can no longer have begun: a key stands on one line. -/
def dropStaleKeys : Lex Unit := do
  let p ← place
  let s ← get
  let isStale (k : KeyMark) : Bool := k.line != p.line || keyReach < p.index - k.index
  require (s.keys.all fun k => !(isStale k.2 && k.2.required))
  set { s with keys := s.keys.filter fun k => !isStale k.2 }

/-- Forgets the place where a key may have begun at this level. -/
def dropKey : Lex Unit := do
  let s ← get
  require (s.keys.all fun k => !(k.1 == s.flowLevel && k.2.required))
  set { s with keys := s.keys.filter fun k => k.1 != s.flowLevel }

/-- Remembers that a key may begin here. -/
def saveKey : Lex Unit := do
  if (← get).allowKey then
    dropKey
    let p ← place
    let s ← get
    let required := s.flowLevel == 0 && s.indent == (p.column : Int)
    let mark : KeyMark := ⟨s.tokens.length, required, p.index, p.line, p.column⟩
    set { s with keys := (s.flowLevel, mark) :: s.keys }

/-! ## Layout -/

/-- Ends the block collections that begin right of a column. -/
def unwind (column : Int) : Lex Unit := do
  let rec go : List Int → Int → List Token → Tokenizer → Tokenizer
    | [], indent, ends, s =>
      { s with tokens := s.tokens ++ ends, indent := indent, indents := [] }
    | outer :: rest, indent, ends, s =>
      if column < indent then go rest outer (.blockEnd :: ends) s
      else { s with tokens := s.tokens ++ ends, indent := indent, indents := outer :: rest }
  let s ← get
  if s.flowLevel == 0 then set (go s.indents s.indent [] s)

/-- Begins a block collection at a column unless one begins there, and says whether it did. -/
def indentTo (column : Nat) : Lex Bool := do
  let s ← get
  if s.indent < (column : Int) then
    set { s with indents := s.indent :: s.indents, indent := column }
    return true
  else return false

/-- Passes over blanks, comments and line ends; a key may begin on a new line outside brackets. -/
def skipToToken : Lex Unit := do
  if (← place).index == 0 && (← place).rest.head?.any (·.val == 0xFEFF) then Scan.forward 1
  let rec go : Nat → Lex Unit
    | 0 => pure ()
    | fuel + 1 => do
      Scan.skipSpaces
      Scan.skipComment
      let ended ← Scan.lineBreak
      if ended.isEmpty then pure ()
      else
        if !(← inFlow) then setAllowKey true
        go fuel
  go ((← place).rest.length + 1)

/-! ## Tokens -/

/-- A mark that begins or ends a document, or the end of everything: all blocks end. -/
def endBlocks : Lex Unit := do
  unwind (-1)
  dropKey
  setAllowKey false

/-- An opening bracket or brace. -/
def openFlow (t : Token) : Lex Unit := do
  saveKey
  modify fun s => { s with flowLevel := s.flowLevel + 1, allowKey := true }
  Scan.forward 1
  emit t

/-- A closing bracket or brace. -/
def closeFlow (t : Token) : Lex Unit := do
  require (← inFlow)
  dropKey
  modify fun s => { s with flowLevel := s.flowLevel - 1, allowKey := false }
  Scan.forward 1
  emit t

/-- A comma. -/
def flowComma : Lex Unit := do
  setAllowKey true
  dropKey
  Scan.forward 1
  emit .comma

/-- A dash before an item. -/
def blockDash : Lex Unit := do
  if !(← inFlow) then
    require (← get).allowKey
    if ← indentTo (← place).column then emit .blockSequence
  setAllowKey true
  dropKey
  Scan.forward 1
  emit .dash

/-- A question mark before a key. -/
def explicitKey : Lex Unit := do
  let flow ← inFlow
  if !flow then
    require (← get).allowKey
    if ← indentTo (← place).column then emit .blockMapping
  setAllowKey !flow
  dropKey
  Scan.forward 1
  emit .key

/-- A colon behind a key that began at a remembered place, or behind none. -/
def colon : Lex Unit := do
  let s ← get
  let flow ← inFlow
  match s.keys.find? fun k => k.1 == s.flowLevel with
  | some (_, mark) =>
    let begins ← if flow then pure false else indentTo mark.column
    let added := if begins then [Token.blockMapping, Token.key] else [Token.key]
    modify fun s =>
      { s with
        keys := s.keys.filter fun k => k.1 != s.flowLevel
        tokens := s.tokens.take mark.token ++ added ++ s.tokens.drop mark.token
        allowKey := false }
  | none =>
    if !flow then
      require s.allowKey
      if ← indentTo (← place).column then emit .blockMapping
    setAllowKey !flow
    dropKey
  Scan.forward 1
  emit .value

/-- A token that may begin a key. -/
def keyed (read : Scan Token) : Lex Unit := do
  saveKey
  setAllowKey false
  emit (← read)

/-- A block scalar, behind which a key may begin. -/
def blockScalar (folded : Bool) : Lex Unit := do
  setAllowKey true
  dropKey
  let text ← Scan.block folded (← get).indent
  emit (.scalar text false)

/-- A plain scalar. -/
def plainScalar : Lex Unit := do
  saveKey
  let (text, broken) ← Scan.plain (← inFlow) ((← get).indent + 1)
  setAllowKey broken
  emit (.scalar text true)

/-- The code points that begin no plain scalar. -/
def indicators : List Char := "-?:,[]\x7b\x7d#&*!|>'\"%@\x60".toList

/-- Whether a plain scalar begins with a code point before another one. -/
def beginsPlain (flow : Bool) (c : CodePoint) (second : Option CodePoint) : Bool :=
  !(endsMark (some c) || indicators.any (c.is ·))
    || (!endsMark second && (c.is '-' || (!flow && (c.is '?' || c.is ':'))))

/-- Reads the token that begins with a code point. -/
def token (c : CodePoint) : Lex Unit := do
  let p ← place
  let flow ← inFlow
  let second := p.rest[1]?
  let atMargin := p.column == 0
  let separator (mark : String) : Bool :=
    atMargin && Text.startsWith p.rest mark && endsMark (p.rest[3]?)
  if c.is '%' && atMargin then
    endBlocks
    emit (.directive (← Scan.directive))
  else if separator "---" then
    endBlocks
    Scan.forward 3
    emit .documentStart
  else if separator "..." then
    endBlocks
    Scan.forward 3
    emit .documentEnd
  else if c.is '[' then openFlow .flowSequence
  else if c.is '\x7b' then openFlow .flowMapping
  else if c.is ']' then closeFlow .flowSequenceEnd
  else if c.is '\x7d' then closeFlow .flowMappingEnd
  else if c.is ',' then flowComma
  else if c.is '-' && endsMark second then blockDash
  else if c.is '?' && (flow || endsMark second) then explicitKey
  else if c.is ':' && (flow || endsMark second) then colon
  else if c.is '*' then keyed (Token.alias <$> Scan.word)
  else if c.is '&' then keyed (Token.anchor <$> Scan.word)
  else if c.is '!' then keyed (Token.tag <$> Scan.tag)
  else if c.is '|' && !flow then blockScalar false
  else if c.is '>' && !flow then blockScalar true
  else if c.is '\x27' then keyed ((Token.scalar · false) <$> Scan.quoted false)
  else if c.is '"' then keyed ((Token.scalar · false) <$> Scan.quoted true)
  else if beginsPlain flow c second then plainScalar
  else fail

/-- Reads all tokens, at most `fuel` of them. -/
def tokens : Nat → Lex (List Token)
  | 0 => fail
  | fuel + 1 => do
    skipToToken
    dropStaleKeys
    unwind (← place).column
    match (← place).rest with
    | [] =>
      endBlocks
      return (← get).tokens
    | c :: _ =>
      token c
      tokens fuel

end Lex

/-- The tokens of a document. -/
def Token.scan (t : Text) : Except Error (List Token) :=
  if t.all isAllowed then
    ((Lex.tokens (t.length + 2)).run ⟨[], 0, -1, [], true, []⟩ |>.run (Place.start t)).map (·.1.1)
  else .error .malformed

end Debundle.Yaml
