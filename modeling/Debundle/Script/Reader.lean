import Debundle.Script.Trivia

/-!
# Reading tokens

A parser is a function on a `Reader`: the place behind the last token, the place of the next
one, and the comments passed on the way.  Tokens are cut on demand, because what a slash or a
brace begins depends on the grammar.

A parser that fails leaves nothing behind, so alternatives are tried in order.  Repetitions are
bounded by the bytes that are left, each round consuming at least one.
-/

namespace Debundle.Script

/-- How far a source has been read. -/
structure Reader where
  /-- The number of bytes of the source. -/
  total : Nat
  /-- The place behind the last token. -/
  back : Cursor
  /-- The place of the next token. -/
  here : Cursor
  /-- The comments between the two, from left to right. -/
  skipped : List Remark
  /-- The comments before `back`, the last one first. -/
  comments : List Node
deriving Inhabited

/-- A parser: it may fail, and otherwise gives a value and reads on. -/
abbrev Parser (α : Type) := StateT Reader Option α

namespace Reader

/-- A bound on the number of further tokens. -/
def fuel (r : Reader) : Nat := r.total - r.back.pos + 2

/-- Reads on from a place behind `here`. -/
def advanceTo (r : Reader) (c : Cursor) : Reader :=
  let (skipped, here) := skipTrivia (r.total - c.pos + 1) c
  { r with
    back := c, here := here, skipped := skipped,
    comments := (r.skipped.map Remark.node).reverse ++ r.comments }

/-- Reads on from a place behind `here`, where white space and comments are text. -/
def jumpTo (r : Reader) (c : Cursor) : Reader :=
  { r with
    back := c, here := c, skipped := [],
    comments := (r.skipped.map Remark.node).reverse ++ r.comments }

/-- The reader at the beginning of a source. -/
def start (t : Text) : Reader :=
  let size := t.utf8Size
  let origin : Cursor := ⟨t, 0⟩
  let (skipped, here) := skipTrivia (size + 1) origin
  ⟨size, origin, here, skipped, []⟩

end Reader

namespace Parser

/-! ## Combinators -/

/-- Gives up. -/
def fail {α : Type} : Parser α := fun _ => none

/-- Goes on only if the condition holds. -/
def require (b : Bool) : Parser Unit := if b then pure () else fail

/-- The value of an optional result. -/
def demand {α : Type} (a : Option α) : Parser α :=
  match a with
  | some a => pure a
  | none => fail

/-- The first parser, or the second from the same place if the first one fails. -/
def orElse {α : Type} (p q : Parser α) : Parser α := fun r =>
  match p r with
  | some result => some result
  | none => q r

/-- A result if there is one. -/
def optional {α : Type} (p : Parser α) : Parser (Option α) := fun r =>
  match p r with
  | some (a, r) => some (some a, r)
  | none => some (none, r)

/-- Whether a parser would succeed; nothing is consumed. -/
def succeeds {α : Type} (p : Parser α) : Parser Bool := fun r => some ((p r).isSome, r)

/-- Changes a value as long as the step says how, for `fuel` rounds at most. -/
def iterateFor {α : Type} (step : α → Parser (Option α)) : Nat → α → Parser α
  | 0, a => pure a
  | fuel + 1, a => do
    match ← step a with
    | none => pure a
    | some a => iterateFor step fuel a

/-- Changes a value as long as the step says how. -/
def iterate {α : Type} (step : α → Parser (Option α)) (a : α) : Parser α := fun r =>
  iterateFor step r.fuel a r

/-- Collects items until there is no further one. -/
def many {α : Type} (item : Parser (Option α)) : Parser (List α) := do
  let found ← iterate (fun (acc : List α) => do
    match ← item with
    | none => pure none
    | some a => pure (some (a :: acc))) []
  pure found.reverse

/-! ## Places -/

/-- The text at the next token. -/
def ahead : Parser Text := fun r => some (r.here.rest, r)

/-- The offset of the next token. -/
def position : Parser Nat := fun r => some (r.here.pos, r)

/-- The offset behind the last token. -/
def lastStop : Parser Nat := fun r => some (r.back.pos, r)

/-- A node around what a parser reads. -/
def node (kind : Kind) (p : Parser (List Node)) : Parser Node := do
  let start ← position
  let children ← p
  let stop ← lastStop
  pure (Node.branch kind start stop children)

/-- A node that begins where an earlier node begins and ends behind the last token. -/
def nodeFrom (kind : Kind) (start : Nat) (children : List Node) : Parser Node := do
  let stop ← lastStop
  pure (Node.branch kind start stop children)

/-! ## Tokens -/

/-- The next `n` code points as a leaf. -/
def token (kind : Kind) (n : Nat) : Parser Node := fun r =>
  if n == 0 then none else some (r.here.leaf kind n, r.advanceTo (r.here.move n))

/-- Whether the source is at its end. -/
def atEnd : Parser Bool := return (← ahead).isEmpty

/-- The next punctuator. -/
def punctuation : Parser Text := return punctuator (← ahead)

/-- Whether the next punctuator is the given one. -/
def sees (mark : String) : Parser Bool := return (← punctuation) == Text.ofString mark

/-- Whether the next code point is the given one. -/
def seesChar (ch : Char) : Parser Bool := return (← ahead).head?.any (·.is ch)

/-- Reads a punctuator. -/
def mark (s : String) : Parser Unit := do
  require (← sees s)
  let _ ← token .keyword (Text.ofString s).length

/-- Reads one code point. -/
def single (ch : Char) : Parser Unit := do
  require (← seesChar ch)
  let _ ← token .keyword 1

/-- Reads a punctuator if it is there. -/
def mark? (s : String) : Parser Bool := return (← optional (mark s)).isSome

/-- The word at the next token; empty if there is none. -/
def word : Parser Text := do
  let t ← ahead
  pure (t.take (nameSize t))

/-- Whether the next token is the given word. -/
def seesWord (s : String) : Parser Bool := return (← word) == Text.ofString s

/-- Reads the given word and gives its leaf. -/
def keywordNode (s : String) : Parser Node := do
  let w ← word
  require (w == Text.ofString s)
  token .keyword w.length

/-- Reads the given word. -/
def keyword (s : String) : Parser Unit := do
  let _ ← keywordNode s

/-- Reads the given word if it is there. -/
def keyword? (s : String) : Parser Bool := return (← optional (keyword s)).isSome

/-- A word of any kind as a leaf. -/
def anyWord (kind : Kind) : Parser Node := do
  let w ← word
  token kind w.length

/-- A name that is not reserved. -/
def name (kind : Kind) : Parser Node := do
  let w ← word
  require (!isReserved w)
  token kind w.length

/-- Whether the next token is a name that is not reserved. -/
def seesName : Parser Bool := do
  let w ← word
  pure (!w.isEmpty && !isReserved w)

/-! ## Ends of statements -/

/-- The places where a statement may end on its own: behind the last token and behind each of
the comments after it. -/
def endings (r : Reader) : List (Cursor × List Remark) :=
  let rec go : Cursor → List Remark → List Remark → List (Cursor × List Remark)
    | c, passed, [] => [(c, passed)]
    | c, passed, m :: ms => (c, passed) :: go m.after (passed ++ [m]) ms
  go r.back [] r.skipped

/-- Moves the end of the last token over the comments that a statement takes in. -/
def settle (r : Reader) (place : Cursor) (passed : List Remark) : Reader :=
  { r with
    back := place,
    skipped := r.skipped.drop passed.length,
    comments := (passed.map Remark.node).reverse ++ r.comments }

/-- An automatic semicolon, if the statement may end here. -/
def autoEnd (continuable : Bool) : Parser Unit := fun r =>
  match (endings r).find? (fun e => autoSemicolon continuable r.fuel e.1.rest) with
  | some (place, passed) => some ((), settle r place passed)
  | none => none

/-- The end of a statement: a semicolon, or a place where none is needed. -/
def semicolon (continuable : Bool) : Parser Unit := orElse (mark ";") (autoEnd continuable)

/-- Whether a line end stands before the next token and completes what stands before it. -/
def lineBreaks (continuable : Bool) : Parser Bool := succeeds (autoEnd continuable)

/-- A closing brace may take in the comments up to an automatic semicolon. -/
def blockEnd (continuable : Bool) : Parser Unit := do
  let _ ← optional (autoEnd continuable)

end Parser

end Debundle.Script
