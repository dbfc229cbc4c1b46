import Debundle.Script.Lexeme
import Debundle.Text.Alphanumeric

/-!
# What stands between tokens

White space and comments separate tokens, and a line end may stand for a semicolon.

* `skipTrivia`: the comments before the next token, and the place of that token.
* `autoSemicolon`: whether a statement that may end at a place ends there without a semicolon.

The rule for automatic semicolons looks at the text behind the last token only.  A statement
ends at the end of the source, before a closing brace, and at a line end unless the next line
goes on with something that can only continue an expression.  A comment on the same line is
passed over when the statement cannot be continued by an operator; otherwise the rule gives up
at the comment and is asked again behind it, so that such a comment belongs to the statement.
-/

namespace Debundle.Script

/-! ## Comments -/

/-- The size of what is left of a block comment, its end included; zero if it has no end. -/
def blockCommentSize : Text → Nat
  | [] => 0
  | c :: cs =>
    if c.is '*' && cs.head?.any (·.is '/') then 2
    else
      match blockCommentSize cs with
      | 0 => 0
      | n => n + 1

/-- Whether a code point ends a line comment. -/
def endsLineComment (c : CodePoint) : Bool := c.is '\r' || c.isLineEnd

/-- The size of the comment at the front of a text. -/
def commentSize : Text → Nat
  | c :: d :: rest =>
    if !c.is '/' then 0
    else if d.is '/' then 2 + (rest.takeWhile fun e => !endsLineComment e).length
    else if d.is '*' then
      match blockCommentSize rest with
      | 0 => 0
      | n => n + 2
    else 0
  | _ => 0

/-- A comment with the place behind it. -/
structure Remark where
  /-- The comment as a node. -/
  node : Node
  /-- The place behind the comment. -/
  after : Cursor

/-- The comments before the next token and the place of that token. -/
def skipTrivia : Nat → Cursor → List Remark × Cursor
  | 0, c => ([], c)
  | fuel + 1, c =>
    let blank := (c.rest.takeWhile CodePoint.isSpace).length
    let c := if blank == 0 then c else c.move blank
    match commentSize c.rest with
    | 0 => ([], c)
    | n =>
      let after := c.move n
      let (remarks, place) := skipTrivia fuel after
      (⟨c.leaf .comment n, after⟩ :: remarks, place)

/-! ## Automatic semicolons -/

/-- What a gap between tokens holds. -/
inductive Gap where
  /-- White space and comments, and then a token. -/
  | clear
  /-- A block comment within one line. -/
  | sameLine
  /-- A slash that begins no comment. -/
  | slash
deriving DecidableEq, Repr

/-- What follows a block comment, and whether a line ends inside it. -/
def afterBlockComment : Bool → Text → Bool × Text
  | broken, [] => (broken, [])
  | broken, c :: cs =>
    if c.is '*' && cs.head?.any (·.is '/') then (broken, cs.drop 1)
    else afterBlockComment (broken || c.isLineEnd) cs

/-- Steps over white space and comments.  Unless `whole`, it stops behind a block comment that no
slash follows, and says whether a line has ended inside a block comment so far. -/
def scanGap (whole : Bool) : Nat → Bool → Text → Gap × Text
  | 0, _, t => (.clear, t)
  | fuel + 1, broken, t =>
    match t.dropWhile CodePoint.isPlainSpace with
    | [] => (.clear, [])
    | c :: cs =>
      if !c.is '/' then (.clear, c :: cs)
      else
        match cs with
        | [] => (.slash, [])
        | d :: ds =>
          if d.is '/' then
            scanGap whole fuel broken (ds.dropWhile fun e => !e.isLineEnd)
          else if d.is '*' then
            let (broken, rest) := afterBlockComment broken ds
            if whole || rest.head?.any (·.is '/') || rest.isEmpty then scanGap whole fuel broken rest
            else (if broken then .clear else .sameLine, rest)
          else (.slash, cs)

/-- Whether a letter continues a word. -/
def continuesWord (c : CodePoint) : Bool := c.isLetter || (0x80 ≤ c.val && c.isAlphanumeric)

/-- Whether `in` or `instanceof` stands at the front of a text. -/
def startsWithRelation (t : Text) : Bool :=
  (Text.startsWith t "in" && !(t.drop 2).head?.any continuesWord)
    || (Text.startsWith t "instanceof" && !(t.drop 10).head?.any continuesWord)

/-- Whether a line that begins with the given text leaves the line before it complete. -/
def beginsAnew (t : Text) : Bool :=
  match t with
  | [] => true
  | c :: cs =>
    if [0x60, 0x2C, 0x3A, 0x3B, 0x2A, 0x25, 0x3E, 0x3C, 0x3D, 0x5B, 0x28, 0x3F, 0x5E, 0x7C, 0x26,
        0x2F].contains c.val then false
    else if c.is '.' then cs.head?.any CodePoint.isDigit
    else if c.is '+' then cs.head?.any (·.is '+')
    else if c.is '-' then cs.head?.any (·.is '-')
    else if c.is '!' then !cs.head?.any (·.is '=')
    else !startsWithRelation t

/-- Whether the text behind a line end leaves the line before it complete. -/
def breaksLine (fuel : Nat) (t : Text) : Bool :=
  match scanGap true fuel false t with
  | (.slash, _) => false
  | (_, rest) => beginsAnew rest

/-- Whether a statement ends at a code point that begins no comment; `next` decides behind a
blank. -/
def endsAt (next : Text → Bool) (fuel : Nat) : Text → Bool
  | [] => false
  | d :: ds =>
    if d.is '\x7d' then true
    else if d.isLineEnd then breaksLine fuel ds
    else if !d.isPlainSpace then false
    else next ds

/-- Whether a statement that may end here ends without a semicolon.  `continuable` says that an
operator could continue it. -/
def autoSemicolon (continuable : Bool) : Nat → Text → Bool
  | 0, _ => false
  | _ + 1, [] => true
  | fuel + 1, c :: cs =>
    if c.is '/' then
      match scanGap false fuel false (c :: cs) with
      | (.slash, _) => false
      | (.clear, rest) =>
        if !continuable && !rest.head?.any (fun d => d.is ',' || d.is '=') then true
        else endsAt (autoSemicolon continuable fuel) fuel rest
      | (.sameLine, rest) => endsAt (autoSemicolon continuable fuel) fuel rest
    else endsAt (autoSemicolon continuable fuel) fuel (c :: cs)

end Debundle.Script
