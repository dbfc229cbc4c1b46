import Debundle.Text.Basic

/-!
# Places in a document

Configuration files are written in YAML.  The layout of a document matters, so a place in it
knows its line and its column.

* `Yaml.Error`: why a document has no value.
* `Yaml.Place`: a place, with the text from there on.
* `Yaml.Scan`: a reader that moves through a document and may fail.
-/

namespace Debundle.Yaml

/-! ## Failures -/

/-- Why a document has no value. -/
inductive Error where
  /-- It does not follow the format. -/
  | malformed
  /-- An escape gives a number beyond the last code point. -/
  | notACodePoint
  /-- An escape gives a number of more than 31 bits. -/
  | escapeTooLarge
  /-- A scalar that is marked as a truth value is none. -/
  | notABool (text : Text)
  /-- A scalar that stands for an integer is none in its base. -/
  | notAnInteger (base : Nat) (text : Text)
  /-- A scalar that stands for an integer is empty. -/
  | emptyInteger
  /-- An integer has more digits than are read. -/
  | tooManyDigits (count : Nat)
  /-- A scalar that stands for a floating-point number is none. -/
  | notAFloat (text : Text)
  /-- A scalar that stands for a point in time does not look like one. -/
  | notATime
  /-- There is no such point in time. -/
  | noSuchTime (reason : Text)
deriving DecidableEq, Repr

/-! ## Code points with a meaning for the layout -/

/-- Whether a code point ends a line. -/
def isBreak (c : CodePoint) : Bool :=
  c.is '\n' || c.is '\r' || c.val == 0x85 || c.val == 0x2028 || c.val == 0x2029

/-- Whether the document or a line ends here. -/
def endsLine : Option CodePoint → Bool
  | none => true
  | some c => isBreak c

/-- Whether the document or a line ends here, or a space stands here. -/
def endsWord : Option CodePoint → Bool
  | none => true
  | some c => isBreak c || c.is ' '

/-- Whether the document or a line ends here, or a space or a tab stands here. -/
def endsMark : Option CodePoint → Bool
  | none => true
  | some c => isBreak c || c.is ' ' || c.is '\t'

/-- Whether a code point may stand in the name of an anchor or of a directive. -/
def isWordPart (c : CodePoint) : Bool := c.isLetter || c.isDigit || c.is '-' || c.is '_'

/-- Whether a code point may stand in a document at all. -/
def isAllowed (c : CodePoint) : Bool :=
  let n := c.val
  n == 0x9 || n == 0xA || n == 0xD || (0x20 ≤ n && n ≤ 0x7E) || n == 0x85
    || (0xA0 ≤ n && n ≤ 0xD7FF) || (0xE000 ≤ n && n ≤ 0xFFFD) || 0x10000 ≤ n

/-! ## Places -/

/-- A place in a document. -/
structure Place where
  /-- The text from here on. -/
  rest : Text
  /-- How many code points stand before it. -/
  index : Nat
  /-- Its line, from zero on. -/
  line : Nat
  /-- Its column, from zero on. -/
  column : Nat
deriving Inhabited

namespace Place

/-- The beginning of a document. -/
def start (t : Text) : Place := ⟨t, 0, 0, 0⟩

/-- The place behind the next code point.  A byte order mark takes no column. -/
def next (p : Place) : Place :=
  match p.rest with
  | [] => p
  | c :: cs =>
    if isBreak c && !(c.is '\r' && cs.head?.any (·.is '\n')) then ⟨cs, p.index + 1, p.line + 1, 0⟩
    else ⟨cs, p.index + 1, p.line, if c.val == 0xFEFF then p.column else p.column + 1⟩

/-- The place behind the next `n` code points. -/
def forward (p : Place) : Nat → Place
  | 0 => p
  | n + 1 => forward p.next n

end Place

/-! ## Readers -/

/-- A reader of a document. -/
abbrev Scan (α : Type) := StateT Place (Except Error) α

namespace Scan

/-- Fails because the document does not follow the format. -/
def fail {α : Type} : Scan α := throw .malformed

/-- Goes on only if the condition holds. -/
def require (b : Bool) : Scan Unit := if b then pure () else fail

/-- The code point `n` places ahead. -/
def peekAt (n : Nat) : Scan (Option CodePoint) := return (← get).rest[n]?

/-- The next code point. -/
def peek : Scan (Option CodePoint) := return (← get).rest.head?

/-- Whether the next code point is the given one. -/
def sees (ch : Char) : Scan Bool := return (← peek).any (·.is ch)

/-- Moves on. -/
def forward (n : Nat) : Scan Unit := modify (·.forward n)

/-- Reads the next `n` code points. -/
def take (n : Nat) : Scan Text := do
  let t := (← get).rest.take n
  forward n
  return t

/-- Reads code points of a class. -/
def takeWhile (p : CodePoint → Bool) : Scan Text := do
  take ((← get).rest.takeWhile p).length

/-- Passes over spaces. -/
def skipSpaces : Scan Unit := do
  let _ ← takeWhile (·.is ' ')

/-- Passes over a comment, up to the end of its line. -/
def skipComment : Scan Unit := do
  if ← sees '#' then
    let _ ← takeWhile fun c => !isBreak c

/-- Reads the end of a line: empty if there is none, a line feed for the usual ones, and the
separators of lines and paragraphs as they are. -/
def lineBreak : Scan Text := do
  let p ← get
  match p.rest with
  | [] => return []
  | c :: cs =>
    if c.is '\r' && cs.head?.any (·.is '\n') then
      forward 2
      return "\n"
    else if isBreak c then
      forward 1
      return if c.val == 0x2028 || c.val == 0x2029 then [c] else "\n"
    else return []

/-- Repeats a step that may change a value until it says that it is done, for at most as many
rounds as there are code points left. -/
def iterate {α : Type} (step : α → Scan (α × Bool)) (a : α) : Scan α := do
  let rec go : Nat → α → Scan α
    | 0, a => pure a
    | fuel + 1, a => do
      match ← step a with
      | (a, true) => go fuel a
      | (a, false) => pure a
  go ((← get).rest.length + 2) a

/-- Whether `---` or `...` stands here as a mark of its own. -/
def seesSeparator : Scan Bool := do
  let t := (← get).rest
  let mark : Text := t.take 3
  return (mark == Text.ofString "---" || mark == Text.ofString "...") && endsMark (t[3]?)

end Scan

end Debundle.Yaml
