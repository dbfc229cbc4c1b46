import Debundle.Script.Node
import Debundle.Decimal.Shortest

/-!
# Values of literals

Module tables name modules by strings and numbers, so ids are the values of literals as text.

* `Node.stringValue`: the text that a string literal denotes.
* `numberText`: the text of a number.  Integers in any base are written in decimal; a BigInt
  loses its suffix only; other numbers are written with the fewest digits.
* `Node.literalValue`, `Node.propertyKey`: the id that an expression or a key spells, if any.
-/

namespace Debundle.Script

/-! ## Strings -/

/-- A code point escape beyond the last code point, which has no value. -/
inductive LiteralError where
  /-- The number is no code point. -/
  | notACodePoint
  /-- The number does not even fit into 32 bits with a sign. -/
  | tooLarge
deriving DecidableEq, Repr

/-- The text of a number without a code point in a message. -/
def LiteralError.message : LiteralError → Text
  | .notACodePoint => "chr() arg not in range(0x110000)"
  | .tooLarge => "signed integer is greater than maximum"

/-- The code point with a number. -/
def codePoint (n : Nat) : Except LiteralError Text :=
  match CodePoint.ofNat? n with
  | some c => .ok [c]
  | none => .error (if n < 0x80000000 then .notACodePoint else .tooLarge)

/-- What a backslash and one more code point stand for. -/
def simpleEscape (c : CodePoint) : CodePoint :=
  match c.char with
  | 'n' => '\n'
  | 'r' => '\r'
  | 't' => '\t'
  | 'b' => '\x08'
  | 'f' => '\x0c'
  | 'v' => '\x0b'
  | '0' => '\x00'
  | _ => c

/-- The hexadecimal digits of an escape that is written by number. -/
def escapeDigits? (rest : Text) : Option Text :=
  match rest with
  | x :: ds =>
    let inBraces := ds.drop 1 |>.dropLast
    if x.is 'x' && ds.length == 2 && ds.all CodePoint.isHexDigit then some ds
    else if x.is 'u' && ds.length == 4 && ds.all CodePoint.isHexDigit then some ds
    else if x.is 'u' && 3 ≤ ds.length && ds.head?.any (·.is '\x7b') && ds.getLast?.any (·.is '\x7d')
        && inBraces.all CodePoint.isHexDigit then some inBraces
    else none
  | [] => none

/-- The text that an escape sequence denotes.  A backslash at the end of a line denotes nothing,
and an octal escape of several digits stays as it is written. -/
def unescape (raw : Text) : Except LiteralError Text :=
  match raw with
  | _ :: c :: rest =>
    if c.is '\n' || c.is '\r' then .ok []
    else
      match escapeDigits? (c :: rest) with
      | some digits => codePoint (Text.readNat 16 digits)
      | none => .ok (if rest.isEmpty then [simpleEscape c] else raw)
  | _ => .ok raw

/-- The text that a piece of a string denotes. -/
def pieceValue (n : Node) : Except LiteralError Text :=
  match n.kind with
  | .stringFragment => .ok n.text
  | .escapeSequence => unescape n.text
  | _ => .ok []

/-- The text that a string literal denotes. -/
def Node.stringValue (n : Node) : Except LiteralError Text := do
  let pieces ← n.children.mapM pieceValue
  return pieces.flatten

/-! ## Numbers -/

/-- Integers of more decimal digits are neither read nor written in decimal. -/
def digitLimit : Nat := 4300

/-- The digits behind a base mark, if they are digits of that base. -/
def basedInteger? (base : Nat) (p : CodePoint → Bool) (digits : Text) : Option Nat :=
  if digits.isEmpty || !digits.all p then none else some (Text.readNat base digits)

/-- The integer that a token writes: in decimal without a leading zero, or behind a base mark. -/
def readInteger? (token : Text) : Option Nat :=
  match token with
  | z :: m :: digits =>
    if z.is '0' then
      match m.toLower.char with
      | 'x' => basedInteger? 16 CodePoint.isHexDigit digits
      | 'o' => basedInteger? 8 CodePoint.isOctalDigit digits
      | 'b' => basedInteger? 2 CodePoint.isBinaryDigit digits
      | _ => if token.all (·.is '0') then some 0 else none
    else if token.all CodePoint.isDigit && token.length ≤ digitLimit then
      some (Text.readNat 10 token)
    else none
  | _ => if !token.isEmpty && token.all CodePoint.isDigit then some (Text.readNat 10 token) else none

/-- The decimal numeral of the integer that a token writes, if it is not too long. -/
def integerText? (token : Text) : Option Text := do
  let n ← readInteger? token
  let text := Text.ofNat n
  if text.length ≤ digitLimit then some text else none

/-- The text of a number that is no integer literal: integers below `10 ^ 21` in decimal, other
numbers with the fewest digits. -/
def fractionText (x : Binary64) : Text :=
  match x.integer? with
  | some n => if n.natAbs < Nat.pow 10 21 then Text.ofInt n else x.spelling
  | none => x.spelling

/-- The text of the number that a token writes. -/
def numberText (token : Text) : Text :=
  let token := token.filter fun c => !c.is '_'
  if token.getLast?.any (·.is 'n') then token.dropLast
  else
    match integerText? token with
    | some text => text
    | none =>
      match Text.readDecimal? token with
      | some x => fractionText x
      | none => token

/-! ## Ids -/

/-- The text of a string or a number, with or without parentheses; nothing else has one. -/
def Node.literalValue (n : Node) : Except LiteralError (Option Text) :=
  let n := n.unwrap
  match n.kind with
  | .stringLiteral => some <$> n.stringValue
  | .numberLiteral => .ok (some (numberText n.text))
  | _ => .ok none

/-- The text of a property key; a computed or private key has none. -/
def Node.propertyKey (n : Node) : Except LiteralError (Option Text) :=
  if n.kind == .propertyIdentifier then .ok (some n.text) else n.literalValue

end Debundle.Script
