import Debundle.Script.Node
import Debundle.Text.Utf8
import Debundle.Text.Blank

/-!
# Lexemes

How far a name, a number, an escape or a regular expression reaches at the front of a text.
Each recogniser gives the number of code points it covers, zero when there is none; all of them
take the longest match.

A `Cursor` is a place in a source: the text from there on, with its byte offset.
-/

namespace Debundle.Script

/-! ## Places -/

/-- A place in a source. -/
structure Cursor where
  /-- The text from here on. -/
  rest : Text
  /-- The byte offset of the place. -/
  pos : Nat
deriving Inhabited

namespace Cursor

/-- The place `n` code points further on. -/
def move (c : Cursor) (n : Nat) : Cursor := ⟨c.rest.drop n, c.pos + Text.utf8Size (c.rest.take n)⟩

/-- The leaf made of the next `n` code points. -/
def leaf (c : Cursor) (kind : Kind) (n : Nat) : Node :=
  let text : Text := c.rest.take n
  Node.leaf kind c.pos (c.pos + text.utf8Size) text

end Cursor

/-! ## Repeated units -/

/-- How many code points are covered by units that follow one another, after `skip` code points
that belong to a unit already found.  `unit t` is the size of the unit at the front of `t`. -/
def coverFrom (unit : Text → Nat) : Nat → Text → Nat
  | _, [] => 0
  | skip + 1, _ :: cs => coverFrom unit skip cs + 1
  | 0, c :: cs =>
    match unit (c :: cs) with
    | 0 => 0
    | skip + 1 => coverFrom unit skip cs + 1

/-! ## Escapes and names -/

/-- The size of the digits at the front of a text, if all of the first `n` are of the class. -/
def exactly (p : CodePoint → Bool) (n : Nat) (t : Text) : Bool :=
  (t.take n).length == n && (t.take n).all p

/-- The size of a unicode escape: a backslash, `u`, and four hexadecimal digits or any number of
them in braces. -/
def unicodeEscapeSize : Text → Nat
  | back :: u :: rest =>
    if back.is '\\' && u.is 'u' then
      if exactly CodePoint.isHexDigit 4 rest then 6
      else
        match rest with
        | brace :: digits =>
          let n := (digits.takeWhile CodePoint.isHexDigit).length
          if brace.is '\x7b' && n != 0 && ((digits.drop n).head?.any (·.is '\x7d')) then n + 4 else 0
        | [] => 0
    else 0
  | _ => 0

/-- Punctuation of scripts, which ends a name. -/
def isPunctuation (c : CodePoint) : Bool :=
  let n := c.val
  (0x21 ≤ n && n ≤ 0x23) || (0x25 ≤ n && n ≤ 0x2F) || (0x3A ≤ n && n ≤ 0x40)
    || (0x5B ≤ n && n ≤ 0x5E) || n == 0x60 || (0x7B ≤ n && n ≤ 0x7E)

/-- Whether a code point may stand in a name. -/
def isNamePart (c : CodePoint) : Bool := 0x1F < c.val && !c.isSpace && !isPunctuation c

/-- Whether a code point may begin a name. -/
def isNameStart (c : CodePoint) : Bool := isNamePart c && !c.isDigit

/-- The size of the unit of a name at the front of a text. -/
def nameUnit (p : CodePoint → Bool) (t : Text) : Nat :=
  match t with
  | [] => 0
  | c :: _ => if p c then 1 else unicodeEscapeSize t

/-- The size of the name at the front of a text. -/
def nameSize (t : Text) : Nat :=
  match nameUnit isNameStart t with
  | 0 => 0
  | n => n + coverFrom (nameUnit isNamePart) 0 (t.drop n)

/-- The size of the escape at the front of a text in a string or a template: a backslash with
two hexadecimal digits behind `x`, a unicode escape, one to three octal digits, a line end of
two code points, or any one code point. -/
def escapeSize : Text → Nat
  | back :: c :: rest =>
    if !back.is '\\' then 0
    else if c.is 'x' then if exactly CodePoint.isHexDigit 2 rest then 4 else 0
    else if c.is 'u' then unicodeEscapeSize (back :: c :: rest)
    else if c.isOctalDigit then 2 + ((rest.take 2).takeWhile CodePoint.isOctalDigit).length
    else if (c.is '\r' || c.is '?') && rest.head?.any CodePoint.isLineEnd then 3
    else 2
  | _ => 0

/-! ## Numbers -/

/-- The size of a run of digits, in which single underscores may separate digits. -/
def digitRun (p : CodePoint → Bool) : Text → Nat
  | [] => 0
  | c :: cs =>
    if p c then
      1 + coverFrom (fun t =>
        match t with
        | [] => 0
        | d :: ds => if p d then 1 else if d.is '_' && ds.head?.any p then 2 else 0) 0 cs
    else 0

/-- The size of an exponent. -/
def exponentSize : Text → Nat
  | e :: rest =>
    if e.is 'e' || e.is 'E' then
      let sign := if rest.head?.any (fun c => c.is '+' || c.is '-') then 1 else 0
      match digitRun CodePoint.isDigit (rest.drop sign) with
      | 0 => 0
      | n => 1 + sign + n
    else 0
  | [] => 0

/-- The size of an integer behind a base mark such as `0x`. -/
def basedSize (small large : Char) (p : CodePoint → Bool) : Text → Nat
  | zero :: mark :: rest =>
    if zero.is '0' && (mark.is small || mark.is large) then
      match digitRun p rest with
      | 0 => 0
      | n => if (rest.drop n).head?.any (·.is 'n') then n + 3 else n + 2
    else 0
  | _ => 0

/-- Whether digits may stand before a point or an exponent: a zero alone, or digits whose first
or second one is not zero. -/
def isWholePart (digits : Text) : Bool :=
  match digits with
  | [] => false
  | [c] => c.isDigit
  | c :: d :: _ => !c.is '0' || (d.isDigit && !d.is '0')

/-- The size of a decimal number. -/
def decimalSize (t : Text) : Nat :=
  let n := digitRun CodePoint.isDigit t
  let rest := t.drop n
  if n == 0 then
    match rest with
    | point :: frac =>
      if point.is '.' then
        match digitRun CodePoint.isDigit frac with
        | 0 => 0
        | m => 1 + m + exponentSize (frac.drop m)
      else 0
    | [] => 0
  else if rest.head?.any (·.is 'n') then n + 1
  else if !isWholePart (t.take n) then n
  else
    match rest with
    | point :: frac =>
      if point.is '.' then
        let m := digitRun CodePoint.isDigit frac
        n + 1 + m + exponentSize (frac.drop m)
      else n + exponentSize rest
    | [] => n

/-- The size of the number at the front of a text. -/
def numberSize (t : Text) : Nat :=
  let sizes := [basedSize 'x' 'X' CodePoint.isHexDigit t, basedSize 'b' 'B' CodePoint.isBinaryDigit t,
    basedSize 'o' 'O' CodePoint.isOctalDigit t, decimalSize t]
  sizes.foldl Nat.max 0

/-! ## Regular expressions -/

/-- Whether a code point may follow a backslash in a regular expression. -/
def isEscapable (c : CodePoint) : Bool := !c.is '\n'

/-- The size of a unit of a character class. -/
def classUnit : Text → Nat
  | c :: rest =>
    if c.is '\\' then if rest.head?.any isEscapable then 2 else 0
    else if c.is ']' || c.is '\n' then 0
    else 1
  | [] => 0

/-- The size of a unit of a regular expression: an escape, a class or a plain code point. -/
def regexUnit : Text → Nat
  | c :: rest =>
    if c.is '\\' then if rest.head?.any isEscapable then 2 else 0
    else if c.is '[' then
      let n := coverFrom classUnit 0 rest
      if (rest.drop n).head?.any (·.is ']') then n + 2 else 0
    else if c.is '/' || c.is '\n' then 0
    else 1
  | [] => 0

/-- The size of the pattern of a regular expression. -/
def regexSize (t : Text) : Nat := coverFrom regexUnit 0 t

/-- The size of the flags of a regular expression. -/
def flagsSize (t : Text) : Nat := (t.takeWhile fun c => 0x61 ≤ c.val && c.val ≤ 0x7A).length

/-! ## Words and punctuation -/

/-- The words that are never names. -/
def reservedWords : List Text := [
  "break", "case", "catch", "class", "const", "continue", "debugger", "default", "delete", "do",
  "else", "export", "extends", "false", "finally", "for", "function", "if", "import", "in",
  "instanceof", "new", "null", "return", "super", "switch", "this", "throw", "true", "try",
  "typeof", "var", "void", "while", "with"].map Text.ofString

/-- Whether a word is never a name. -/
def isReserved (word : Text) : Bool := reservedWords.contains word

/-- The punctuators of more than one code point, longer ones first. -/
def longPunctuators : List Text := [
  ">>>=", "...", "===", "!==", "**=", "<<=", ">>=", ">>>", "&&=", "||=", "??=", "=>", "==", "!=",
  "<=", ">=", "&&", "||", "??", "?.", "++", "--", "+=", "-=", "*=", "/=", "%=", "&=", "|=", "^=",
  "<<", ">>", "**"].map Text.ofString

/-- The punctuator at the front of a text, the longest that fits.  A question mark with a point
and a digit behind it is a question mark alone. -/
def punctuator (t : Text) : Text :=
  match longPunctuators.find? (fun p => p.isPrefixOf t) with
  | some p =>
    if p == Text.ofString "?." && (t.drop 2).head?.any CodePoint.isDigit then t.take 1 else p
  | none => t.take 1

end Debundle.Script
