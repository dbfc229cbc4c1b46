/-!
# Text

Sources, paths and messages are sequences of Unicode code points.  A script may spell a lone
surrogate with an escape, and such a value can become a path, so the alphabet is all of
`0 … 0x10FFFF` and not only the scalar values of `Char`.

* `CodePoint`: one code point, surrogates included.
* `Text`: a list of them; string literals coerce to it.
* `Text.split`, `Text.join`, `Text.lastPiece`: pieces between separators.
* `Text.ofNat`, `Text.ofInt`: decimal numerals.
* `Text.le`: the order by code point.
-/

namespace Debundle

/-- A Unicode code point; surrogates are allowed. -/
structure CodePoint where
  /-- Its number. -/
  val : Nat
  /-- Code points end at `0x10FFFF`. -/
  isLt : val < 0x110000
deriving DecidableEq, Repr

namespace CodePoint

/-- The code point of a character. -/
def ofChar (c : Char) : CodePoint :=
  ⟨c.toNat, by
    have h := c.valid
    simp only [UInt32.isValidChar, Nat.isValidChar] at h
    show c.val.toNat < _
    omega⟩

/-- The code point with the given number, if there is one. -/
def ofNat? (n : Nat) : Option CodePoint :=
  if h : n < 0x110000 then some ⟨n, h⟩ else none

instance : Coe Char CodePoint := ⟨ofChar⟩

instance : Inhabited CodePoint := ⟨⟨0, by decide⟩⟩

/-- The character of a scalar value.  A surrogate reads as the null character, so this view is
for comparing with visible characters only. -/
def char (c : CodePoint) : Char := Char.ofNat c.val

/-- Whether the code point is one half of a surrogate pair. -/
def isSurrogate (c : CodePoint) : Bool := 0xD800 ≤ c.val && c.val ≤ 0xDFFF

/-- Whether the code point is the given character. -/
def is (c : CodePoint) (ch : Char) : Bool := c.val == ch.toNat

/-- Whether the code point is an ASCII digit. -/
def isDigit (c : CodePoint) : Bool := 0x30 ≤ c.val && c.val ≤ 0x39

/-- Whether the code point is an octal digit. -/
def isOctalDigit (c : CodePoint) : Bool := 0x30 ≤ c.val && c.val ≤ 0x37

/-- Whether the code point is a binary digit. -/
def isBinaryDigit (c : CodePoint) : Bool := c.val == 0x30 || c.val == 0x31

/-- The value of a hexadecimal digit in either case. -/
def hexValue? (c : CodePoint) : Option Nat :=
  if 0x30 ≤ c.val && c.val ≤ 0x39 then some (c.val - 0x30)
  else if 0x41 ≤ c.val && c.val ≤ 0x46 then some (c.val - 0x41 + 10)
  else if 0x61 ≤ c.val && c.val ≤ 0x66 then some (c.val - 0x61 + 10)
  else none

/-- Whether the code point is a hexadecimal digit. -/
def isHexDigit (c : CodePoint) : Bool := c.hexValue?.isSome

/-- Whether the code point is an ASCII letter. -/
def isLetter (c : CodePoint) : Bool :=
  (0x41 ≤ c.val && c.val ≤ 0x5A) || (0x61 ≤ c.val && c.val ≤ 0x7A)

/-- An ASCII capital becomes the small letter; every other code point stays. -/
def toLower (c : CodePoint) : CodePoint :=
  if h : 0x41 ≤ c.val ∧ c.val ≤ 0x5A then ⟨c.val + 0x20, by omega⟩ else c

end CodePoint

/-- A sequence of code points. -/
abbrev Text := List CodePoint

namespace Text

/-- The code points of a string. -/
def ofString (s : String) : Text := s.toList.map CodePoint.ofChar

instance : Coe String Text := ⟨ofString⟩

/-- The string of a text without surrogates; a surrogate reads as the null character. -/
def toString (t : Text) : String := String.ofList (t.map CodePoint.char)

/-- Whether `t` begins with `p`. -/
def startsWith (t p : Text) : Bool := p.isPrefixOf t

/-- Whether `t` ends with `p`. -/
def endsWith (t p : Text) : Bool := p.isSuffixOf t

/-- The pieces of a text between the occurrences of a separator; there is always at least one. -/
def split (sep : CodePoint) : Text → List Text
  | [] => [[]]
  | c :: cs =>
    if c = sep then [] :: split sep cs
    else
      match split sep cs with
      | [] => [[c]]
      | piece :: pieces => (c :: piece) :: pieces

theorem split_ne_nil (sep : CodePoint) : ∀ t : Text, split sep t ≠ []
  | [] => by simp [split]
  | c :: cs => by
    rw [split]
    split
    · simp
    · split <;> simp

/-- The texts of a list with a separator between neighbours. -/
def join (sep : Text) : List Text → Text
  | [] => []
  | [t] => t
  | t :: u :: ts => t ++ sep ++ join sep (u :: ts)

/-- What follows the last separator. -/
def lastPiece (sep : CodePoint) (t : Text) : Text := (split sep t).getLastD []

/-- Every occurrence of one code point becomes another. -/
def replace (old new : CodePoint) (t : Text) : Text := t.map fun c => if c = old then new else c

/-- The text without the trailing code points of a class. -/
def trimRight (p : CodePoint → Bool) (t : Text) : Text := (t.reverse.dropWhile p).reverse

/-- The decimal numeral of a natural number. -/
def ofNat (n : Nat) : Text := (Nat.toDigits 10 n).map CodePoint.ofChar

/-- The decimal numeral of an integer, with a minus sign before a negative one. -/
def ofInt : Int → Text
  | .ofNat n => ofNat n
  | .negSucc n => CodePoint.ofChar '-' :: ofNat (n + 1)

/-- The hexadecimal numeral of a number in small letters, filled up with zeros to `width`. -/
def ofHex (width n : Nat) : Text :=
  let digits := (Nat.toDigits 16 n).map CodePoint.ofChar
  List.replicate (width - digits.length) (CodePoint.ofChar '0') ++ digits

/-- The decimal numeral of a number, filled up with zeros to `width`. -/
def ofNatPadded (width n : Nat) : Text :=
  let digits := ofNat n
  List.replicate (width - digits.length) (CodePoint.ofChar '0') ++ digits

/-- The number that a list of digits writes in a base, the most significant digit first. -/
def readDigits (base : Nat) (digits : List Nat) : Nat :=
  digits.foldl (fun n d => n * base + d) 0

/-- The number that a text of digits writes in a base. -/
def readNat (base : Nat) (t : Text) : Nat :=
  readDigits base (t.map fun c => c.hexValue?.getD 0)

/-- The order of texts by code point. -/
def le : Text → Text → Bool
  | [], _ => true
  | _ :: _, [] => false
  | c :: cs, d :: ds => if c.val < d.val then true else if d.val < c.val then false else le cs ds

end Text

end Debundle
