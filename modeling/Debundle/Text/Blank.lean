import Debundle.Text.Basic

/-!
# Blank code points

"Blank" means different sets of code points to different readers; each set is named here for
the reader that uses it.

* `isBlank`: what is cut off the ends of a source to see whether anything is left.
* `isSpace`: what may stand between two tokens of a script.
* `isPlainSpace`: what the search for an automatic semicolon steps over.  It is a smaller set:
  no-break spaces and the byte order mark stop that search.
* `isLineEnd`: what ends a line of a script for that search.
-/

namespace Debundle.CodePoint

/-- The white space of Unicode together with the four ASCII separators. -/
def isBlank (c : CodePoint) : Bool :=
  let n := c.val
  (0x9 ≤ n && n ≤ 0xD) || (0x1C ≤ n && n ≤ 0x20) || n == 0x85 || n == 0xA0 || n == 0x1680
    || (0x2000 ≤ n && n ≤ 0x200A) || n == 0x2028 || n == 0x2029 || n == 0x202F || n == 0x205F
    || n == 0x3000

/-- What may stand between tokens: the white space of Unicode, the byte order mark, the word
joiner and the zero-width space. -/
def isSpace (c : CodePoint) : Bool :=
  let n := c.val
  (0x9 ≤ n && n ≤ 0xD) || n == 0x20 || n == 0x85 || n == 0xA0 || n == 0x1680
    || (0x2000 ≤ n && n ≤ 0x200B) || n == 0x2028 || n == 0x2029 || n == 0x202F || n == 0x205F
    || n == 0x2060 || n == 0x3000 || n == 0xFEFF

/-- The white space that does not forbid a line break. -/
def isPlainSpace (c : CodePoint) : Bool :=
  let n := c.val
  (0x9 ≤ n && n ≤ 0xD) || n == 0x20 || n == 0x85 || n == 0x1680
    || (0x2000 ≤ n && n ≤ 0x200A && n != 0x2007) || n == 0x2028 || n == 0x2029 || n == 0x205F
    || n == 0x3000

/-- The line feed and the two Unicode line ends. -/
def isLineEnd (c : CodePoint) : Bool := c.val == 0xA || c.val == 0x2028 || c.val == 0x2029

end Debundle.CodePoint
