import Debundle.Text.Printable

/-!
# Quoted text

How a message shows a name so that its ends and its invisible code points can be seen: between
quotes, with a backslash before what would be misread.

The single quote is used unless the text has one and has no double quote.  The backslash, the
quote in use and the line feed, carriage return and tab get a backslash; every other code point
that is not printable is written by its number in hexadecimal, with two, four or eight digits.
-/

namespace Debundle

/-- A code point by its number. -/
def CodePoint.numbered (c : CodePoint) : Text :=
  if c.val < 0x100 then "\\x" ++ Text.ofHex 2 c.val
  else if c.val < 0x10000 then "\\u" ++ Text.ofHex 4 c.val
  else "\\U" ++ Text.ofHex 8 c.val

namespace Text

/-- One code point between quotes `mark`. -/
def quoteOne (mark : Char) (c : CodePoint) : Text :=
  if c.is mark || c.is '\\' then [CodePoint.ofChar '\\', c]
  else if c.is '\n' then "\\n"
  else if c.is '\r' then "\\r"
  else if c.is '\t' then "\\t"
  else if c.isPrintable then [c]
  else c.numbered

/-- The quote to put around a text. -/
def quoteMark (t : Text) : Char :=
  if t.any (·.is '\x27') && !t.any (·.is '"') then '"' else '\x27'

/-- A text between quotes. -/
def quoted (t : Text) : Text :=
  let mark := quoteMark t
  [CodePoint.ofChar mark] ++ t.flatMap (quoteOne mark) ++ [CodePoint.ofChar mark]

end Text
end Debundle
