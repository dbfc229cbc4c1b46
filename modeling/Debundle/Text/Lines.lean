import Debundle.Text.Basic

/-!
# Line ends

Files that are read may end their lines with a carriage return, a line feed, or both; inside the
program a line feed ends a line.
-/

namespace Debundle.Text

/-- A text in which every line that a carriage return ends, with or without a line feed behind
it, is ended by a line feed alone. -/
def plainLineEnds : Text → Text
  | [] => []
  | [c] => if c.is '\r' then "\n" else [c]
  | c :: d :: cs =>
    if c.is '\r' then
      if d.is '\n' then plainLineEnds (d :: cs) else CodePoint.ofChar '\n' :: plainLineEnds (d :: cs)
    else c :: plainLineEnds (d :: cs)

end Debundle.Text
