import Debundle.Script.Reader
import Debundle.Script.Pattern

/-!
# The recursive parts of the grammar

The rules of the grammar are ordinary functions of the parsers for its recursive parts: a
statement, an expression of some binding strength, and a piece of markup.  `Debundle.Script.Grammar`
ties the knot with a bound on the depth.
-/

namespace Debundle.Script

/-- A recursive part of the grammar. -/
inductive Goal where
  /-- One statement. -/
  | statement
  /-- An expression whose operators bind at least as strongly as `floor`; `in` counts as an
  operator if `allowIn`. -/
  | expression (floor : Nat) (allowIn : Bool)
  /-- A markup element. -/
  | markup

/-- Parsers for the recursive parts. -/
abbrev Rules := Goal → Parser Node

namespace Grammar

/-- An expression without commas. -/
def assignment (rules : Rules) : Parser Node := rules (.expression 0 true)

/-- An expression, with commas. -/
def expressions (rules : Rules) (allowIn : Bool) : Parser Node := do
  let start ← Parser.position
  let first ← rules (.expression 0 allowIn)
  let others ← Parser.many do
    if ← Parser.mark? "," then some <$> rules (.expression 0 allowIn) else pure none
  if others.isEmpty then pure first
  else Parser.nodeFrom .sequenceExpression start (first :: others)

/-- Items between commas up to a closing mark, which is read as well.  Items may be missing. -/
def commaList (close : Char) (item : Parser Node) : Parser (List Node) := do
  let items ← Parser.many do
    if ← Parser.seesChar close then pure none
    else if ← Parser.mark? "," then pure (some none)
    else
      let found ← item
      Parser.require ((← Parser.seesChar close) || (← Parser.sees ","))
      let _ ← Parser.mark? ","
      pure (some (some found))
  Parser.single close
  pure (items.filterMap id)

end Grammar

end Debundle.Script
