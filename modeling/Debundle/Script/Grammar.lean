import Debundle.Script.Grammar.Statement

/-!
# The grammar

Ties the recursive parts of the grammar together.  Every recursive call either consumes a token
or leads from a statement to its expression, so a depth of four times the length of the source
is never reached.
-/

namespace Debundle.Script.Grammar

/-- The parsers for the recursive parts, down to a depth. -/
def rules : Nat → Rules
  | 0, _ => Parser.fail
  | depth + 1, .statement => statement (rules depth)
  | depth + 1, .expression floor allowIn => expression (rules depth) floor allowIn
  | depth + 1, .markup => markup (rules depth)

/-- The line that names an interpreter, at the very beginning of a script. -/
def hashBangLine : Parser (List Node) := do
  let t ← Parser.ahead
  if Text.startsWith t "#!" then
    return [← Parser.token .hashBangLine (t.takeWhile fun c => !c.is '\n').length]
  else return []

/-- All of a script: the statements up to its end. -/
def program (depth : Nat) : Parser (List Node) := do
  let first ← hashBangLine
  let found ← statements (rules depth)
  Parser.require (← Parser.atEnd)
  pure (first ++ found)

end Debundle.Script.Grammar
