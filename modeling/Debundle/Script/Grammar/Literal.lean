import Debundle.Script.Grammar.Goal

/-!
# Literals

Numbers, strings, regular expressions and templates.  A string or template is a sequence of plain
fragments and escapes; a template also has substitutions.
-/

namespace Debundle.Script.Grammar

/-- The pieces of a string up to its closing quote, and the place behind the quote. -/
def stringPieces (quote : Char) : Nat → Cursor → Option (List Node × Cursor)
  | 0, _ => none
  | fuel + 1, c =>
    match c.rest with
    | [] => none
    | ch :: _ =>
      if ch.is quote then some ([], c.move 1)
      else
        let (kind, n) :=
          if ch.is '\\' then (Kind.escapeSequence, escapeSize c.rest)
          else
            (Kind.stringFragment, (c.rest.takeWhile fun d =>
              !(d.is quote || d.is '\\' || d.is '\r' || d.is '\n')).length)
        if n == 0 then none
        else do
          let (pieces, after) ← stringPieces quote fuel (c.move n)
          return (c.leaf kind n :: pieces, after)

/-- A string. -/
def string : Parser Node := fun r =>
  match r.here.rest with
  | [] => none
  | c :: _ =>
    if c.is '"' || c.is '\x27' then do
      let (pieces, after) ← stringPieces c.char r.fuel (r.here.move 1)
      return (Node.branch .stringLiteral r.here.pos after.pos pieces, r.advanceTo after)
    else none

/-- A number. -/
def number : Parser Node := do
  Parser.token .numberLiteral (numberSize (← Parser.ahead))

/-- A regular expression. -/
def regex : Parser Node := fun r =>
  if !r.here.rest.head?.any (·.is '/') then none
  else
    let body := r.here.move 1
    let n := regexSize body.rest
    let close := body.move n
    if n == 0 || !close.rest.head?.any (·.is '/') then none
    else
      let tail := close.move 1
      let m := flagsSize tail.rest
      let after := tail.move m
      let flags := if m == 0 then [] else [tail.leaf .regexFlags m]
      some (Node.branch .regex r.here.pos after.pos (body.leaf .regexPattern n :: flags),
        r.advanceTo after)

/-- Reads on behind the next code point, where white space is text. -/
def jumpOver (ch : Char) : Parser Unit := fun r =>
  if r.here.rest.head?.any (·.is ch) then some ((), r.jumpTo (r.here.move 1)) else none

/-- How many code points of a template are neither an escape, a substitution nor its end. -/
def templateRun : Text → Nat
  | [] => 0
  | c :: cs =>
    if c.is '\x60' || c.is '\\' || (c.is '$' && cs.head?.any (·.is '\x7b')) then 0
    else templateRun cs + 1

/-- The next piece of a template, if it has not come to its end. -/
def templatePiece (rules : Rules) : Parser (Option Node) := do
  let t ← Parser.ahead
  match t with
  | [] => Parser.fail
  | c :: rest =>
    if c.is '\x60' then pure none
    else if c.is '$' && rest.head?.any (·.is '\x7b') then
      let start ← Parser.position
      let _ ← Parser.token .keyword 2
      let inner ← expressions rules true
      jumpOver '\x7d'
      some <$> Parser.nodeFrom .templateSubstitution start [inner]
    else fun r =>
      let (kind, n) :=
        if c.is '\\' then (Kind.escapeSequence, escapeSize t) else (Kind.stringFragment, templateRun t)
      if n == 0 then none else some (some (r.here.leaf kind n), r.jumpTo (r.here.move n))

/-- A template. -/
def template (rules : Rules) : Parser Node :=
  Parser.node .templateString do
    jumpOver '\x60'
    let pieces ← Parser.many (templatePiece rules)
    Parser.single '\x60'
    pure pieces

end Debundle.Script.Grammar
