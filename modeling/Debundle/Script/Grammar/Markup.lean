import Debundle.Script.Grammar.Member

/-!
# Markup

Elements written in angle brackets inside a script.  The text between tags is kept as it stands;
braces hold expressions, and the names of tags are references like any other name.
-/

namespace Debundle.Script.Grammar

/-- The size of a name that may hold hyphens. -/
def hyphenatedSize (t : Text) : Nat :=
  match nameSize t with
  | 0 => 0
  | n => n + coverFrom (fun u => match u with
      | [] => 0
      | c :: _ => if c.is '-' || isNamePart c then 1 else 0) 0 (t.drop n)

/-- A name in a tag. -/
def markupName (kind : Kind) : Parser Node := do
  Parser.token kind (hyphenatedSize (← Parser.ahead))

/-- The name of an element: a name, a chain of names, or two names with a colon. -/
def elementName : Parser Node := do
  let first ← markupName .identifier
  if ← Parser.mark? ":" then
    let second ← markupName .identifier
    Parser.nodeFrom .jsxNamespaceName first.start [first, second]
  else
    Parser.iterate (fun n => do
      if ← Parser.mark? "." then
        let p ← markupName .propertyIdentifier
        some <$> Parser.nodeFrom .memberExpression n.start [n.as .object, p.as .property]
      else pure none) first

/-- An expression in braces, which may be missing or spread. -/
def markupExpression (rules : Rules) : Parser Node :=
  Parser.node .jsxExpression do
    Parser.single '\x7b'
    let inner ←
      if ← Parser.seesChar '\x7d' then pure []
      else if ← Parser.sees "..." then (fun s => [s]) <$> spread rules
      else (fun e => [e]) <$> expressions rules true
    Parser.single '\x7d'
    pure inner

/-- A string in a tag, in which a backslash and a line end are plain text. -/
def markupString : Parser Node := fun r =>
  match r.here.rest with
  | [] => none
  | c :: rest =>
    if c.is '"' || c.is '\x27' then
      let n := (rest.takeWhile fun d => !d.is c.char).length
      if rest.length ≤ n then none
      else
        let after := r.here.move (n + 2)
        some (Node.branch .stringLiteral r.here.pos after.pos [(r.here.move 1).leaf .stringFragment n],
          r.advanceTo after)
    else none

/-- An attribute of a tag. -/
def tagAttribute (rules : Rules) : Parser Node := do
  if ← Parser.seesChar '\x7b' then markupExpression rules
  else
    Parser.node .jsxAttribute do
      let own ← markupName .propertyIdentifier
      let own ←
        if ← Parser.mark? ":" then
          let second ← markupName .propertyIdentifier
          Parser.nodeFrom .jsxNamespaceName own.start [own, second]
        else pure own
      if ← Parser.mark? "=" then
        if ← Parser.seesChar '\x7b' then return [own, ← markupExpression rules]
        else if ← Parser.seesChar '<' then return [own, ← rules .markup]
        else return [own, ← markupString]
      else return [own]

/-- The attributes of a tag. -/
def tagAttributes (rules : Rules) : Parser (List Node) :=
  Parser.many do
    let t ← Parser.ahead
    if hyphenatedSize t != 0 || t.head?.any (·.is '\x7b') then some <$> tagAttribute rules
    else pure none

/-- Goes back to the place behind the last token, where white space is text. -/
def rawAgain : Parser Unit := fun r =>
  some ((), { r with here := r.back, skipped := [] })

/-- A run of text between tags. -/
def markupText : Parser (Option Node) := fun r =>
  let n := (r.here.rest.takeWhile fun c =>
    !(c.is '<' || c.is '>' || c.is '\x7b' || c.is '\x7d')).length
  if n == 0 then some (none, r) else some (some (r.here.leaf .jsxText n), r.jumpTo (r.here.move n))

/-- A child of an element, if the closing tag has not come. -/
def markupChild (rules : Rules) : Parser (Option Node) := do
  match ← markupText with
  | some t => pure (some t)
  | none =>
    let t ← Parser.ahead
    if Text.startsWith t "</" then pure none
    else if t.head?.any (·.is '\x7b') then
      let e ← markupExpression rules
      rawAgain
      pure (some e)
    else
      let e ← rules .markup
      rawAgain
      pure (some e)

/-- The name in a tag; a fragment has none. -/
def tagName : Parser (List Node) := do
  if ← Parser.seesChar '>' then pure [] else (fun n => [n.as .name]) <$> elementName

/-- An element, with its children and its closing tag unless it closes itself. -/
def markup (rules : Rules) : Parser Node := do
  let start ← Parser.position
  Parser.single '<'
  let own ← tagName
  let found ← tagAttributes rules
  if ← Parser.seesChar '/' then
    Parser.single '/'
    Parser.single '>'
    Parser.nodeFrom .jsxSelfClosingElement start (own ++ found)
  else
    jumpOver '>'
    let opening ← Parser.nodeFrom .jsxOpeningElement start (own ++ found)
    let children ← Parser.many (markupChild rules)
    let closing ← Parser.node .jsxClosingElement do
      Parser.single '<'
      Parser.single '/'
      let again ← tagName
      Parser.single '>'
      pure again
    Parser.nodeFrom .jsxElement start (opening :: children ++ [closing])

end Debundle.Script.Grammar
