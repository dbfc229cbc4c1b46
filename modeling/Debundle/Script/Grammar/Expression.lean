import Debundle.Script.Grammar.Member

/-!
# Expressions

An expression is an operand followed by operators, read by binding strength.  Operands are unary
operators with their operand, or a primary expression with what is attached to it: members,
subscripts, calls and templates.

Assignments, arrow functions and `yield` bind their right side weakly but may themselves stand
wherever an operand may: `a + b = c` assigns to `b`.
-/

namespace Debundle.Script.Grammar

/-! ## Operators -/

/-- The binding strength of binary operators and whether they group to the right. -/
def binaryStrength (op : Text) : Option (Nat × Bool) :=
  let table : List (List String × Nat × Bool) := [
    (["??"], 1, false), (["||"], 2, false), (["&&"], 3, false), (["|"], 4, false),
    (["^"], 5, false), (["&"], 6, false), (["==", "!=", "===", "!=="], 7, false),
    (["<", ">", "<=", ">="], 8, false), (["<<", ">>", ">>>"], 9, false), (["+", "-"], 10, false),
    (["*", "/", "%"], 11, false), (["**"], 12, true)]
  (table.find? fun row => row.1.any fun s => Text.ofString s == op).map fun row => row.2

/-- The strength of `in` and `instanceof`. -/
def relationStrength : Nat := 8

/-- The strength of unary operators. -/
def unaryStrength : Nat := 13

/-- The strength of `++` and `--`. -/
def updateStrength : Nat := 14

/-- The signs of compound assignments. -/
def compoundSigns : List Text := [
  "+=", "-=", "*=", "/=", "%=", "^=", "&=", "|=", ">>=", ">>>=", "<<=", "**=", "&&=", "||=",
  "??="].map Text.ofString

/-- Whether an expression may be the target of a compound assignment. -/
def isPlace (n : Node) : Bool :=
  match n.kind with
  | .identifier | .memberExpression | .subscriptExpression | .parenthesizedExpression => true
  | _ => false

/-- The target of a plain assignment that an expression spells. -/
def assignmentTarget? (n : Node) : Option Node :=
  if n.kind == .parenthesizedExpression then some n else n.toPattern?

/-! ## Primary expressions -/

/-- Whether braces begin with what may be a label. -/
def seesLabel : Parser Bool := Parser.succeeds do
  Parser.single '\x7b'
  let _ ← Parser.anyWord .statementIdentifier
  Parser.mark ":"

/-- Braces are a block, except that a block which begins with a label is read otherwise if it can
be, and so is what is no block at all. -/
def blockOr (asBlock otherwise : Parser Node) : Parser Node := do
  if ← seesLabel then Parser.orElse otherwise asBlock else Parser.orElse asBlock otherwise

/-- The body of an arrow function. -/
def arrowBody (rules : Rules) (allowIn : Bool) : Parser Node := do
  let value := rules (.expression 0 allowIn)
  if ← Parser.seesChar '\x7b' then blockOr (block rules fun _ => true) value else value

/-- The arrow and the body of an arrow function. -/
def arrowRest (rules : Rules) (allowIn : Bool) (start : Nat) (params : List Node) : Parser Node := do
  Parser.mark "=>"
  let body ← arrowBody rules allowIn
  Parser.nodeFrom .arrowFunction start (params ++ [body.as .body])

/-- A name, or the arrow function of which it is the only parameter. -/
def nameOrArrow (rules : Rules) (allowIn : Bool) : Parser Node := do
  let start ← Parser.position
  let n ← Parser.name .identifier
  if ← Parser.sees "=>" then arrowRest rules allowIn start [n.as .parameter]
  else if n.text == Text.ofString "undefined" then pure (n.withKind .undefinedWord)
  else pure n

/-- Parentheses: an expression, or the parameters of an arrow function. -/
def parenthesized (rules : Rules) (allowIn : Bool) : Parser Node := do
  let start ← Parser.position
  Parser.single '('
  let items ← Parser.many do
    if ← Parser.seesChar ')' then pure none
    else
      let found ← element rules
      Parser.require ((← Parser.seesChar ')') || (← Parser.sees ","))
      let comma ← Parser.mark? ","
      pure (some (found, comma))
  Parser.single ')'
  if ← Parser.sees "=>" then
    let patterns ← Parser.demand (items.mapM fun item => item.1.toBinding?)
    let params ← Parser.nodeFrom .formalParameters start patterns
    arrowRest rules allowIn start [params.as .parameters]
  else
    Parser.require (items.all fun item => item.1.kind != .spreadElement)
    match items.getLast? with
    | none => Parser.fail
    | some (last, comma) =>
      Parser.require (!comma)
      let inner :=
        match items with
        | [(only, _)] => [only]
        | (first, _) :: _ =>
          [Node.branch .sequenceExpression first.start last.stop (items.map Prod.fst)]
        | [] => []
      Parser.nodeFrom .parenthesizedExpression start inner

/-- A private name as an operand: the left side of `in`. -/
def privateOperand : Parser Node := do
  let n ← privateName
  Parser.require (← Parser.seesWord "in")
  pure n

/-- What the word `async` begins: a function, an arrow function, or the name itself. -/
def asyncExpression (rules : Rules) (allowIn : Bool) : Parser Node := do
  let start ← Parser.position
  let function := do
    Parser.require (← Parser.succeeds do
      Parser.keyword "async"
      Parser.require !(← Parser.lineBreaks true)
      Parser.keyword "function")
    functionExpression rules
  let namedArrow := do
    Parser.keyword "async"
    let n ← Parser.name .identifier
    arrowRest rules allowIn start [n.as .parameter]
  let list := do
    let own ← Parser.keywordNode "async"
    let args ← arguments rules
    if ← Parser.sees "=>" then
      let patterns ← Parser.demand (args.children.mapM Node.toBinding?)
      let params := { args with kind := .formalParameters, children := patterns }
      arrowRest rules allowIn start [params.as .parameters]
    else
      Parser.nodeFrom .callExpression start
        [(own.withKind .identifier).as .function, args.as .arguments]
  Parser.orElse function <| Parser.orElse namedArrow <| Parser.orElse list <|
    nameOrArrow rules allowIn

/-- `import` as an expression: the word before a call, or `import.meta`. -/
def importExpression : Parser Node := do
  let start ← Parser.position
  let w ← Parser.keywordNode "import"
  if ← Parser.mark? "." then
    Parser.keyword "meta"
    Parser.nodeFrom .metaProperty start []
  else
    Parser.require (← Parser.seesChar '(')
    pure (w.withKind .importWord)

/-- A word that stands for itself. -/
def wordExpression (s : String) (kind : Kind) : Parser Node := do
  let w ← Parser.keywordNode s
  pure (w.withKind kind)

/-- A primary expression, without what is attached to it. -/
def primary (rules : Rules) (allowIn : Bool) : Parser Node := do
  let t ← Parser.ahead
  match t with
  | [] => Parser.fail
  | c :: rest =>
    let w ← Parser.word
    if !w.isEmpty then
      if w == Text.ofString "function" then functionExpression rules
      else if w == Text.ofString "class" then classExpression rules
      else if w == Text.ofString "async" then asyncExpression rules allowIn
      else if w == Text.ofString "this" then wordExpression "this" .thisWord
      else if w == Text.ofString "null" then wordExpression "null" .nullWord
      else if w == Text.ofString "true" then wordExpression "true" .trueWord
      else if w == Text.ofString "false" then wordExpression "false" .falseWord
      else if w == Text.ofString "super" then wordExpression "super" .superWord
      else if w == Text.ofString "import" then importExpression
      else nameOrArrow rules allowIn
    else if c.is '(' then parenthesized rules allowIn
    else if c.is '[' then array rules
    else if c.is '\x7b' then object rules
    else if c.is '"' || c.is '\x27' then string
    else if c.is '\x60' then template rules
    else if c.is '/' then regex
    else if c.isDigit || (c.is '.' && rest.head?.any CodePoint.isDigit) then number
    else if c.is '<' then rules .markup
    else if c.is '@' then classExpression rules
    else if c.is '#' then privateOperand
    else Parser.fail

/-! ## Attachments -/

/-- The name behind a point. -/
def propertyName : Parser Node := do
  if ← Parser.seesChar '#' then privateName else Parser.anyWord .propertyIdentifier

/-- A subscript of an expression. -/
def subscript (rules : Rules) (n : Node) (chain : List Node) : Parser Node := do
  Parser.single '['
  let index ← expressions rules true
  Parser.single ']'
  Parser.nodeFrom .subscriptExpression n.start (n.as .object :: chain ++ [index])

/-- A member of an expression. -/
def member (n : Node) (chain : List Node) : Parser Node := do
  let p ← propertyName
  Parser.nodeFrom .memberExpression n.start (n.as .object :: chain ++ [p.as .property])

/-- A call of an expression. -/
def call (rules : Rules) (n : Node) (chain : List Node) : Parser Node := do
  let args ← arguments rules
  Parser.nodeFrom .callExpression n.start (n.as .function :: chain ++ [args.as .arguments])

/-- One attachment to an expression, if there is one; calls only if `calls`. -/
def attach (rules : Rules) (calls : Bool) (n : Node) : Parser (Option Node) := do
  if ← Parser.mark? "." then some <$> member n []
  else if ← Parser.sees "?." then
    let chain ← Parser.token .optionalChain 2
    if ← Parser.seesChar '[' then some <$> subscript rules n [chain]
    else if ← Parser.seesChar '(' then some <$> call rules n [chain]
    else some <$> member n [chain]
  else if ← Parser.seesChar '[' then some <$> subscript rules n []
  else if ← Parser.seesChar '\x60' then
    let t ← template rules
    some <$> Parser.nodeFrom .callExpression n.start [n.as .function, t.as .arguments]
  else if calls && (← Parser.seesChar '(') then some <$> call rules n []
  else pure none

/-- A construction: `new`, a constructor without calls, and arguments if there are any. -/
def construction (rules : Rules) (allowIn : Bool) : Parser Node := do
  let start ← Parser.position
  Parser.keyword "new"
  if ← Parser.mark? "." then
    Parser.keyword "target"
    Parser.nodeFrom .metaProperty start []
  else if ← Parser.seesWord "new" then
    let inner ← rules (.expression updateStrength allowIn)
    Parser.nodeFrom .newExpression start [inner]
  else
    let base ← primary rules allowIn
    let constructor ← Parser.iterate (attach rules false) base
    let args ←
      if ← Parser.seesChar '(' then (fun a => [a.as .arguments]) <$> arguments rules else pure []
    Parser.nodeFrom .newExpression start (constructor :: args)

/-! ## Operands -/

/-- A primary expression with its attachments. -/
def attached (rules : Rules) (allowIn : Bool) : Parser Node := do
  let base ←
    if ← Parser.seesWord "new" then construction rules allowIn else primary rules allowIn
  Parser.iterate (attach rules true) base

/-- An attached expression, or the assignment of which it is the target. -/
def assignable (rules : Rules) (allowIn : Bool) : Parser Node := do
  let n ← attached rules allowIn
  let sign ← Parser.punctuation
  if sign == Text.ofString "=" then
    match assignmentTarget? n with
    | none => pure n
    | some target =>
      Parser.mark "="
      let value ← rules (.expression 0 allowIn)
      Parser.nodeFrom .assignmentExpression n.start [target.as .left, value.as .right]
  else if compoundSigns.contains sign && isPlace n then
    let _ ← Parser.token .keyword sign.length
    let value ← rules (.expression 0 allowIn)
    Parser.nodeFrom .augmentedAssignmentExpression n.start [n.as .left, value.as .right]
  else pure n

/-- The unary operators written with punctuation. -/
def unaryMarks : List Text := ["!", "~", "+", "-"].map Text.ofString

/-- The unary operators written as words. -/
def unaryWords : List Text := ["typeof", "void", "delete"].map Text.ofString

/-- A unary operator of `n` code points with its operand. -/
def unary (rules : Rules) (allowIn : Bool) (n : Nat) : Parser Node :=
  Parser.node .unaryExpression do
    let _ ← Parser.token .keyword n
    let operand ← rules (.expression unaryStrength allowIn)
    pure [operand.as .argument]

/-- `yield` with its operand, if it has one. -/
def yieldExpression (rules : Rules) (allowIn : Bool) : Parser Node :=
  Parser.node .yieldExpression do
    Parser.keyword "yield"
    if ← Parser.mark? "*" then return [← rules (.expression 0 allowIn)]
    else if ← Parser.lineBreaks false then return []
    else
      match ← Parser.optional (rules (.expression 0 allowIn)) with
      | some operand => return [operand]
      | none => return []

/-- `await` with its operand. -/
def awaitExpression (rules : Rules) (allowIn : Bool) : Parser Node :=
  Parser.node .awaitExpression do
    Parser.keyword "await"
    Parser.require !(← Parser.lineBreaks true)
    return [← rules (.expression unaryStrength allowIn)]

/-- An operand of an expression. -/
def operand (rules : Rules) (allowIn : Bool) : Parser Node := do
  let sign ← Parser.punctuation
  let w ← Parser.word
  if unaryMarks.contains sign then unary rules allowIn sign.length
  else if unaryWords.contains w then unary rules allowIn w.length
  else if sign == Text.ofString "++" || sign == Text.ofString "--" then
    Parser.node .updateExpression do
      let _ ← Parser.token .keyword 2
      let operand ← rules (.expression updateStrength allowIn)
      pure [operand.as .argument]
  else if w == Text.ofString "yield" then yieldExpression rules allowIn
  else if w == Text.ofString "await" then
    Parser.orElse (awaitExpression rules allowIn) (assignable rules allowIn)
  else
    let n ← assignable rules allowIn
    let sign ← Parser.punctuation
    if (sign == Text.ofString "++" || sign == Text.ofString "--") && !(← Parser.lineBreaks true) then
      let _ ← Parser.token .keyword 2
      Parser.nodeFrom .updateExpression n.start [n.as .argument]
    else pure n

/-- One operator with what stands to its right, if its strength is at least `floor`. -/
def operatorStep (rules : Rules) (floor : Nat) (allowIn : Bool) (n : Node) : Parser (Option Node) := do
  let sign ← Parser.punctuation
  let w ← Parser.word
  let binary (size strength : Nat) (right : Bool) : Parser (Option Node) := do
    if strength < floor then pure none
    else
      let _ ← Parser.token .keyword size
      let other ← rules (.expression (if right then strength else strength + 1) allowIn)
      some <$> Parser.nodeFrom .binaryExpression n.start [n.as .left, other.as .right]
  if w == Text.ofString "instanceof" || (allowIn && w == Text.ofString "in") then
    binary w.length relationStrength false
  else if sign == Text.ofString "?" then
    if 1 < floor then pure none
    else
      let _ ← Parser.token .keyword 1
      let consequence ← rules (.expression 0 true)
      Parser.mark ":"
      let alternative ← rules (.expression 1 allowIn)
      some <$> Parser.nodeFrom .ternaryExpression n.start [n, consequence, alternative]
  else
    match binaryStrength sign with
    | some (strength, right) => binary sign.length strength right
    | none => pure none

/-- An expression whose operators bind at least as strongly as `floor`. -/
def expression (rules : Rules) (floor : Nat) (allowIn : Bool) : Parser Node := do
  let first ← operand rules allowIn
  Parser.iterate (operatorStep rules floor allowIn) first

end Debundle.Script.Grammar
