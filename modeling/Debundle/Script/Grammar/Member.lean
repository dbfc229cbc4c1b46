import Debundle.Script.Grammar.Literal

/-!
# Functions, objects and classes

The parts of functions, the members of object literals and of classes.
-/

namespace Debundle.Script.Grammar

/-! ## Functions -/

/-- A comment in the style of markup, which only the place before a statement allows. -/
def skipMarkupComment : Parser Bool := fun r =>
  let t := r.here.rest
  if Text.startsWith t "<!--" || Text.startsWith t "-->" then
    let n := (t.takeWhile fun c => !endsLineComment c).length
    let r' := r.advanceTo (r.here.move n)
    some (true, { r' with comments := r.here.leaf .htmlComment n :: r'.comments })
  else some (false, r)

/-- Statements up to a closing brace or the end of the source. -/
def statements (rules : Rules) : Parser (List Node) := do
  let found ← Parser.many do
    if ← skipMarkupComment then pure (some none)
    else if (← Parser.seesChar '\x7d') || (← Parser.atEnd) then pure none
    else (some ∘ some) <$> rules .statement
  pure (found.filterMap id)

/-- A block.  `continuable` says, given its statements, whether an operator may follow it. -/
def block (rules : Rules) (continuable : List Node → Bool) : Parser Node :=
  Parser.node .statementBlock do
    Parser.single '\x7b'
    let body ← statements rules
    Parser.single '\x7d'
    Parser.blockEnd (continuable body)
    pure body

/-- A parameter: a pattern, perhaps with a default value, or the rest of the arguments. -/
def parameter (rules : Rules) : Parser Node := do
  if ← Parser.sees "..." then
    Parser.node .restPattern do
      Parser.mark "..."
      let target ← assignment rules
      return [← Parser.demand target.toPattern?]
  else
    let e ← assignment rules
    Parser.demand e.toBinding?

/-- The parameters of a function. -/
def parameters (rules : Rules) : Parser Node :=
  Parser.node .formalParameters do
    Parser.single '('
    let found ← Parser.many do
      if ← Parser.seesChar ')' then pure none
      else
        let p ← parameter rules
        Parser.require ((← Parser.seesChar ')') || (← Parser.sees ","))
        let _ ← Parser.mark? ","
        pure (some p)
    Parser.single ')'
    pure found

/-- The parameters and the body of a function. -/
def signature (rules : Rules) (continuable : Bool) : Parser (List Node) := do
  let ps ← parameters rules
  let body ← block rules fun _ => continuable
  pure [ps.as .parameters, body.as .body]

/-- A function with or without a name, behind the optional word `async`. -/
def functionExpression (rules : Rules) : Parser Node := do
  let start ← Parser.position
  let _ ← Parser.keyword? "async"
  Parser.keyword "function"
  let generator ← Parser.mark? "*"
  let own ← if ← Parser.seesName then (fun n => [n.as .name]) <$> Parser.name .identifier else pure []
  let rest ← signature rules true
  Parser.nodeFrom (if generator then .generatorFunction else .functionExpression) start (own ++ rest)

/-- The declaration of a function. -/
def functionDeclaration (rules : Rules) : Parser Node := do
  let start ← Parser.position
  let _ ← Parser.keyword? "async"
  Parser.keyword "function"
  let generator ← Parser.mark? "*"
  let own ← Parser.name .identifier
  let rest ← signature rules true
  Parser.nodeFrom (if generator then .generatorFunctionDeclaration else .functionDeclaration) start
    (own.as .name :: rest)

/-! ## Members -/

/-- A private name. -/
def privateName : Parser Node := do
  let t ← Parser.ahead
  Parser.require (t.head?.any (·.is '#'))
  let n := nameSize (t.drop 1)
  Parser.require (n != 0)
  Parser.token .privatePropertyIdentifier (n + 1)

/-- Whether the next token may begin the name of a member. -/
def seesMemberName : Parser Bool := do
  let t ← Parser.ahead
  pure (nameSize t != 0 || numberSize t != 0
    || t.head?.any fun c => c.is '"' || c.is '\x27' || c.is '[' || c.is '#')

/-- The name of a member. -/
def memberName (rules : Rules) : Parser Node := do
  let t ← Parser.ahead
  match t with
  | [] => Parser.fail
  | c :: _ =>
    if c.is '[' then
      Parser.node .computedPropertyName do
        Parser.single '['
        let inner ← assignment rules
        Parser.single ']'
        pure [inner]
    else if c.is '"' || c.is '\x27' then string
    else if c.is '#' then privateName
    else if nameSize t != 0 then Parser.anyWord .propertyIdentifier
    else number

/-- Reads a word that modifies the member behind it, if it does. -/
def modifier (w : String) : Parser Bool := do
  let found ← Parser.optional do
    Parser.keyword w
    Parser.require ((← seesMemberName) || (← Parser.seesChar '*'))
  pure found.isSome

/-- Reads the modifiers of a member and says whether there were any. -/
def modifiers : Parser Bool := do
  let a ← modifier "static"
  let b ← modifier "async"
  if ← Parser.mark? "*" then pure true
  else
    let c ← modifier "get"
    let d ← if c then pure false else modifier "set"
    pure (a || b || c || d)

/-- The rest of a method behind its name. -/
def method (rules : Rules) (start : Nat) (own : Node) : Parser Node := do
  let rest ← signature rules false
  Parser.nodeFrom .methodDefinition start (own.as .name :: rest)

/-! ## Objects and arrays -/

/-- An element behind three dots. -/
def spread (rules : Rules) : Parser Node :=
  Parser.node .spreadElement do
    Parser.mark "..."
    return [← assignment rules]

/-- A member of an object literal.  A default value is allowed here for the sake of patterns. -/
def objectMember (rules : Rules) : Parser Node := do
  if ← Parser.sees "..." then spread rules
  else
    let start ← Parser.position
    let modified ← modifiers
    let own ← memberName rules
    if ← Parser.seesChar '(' then method rules start own
    else
      Parser.require (!modified)
      if ← Parser.mark? ":" then
        let value ← assignment rules
        Parser.nodeFrom .pair start [own.as .key, value.as .value]
      else
        Parser.require (own.kind == .propertyIdentifier && !isReserved own.text)
        if ← Parser.mark? "=" then
          let value ← assignment rules
          Parser.nodeFrom .objectAssignmentPattern start
            [(own.withKind .shorthandPropertyIdentifierPattern).as .left, value.as .right]
        else pure (own.withKind .shorthandPropertyIdentifier)

/-- An object literal. -/
def object (rules : Rules) : Parser Node :=
  Parser.node .objectLiteral do
    Parser.single '\x7b'
    commaList '\x7d' (objectMember rules)

/-- An element of an array or an argument of a call. -/
def element (rules : Rules) : Parser Node := do
  if ← Parser.sees "..." then spread rules else assignment rules

/-- An array literal. -/
def array (rules : Rules) : Parser Node :=
  Parser.node .arrayLiteral do
    Parser.single '['
    commaList ']' (element rules)

/-- The arguments of a call. -/
def arguments (rules : Rules) : Parser Node :=
  Parser.node .arguments do
    Parser.single '('
    commaList ')' (element rules)

/-! ## Classes -/

/-- The rest of a decorator behind its name: members and arguments. -/
def decoratorStep (rules : Rules) (n : Node) : Parser (Option Node) := do
  if ← Parser.mark? "." then
    let p ← Parser.anyWord .propertyIdentifier
    some <$> Parser.nodeFrom .memberExpression n.start [n.as .object, p.as .property]
  else if ← Parser.seesChar '(' then
    let args ← arguments rules
    some <$> Parser.nodeFrom .callExpression n.start [n.as .function, args.as .arguments]
  else pure none

/-- A decorator. -/
def decorator (rules : Rules) : Parser Node :=
  Parser.node .decorator do
    Parser.single '@'
    let n ← Parser.name .identifier
    return [← Parser.iterate (decoratorStep rules) n]

/-- Any number of decorators. -/
def decorators (rules : Rules) : Parser (List Node) :=
  Parser.many do
    if ← Parser.seesChar '@' then some <$> decorator rules else pure none

/-- A static block of a class. -/
def staticBlock (rules : Rules) : Parser Node :=
  Parser.node .classStaticBlock do
    Parser.keyword "static"
    let body ← block rules fun _ => false
    pure [body.as .body]

/-- A method or a field of a class, with the end of the field. -/
def classMember (rules : Rules) : Parser Node := do
  let start ← Parser.position
  let marks ← decorators rules
  let _ ← modifiers
  let own ← memberName rules
  if ← Parser.seesChar '(' then
    let m ← method rules start own
    pure { m with children := marks ++ m.children }
  else
    let value ← if ← Parser.mark? "=" then (fun v => [v.as .value]) <$> assignment rules else pure []
    let field ← Parser.nodeFrom .fieldDefinition start (marks ++ own.as .property :: value)
    Parser.semicolon !value.isEmpty
    pure field

/-- The body of a class. -/
def classBody (rules : Rules) : Parser Node :=
  Parser.node .classBody do
    Parser.single '\x7b'
    let members ← Parser.many do
      if ← Parser.seesChar '\x7d' then pure none
      else if ← Parser.mark? ";" then pure (some none)
      else (some ∘ some) <$> Parser.orElse (staticBlock rules) (classMember rules)
    Parser.single '\x7d'
    pure (members.filterMap id)

/-- The heritage and the body of a class. -/
def classRest (rules : Rules) : Parser (List Node) := do
  let heritage ←
    if ← Parser.seesWord "extends" then
      (fun h => [h]) <$> Parser.node .classHeritage do
        Parser.keyword "extends"
        return [← assignment rules]
    else pure []
  let body ← classBody rules
  pure (heritage ++ [body.as .body])

/-- A class with or without a name. -/
def classExpression (rules : Rules) : Parser Node := do
  let start ← Parser.position
  let marks ← decorators rules
  Parser.keyword "class"
  let own ← if ← Parser.seesName then (fun n => [n.as .name]) <$> Parser.name .identifier else pure []
  let rest ← classRest rules
  Parser.nodeFrom .classExpression start (marks ++ own ++ rest)

/-- The declaration of a class. -/
def classDeclaration (rules : Rules) : Parser Node := do
  let start ← Parser.position
  let marks ← decorators rules
  Parser.keyword "class"
  let own ← Parser.name .identifier
  let rest ← classRest rules
  Parser.blockEnd true
  Parser.nodeFrom .classDeclaration start (marks ++ own.as .name :: rest)

end Debundle.Script.Grammar
