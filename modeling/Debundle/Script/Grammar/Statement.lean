import Debundle.Script.Grammar.Expression
import Debundle.Script.Grammar.Markup

/-!
# Statements

Declarations, control flow, and the statements of modules.  Modules and plain scripts are read
by the same rules, and nothing is ruled out by where it stands: a `return` may stand at the top
and a `break` anywhere.
-/

namespace Debundle.Script.Grammar

/-- An expression in parentheses that belongs to a statement. -/
def condition (rules : Rules) : Parser Node :=
  Parser.node .parenthesizedExpression do
    Parser.single '('
    let inner ← expressions rules true
    Parser.single ')'
    pure [inner]

/-! ## Declarations -/

/-- What a declaration binds: a name or a pattern. -/
def bindingTarget (rules : Rules) : Parser Node := do
  if ← Parser.seesChar '\x7b' then
    let n ← object rules
    Parser.demand n.toPattern?
  else if ← Parser.seesChar '[' then
    let n ← array rules
    Parser.demand n.toPattern?
  else Parser.name .identifier

/-- The value behind an equals sign, if there is one. -/
def initializer (rules : Rules) (allowIn : Bool) : Parser (List Node) := do
  if ← Parser.mark? "=" then (fun v => [v.as .value]) <$> rules (.expression 0 allowIn) else pure []

/-- One target of a declaration with its value. -/
def declarator (rules : Rules) : Parser Node :=
  Parser.node .variableDeclarator do
    let target ← bindingTarget rules
    let value ← initializer rules true
    pure (target.as .name :: value)

/-- The targets of a declaration and its end. -/
def declarators (rules : Rules) : Parser (List Node) := do
  let first ← declarator rules
  let others ← Parser.many do
    if ← Parser.mark? "," then some <$> declarator rules else pure none
  let found := first :: others
  Parser.semicolon (found.getLast?.any fun d => d.children.length == 2)
  pure found

/-- A `var` declaration. -/
def variableDeclaration (rules : Rules) : Parser Node :=
  Parser.node .variableDeclaration do
    Parser.keyword "var"
    declarators rules

/-- A `let` or `const` declaration.  A line end behind `let` makes it a name. -/
def lexicalDeclaration (rules : Rules) : Parser Node :=
  Parser.node .lexicalDeclaration do
    if ← Parser.keyword? "let" then Parser.require !(← Parser.lineBreaks true)
    else Parser.keyword "const"
    declarators rules

/-- A declaration of any kind. -/
def declaration (rules : Rules) : Parser Node := do
  let w ← Parser.word
  if w == Text.ofString "var" then variableDeclaration rules
  else if w == Text.ofString "let" || w == Text.ofString "const" then lexicalDeclaration rules
  else if w == Text.ofString "class" || (← Parser.seesChar '@') then classDeclaration rules
  else functionDeclaration rules

/-! ## Control flow -/

/-- A conditional statement. -/
def ifStatement (rules : Rules) : Parser Node :=
  Parser.node .ifStatement do
    Parser.keyword "if"
    let test ← condition rules
    let consequence ← rules .statement
    if ← Parser.seesWord "else" then
      let alternative ← Parser.node .elseClause do
        Parser.keyword "else"
        return [← rules .statement]
      return [test, consequence, alternative]
    else return [test, consequence]

/-- The word that declares the variable of a loop. -/
def loopWord : Parser Node := do
  let w ← Parser.word
  Parser.require ([Text.ofString "var", Text.ofString "let", Text.ofString "const"].contains w)
  let n ← Parser.token .keyword w.length
  pure (n.as .kind)

/-- The variable of a loop over something: a declared one, or a place to assign to. -/
def loopVariable (rules : Rules) : Parser (List Node) :=
  let declared := do
    let w ← loopWord
    let target ← bindingTarget rules
    let value ← if w.text == Text.ofString "var" then initializer rules false else pure []
    Parser.require ((← Parser.seesWord "of") || (← Parser.seesWord "in"))
    pure (w :: target.as .left :: value)
  let assigned := do
    let n ← attached rules false
    let target ← Parser.demand (assignmentTarget? n)
    pure [target.as .left]
  Parser.orElse declared assigned

/-- A loop over the keys or the elements of something. -/
def forInStatement (rules : Rules) : Parser Node :=
  Parser.node .forInStatement do
    Parser.keyword "for"
    let _ ← Parser.keyword? "await"
    Parser.single '('
    let target ← loopVariable rules
    if !(← Parser.keyword? "in") then Parser.keyword "of"
    let subject ← expressions rules true
    Parser.single ')'
    let body ← rules .statement
    pure (target ++ [subject.as .right, body.as .body])

/-- A semicolon on its own. -/
def emptyStatement : Parser Node :=
  Parser.node .emptyStatement do
    Parser.mark ";"
    pure []

/-- The first part of a counting loop. -/
def loopInitializer (rules : Rules) : Parser Node := do
  let declared := do
    let w ← Parser.word
    if w == Text.ofString "var" then variableDeclaration rules else lexicalDeclaration rules
  let plain := do
    let e ← expressions rules true
    Parser.mark ";"
    pure e
  Parser.orElse emptyStatement (Parser.orElse declared plain)

/-- A counting loop. -/
def forStatement (rules : Rules) : Parser Node :=
  Parser.node .forStatement do
    Parser.keyword "for"
    Parser.single '('
    let first ← loopInitializer rules
    let test ← Parser.orElse emptyStatement do
      let e ← expressions rules true
      Parser.mark ";"
      pure e
    let increment ←
      if ← Parser.seesChar ')' then pure [] else (fun e => [e]) <$> expressions rules true
    Parser.single ')'
    let body ← rules .statement
    pure (first.as .initializer :: test :: increment ++ [body.as .body])

/-- A loop with its test in front. -/
def whileStatement (rules : Rules) : Parser Node :=
  Parser.node .whileStatement do
    Parser.keyword "while"
    let test ← condition rules
    let body ← rules .statement
    pure [test, body.as .body]

/-- A loop with its test at the end. -/
def doStatement (rules : Rules) : Parser Node :=
  Parser.node .doStatement do
    Parser.keyword "do"
    let body ← rules .statement
    Parser.keyword "while"
    let test ← condition rules
    let _ ← Parser.optional (Parser.semicolon false)
    pure [body.as .body, test]

/-- A handler of exceptions. -/
def catchClause (rules : Rules) : Parser Node :=
  Parser.node .catchClause do
    Parser.keyword "catch"
    let caught ←
      if ← Parser.seesChar '(' then
        Parser.single '('
        let target ← bindingTarget rules
        Parser.single ')'
        pure [target.as .parameter]
      else pure []
    let body ← block rules fun _ => false
    pure (caught ++ [body.as .body])

/-- A statement that handles exceptions. -/
def tryStatement (rules : Rules) : Parser Node :=
  Parser.node .tryStatement do
    Parser.keyword "try"
    let body ← block rules fun _ => false
    let handler ←
      if ← Parser.seesWord "catch" then (fun h => [h]) <$> catchClause rules else pure []
    let finalizer ←
      if ← Parser.seesWord "finally" then
        (fun f => [f]) <$> Parser.node .finallyClause do
          Parser.keyword "finally"
          let inner ← block rules fun _ => false
          pure [inner.as .body]
      else pure []
    pure (body.as .body :: handler ++ finalizer)

/-- Statements up to the next case or the end of the cases. -/
def caseStatements (rules : Rules) : Parser (List Node) :=
  Parser.many do
    if (← Parser.seesChar '\x7d') || (← Parser.seesWord "case") || (← Parser.seesWord "default") then
      pure none
    else some <$> rules .statement

/-- One case. -/
def switchCase (rules : Rules) : Parser Node := do
  if ← Parser.seesWord "case" then
    Parser.node .switchCase do
      Parser.keyword "case"
      let value ← expressions rules true
      Parser.mark ":"
      let body ← caseStatements rules
      pure (value.as .value :: body.map (·.as .body))
  else
    Parser.node .switchDefault do
      Parser.keyword "default"
      Parser.mark ":"
      let body ← caseStatements rules
      pure (body.map (·.as .body))

/-- A choice between cases. -/
def switchStatement (rules : Rules) : Parser Node :=
  Parser.node .switchStatement do
    Parser.keyword "switch"
    let value ← condition rules
    let body ← Parser.node .switchBody do
      Parser.single '\x7b'
      let cases ← Parser.many do
        if ← Parser.seesChar '\x7d' then pure none else some <$> switchCase rules
      Parser.single '\x7d'
      pure cases
    pure [value.as .value, body.as .body]

/-- A statement under the scope of an object. -/
def withStatement (rules : Rules) : Parser Node :=
  Parser.node .withStatement do
    Parser.keyword "with"
    let subject ← condition rules
    let body ← rules .statement
    pure [subject.as .object, body.as .body]

/-- A jump, perhaps to a label. -/
def jump (w : String) (kind : Kind) : Parser Node :=
  Parser.node kind do
    Parser.keyword w
    if !(← Parser.lineBreaks false) && (← Parser.seesName) then
      let target ← Parser.name .statementIdentifier
      Parser.semicolon false
      pure [target.as .label]
    else
      Parser.semicolon false
      pure []

/-- A return, with or without a value. -/
def returnStatement (rules : Rules) : Parser Node :=
  Parser.node .returnStatement do
    Parser.keyword "return"
    match ← Parser.optional (Parser.semicolon false) with
    | some _ => pure []
    | none =>
      let value ← expressions rules true
      Parser.semicolon true
      pure [value]

/-- A throw. -/
def throwStatement (rules : Rules) : Parser Node :=
  Parser.node .throwStatement do
    Parser.keyword "throw"
    let value ← expressions rules true
    Parser.semicolon true
    pure [value]

/-- A breakpoint. -/
def debuggerStatement : Parser Node :=
  Parser.node .debuggerStatement do
    Parser.keyword "debugger"
    Parser.semicolon false
    pure []

/-- A statement with a label. -/
def labeledStatement (rules : Rules) : Parser Node :=
  Parser.node .labeledStatement do
    let own ← Parser.name .statementIdentifier
    Parser.mark ":"
    let body ← rules .statement
    pure [own.as .label, body.as .body]

/-! ## Modules -/

/-- The source of an import or export. -/
def fromClause : Parser Node := do
  Parser.keyword "from"
  string

/-- The name of something exported; `default` leaves no node. -/
def exportName : Parser (List Node) := do
  if ← Parser.seesChar '"' then return [← string]
  else if ← Parser.seesChar '\x27' then return [← string]
  else if ← Parser.keyword? "default" then return []
  else return [← Parser.name .identifier]

/-- One name in the braces of an import or export, perhaps with another name for it. -/
def specifier (kind : Kind) : Parser Node :=
  Parser.node kind do
    let own ← exportName
    let other ← if ← Parser.keyword? "as" then exportName else pure []
    pure (own.map (·.as .name) ++ other)

/-- The names in the braces of an import or export. -/
def specifiers (kind item : Kind) : Parser Node :=
  Parser.node kind do
    Parser.single '\x7b'
    let found ← Parser.many do
      if ← Parser.seesChar '\x7d' then pure none
      else
        let s ← specifier item
        Parser.require ((← Parser.seesChar '\x7d') || (← Parser.sees ","))
        let _ ← Parser.mark? ","
        pure (some s)
    Parser.single '\x7d'
    pure found

/-- The names of an import other than the default. -/
def importGroup : Parser Node := do
  if ← Parser.sees "*" then
    Parser.node .namespaceImport do
      Parser.mark "*"
      Parser.keyword "as"
      return [← Parser.name .identifier]
  else specifiers .namedImports .importSpecifier

/-- Everything that an import binds. -/
def importClause : Parser Node :=
  Parser.node .importClause do
    if ← Parser.seesName then
      let own ← Parser.name .identifier
      if ← Parser.mark? "," then return [own, ← importGroup] else return [own]
    else return [← importGroup]

/-- An import. -/
def importStatement (rules : Rules) : Parser Node :=
  Parser.node .importStatement do
    Parser.keyword "import"
    let bare := do return [← string]
    let bound := do
      let clause ← importClause
      return [clause, ← fromClause]
    let found ← Parser.orElse bare bound
    let attributes ←
      if ← Parser.seesWord "with" then
        (fun a => [a]) <$> Parser.node .importAttribute do
          Parser.keyword "with"
          return [← object rules]
      else pure []
    Parser.semicolon false
    pure (found ++ attributes)

/-- What an export takes from another module, or the names it gives out. -/
def exportList : Parser (List Node) := do
  if ← Parser.sees "*" then
    let start ← Parser.position
    Parser.mark "*"
    if ← Parser.keyword? "as" then
      let own ← exportName
      let space ← Parser.nodeFrom .namespaceExport start own
      return [space, ← fromClause]
    else return [← fromClause]
  else
    let clause ← specifiers .exportClause .exportSpecifier
    if ← Parser.seesWord "from" then return [clause, ← fromClause] else return [clause]

/-- An export. -/
def exportStatement (rules : Rules) : Parser Node :=
  Parser.node .exportStatement do
    let marks ← decorators rules
    Parser.keyword "export"
    if (← Parser.sees "*") || (← Parser.seesChar '\x7b') then
      let found ← exportList
      Parser.semicolon false
      pure found
    else if ← Parser.keyword? "default" then
      let value := do
        let v ← assignment rules
        Parser.semicolon true
        pure v
      let found ← Parser.orElse (declaration rules) value
      pure (marks ++ [found])
    else return marks ++ [← declaration rules]

/-! ## All statements -/

/-- An expression on its own. -/
def expressionStatement (rules : Rules) : Parser Node :=
  Parser.node .expressionStatement do
    let e ← expressions rules true
    Parser.semicolon true
    pure [e]

/-- A statement that begins with a word. -/
def wordStatement (rules : Rules) (w : Text) : Parser Node := do
  let is (s : String) : Bool := w == Text.ofString s
  if is "var" then variableDeclaration rules
  else if is "const" then lexicalDeclaration rules
  else if is "let" then Parser.orElse (lexicalDeclaration rules) (expressionStatement rules)
  else if is "function" then functionDeclaration rules
  else if is "class" then classDeclaration rules
  else if is "if" then ifStatement rules
  else if is "for" then Parser.orElse (forInStatement rules) (forStatement rules)
  else if is "while" then whileStatement rules
  else if is "do" then doStatement rules
  else if is "try" then tryStatement rules
  else if is "switch" then switchStatement rules
  else if is "with" then withStatement rules
  else if is "break" then jump "break" .breakStatement
  else if is "continue" then jump "continue" .continueStatement
  else if is "return" then returnStatement rules
  else if is "throw" then throwStatement rules
  else if is "debugger" then debuggerStatement
  else if is "import" then Parser.orElse (importStatement rules) (expressionStatement rules)
  else if is "export" then exportStatement rules
  else if ← Parser.succeeds do
      Parser.keyword "async"
      Parser.require !(← Parser.lineBreaks true)
      Parser.keyword "function" then functionDeclaration rules
  else if ← Parser.succeeds do
      let _ ← Parser.name .statementIdentifier
      Parser.mark ":" then labeledStatement rules
  else expressionStatement rules

/-- A statement. -/
def statement (rules : Rules) : Parser Node := do
  let w ← Parser.word
  if !w.isEmpty then wordStatement rules w
  else if ← Parser.sees ";" then emptyStatement
  else if ← Parser.seesChar '\x7b' then
    blockOr (block rules List.isEmpty) (expressionStatement rules)
  else if ← Parser.seesChar '@' then Parser.orElse (exportStatement rules) (classDeclaration rules)
  else expressionStatement rules

end Debundle.Script.Grammar
