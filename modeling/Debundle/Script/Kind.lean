import Debundle.Text.Basic

/-!
# Kinds of syntax nodes

A script is parsed into a tree of nodes, each of a kind, and a child may play a role in its
parent.  Answers and messages name a kind by `Kind.name`.
-/

namespace Debundle.Script

/-- What a syntax node is. -/
inductive Kind where
  -- The whole script, and what may stand anywhere in it
  | program | comment | htmlComment | hashBangLine
  -- Declarations and statements
  | expressionStatement | variableDeclaration | lexicalDeclaration | variableDeclarator
  | functionDeclaration | generatorFunctionDeclaration | classDeclaration | statementBlock
  | emptyStatement | ifStatement | elseClause | forStatement | forInStatement | whileStatement
  | doStatement | tryStatement | catchClause | finallyClause | switchStatement | switchBody
  | switchCase | switchDefault | labeledStatement | returnStatement | throwStatement
  | breakStatement | continueStatement | debuggerStatement | withStatement | importStatement
  | importClause | namedImports | namespaceImport | importSpecifier | importAttribute
  | exportStatement | exportClause | exportSpecifier | namespaceExport | decorator
  -- Names and words
  | identifier | undefinedWord | propertyIdentifier | privatePropertyIdentifier
  | shorthandPropertyIdentifier | shorthandPropertyIdentifierPattern | statementIdentifier
  | keyword
  -- Literals
  | numberLiteral | stringLiteral | stringFragment | escapeSequence | templateString
  | templateSubstitution | regex | regexPattern | regexFlags | trueWord | falseWord | nullWord
  | thisWord | superWord | importWord | metaProperty
  -- Expressions
  | parenthesizedExpression | sequenceExpression | assignmentExpression
  | augmentedAssignmentExpression | binaryExpression | unaryExpression | updateExpression
  | ternaryExpression | awaitExpression | yieldExpression | newExpression | callExpression
  | memberExpression | subscriptExpression | optionalChain | arguments | spreadElement
  | arrayLiteral | objectLiteral | pair | methodDefinition | computedPropertyName
  | functionExpression | generatorFunction | arrowFunction | formalParameters | classExpression
  | classHeritage | classBody | fieldDefinition | classStaticBlock
  -- Patterns
  | objectPattern | arrayPattern | pairPattern | restPattern | assignmentPattern
  | objectAssignmentPattern
  -- Markup
  | jsxElement | jsxOpeningElement | jsxClosingElement | jsxSelfClosingElement | jsxAttribute
  | jsxExpression | jsxText | jsxNamespaceName
deriving DecidableEq, Repr, Inhabited

/-- The name of a kind in answers and messages. -/
def Kind.name : Kind → Text
  | .program => "program"
  | .comment => "comment"
  | .htmlComment => "html_comment"
  | .hashBangLine => "hash_bang_line"
  | .expressionStatement => "expression_statement"
  | .variableDeclaration => "variable_declaration"
  | .lexicalDeclaration => "lexical_declaration"
  | .variableDeclarator => "variable_declarator"
  | .functionDeclaration => "function_declaration"
  | .generatorFunctionDeclaration => "generator_function_declaration"
  | .classDeclaration => "class_declaration"
  | .statementBlock => "statement_block"
  | .emptyStatement => "empty_statement"
  | .ifStatement => "if_statement"
  | .elseClause => "else_clause"
  | .forStatement => "for_statement"
  | .forInStatement => "for_in_statement"
  | .whileStatement => "while_statement"
  | .doStatement => "do_statement"
  | .tryStatement => "try_statement"
  | .catchClause => "catch_clause"
  | .finallyClause => "finally_clause"
  | .switchStatement => "switch_statement"
  | .switchBody => "switch_body"
  | .switchCase => "switch_case"
  | .switchDefault => "switch_default"
  | .labeledStatement => "labeled_statement"
  | .returnStatement => "return_statement"
  | .throwStatement => "throw_statement"
  | .breakStatement => "break_statement"
  | .continueStatement => "continue_statement"
  | .debuggerStatement => "debugger_statement"
  | .withStatement => "with_statement"
  | .importStatement => "import_statement"
  | .importClause => "import_clause"
  | .namedImports => "named_imports"
  | .namespaceImport => "namespace_import"
  | .importSpecifier => "import_specifier"
  | .importAttribute => "import_attribute"
  | .exportStatement => "export_statement"
  | .exportClause => "export_clause"
  | .exportSpecifier => "export_specifier"
  | .namespaceExport => "namespace_export"
  | .decorator => "decorator"
  | .identifier => "identifier"
  | .undefinedWord => "undefined"
  | .propertyIdentifier => "property_identifier"
  | .privatePropertyIdentifier => "private_property_identifier"
  | .shorthandPropertyIdentifier => "shorthand_property_identifier"
  | .shorthandPropertyIdentifierPattern => "shorthand_property_identifier_pattern"
  | .statementIdentifier => "statement_identifier"
  | .keyword => "keyword"
  | .numberLiteral => "number"
  | .stringLiteral => "string"
  | .stringFragment => "string_fragment"
  | .escapeSequence => "escape_sequence"
  | .templateString => "template_string"
  | .templateSubstitution => "template_substitution"
  | .regex => "regex"
  | .regexPattern => "regex_pattern"
  | .regexFlags => "regex_flags"
  | .trueWord => "true"
  | .falseWord => "false"
  | .nullWord => "null"
  | .thisWord => "this"
  | .superWord => "super"
  | .importWord => "import"
  | .metaProperty => "meta_property"
  | .parenthesizedExpression => "parenthesized_expression"
  | .sequenceExpression => "sequence_expression"
  | .assignmentExpression => "assignment_expression"
  | .augmentedAssignmentExpression => "augmented_assignment_expression"
  | .binaryExpression => "binary_expression"
  | .unaryExpression => "unary_expression"
  | .updateExpression => "update_expression"
  | .ternaryExpression => "ternary_expression"
  | .awaitExpression => "await_expression"
  | .yieldExpression => "yield_expression"
  | .newExpression => "new_expression"
  | .callExpression => "call_expression"
  | .memberExpression => "member_expression"
  | .subscriptExpression => "subscript_expression"
  | .optionalChain => "optional_chain"
  | .arguments => "arguments"
  | .spreadElement => "spread_element"
  | .arrayLiteral => "array"
  | .objectLiteral => "object"
  | .pair => "pair"
  | .methodDefinition => "method_definition"
  | .computedPropertyName => "computed_property_name"
  | .functionExpression => "function_expression"
  | .generatorFunction => "generator_function"
  | .arrowFunction => "arrow_function"
  | .formalParameters => "formal_parameters"
  | .classExpression => "class"
  | .classHeritage => "class_heritage"
  | .classBody => "class_body"
  | .fieldDefinition => "field_definition"
  | .classStaticBlock => "class_static_block"
  | .objectPattern => "object_pattern"
  | .arrayPattern => "array_pattern"
  | .pairPattern => "pair_pattern"
  | .restPattern => "rest_pattern"
  | .assignmentPattern => "assignment_pattern"
  | .objectAssignmentPattern => "object_assignment_pattern"
  | .jsxElement => "jsx_element"
  | .jsxOpeningElement => "jsx_opening_element"
  | .jsxClosingElement => "jsx_closing_element"
  | .jsxSelfClosingElement => "jsx_self_closing_element"
  | .jsxAttribute => "jsx_attribute"
  | .jsxExpression => "jsx_expression"
  | .jsxText => "jsx_text"
  | .jsxNamespaceName => "jsx_namespace_name"

/-- The part that a child plays in its parent. -/
inductive Role where
  | name | value | key | left | right | body | parameters | parameter | function | arguments
  | argument | object | property | initializer | kind | label
deriving DecidableEq, Repr

/-- Whether nodes of a kind are comments or the like, which stand between the parts of a node
without being one of them. -/
def Kind.isExtra : Kind → Bool
  | .comment | .htmlComment | .hashBangLine => true
  | _ => false

/-- Function expressions, as opposed to declarations, arrows, generators and methods. -/
def Kind.isFunctionExpression (k : Kind) : Bool := k == .functionExpression

/-- Everything that opens the scope of a function. -/
def Kind.isFunctionLike : Kind → Bool
  | .functionExpression | .arrowFunction | .functionDeclaration | .generatorFunction
  | .generatorFunctionDeclaration | .methodDefinition => true
  | _ => false

end Debundle.Script
