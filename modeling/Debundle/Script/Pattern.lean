import Debundle.Script.Node

/-!
# From expressions to patterns

Up to the arrow or the assignment sign, the parameters of an arrow function and the target of a
destructuring assignment look like expressions.  They are read as expressions and turned into
patterns afterwards.

* `Node.toPattern?`: the pattern that an expression spells, if it spells one.
* `Node.toBinding?`: the same where a default value is allowed.
* `Node.isSettled`: no object literal is left with a default value in it, which only a pattern
  may have.
-/

namespace Debundle.Script.Node

mutual

/-- The pattern that an expression spells; a default value is allowed if `defaults`. -/
def patternOf (defaults : Bool) : Node → Option Node
  | ⟨kind, role, start, stop, text, children⟩ =>
    match kind with
    | .identifier | .undefinedWord | .memberExpression | .subscriptExpression | .objectPattern
    | .arrayPattern | .restPattern => some ⟨kind, role, start, stop, text, children⟩
    | .objectLiteral =>
      (memberPatterns children).map (⟨.objectPattern, role, start, stop, text, ·⟩)
    | .arrayLiteral =>
      (elementPatterns children).map (⟨.arrayPattern, role, start, stop, text, ·⟩)
    | .spreadElement =>
      (restPatterns children).map (⟨.restPattern, role, start, stop, text, ·⟩)
    | .assignmentExpression =>
      if defaults && (children.head?.any fun c => c.kind != .parenthesizedExpression) then
        some ⟨.assignmentPattern, role, start, stop, text, children⟩
      else none
    | _ => none

/-- The patterns that the elements of an array literal spell. -/
def elementPatterns : List Node → Option (List Node)
  | [] => some []
  | c :: cs => do
    let p ← patternOf true c
    let ps ← elementPatterns cs
    return p :: ps

/-- The pattern behind the dots of a spread element. -/
def restPatterns : List Node → Option (List Node)
  | [] => some []
  | c :: cs => do
    let p ← patternOf false c
    let ps ← restPatterns cs
    return p :: ps

/-- The patterns that the members of an object literal spell. -/
def memberPatterns : List Node → Option (List Node)
  | [] => some []
  | ⟨kind, role, start, stop, text, children⟩ :: cs => do
    let p ←
      match kind with
      | .shorthandPropertyIdentifier =>
        some ⟨.shorthandPropertyIdentifierPattern, role, start, stop, text, children⟩
      | .objectAssignmentPattern => some ⟨kind, role, start, stop, text, children⟩
      | .pair => (valuePatterns children).map (⟨.pairPattern, role, start, stop, text, ·⟩)
      | .spreadElement =>
        (restPatterns children).map (⟨.restPattern, role, start, stop, text, ·⟩)
      | _ => none
    let ps ← memberPatterns cs
    return p :: ps

/-- The key of a pair, kept, and the pattern that its value spells. -/
def valuePatterns : List Node → Option (List Node)
  | [] => some []
  | c :: cs => do
    let p ← if c.role == some .value then patternOf true c else some c
    let ps ← valuePatterns cs
    return p :: ps

end

/-- The pattern that an expression spells. -/
def toPattern? (n : Node) : Option Node := patternOf false n

/-- The pattern that an expression spells, perhaps with a default value. -/
def toBinding? (n : Node) : Option Node := patternOf true n

/-- Whether every default value of a member stands in a pattern. -/
def isSettled : Node → Bool
  | ⟨kind, _, _, _, _, children⟩ =>
    !(kind == .objectLiteral && children.any (·.kind == .objectAssignmentPattern)) &&
      areSettled children
where
  /-- The same for a list of trees. -/
  areSettled : List Node → Bool
    | [] => true
    | c :: cs => c.isSettled && areSettled cs

end Debundle.Script.Node
