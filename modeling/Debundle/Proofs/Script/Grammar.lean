import Debundle.Proofs.Script.Placement
import Debundle.Script.Grammar

/-!
# The grammar stays inside the source

What a script is parsed into lies in the text of the script.  Turning expressions into patterns
keeps every node where it stands.  For most rules of the grammar the property is found from the
parsers that the rule is made of; a rule that looks at the text itself, or that goes on differently
with what it has read, is taken apart by hand.

* `Node.patternOf_liesIn`: the pattern that an expression spells stands where the expression stands.
* `RulesReadIn`: the parsers for the recursive parts stay in the text.
* `Grammar.program_readsIn`: so does the parser for a whole script.
-/

namespace Debundle.Script

open Debundle.Script.Parser Debundle.Script.Grammar

variable {t : Text}

/-! ## Patterns -/

namespace Node

/-- Another kind and other children for a node. -/
theorem LiesIn.reshape {kind kind' : Kind} {role : Option Role} {start stop : Nat} {text : Text}
    {children children' : List Node} (h : Node.LiesIn t ⟨kind, role, start, stop, text, children⟩)
    (h' : ∀ c ∈ children', c.LiesIn t) :
    Node.LiesIn t ⟨kind', role, start, stop, text, children'⟩ := by
  obtain ⟨hstart, hstop, htext, -⟩ := Node.liesIn_iff.mp h
  exact ⟨hstart, hstop, htext, h'⟩

/-- A pattern in front of others. -/
theorem forall_mem_cons_liesIn {p : Node} (hp : p.LiesIn t) {found : Option (List Node)}
    (hfound : ∀ ps ∈ found, ∀ n ∈ ps, n.LiesIn t) :
    ∀ ps ∈ found.bind fun ps => some (p :: ps), ∀ n ∈ ps, n.LiesIn t := by
  intro ps hps
  obtain ⟨rest, hrest, ⟨⟩⟩ := Option.bind_eq_some_iff.mp hps
  exact List.forall_mem_cons.mpr ⟨hp, hfound rest hrest⟩

mutual

theorem patternOf_liesIn (defaults : Bool) :
    ∀ n : Node, n.LiesIn t → ∀ p ∈ patternOf defaults n, p.LiesIn t
  | ⟨kind, role, start, stop, text, children⟩, h, p, hp => by
    have hchildren := (Node.liesIn_iff.mp h).2.2.2
    unfold patternOf at hp
    split at hp
    case h_8 =>
      obtain ⟨cs, hcs, rfl⟩ := Option.map_eq_some_iff.mp hp
      exact h.reshape (memberPatterns_liesIn children hchildren cs hcs)
    case h_9 =>
      obtain ⟨cs, hcs, rfl⟩ := Option.map_eq_some_iff.mp hp
      exact h.reshape (elementPatterns_liesIn children hchildren cs hcs)
    case h_10 =>
      obtain ⟨cs, hcs, rfl⟩ := Option.map_eq_some_iff.mp hp
      exact h.reshape (restPatterns_liesIn children hchildren cs hcs)
    case h_11 =>
      split at hp
      · cases hp
        exact h.reshape hchildren
      · cases hp
    case h_12 => cases hp
    all_goals
      cases hp
      exact h

theorem elementPatterns_liesIn :
    ∀ cs : List Node, (∀ c ∈ cs, c.LiesIn t) → ∀ ps ∈ elementPatterns cs, ∀ p ∈ ps, p.LiesIn t
  | [], _, ps, hps => by
    cases hps
    exact fun p hp => absurd hp List.not_mem_nil
  | c :: cs, h, ps, hps => by
    obtain ⟨hc, hcs⟩ := List.forall_mem_cons.mp h
    obtain ⟨p, hp, hps⟩ := Option.bind_eq_some_iff.mp hps
    exact forall_mem_cons_liesIn (patternOf_liesIn true c hc p hp) (elementPatterns_liesIn cs hcs)
      ps hps

theorem restPatterns_liesIn :
    ∀ cs : List Node, (∀ c ∈ cs, c.LiesIn t) → ∀ ps ∈ restPatterns cs, ∀ p ∈ ps, p.LiesIn t
  | [], _, ps, hps => by
    cases hps
    exact fun p hp => absurd hp List.not_mem_nil
  | c :: cs, h, ps, hps => by
    obtain ⟨hc, hcs⟩ := List.forall_mem_cons.mp h
    obtain ⟨p, hp, hps⟩ := Option.bind_eq_some_iff.mp hps
    exact forall_mem_cons_liesIn (patternOf_liesIn false c hc p hp) (restPatterns_liesIn cs hcs)
      ps hps

theorem memberPatterns_liesIn :
    ∀ cs : List Node, (∀ c ∈ cs, c.LiesIn t) → ∀ ps ∈ memberPatterns cs, ∀ p ∈ ps, p.LiesIn t
  | [], _, ps, hps => by
    cases hps
    exact fun p hp => absurd hp List.not_mem_nil
  | ⟨kind, role, start, stop, text, children⟩ :: cs, h, ps, hps => by
    obtain ⟨hc, hcs⟩ := List.forall_mem_cons.mp h
    have hchildren := (Node.liesIn_iff.mp hc).2.2.2
    have hrest := memberPatterns_liesIn cs hcs
    unfold memberPatterns at hps
    split at hps
    · exact forall_mem_cons_liesIn (hc.reshape hchildren) hrest ps hps
    · exact forall_mem_cons_liesIn hc hrest ps hps
    · obtain ⟨p, hp, hps⟩ := Option.bind_eq_some_iff.mp hps
      obtain ⟨vs, hvs, rfl⟩ := Option.map_eq_some_iff.mp hp
      have hvalues := valuePatterns_liesIn children hchildren vs hvs
      exact forall_mem_cons_liesIn (hc.reshape hvalues) hrest ps hps
    · obtain ⟨p, hp, hps⟩ := Option.bind_eq_some_iff.mp hps
      obtain ⟨vs, hvs, rfl⟩ := Option.map_eq_some_iff.mp hp
      have hvalues := restPatterns_liesIn children hchildren vs hvs
      exact forall_mem_cons_liesIn (hc.reshape hvalues) hrest ps hps
    · cases hps

theorem valuePatterns_liesIn :
    ∀ cs : List Node, (∀ c ∈ cs, c.LiesIn t) → ∀ ps ∈ valuePatterns cs, ∀ p ∈ ps, p.LiesIn t
  | [], _, ps, hps => by
    cases hps
    exact fun p hp => absurd hp List.not_mem_nil
  | c :: cs, h, ps, hps => by
    obtain ⟨hc, hcs⟩ := List.forall_mem_cons.mp h
    have hrest := valuePatterns_liesIn cs hcs
    unfold valuePatterns at hps
    split at hps
    · obtain ⟨p, hp, hps⟩ := Option.bind_eq_some_iff.mp hps
      exact forall_mem_cons_liesIn (patternOf_liesIn true c hc p hp) hrest ps hps
    · exact forall_mem_cons_liesIn hc hrest ps hps

end

end Node

instance (n : Node) [hn : LiesIn t n] : LiesIn t n.toPattern? :=
  ⟨Node.patternOf_liesIn false n hn.out⟩

instance (n : Node) [hn : LiesIn t n] : LiesIn t n.toBinding? :=
  ⟨Node.patternOf_liesIn true n hn.out⟩

instance (n : Node) [hn : LiesIn t n] : LiesIn t (assignmentTarget? n) := by
  unfold assignmentTarget?
  split <;> infer_instance

/-- The parsers for the recursive parts of the grammar stay in the text. -/
class RulesReadIn (t : Text) (rules : Rules) : Prop where
  out : ∀ goal, Parser.ReadsIn t (rules goal)

section Rules

-- an instance has the size of the rule it is found for
set_option synthInstance.maxSize 8000

variable {rules : Rules} [hrules : RulesReadIn t rules]

instance (goal : Goal) : ReadsIn t (rules goal) := hrules.out goal

/-! ## The recursive parts -/

instance : ReadsIn t (assignment rules) := by
  simp only [assignment]
  infer_instance

instance (allowIn : Bool) : ReadsIn t (expressions rules allowIn) := by
  simp only [expressions]
  infer_instance

instance (close : Char) (item : Parser Node) [ReadsIn t item] :
    ReadsIn t (commaList close item) := by
  simp only [commaList]
  infer_instance

/-! ## Literals -/

/-- One more piece in front of the others. -/
theorem cons_piece_liesIn {c : Cursor} (hc : c.LiesIn t) (kind : Kind) (n : Nat)
    {others : Option (List Node × Cursor)}
    (h : ∀ found ∈ others, (∀ n ∈ found.1, n.LiesIn t) ∧ found.2.LiesIn t) :
    ∀ found ∈ (if n == 0 then none else do
      let (pieces, after) ← others
      return (c.leaf kind n :: pieces, after)),
      (∀ n ∈ found.1, n.LiesIn t) ∧ found.2.LiesIn t := by
  intro found hfound
  split at hfound
  · cases hfound
  · obtain ⟨rest, hrest, ⟨⟩⟩ := Option.bind_eq_some_iff.mp hfound
    obtain ⟨hpieces, hafter⟩ := h rest hrest
    exact ⟨List.forall_mem_cons.mpr ⟨hc.leaf kind n, hpieces⟩, hafter⟩

theorem stringPieces_liesIn (quote : Char) (fuel : Nat) {c : Cursor} (hc : c.LiesIn t) :
    ∀ found ∈ stringPieces quote fuel c, (∀ n ∈ found.1, n.LiesIn t) ∧ found.2.LiesIn t := by
  induction fuel generalizing c with
  | zero => exact fun _ h => by cases h
  | succ fuel ih =>
    intro found h
    unfold stringPieces at h
    split at h
    · cases h
    · split at h
      · cases h
        exact ⟨fun _ hn => absurd hn List.not_mem_nil, hc.move 1⟩
      · exact cons_piece_liesIn hc _ _ (ih (hc.move _)) found h

instance : ReadsIn t string := ⟨by
  intro r hr a r' h
  unfold string at h
  split at h
  · cases h
  · split at h
    · obtain ⟨found, hfound, ⟨⟩⟩ := Option.bind_eq_some_iff.mp h
      obtain ⟨hpieces, hafter⟩ := stringPieces_liesIn _ _ (hr.here.move 1) found hfound
      have hnode : Node.LiesIn t (.branch .stringLiteral r.here.pos found.2.pos found.1) :=
        ⟨hr.here.boundary, hafter.boundary, List.nil_subset t, hpieces⟩
      exact ⟨⟨hnode⟩, hr.advanceTo hafter⟩
    · cases h⟩

instance : ReadsIn t number := by
  simp only [number]
  infer_instance

instance : ReadsIn t regex := ⟨by
  intro r hr a r' h
  unfold regex at h
  extract_lets body n close tail m after flags at h
  have hbody : body.LiesIn t := hr.here.move 1
  have htail : tail.LiesIn t := (hbody.move n).move 1
  have hafter : after.LiesIn t := htail.move m
  have hflags : ∀ c ∈ flags, c.LiesIn t := by
    unfold flags
    split
    · exact fun _ hc => absurd hc List.not_mem_nil
    · exact List.forall_mem_singleton.mpr (htail.leaf _ _)
  split at h
  · cases h
  · split at h
    · cases h
    · cases h
      have hchildren := List.forall_mem_cons.mpr ⟨hbody.leaf .regexPattern n, hflags⟩
      exact ⟨⟨⟨hr.here.boundary, hafter.boundary, List.nil_subset t, hchildren⟩⟩,
        hr.advanceTo hafter⟩⟩

instance (ch : Char) : ReadsIn t (jumpOver ch) := ⟨by
  intro r hr a r' h
  unfold jumpOver at h
  split at h
  · cases h
    exact ⟨inferInstance, hr.jumpTo (hr.here.move 1)⟩
  · cases h⟩

/-- A piece of text that is read as it stands. -/
theorem readsIn_raw (kind : Kind) (n : Nat) : ReadsIn t fun r : Reader =>
    if n == 0 then none else some (some (r.here.leaf kind n), r.jumpTo (r.here.move n)) := ⟨by
  intro r hr a r' h
  split at h
  · cases h
  · cases h
    have hleaf : LiesIn t (r.here.leaf kind n) := ⟨hr.here.leaf kind n⟩
    exact ⟨inferInstance, hr.jumpTo (hr.here.move n)⟩⟩

instance : ReadsIn t (templatePiece rules) := by
  simp only [templatePiece]
  refine ReadsIn.bind inferInstance fun u _ => ?_
  cases u with
  | nil => infer_instance
  | cons c rest =>
    simp only
    split
    · infer_instance
    · split
      · infer_instance
      · exact readsIn_raw _ _

instance : ReadsIn t (template rules) := by
  simp only [template]
  infer_instance

/-! ## Functions, objects and classes -/

instance : ReadsIn t skipMarkupComment := ⟨by
  intro r hr a r' h
  unfold skipMarkupComment at h
  extract_lets u at h
  split at h
  · cases h
    have hnext := hr.advanceTo (hr.here.move (u.takeWhile fun c => !endsLineComment c).length)
    refine ⟨inferInstance, hnext.total, hnext.back, hnext.here, hnext.skipped, ?_⟩
    exact List.forall_mem_cons.mpr ⟨hr.here.leaf _ _, hnext.comments⟩
  · cases h
    exact ⟨inferInstance, hr⟩⟩

instance : ReadsIn t (statements rules) := by
  simp only [statements, Function.comp_def]
  infer_instance

instance (continuable : List Node → Bool) : ReadsIn t (block rules continuable) := by
  simp only [block]
  infer_instance

instance : ReadsIn t (parameter rules) := by
  simp only [parameter]
  infer_instance

instance : ReadsIn t (parameters rules) := by
  simp only [parameters]
  infer_instance

instance (continuable : Bool) : ReadsIn t (signature rules continuable) := by
  simp only [signature]
  infer_instance

instance : ReadsIn t (functionExpression rules) := by
  simp only [functionExpression]
  infer_instance

instance : ReadsIn t (functionDeclaration rules) := by
  simp only [functionDeclaration]
  infer_instance

instance : ReadsIn t privateName := by
  simp only [privateName]
  infer_instance

instance : ReadsIn t seesMemberName := by
  simp only [seesMemberName]
  infer_instance

instance : ReadsIn t (memberName rules) := by
  simp only [memberName]
  refine ReadsIn.bind inferInstance fun u _ => ?_
  cases u with
  | nil => infer_instance
  | cons c rest =>
    simp only
    infer_instance

instance (w : String) : ReadsIn t (modifier w) := by
  simp only [modifier]
  infer_instance

instance : ReadsIn t modifiers := by
  simp only [modifiers]
  infer_instance

instance (start : Nat) (own : Node) [LiesIn t start] [LiesIn t own] :
    ReadsIn t (method rules start own) := by
  simp only [method]
  infer_instance

instance : ReadsIn t (spread rules) := by
  simp only [spread]
  infer_instance

instance : ReadsIn t (objectMember rules) := by
  simp only [objectMember]
  infer_instance

instance : ReadsIn t (object rules) := by
  simp only [object]
  infer_instance

instance : ReadsIn t (element rules) := by
  simp only [element]
  infer_instance

instance : ReadsIn t (array rules) := by
  simp only [array]
  infer_instance

instance : ReadsIn t (arguments rules) := by
  simp only [arguments]
  infer_instance

instance (n : Node) [LiesIn t n] : ReadsIn t (decoratorStep rules n) := by
  simp only [decoratorStep]
  infer_instance

instance : ReadsIn t (decorator rules) := by
  simp only [decorator]
  infer_instance

instance : ReadsIn t (decorators rules) := by
  simp only [decorators]
  infer_instance

instance : ReadsIn t (staticBlock rules) := by
  simp only [staticBlock]
  infer_instance

instance : ReadsIn t (classMember rules) := by
  simp only [classMember]
  infer_instance

instance : ReadsIn t (classBody rules) := by
  simp only [classBody, Function.comp_def]
  infer_instance

instance : ReadsIn t (classRest rules) := by
  simp only [classRest]
  infer_instance

instance : ReadsIn t (classExpression rules) := by
  simp only [classExpression]
  infer_instance

instance : ReadsIn t (classDeclaration rules) := by
  simp only [classDeclaration]
  infer_instance

/-! ## Markup -/

instance (kind : Kind) : ReadsIn t (markupName kind) := by
  simp only [markupName]
  infer_instance

instance : ReadsIn t elementName := by
  simp only [elementName]
  infer_instance

instance : ReadsIn t (markupExpression rules) := by
  simp only [markupExpression]
  infer_instance

instance : ReadsIn t markupString := ⟨by
  intro r hr a r' h
  unfold markupString at h
  split at h
  · cases h
  · split at h
    · extract_lets n after at h
      have hafter : after.LiesIn t := hr.here.move (n + 2)
      split at h
      · cases h
      · cases h
        have hchildren := List.forall_mem_singleton.mpr ((hr.here.move 1).leaf .stringFragment n)
        exact ⟨⟨⟨hr.here.boundary, hafter.boundary, List.nil_subset t, hchildren⟩⟩,
          hr.advanceTo hafter⟩
    · cases h⟩

instance : ReadsIn t (tagAttribute rules) := by
  simp only [tagAttribute]
  infer_instance

instance : ReadsIn t (tagAttributes rules) := by
  simp only [tagAttributes]
  infer_instance

instance : ReadsIn t rawAgain := ⟨by
  rintro r hr _ _ ⟨⟩
  exact ⟨inferInstance, hr.total, hr.back, hr.back, fun _ hm => absurd hm List.not_mem_nil,
    hr.comments⟩⟩

instance : ReadsIn t markupText := ⟨by
  intro r hr a r' h
  unfold markupText at h
  extract_lets n at h
  split at h
  · cases h
    exact ⟨inferInstance, hr⟩
  · cases h
    have hleaf : LiesIn t (r.here.leaf .jsxText n) := ⟨hr.here.leaf .jsxText n⟩
    exact ⟨inferInstance, hr.jumpTo (hr.here.move n)⟩⟩

instance : ReadsIn t (markupChild rules) := by
  simp only [markupChild]
  refine ReadsIn.bind inferInstance fun found hfound => ?_
  cases found with
  | none =>
    simp only
    infer_instance
  | some n =>
    have hn : LiesIn t n := ⟨hfound.out n rfl⟩
    simp only
    infer_instance

instance : ReadsIn t tagName := by
  simp only [tagName]
  infer_instance

instance : ReadsIn t (markup rules) := by
  simp only [markup]
  infer_instance

/-! ## Expressions -/

instance : ReadsIn t seesLabel := by
  simp only [seesLabel]
  infer_instance

instance (asBlock otherwise : Parser Node) [ReadsIn t asBlock] [ReadsIn t otherwise] :
    ReadsIn t (blockOr asBlock otherwise) := by
  simp only [blockOr]
  infer_instance

instance (allowIn : Bool) : ReadsIn t (arrowBody rules allowIn) := by
  simp only [arrowBody]
  infer_instance

instance (allowIn : Bool) (start : Nat) (params : List Node) [LiesIn t start] [LiesIn t params] :
    ReadsIn t (arrowRest rules allowIn start params) := by
  simp only [arrowRest]
  infer_instance

instance (allowIn : Bool) : ReadsIn t (nameOrArrow rules allowIn) := by
  simp only [nameOrArrow]
  infer_instance

instance (allowIn : Bool) : ReadsIn t (parenthesized rules allowIn) := by
  simp only [parenthesized]
  refine .bind inferInstance fun start hstart => .bind inferInstance fun _ _ =>
    .bind inferInstance fun items hitems => .bind inferInstance fun _ _ =>
    .bind inferInstance fun arrow _ => ?_
  split
  · infer_instance
  · refine .bind inferInstance fun _ _ => ?_
    cases hlast : items.getLast? with
    | none => infer_instance
    | some found =>
      have hfound : LiesIn t found.1 := ⟨(hitems.out found (List.mem_of_getLast? hlast)).1⟩
      simp only
      refine .bind inferInstance fun _ _ => ?_
      split
      · rename_i only comma
        have honly : LiesIn t only := ⟨(hitems.out _ List.mem_cons_self).1⟩
        infer_instance
      · rename_i first comma rest _
        have hfirst : LiesIn t first := ⟨(hitems.out _ List.mem_cons_self).1⟩
        infer_instance
      · infer_instance

instance : ReadsIn t privateOperand := by
  simp only [privateOperand]
  infer_instance

instance (allowIn : Bool) : ReadsIn t (asyncExpression rules allowIn) := by
  simp only [asyncExpression]
  infer_instance

instance : ReadsIn t importExpression := by
  simp only [importExpression]
  infer_instance

instance (s : String) (kind : Kind) : ReadsIn t (wordExpression s kind) := by
  simp only [wordExpression]
  infer_instance

instance (allowIn : Bool) : ReadsIn t (primary rules allowIn) := by
  simp only [primary]
  refine ReadsIn.bind inferInstance fun u _ => ?_
  cases u with
  | nil => infer_instance
  | cons c rest =>
    simp only
    infer_instance

instance : ReadsIn t propertyName := by
  simp only [propertyName]
  infer_instance

instance (n : Node) (chain : List Node) [LiesIn t n] [LiesIn t chain] :
    ReadsIn t (subscript rules n chain) := by
  simp only [subscript]
  infer_instance

instance (n : Node) (chain : List Node) [LiesIn t n] [LiesIn t chain] :
    ReadsIn t (member n chain) := by
  simp only [member]
  infer_instance

instance (n : Node) (chain : List Node) [LiesIn t n] [LiesIn t chain] :
    ReadsIn t (call rules n chain) := by
  simp only [call]
  infer_instance

instance (calls : Bool) (n : Node) [LiesIn t n] : ReadsIn t (attach rules calls n) := by
  simp only [attach]
  infer_instance

instance (allowIn : Bool) : ReadsIn t (construction rules allowIn) := by
  simp only [construction]
  infer_instance

instance (allowIn : Bool) : ReadsIn t (attached rules allowIn) := by
  simp only [attached]
  infer_instance

instance (allowIn : Bool) : ReadsIn t (assignable rules allowIn) := by
  simp only [assignable]
  refine ReadsIn.bind inferInstance fun n hn => ReadsIn.bind inferInstance fun sign _ => ?_
  have htarget : LiesIn t (assignmentTarget? n) := inferInstance
  cases h : assignmentTarget? n with
  | none =>
    simp only
    infer_instance
  | some target =>
    have hin : LiesIn t target := ⟨htarget.out target h⟩
    simp only
    infer_instance

instance (allowIn : Bool) (n : Nat) : ReadsIn t (unary rules allowIn n) := by
  simp only [unary]
  infer_instance

instance (allowIn : Bool) : ReadsIn t (yieldExpression rules allowIn) := by
  simp only [yieldExpression]
  refine readsIn_node (.bind inferInstance fun _ _ => .bind inferInstance fun starred _ => ?_)
  split
  · infer_instance
  · refine .bind inferInstance fun breaks _ => ?_
    split
    · infer_instance
    · refine .bind inferInstance fun found hfound => ?_
      cases found with
      | none =>
        simp only
        infer_instance
      | some operand =>
        have hoperand : LiesIn t operand := ⟨hfound.out operand rfl⟩
        simp only
        infer_instance

instance (allowIn : Bool) : ReadsIn t (awaitExpression rules allowIn) := by
  simp only [awaitExpression]
  infer_instance

instance (allowIn : Bool) : ReadsIn t (operand rules allowIn) := by
  simp only [operand]
  infer_instance

instance (floor : Nat) (allowIn : Bool) (n : Node) [LiesIn t n] :
    ReadsIn t (operatorStep rules floor allowIn n) := by
  simp only [operatorStep]
  refine ReadsIn.bind inferInstance fun sign _ => ReadsIn.bind inferInstance fun w _ => ?_
  cases binaryStrength sign with
  | none =>
    simp only
    infer_instance
  | some found =>
    simp only
    infer_instance

instance (floor : Nat) (allowIn : Bool) : ReadsIn t (expression rules floor allowIn) := by
  simp only [expression]
  infer_instance

/-! ## Statements -/

instance : ReadsIn t (condition rules) := by
  simp only [condition]
  infer_instance

instance : ReadsIn t (bindingTarget rules) := by
  simp only [bindingTarget]
  infer_instance

instance (allowIn : Bool) : ReadsIn t (initializer rules allowIn) := by
  simp only [initializer]
  infer_instance

instance : ReadsIn t (declarator rules) := by
  simp only [declarator]
  infer_instance

instance : ReadsIn t (declarators rules) := by
  simp only [declarators]
  infer_instance

instance : ReadsIn t (variableDeclaration rules) := by
  simp only [variableDeclaration]
  infer_instance

instance : ReadsIn t (lexicalDeclaration rules) := by
  simp only [lexicalDeclaration]
  infer_instance

instance : ReadsIn t (declaration rules) := by
  simp only [declaration]
  infer_instance

instance : ReadsIn t (ifStatement rules) := by
  simp only [ifStatement]
  infer_instance

instance : ReadsIn t loopWord := by
  simp only [loopWord]
  infer_instance

instance : ReadsIn t (loopVariable rules) := by
  simp only [loopVariable]
  infer_instance

instance : ReadsIn t (forInStatement rules) := by
  simp only [forInStatement]
  infer_instance

instance : ReadsIn t emptyStatement := by
  simp only [emptyStatement]
  infer_instance

instance : ReadsIn t (loopInitializer rules) := by
  simp only [loopInitializer]
  infer_instance

instance : ReadsIn t (forStatement rules) := by
  simp only [forStatement]
  infer_instance

instance : ReadsIn t (whileStatement rules) := by
  simp only [whileStatement]
  infer_instance

instance : ReadsIn t (doStatement rules) := by
  simp only [doStatement]
  infer_instance

instance : ReadsIn t (catchClause rules) := by
  simp only [catchClause]
  infer_instance

instance : ReadsIn t (tryStatement rules) := by
  simp only [tryStatement]
  infer_instance

instance : ReadsIn t (caseStatements rules) := by
  simp only [caseStatements]
  infer_instance

instance : ReadsIn t (switchCase rules) := by
  simp only [switchCase]
  infer_instance

instance : ReadsIn t (switchStatement rules) := by
  simp only [switchStatement]
  infer_instance

instance : ReadsIn t (withStatement rules) := by
  simp only [withStatement]
  infer_instance

instance (w : String) (kind : Kind) : ReadsIn t (jump w kind) := by
  simp only [jump]
  infer_instance

instance : ReadsIn t (returnStatement rules) := by
  simp only [returnStatement]
  refine readsIn_node (.bind inferInstance fun _ _ => .bind inferInstance fun found _ => ?_)
  cases found with
  | none =>
    simp only
    infer_instance
  | some _ =>
    simp only
    infer_instance

instance : ReadsIn t (throwStatement rules) := by
  simp only [throwStatement]
  infer_instance

instance : ReadsIn t debuggerStatement := by
  simp only [debuggerStatement]
  infer_instance

instance : ReadsIn t (labeledStatement rules) := by
  simp only [labeledStatement]
  infer_instance

instance : ReadsIn t fromClause := by
  simp only [fromClause]
  infer_instance

instance : ReadsIn t exportName := by
  simp only [exportName]
  infer_instance

instance (kind : Kind) : ReadsIn t (specifier kind) := by
  simp only [specifier]
  infer_instance

instance (kind item : Kind) : ReadsIn t (specifiers kind item) := by
  simp only [specifiers]
  infer_instance

instance : ReadsIn t importGroup := by
  simp only [importGroup]
  infer_instance

instance : ReadsIn t importClause := by
  simp only [importClause]
  infer_instance

instance : ReadsIn t (importStatement rules) := by
  simp only [importStatement]
  infer_instance

instance : ReadsIn t exportList := by
  simp only [exportList]
  infer_instance

instance : ReadsIn t (exportStatement rules) := by
  simp only [exportStatement]
  infer_instance

instance : ReadsIn t (expressionStatement rules) := by
  simp only [expressionStatement]
  infer_instance

instance (w : Text) : ReadsIn t (wordStatement rules w) := by
  simp only [wordStatement]
  infer_instance

instance : ReadsIn t (statement rules) := by
  simp only [statement]
  infer_instance

end Rules

/-! ## The whole grammar -/

namespace Grammar

instance (depth : Nat) : RulesReadIn t (rules depth) := ⟨by
  induction depth with
  | zero =>
    intro goal
    exact inferInstanceAs (ReadsIn t fail)
  | succ depth ih =>
    have hrules : RulesReadIn t (rules depth) := ⟨ih⟩
    intro goal
    cases goal with
    | statement => exact inferInstanceAs (ReadsIn t (statement (rules depth)))
    | expression floor allowIn =>
      exact inferInstanceAs (ReadsIn t (expression (rules depth) floor allowIn))
    | markup => exact inferInstanceAs (ReadsIn t (markup (rules depth)))⟩

instance : ReadsIn t hashBangLine := by
  unfold hashBangLine
  infer_instance

/-- A script is parsed into nodes that lie in its text. -/
theorem program_readsIn (depth : Nat) : ReadsIn t (program depth) := by
  unfold program
  infer_instance

end Grammar

end Debundle.Script
