import Debundle.Proofs.Script.Respelling
import Debundle.Proofs.Script.Source

/-!
# What functions and blocks bind

Which names a function or a block binds is said here construct by construct, as the language has it,
and apart from how a tree is searched for them.  A function binds what its parameters bind, its own
name if it is an expression, what is declared by `var` or as a function anywhere in its body outside of
inner functions and classes, and what is declared directly in the body.  A block binds what is declared
directly among its statements, in its head, or as the parameter of a handler.

The search passes over three things.  It does not look for `var` in the head of a loop over something,
where no declaration stands but only a word and a pattern; it looks at the clauses of a switch, but not
at the statements in them; and it does not take the word `undefined` in a pattern for a name.  So a rule
is given for what is looked at, and the same rule with what is passed over is that of the language.

* `Reading`: what counts, for the language and for the search.
* `Node.Binds`, `Node.Declares`: patterns and declarations.
* `Node.Introduces`: the names that a function binds.
* `Node.Scopes`: the names of the scope that a block opens.
* `functionBinds_iff`, `blockBinds_iff`: what the search finds, and when this is all that there is.
-/

namespace Debundle.Script

/-! ## Readings -/

/-- What counts when it is read off a tree which names are bound. -/
structure Reading where
  /-- Whether a leaf of a kind in a pattern is a name. -/
  isName : Kind → Bool
  /-- Whether the head of a loop over something may declare a variable of the function around it. -/
  loopHeads : Bool
  /-- Whether the statements in the clauses of a switch declare names in its body. -/
  clauses : Bool

namespace Reading

/-- The language. -/
def language : Reading where
  isName k := k == .identifier || k == .shorthandPropertyIdentifierPattern || k == .undefinedWord
  loopHeads := true
  clauses := true

/-- What is looked at. -/
def search : Reading where
  isName k := k == .identifier || k == .shorthandPropertyIdentifierPattern
  loopHeads := false
  clauses := false

/-- All that counts in one reading counts in another one. -/
structure Within (R S : Reading) : Prop where
  isName : ∀ k, R.isName k = true → S.isName k = true
  loopHeads : R.loopHeads = true → S.loopHeads = true
  clauses : R.clauses = true → S.clauses = true

theorem search_within_language : search.Within language :=
  ⟨fun _ hk => Bool.or_eq_true_iff.mpr (Or.inl hk), fun _ => rfl, fun _ => rfl⟩

end Reading

/-- Patterns that are made of patterns, and lists of parameters. -/
def Kind.holdsPatterns : Kind → Bool
  | .objectPattern | .arrayPattern | .restPattern | .formalParameters => true
  | _ => false

/-- Nodes in which statements stand that may declare names. -/
def Kind.isBlock : Kind → Bool
  | .statementBlock | .switchBody | .classBody | .program => true
  | _ => false

namespace Node

/-! ## The rule -/

/-- A parameter or a destructuring pattern binds a name. -/
inductive Binds (R : Reading) : Node → Text → Prop where
  /-- A name on its own. -/
  | name {n : Node} (hn : R.isName n.kind = true) : Binds R n n.text
  /-- A pattern with a default value. -/
  | target {n p : Node} {name : Text}
      (hn : n.kind = .assignmentPattern ∨ n.kind = .objectAssignmentPattern)
      (hp : n.part? .left = some p) (h : Binds R p name) : Binds R n name
  /-- A pattern for the value of a property. -/
  | value {n p : Node} {name : Text} (hn : n.kind = .pairPattern) (hp : n.part? .value = some p)
      (h : Binds R p name) : Binds R n name
  /-- A pattern among others. -/
  | part {n p : Node} {name : Text} (hn : n.kind.holdsPatterns = true) (hp : p ∈ n.parts)
      (h : Binds R p name) : Binds R n name

/-- A declaration declares a name: one of its declarators has a pattern that binds it. -/
def Declares (R : Reading) (d : Node) (name : Text) : Prop :=
  ∃ c ∈ d.parts, c.kind = .variableDeclarator ∧ ∃ p, c.part? .name = some p ∧ p.Binds R name

/-- A statement declares a name for the block that it stands in: by `let` or `const`, or as a function
or class. -/
def DeclaresInBlock (R : Reading) (c : Node) (name : Text) : Prop :=
  c.kind = .lexicalDeclaration ∧ c.Declares R name ∨
    c.kind.isNamedDeclaration = true ∧ c.ownName? = some name

/-- A node stands below another one, and in no function or class below it. -/
inductive Exposes : Node → Node → Prop where
  | child {n d : Node} (hd : d ∈ n.parts) : Exposes n d
  | descend {n c d : Node} (hc : c ∈ n.parts) (hkind : c.kind.enclosesVariables = false)
      (hd : Exposes c d) : Exposes n d

/-- The block that a function has as its body. -/
def HasBody (f body : Node) : Prop := f.part? .body = some body ∧ body.kind = .statementBlock

/-- A function binds a name. -/
inductive Introduces (R : Reading) (f : Node) (name : Text) : Prop where
  /-- By one of its parameters. -/
  | parameters {p : Node} (hp : f.part? .parameters = some p) (h : p.Binds R name)
  /-- By its only parameter, without parentheses. -/
  | parameter {p : Node} (hp : f.part? .parameter = some p) (h : p.Binds R name)
  /-- As its own name, if it is an expression. -/
  | ownName (hf : f.kind.isFunctionExpression = true ∨ f.kind = .generatorFunction)
      (h : f.ownName? = some name)
  /-- By a `var` declaration, which may stand in the head of a counting loop. -/
  | varDeclaration {body d : Node} (hbody : f.HasBody body) (hd : body.Exposes d)
      (hkind : d.kind = .variableDeclaration) (h : d.Declares R name)
  /-- By `var` in the head of a loop over something. -/
  | varLoop {body d w p : Node} (hR : R.loopHeads = true) (hbody : f.HasBody body)
      (hd : body.Exposes d) (hkind : d.kind = .forInStatement) (hw : d.part? .kind = some w)
      (hvar : w.text = Text.ofString "var") (hp : d.part? .left = some p) (h : p.Binds R name)
  /-- As a function in its body. -/
  | functionDeclaration {body d : Node} (hbody : f.HasBody body) (hd : body.Exposes d)
      (hkind : d.kind.declaresFunction = true) (h : d.ownName? = some name)
  /-- By a statement of its body. -/
  | statement {body c : Node} (hbody : f.HasBody body) (hc : c ∈ body.parts)
      (h : c.DeclaresInBlock R name)

/-- The scope that a block opens has a name. -/
inductive Scopes (R : Reading) (n : Node) (name : Text) : Prop where
  /-- By one of its statements. -/
  | statement {c : Node} (hn : n.kind.isBlock = true) (hc : c ∈ n.parts)
      (h : c.DeclaresInBlock R name)
  /-- By a statement in a clause of a switch. -/
  | clause {k c : Node} (hR : R.clauses = true) (hn : n.kind = .switchBody) (hk : k ∈ n.parts)
      (hkind : k.kind = .switchCase ∨ k.kind = .switchDefault) (hc : c ∈ k.parts)
      (hrole : c.role = some .body) (h : c.DeclaresInBlock R name)
  /-- By `let` or `const` in the head of a counting loop. -/
  | initializer {d : Node} (hn : n.kind = .forStatement) (hd : n.part? .initializer = some d)
      (hkind : d.kind = .lexicalDeclaration) (h : d.Declares R name)
  /-- By another word than `var`, which is `let` or `const`, in the head of a loop over something. -/
  | loopVariable {w p : Node} (hn : n.kind = .forInStatement) (hw : n.part? .kind = some w)
      (hvar : w.text ≠ Text.ofString "var") (hp : n.part? .left = some p) (h : p.Binds R name)
  /-- As the parameter of a handler. -/
  | caught {p : Node} (hn : n.kind = .catchClause) (hp : n.part? .parameter = some p)
      (h : p.Binds R name)

/-! ## More of a tree may count -/

variable {R S : Reading} {n d c f : Node} {name : Text}

theorem Binds.mono (hRS : R.Within S) (h : n.Binds R name) : n.Binds S name := by
  induction h with
  | name hn => exact .name (hRS.isName _ hn)
  | target hn hp _ ih => exact .target hn hp ih
  | value hn hp _ ih => exact .value hn hp ih
  | part hn hp _ ih => exact .part hn hp ih

theorem Declares.mono (hRS : R.Within S) (h : d.Declares R name) : d.Declares S name := by
  obtain ⟨c, hc, hkind, p, hp, h⟩ := h
  exact ⟨c, hc, hkind, p, hp, h.mono hRS⟩

theorem DeclaresInBlock.mono (hRS : R.Within S) (h : c.DeclaresInBlock R name) :
    c.DeclaresInBlock S name :=
  h.imp_left fun ⟨hkind, h⟩ => ⟨hkind, h.mono hRS⟩

theorem Introduces.mono (hRS : R.Within S) (h : f.Introduces R name) : f.Introduces S name := by
  cases h with
  | parameters hp h => exact .parameters hp (h.mono hRS)
  | parameter hp h => exact .parameter hp (h.mono hRS)
  | ownName hf h => exact .ownName hf h
  | varDeclaration hbody hd hkind h => exact .varDeclaration hbody hd hkind (h.mono hRS)
  | varLoop hR hbody hd hkind hw hvar hp h =>
    exact .varLoop (hRS.loopHeads hR) hbody hd hkind hw hvar hp (h.mono hRS)
  | functionDeclaration hbody hd hkind h => exact .functionDeclaration hbody hd hkind h
  | statement hbody hc h => exact .statement hbody hc (h.mono hRS)

theorem Scopes.mono (hRS : R.Within S) (h : n.Scopes R name) : n.Scopes S name := by
  cases h with
  | statement hn hc h => exact .statement hn hc (h.mono hRS)
  | clause hR hn hk hkind hc hrole h =>
    exact .clause (hRS.clauses hR) hn hk hkind hc hrole (h.mono hRS)
  | initializer hn hd hkind h => exact .initializer hn hd hkind (h.mono hRS)
  | loopVariable hn hw hvar hp h => exact .loopVariable hn hw hvar hp (h.mono hRS)
  | caught hn hp h => exact .caught hn hp (h.mono hRS)

/-! ## The search -/

theorem mem_namesOf_iff {role : Role} :
    name ∈ n.namesOf role ↔ ∃ p, n.part? role = some p ∧ name ∈ patternNames p := by
  unfold namesOf
  cases n.part? role <;> simp

/-- What is found in a pattern is bound by it. -/
theorem binds_of_mem_patternNames (h : name ∈ patternNames n) : n.Binds .search name := by
  induction n using induction with
  | step n ih =>
    have hrole : ∀ role, name ∈ n.namesOf role →
        ∃ p, n.part? role = some p ∧ p.Binds .search name := by
      intro role h
      obtain ⟨p, hp, h⟩ := mem_namesOf_iff.mp h
      exact ⟨p, hp, ih p (mem_children_of_part? hp) h⟩
    rw [patternNames_eq] at h
    split at h
    case h_1 hn | h_2 hn =>
      rw [List.mem_singleton.mp h]
      exact .name (by rw [hn]; rfl)
    case h_3 hn =>
      obtain ⟨p, hp, h⟩ := hrole .left h
      exact .target (Or.inl hn) hp h
    case h_4 hn =>
      obtain ⟨p, hp, h⟩ := hrole .left h
      exact .target (Or.inr hn) hp h
    case h_5 hn =>
      obtain ⟨p, hp, h⟩ := hrole .value h
      exact .value hn hp h
    case h_6 hn | h_7 hn | h_8 hn | h_9 hn =>
      obtain ⟨p, hp, h⟩ := List.mem_flatMap.mp h
      exact .part (by rw [hn]; rfl) hp (ih p (mem_children_of_mem_parts hp) h)
    case h_10 => exact absurd h List.not_mem_nil

/-- What a pattern binds is found, as far as it is looked at. -/
theorem Binds.mem_patternNames (h : n.Binds .search name) : name ∈ patternNames n := by
  induction h with
  | @name n hn =>
    rw [patternNames_eq]
    rcases Bool.or_eq_true_iff.mp hn with hn | hn <;> rw [beq_iff_eq.mp hn] <;>
      exact List.mem_singleton_self _
  | target hn hp _ ih =>
    rw [patternNames_eq]
    rcases hn with hn | hn <;> rw [hn] <;> exact mem_namesOf_iff.mpr ⟨_, hp, ih⟩
  | value hn hp _ ih =>
    rw [patternNames_eq, hn]
    exact mem_namesOf_iff.mpr ⟨_, hp, ih⟩
  | @part n p name hn hp _ ih =>
    have hparts : name ∈ n.parts.flatMap patternNames := List.mem_flatMap.mpr ⟨p, hp, ih⟩
    rw [patternNames_eq]
    revert hn
    cases n.kind <;> first | exact fun _ => hparts | exact fun hn => absurd hn (by decide)

theorem mem_patternNames_iff : name ∈ patternNames n ↔ n.Binds .search name :=
  ⟨binds_of_mem_patternNames, Binds.mem_patternNames⟩

theorem mem_namesOf_iff_binds {role : Role} :
    name ∈ n.namesOf role ↔ ∃ p, n.part? role = some p ∧ p.Binds .search name := by
  simp only [mem_namesOf_iff, mem_patternNames_iff]

theorem mem_declaredNames_iff : name ∈ declaredNames d ↔ d.Declares .search name := by
  simp only [declaredNames, Declares, List.mem_flatMap, List.mem_filter, beq_iff_eq,
    mem_namesOf_iff_binds, and_assoc]

/-- A node declares a name in the function around it, as far as it is looked at. -/
def IsHoisted (d : Node) (name : Text) : Prop :=
  d.kind = .variableDeclaration ∧ d.Declares .search name ∨
    d.kind.declaresFunction = true ∧ d.ownName? = some name

/-- What is found below a node is declared outside of functions and classes. -/
theorem exists_exposes_of_mem_hoistedNames (h : name ∈ n.parts.flatMap hoistedNames) :
    ∃ d, n.Exposes d ∧ d.IsHoisted name := by
  induction n using induction with
  | step n ih =>
    obtain ⟨c, hc, h⟩ := List.mem_flatMap.mp h
    rw [hoistedNames_eq] at h
    split at h
    · rename_i hfunction
      exact ⟨c, .child hc, Or.inr ⟨hfunction, Option.mem_toList.mp h⟩⟩
    · split at h
      · exact absurd h List.not_mem_nil
      · rename_i hencloses
        rcases List.mem_append.mp h with h | h
        · split at h
          · rename_i hvariable
            exact ⟨c, .child hc, Or.inl ⟨beq_iff_eq.mp hvariable, mem_declaredNames_iff.mp h⟩⟩
          · exact absurd h List.not_mem_nil
        · obtain ⟨d, hd, h⟩ := ih c (mem_children_of_mem_parts hc) h
          exact ⟨d, .descend hc (by simpa using hencloses) hd, h⟩

/-- What is declared outside of functions and classes is found. -/
theorem Exposes.mem_hoistedNames (hd : n.Exposes d) (h : d.IsHoisted name) :
    name ∈ n.parts.flatMap hoistedNames := by
  induction hd with
  | @child n d hd =>
    refine List.mem_flatMap.mpr ⟨d, hd, ?_⟩
    rw [hoistedNames_eq]
    rcases h with ⟨hkind, h⟩ | ⟨hkind, h⟩
    · rw [hkind, if_neg (by decide), if_neg (by decide), if_pos (by decide)]
      exact List.mem_append_left _ (mem_declaredNames_iff.mpr h)
    · rw [if_pos hkind]
      exact Option.mem_toList.mpr h
  | @descend n c d hc hkind hd ih =>
    refine List.mem_flatMap.mpr ⟨c, hc, ?_⟩
    have hfunction : c.kind.declaresFunction = false := by
      revert hkind
      cases c.kind <;> decide
    rw [hoistedNames_eq, hfunction, hkind, if_neg Bool.false_ne_true, if_neg Bool.false_ne_true]
    exact List.mem_append_right _ (ih h)

/-- What is found among the statements of a block. -/
theorem any_declaresInBlock_iff :
    (n.parts.any fun c => (c.kind == .lexicalDeclaration && (declaredNames c).contains name)
      || (c.kind.isNamedDeclaration && c.ownName? == some name)) = true ↔
        ∃ c ∈ n.parts, c.DeclaresInBlock .search name := by
  simp only [List.any_eq_true, Bool.or_eq_true, Bool.and_eq_true, beq_iff_eq,
    List.contains_iff_mem, mem_declaredNames_iff, DeclaresInBlock]

/-- What is found in a block. -/
theorem blockBinds_iff_scopes : blockBinds n name = true ↔ n.Scopes .search name := by
  constructor
  · intro h
    unfold blockBinds at h
    split at h
    case h_1 hn | h_2 hn | h_3 hn | h_4 hn =>
      obtain ⟨c, hc, h⟩ := any_declaresInBlock_iff.mp h
      exact .statement (by rw [hn]; rfl) hc h
    case h_5 hn =>
      split at h
      · rename_i d hd
        rw [Bool.and_eq_true, beq_iff_eq, List.contains_iff_mem, mem_declaredNames_iff] at h
        exact .initializer hn hd h.1 h.2
      · cases h
    case h_6 hn =>
      split at h
      · rename_i w hw
        rw [Bool.and_eq_true, bne_iff_ne, List.contains_iff_mem, mem_namesOf_iff_binds] at h
        obtain ⟨hvar, p, hp, h⟩ := h
        exact .loopVariable hn hw hvar hp h
      · cases h
    case h_7 hn =>
      rw [List.contains_iff_mem, mem_namesOf_iff_binds] at h
      obtain ⟨p, hp, h⟩ := h
      exact .caught hn hp h
    case h_8 => cases h
  · intro h
    unfold blockBinds
    cases h with
    | @statement c hn hc h =>
      have hany := any_declaresInBlock_iff.mpr ⟨c, hc, h⟩
      revert hn
      cases n.kind <;> first | exact fun _ => hany | exact fun hn => absurd hn (by decide)
    | clause hR => exact absurd hR Bool.false_ne_true
    | initializer hn hd hkind h =>
      simp only [hn, hd, hkind, beq_self_eq_true, Bool.true_and, List.contains_iff_mem]
      exact mem_declaredNames_iff.mpr h
    | loopVariable hn hw hvar hp h =>
      simp only [hn, hw, bne_iff_ne.mpr hvar, Bool.true_and, List.contains_iff_mem]
      exact mem_namesOf_iff_binds.mpr ⟨_, hp, h⟩
    | caught hn hp h =>
      simp only [hn, List.contains_iff_mem]
      exact mem_namesOf_iff_binds.mpr ⟨_, hp, h⟩

/-- What is found in the body of a function. -/
theorem hasBody_and_iff {body : Node} (hbody : f.part? .body = some body) :
    (body.kind == .statementBlock &&
      ((body.parts.flatMap hoistedNames).contains name || blockBinds body name)) = true ↔
        f.HasBody body ∧ (name ∈ body.parts.flatMap hoistedNames ∨
          ∃ c ∈ body.parts, c.DeclaresInBlock .search name) := by
  rw [HasBody, hbody, eq_self_iff_true, true_and, Bool.and_eq_true, beq_iff_eq, Bool.or_eq_true,
    List.contains_iff_mem]
  refine and_congr_right fun hkind => or_congr_right ?_
  rw [← any_declaresInBlock_iff, blockBinds, hkind]

/-- What is found in a function. -/
theorem functionBinds_iff_introduces : functionBinds f name = true ↔ f.Introduces .search name := by
  unfold functionBinds
  simp only [Bool.or_eq_true, Bool.and_eq_true, beq_iff_eq, List.contains_iff_mem,
    mem_namesOf_iff_binds]
  constructor
  · rintro (((⟨p, hp, h⟩ | ⟨p, hp, h⟩) | ⟨hf, h⟩) | h)
    · exact .parameters hp h
    · exact .parameter hp h
    · exact .ownName hf h
    · split at h
      · rename_i body hpart
        obtain ⟨hbody, h | ⟨c, hc, h⟩⟩ := (hasBody_and_iff hpart).mp h
        · obtain ⟨d, hd, ⟨hkind, h⟩ | ⟨hkind, h⟩⟩ := exists_exposes_of_mem_hoistedNames h
          · exact .varDeclaration hbody hd hkind h
          · exact .functionDeclaration hbody hd hkind h
        · exact .statement hbody hc h
      · cases h
  · intro h
    cases h with
    | parameters hp h => exact Or.inl (Or.inl (Or.inl ⟨_, hp, h⟩))
    | parameter hp h => exact Or.inl (Or.inl (Or.inr ⟨_, hp, h⟩))
    | ownName hf h => exact Or.inl (Or.inr ⟨hf, h⟩)
    | varDeclaration hbody hd hkind h =>
      rw [hbody.1]
      exact Or.inr ((hasBody_and_iff hbody.1).mpr
        ⟨hbody, Or.inl (hd.mem_hoistedNames (Or.inl ⟨hkind, h⟩))⟩)
    | varLoop hR => exact absurd hR Bool.false_ne_true
    | functionDeclaration hbody hd hkind h =>
      rw [hbody.1]
      exact Or.inr ((hasBody_and_iff hbody.1).mpr
        ⟨hbody, Or.inl (hd.mem_hoistedNames (Or.inr ⟨hkind, h⟩))⟩)
    | statement hbody hc h =>
      rw [hbody.1]
      exact Or.inr ((hasBody_and_iff hbody.1).mpr ⟨hbody, Or.inr ⟨_, hc, h⟩⟩)

end Node

/-! ## What is passed over -/

/-- For every function and every name: the name is found among those that the function binds exactly if
it is bound in a way that is looked at.  So what is found is what the language says exactly if the
name is not bound only by `var` in the head of a loop over something, or as the word `undefined` in a
pattern. -/
theorem functionBinds_iff (f : Node) (name : Text) :
    (functionBinds f name = true ↔ f.Introduces .search name) ∧
      ((functionBinds f name = true ↔ f.Introduces .language name) ↔
        (f.Introduces .language name → f.Introduces .search name)) := by
  have hsearch : functionBinds f name = true ↔ f.Introduces .search name :=
    Node.functionBinds_iff_introduces
  refine ⟨hsearch, ?_⟩
  rw [hsearch]
  exact ⟨Iff.mpr, fun h => ⟨Node.Introduces.mono Reading.search_within_language, h⟩⟩

/-- A function whose only variable is declared in the head of a loop. -/
def loopInside : Text := "function f()\x7bfor(var x of y)\x7b\x7d\x7d"

set_option maxRecDepth 100000 in
/-- The variable is not found. -/
theorem loopInside_not_found :
    ¬∀ (text : Text) (source : Source) (f : Node) (name : Text), Source.parse text = .ok source →
      f ∈ source.root.all → f.kind.isFunctionLike = true →
        (functionBinds f name = true ↔ f.Introduces .language name) := by
  intro hall
  have h : ((Source.parse loopInside).toOption.any fun source =>
      decide (∃ f ∈ source.root.all, f.kind.isFunctionLike = true ∧
        functionBinds f "x" = false ∧ ∃ body ∈ f.part? .body, body.kind = .statementBlock ∧
          ∃ d ∈ body.parts, d.kind = .forInStatement ∧ (∃ w ∈ d.part? .kind, w.text = "var") ∧
            Text.ofString "x" ∈ d.namesOf .left)) = true := by
    decide +kernel
  obtain ⟨source, hparse, h⟩ := exists_of_toOption_any h
  obtain ⟨f, hf, hkind, hmissed, body, hbody, hblock, d, hd, hloop, ⟨w, hw, hvar⟩, hx⟩ :=
    of_decide_eq_true h
  obtain ⟨p, hp, hbinds⟩ := Node.mem_namesOf_iff_binds.mp hx
  have hfound := (hall loopInside source f "x" hparse hf hkind).mpr
    (.varLoop rfl ⟨hbody, hblock⟩ (.child hd) hloop hw hvar hp
      (hbinds.mono Reading.search_within_language))
  rw [hmissed] at hfound
  cases hfound

/-- For every block, loop, handler and body of a switch, and every name: the name is found among those
of the scope that is opened there exactly if it is declared in a way that is looked at.  So what is
found is what the language says exactly if the name is not declared only by statements in the clauses
of a switch, or as the word `undefined` in a pattern. -/
theorem blockBinds_iff (n : Node) (name : Text) :
    (blockBinds n name = true ↔ n.Scopes .search name) ∧
      ((blockBinds n name = true ↔ n.Scopes .language name) ↔
        (n.Scopes .language name → n.Scopes .search name)) := by
  have hsearch : blockBinds n name = true ↔ n.Scopes .search name := Node.blockBinds_iff_scopes
  refine ⟨hsearch, ?_⟩
  rw [hsearch]
  exact ⟨Iff.mpr, fun h => ⟨Node.Scopes.mono Reading.search_within_language, h⟩⟩

/-- A switch with a variable in a clause. -/
def variableInClause : Text := "switch(a)\x7bcase 1:let x\x7d"

set_option maxRecDepth 100000 in
/-- The variable is not found. -/
theorem variableInClause_not_found :
    ¬∀ (text : Text) (source : Source) (n : Node) (name : Text), Source.parse text = .ok source →
      n ∈ source.root.all →
      n.kind ∈ [.statementBlock, .switchBody, .forStatement, .forInStatement, .catchClause] →
        (blockBinds n name = true ↔ n.Scopes .language name) := by
  intro hall
  have h : ((Source.parse variableInClause).toOption.any fun source =>
      decide (∃ n ∈ source.root.all, n.kind = .switchBody ∧ blockBinds n "x" = false ∧
        ∃ k ∈ n.parts, k.kind = .switchCase ∧ ∃ c ∈ k.parts, c.role = some .body ∧
          c.kind = .lexicalDeclaration ∧ Text.ofString "x" ∈ declaredNames c)) = true := by
    decide +kernel
  obtain ⟨source, hparse, h⟩ := exists_of_toOption_any h
  obtain ⟨n, hn, hkind, hmissed, k, hk, hcase, c, hc, hrole, hlexical, hx⟩ := of_decide_eq_true h
  have hdeclares : c.DeclaresInBlock .language "x" :=
    Or.inl ⟨hlexical, (Node.mem_declaredNames_iff.mp hx).mono Reading.search_within_language⟩
  have hfound := (hall variableInClause source n "x" hparse hn (by simp [hkind])).mpr
    (.clause rfl hkind hk (Or.inl hcase) hc hrole hdeclares)
  rw [hmissed] at hfound
  cases hfound

end Debundle.Script
