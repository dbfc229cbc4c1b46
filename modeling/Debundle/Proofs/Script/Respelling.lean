import Debundle.Proofs.Script.Nesting

/-!
# Respelled trees

The same script with other names has the same tree, but for the texts of some leaves and for the
offsets.  What an analysis finds out about a name in the one tree it finds out about the new name in
the other one, if the new name stands in place of the old one wherever that keeps its meaning, and
nowhere else: a node that introduces the new name introduces the old one in the old tree, so the
walk that looks for the new name goes everywhere where the other one went.

* `Respelling`, `Node.respelled`: other texts and other offsets.
* `Respelling.TracesTo`: two respellings of one tree, and the names that the one shows where the
  other shows a given name.
* `Respelling.TracesTo.exists_rebinds`: what introduces the name in the one introduces such a name
  in the other.
* `Respelling.Traces`: a new name stands for nothing but an old one.
* `rebinds_of_respelled`: what introduces the new name introduces the old one.
* `Respelling.Replaces`: a new name stands only where an old one keeps its meaning.
* `filter_kept_respelled`: what is found where a name keeps its meaning.
-/

namespace Debundle.Script

/-- Other texts for some nodes, and other offsets. -/
structure Respelling where
  /-- The new text of a node that gets one. -/
  text? : Node → Option Text
  /-- The new place of an offset. -/
  offset : Nat → Nat

/-- Everything stays as it is. -/
def Respelling.same : Respelling := ⟨fun _ => none, id⟩

/-- A tree with other texts and other offsets. -/
def Node.respelled (r : Respelling) : Node → Node
  | ⟨kind, role, start, stop, text, children⟩ =>
    ⟨kind, role, r.offset start, r.offset stop,
      (r.text? ⟨kind, role, start, stop, text, children⟩).getD text, respelledAll children⟩
where
  /-- The same for a list of trees. -/
  respelledAll : List Node → List Node
    | [] => []
    | c :: cs => c.respelled r :: respelledAll cs

/-! ## Equality -/

mutual

/-- Equality of trees is decidable. -/
def Node.decEq : (n m : Node) → Decidable (n = m)
  | ⟨kind, role, start, stop, text, children⟩, ⟨kind', role', start', stop', text', children'⟩ =>
    match Node.decEqAll children children' with
    | isFalse h => isFalse fun heq => h (Node.mk.inj heq).2.2.2.2.2
    | isTrue h =>
      decidable_of_iff (kind = kind' ∧ role = role' ∧ start = start' ∧ stop = stop' ∧ text = text')
        (by rw [h, Node.mk.injEq]; simp)

/-- Equality of lists of trees is decidable. -/
def Node.decEqAll : (ns ms : List Node) → Decidable (ns = ms)
  | [], [] => isTrue rfl
  | [], _ :: _ => isFalse (List.cons_ne_nil _ _).symm
  | _ :: _, [] => isFalse (List.cons_ne_nil _ _)
  | n :: ns, m :: ms =>
    match Node.decEq n m, Node.decEqAll ns ms with
    | isTrue h, isTrue hrest => isTrue (by rw [h, hrest])
    | isFalse h, _ => isFalse fun heq => h (List.cons.inj heq).1
    | _, isFalse h => isFalse fun heq => h (List.cons.inj heq).2

end

instance : DecidableEq Node := Node.decEq

/-! ## The shape of the tree -/

namespace Node

variable (r : Respelling) (n : Node)

@[simp] theorem respelled_kind : (n.respelled r).kind = n.kind := by
  cases n
  rfl

@[simp] theorem respelled_role : (n.respelled r).role = n.role := by
  cases n
  rfl

@[simp] theorem respelled_start : (n.respelled r).start = r.offset n.start := by
  cases n
  rfl

@[simp] theorem respelled_stop : (n.respelled r).stop = r.offset n.stop := by
  cases n
  rfl

theorem span_respelled : (n.respelled r).span = Prod.map r.offset r.offset n.span := by
  rw [span, span, respelled_start, respelled_stop, Prod.map_apply]

theorem respelled_text : (n.respelled r).text = (r.text? n).getD n.text := by
  cases n
  rfl

@[simp] theorem respelled_children : (n.respelled r).children = n.children.map (respelled r) := by
  have hlist : ∀ cs : List Node, respelled.respelledAll r cs = cs.map (respelled r) := by
    intro cs
    induction cs with
    | nil => rfl
    | cons c cs ih => rw [respelled.respelledAll, ih, List.map_cons]
  cases n
  rw [respelled, hlist]

@[simp] theorem respelled_same : n.respelled Respelling.same = n := by
  have hlist : ∀ cs : List Node, (∀ c ∈ cs, c.respelled Respelling.same = c) →
      respelled.respelledAll Respelling.same cs = cs := by
    intro cs hcs
    induction cs with
    | nil => rfl
    | cons c cs ih =>
      obtain ⟨hc, hcs⟩ := List.forall_mem_cons.mp hcs
      rw [respelled.respelledAll, hc, ih hcs]
  induction n using induction with
  | step n ih =>
    have hchildren := hlist n.children ih
    cases n
    rw [respelled, hchildren]
    rfl

@[simp] theorem isPart_respelled : (n.respelled r).isPart = n.isPart := by
  rw [isPart, isPart, respelled_kind]

@[simp] theorem parts_respelled : (n.respelled r).parts = n.parts.map (respelled r) := by
  rw [parts, parts, respelled_children, List.filter_map]
  congr 2
  funext c
  exact isPart_respelled r c

@[simp] theorem part?_respelled (role : Role) :
    (n.respelled r).part? role = (n.part? role).map (respelled r) := by
  rw [part?, part?, respelled_children, List.find?_map]
  congr 2
  funext c
  rw [Function.comp_apply, respelled_role]

theorem all_respelled : (n.respelled r).all = n.all.map (respelled r) := by
  induction n using induction with
  | step n ih =>
    rw [all_eq, all_eq, respelled_children, List.map_cons, List.map_flatMap, List.flatMap_map]
    congr 1
    exact List.flatMap_congr fun c hc => ih c hc

theorem unwrap_respelled : (n.respelled r).unwrap = n.unwrap.respelled r := by
  induction n using induction with
  | step n ih =>
    rw [unwrap_eq, unwrap_eq n, respelled_kind, parts_respelled]
    split
    · rcases hparts : n.parts with _ | ⟨c, _ | ⟨d, ds⟩⟩
      · rfl
      · exact ih c (mem_children_of_mem_parts (by rw [hparts]; exact List.mem_cons_self))
      · rfl
    · rfl

theorem expression?_respelled :
    (n.respelled r).expression? = n.expression?.map (respelled r) := by
  rw [expression?, expression?, parts_respelled, List.head?_map, Option.map_map, Option.map_map]
  congr 1
  funext c
  exact unwrap_respelled r c

theorem isDirective_respelled : (n.respelled r).isDirective = n.isDirective := by
  rw [isDirective, isDirective, respelled_kind, parts_respelled]
  rcases n.parts with _ | ⟨c, _ | ⟨d, ds⟩⟩
  · rfl
  · simp
  · rfl

theorem bodyStatements_respelled :
    (n.respelled r).bodyStatements = n.bodyStatements.map (respelled r) := by
  rw [bodyStatements, bodyStatements, parts_respelled, List.dropWhile_map]
  congr 2
  funext c
  exact isDirective_respelled r c

end Node

/-! ## Names that a node introduces -/

theorem patternNames_eq (n : Node) :
    patternNames n =
      match n.kind with
      | .identifier | .shorthandPropertyIdentifierPattern => [n.text]
      | .assignmentPattern | .objectAssignmentPattern => n.namesOf .left
      | .pairPattern => n.namesOf .value
      | .objectPattern | .arrayPattern | .restPattern | .formalParameters =>
        n.parts.flatMap patternNames
      | _ => [] := by
  have hrole : ∀ (n : Node) (role : Role),
      patternNames.inRole role n.children = n.namesOf role := by
    intro n role
    unfold Node.namesOf Node.part?
    induction n.children with
    | nil => rfl
    | cons c cs ih =>
      rw [patternNames.inRole, List.find?_cons]
      split
      · rename_i hc
        rw [hc]
      · rename_i hc
        rw [ih, Bool.eq_false_iff.mpr hc]
  have hall : ∀ cs : List Node, patternNames.inAll cs =
      (cs.filter Node.isPart).flatMap patternNames := by
    intro cs
    induction cs with
    | nil => rfl
    | cons c cs ih =>
      rw [patternNames.inAll, ih, List.filter_cons]
      split <;> simp
  have hleft := hrole n .left
  have hvalue := hrole n .value
  obtain ⟨kind, role, start, stop, text, children⟩ := n
  rw [patternNames.eq_def]
  simp only [hall]
  cases kind <;> first | rfl | exact hleft | exact hvalue

theorem hoistedNames_eq (n : Node) :
    hoistedNames n =
      if n.kind.declaresFunction then n.ownName?.toList
      else if n.kind.enclosesVariables then []
      else
        (if n.kind == .variableDeclaration then declaredNames n else []) ++
          n.parts.flatMap hoistedNames := by
  have hparts : ∀ cs : List Node, hoistedNames.inParts cs =
      (cs.filter Node.isPart).flatMap hoistedNames := by
    intro cs
    induction cs with
    | nil => rfl
    | cons c cs ih =>
      rw [hoistedNames.inParts, ih, List.filter_cons]
      split <;> simp
  cases n
  rw [hoistedNames, hparts]
  rfl

/-- Where one respelling of a tree shows a name, the other one shows a name of a class, and the word
of a loop that declares a variable stays what it is. -/
structure Respelling.TracesTo (r s : Respelling) (P : Text → Prop) (new : Text) (n : Node) :
    Prop where
  names : ∀ m ∈ n.all, (m.respelled s).text = new → P (m.respelled r).text
  keyword : ∀ m ∈ n.all, m.role = some .kind → (m.respelled r).text = Text.ofString "var" →
    (m.respelled s).text = Text.ofString "var"

namespace Respelling.TracesTo

variable {r s : Respelling} {P : Text → Prop} {new : Text} {n m c : Node} {role : Role}

theorem of_mem_all (h : r.TracesTo s P new n) (hm : m ∈ n.all) : r.TracesTo s P new m :=
  ⟨fun k hk => h.names k (Node.mem_all_trans hm hk),
    fun k hk => h.keyword k (Node.mem_all_trans hm hk)⟩

theorem of_mem_children (h : r.TracesTo s P new n) (hc : c ∈ n.children) : r.TracesTo s P new c :=
  h.of_mem_all (Node.mem_all_of_mem_children hc (Node.mem_all_self c))

theorem of_mem_parts (h : r.TracesTo s P new n) (hc : c ∈ n.parts) : r.TracesTo s P new c :=
  h.of_mem_children (Node.mem_children_of_mem_parts hc)

theorem exists_mem_namesOf_of_children
    (hpatterns : ∀ c ∈ n.children, new ∈ patternNames (c.respelled s) →
      ∃ old ∈ patternNames (c.respelled r), P old)
    (hnew : new ∈ (n.respelled s).namesOf role) : ∃ old ∈ (n.respelled r).namesOf role, P old := by
  rw [Node.namesOf, Node.part?_respelled] at hnew ⊢
  cases hpart : n.part? role with
  | none =>
    rw [hpart] at hnew
    exact absurd hnew List.not_mem_nil
  | some c =>
    rw [hpart] at hnew
    exact hpatterns c (Node.mem_children_of_part? hpart) hnew

/-- A pattern that binds the new name binds an old one. -/
theorem exists_mem_patternNames (h : r.TracesTo s P new n)
    (hnew : new ∈ patternNames (n.respelled s)) : ∃ old ∈ patternNames (n.respelled r), P old := by
  induction n using Node.induction with
  | step n ih =>
    have hchildren : ∀ c ∈ n.children, new ∈ patternNames (c.respelled s) →
        ∃ old ∈ patternNames (c.respelled r), P old :=
      fun c hc => ih c hc (h.of_mem_children hc)
    rw [patternNames_eq, Node.respelled_kind] at hnew ⊢
    have htext : new ∈ [(n.respelled s).text] → ∃ old ∈ [(n.respelled r).text], P old :=
      fun hnew => ⟨_, List.mem_singleton_self _,
        h.names n (Node.mem_all_self n) (List.mem_singleton.mp hnew).symm⟩
    have hparts : new ∈ (n.respelled s).parts.flatMap patternNames →
        ∃ old ∈ (n.respelled r).parts.flatMap patternNames, P old := fun hnew => by
      rw [Node.parts_respelled, List.flatMap_map] at hnew ⊢
      obtain ⟨c, hc, hnew⟩ := List.mem_flatMap.mp hnew
      obtain ⟨old, hold, hP⟩ := hchildren c (Node.mem_children_of_mem_parts hc) hnew
      exact ⟨old, List.mem_flatMap.mpr ⟨c, hc, hold⟩, hP⟩
    split at hnew
    all_goals first
      | exact htext hnew
      | exact exists_mem_namesOf_of_children hchildren hnew
      | exact hparts hnew
      | exact absurd hnew List.not_mem_nil

theorem exists_mem_namesOf (h : r.TracesTo s P new n)
    (hnew : new ∈ (n.respelled s).namesOf role) : ∃ old ∈ (n.respelled r).namesOf role, P old :=
  exists_mem_namesOf_of_children (fun _ hc => (h.of_mem_children hc).exists_mem_patternNames) hnew

theorem exists_mem_declaredNames (h : r.TracesTo s P new n)
    (hnew : new ∈ declaredNames (n.respelled s)) :
    ∃ old ∈ declaredNames (n.respelled r), P old := by
  obtain ⟨declarator', hdeclarator, hnew⟩ := List.mem_flatMap.mp hnew
  obtain ⟨hpart, hkind⟩ := List.mem_filter.mp hdeclarator
  rw [Node.parts_respelled] at hpart
  obtain ⟨declarator, hmem, rfl⟩ := List.mem_map.mp hpart
  obtain ⟨old, hold, hP⟩ := (h.of_mem_parts hmem).exists_mem_namesOf hnew
  refine ⟨old, List.mem_flatMap.mpr ⟨declarator.respelled r, List.mem_filter.mpr ⟨?_, ?_⟩, hold⟩, hP⟩
  · rw [Node.parts_respelled]
    exact List.mem_map_of_mem hmem
  · rw [Node.respelled_kind] at hkind ⊢
    exact hkind

theorem exists_ownName? (h : r.TracesTo s P new n) (hnew : (n.respelled s).ownName? = some new) :
    ∃ old, (n.respelled r).ownName? = some old ∧ P old := by
  rw [Node.ownName?, Node.part?_respelled, Option.map_map] at hnew
  obtain ⟨name, hpart, hname⟩ := Option.map_eq_some_iff.mp hnew
  rw [Node.ownName?, Node.part?_respelled, hpart]
  exact ⟨_, rfl, h.names name (Node.mem_all_of_part? hpart) hname⟩

theorem exists_mem_hoistedNames (h : r.TracesTo s P new n)
    (hnew : new ∈ hoistedNames (n.respelled s)) :
    ∃ old ∈ hoistedNames (n.respelled r), P old := by
  induction n using Node.induction with
  | step n ih =>
    rw [hoistedNames_eq, Node.respelled_kind] at hnew ⊢
    split at hnew
    · rename_i hdeclares
      rw [if_pos hdeclares]
      obtain ⟨old, hold, hP⟩ := h.exists_ownName? (Option.mem_toList.mp hnew)
      exact ⟨old, Option.mem_toList.mpr hold, hP⟩
    · rename_i hdeclares
      rw [if_neg hdeclares]
      split at hnew
      · exact absurd hnew List.not_mem_nil
      · rename_i hencloses
        rw [if_neg hencloses]
        rcases List.mem_append.mp hnew with hnew | hnew
        · split at hnew
          · rename_i hvariable
            rw [if_pos hvariable]
            obtain ⟨old, hold, hP⟩ := h.exists_mem_declaredNames hnew
            exact ⟨old, List.mem_append_left _ hold, hP⟩
          · exact absurd hnew List.not_mem_nil
        · rw [Node.parts_respelled, List.flatMap_map] at hnew ⊢
          obtain ⟨c, hc, hnew⟩ := List.mem_flatMap.mp hnew
          obtain ⟨old, hold, hP⟩ :=
            ih c (Node.mem_children_of_mem_parts hc) (h.of_mem_parts hc) hnew
          exact ⟨old, List.mem_append_right _ (List.mem_flatMap.mpr ⟨c, hc, hold⟩), hP⟩

/-- A block that introduces the new name introduces an old one. -/
theorem exists_blockBinds (h : r.TracesTo s P new n)
    (hnew : blockBinds (n.respelled s) new = true) :
    ∃ old, blockBinds (n.respelled r) old = true ∧ P old := by
  have hstatements : ((n.respelled s).parts.any fun c =>
      (c.kind == .lexicalDeclaration && (declaredNames c).contains new)
        || (c.kind.isNamedDeclaration && c.ownName? == some new)) = true →
      ∃ old, ((n.respelled r).parts.any fun c =>
        (c.kind == .lexicalDeclaration && (declaredNames c).contains old)
          || (c.kind.isNamedDeclaration && c.ownName? == some old)) = true ∧ P old := by
    intro hnew
    rw [Node.parts_respelled, List.any_map] at hnew
    obtain ⟨c, hc, hnew⟩ := List.any_eq_true.mp hnew
    simp only [Function.comp_apply, Node.respelled_kind, Bool.or_eq_true, Bool.and_eq_true,
      List.contains_iff_mem, beq_iff_eq] at hnew
    obtain ⟨old, hP, hold⟩ : ∃ old, P old ∧
        (c.kind = .lexicalDeclaration ∧ old ∈ declaredNames (c.respelled r) ∨
          c.kind.isNamedDeclaration = true ∧ (c.respelled r).ownName? = some old) := by
      rcases hnew with ⟨hkind, hnew⟩ | ⟨hkind, hnew⟩
      · obtain ⟨old, hold, hP⟩ := (h.of_mem_parts hc).exists_mem_declaredNames hnew
        exact ⟨old, hP, Or.inl ⟨hkind, hold⟩⟩
      · obtain ⟨old, hold, hP⟩ := (h.of_mem_parts hc).exists_ownName? hnew
        exact ⟨old, hP, Or.inr ⟨hkind, hold⟩⟩
    refine ⟨old, List.any_eq_true.mpr ⟨c.respelled r, ?_, ?_⟩, hP⟩
    · rw [Node.parts_respelled]
      exact List.mem_map_of_mem hc
    · simpa using hold
  unfold Script.blockBinds at hnew ⊢
  rw [Node.respelled_kind] at hnew ⊢
  split at hnew
  iterate 4 exact hstatements hnew
  · -- the head of a loop
    rw [Node.part?_respelled] at hnew ⊢
    cases hpart : n.part? .initializer with
    | none =>
      rw [hpart] at hnew
      cases hnew
    | some first =>
      rw [hpart] at hnew
      simp only [Option.map_some, Node.respelled_kind, Bool.and_eq_true, List.contains_iff_mem]
        at hnew ⊢
      obtain ⟨old, hold, hP⟩ :=
        (h.of_mem_all (Node.mem_all_of_part? hpart)).exists_mem_declaredNames hnew.2
      exact ⟨old, ⟨hnew.1, hold⟩, hP⟩
  · -- a loop over the items of something
    rw [Node.part?_respelled] at hnew ⊢
    cases hpart : n.part? .kind with
    | none =>
      rw [hpart] at hnew
      cases hnew
    | some word =>
      have hrole : word.role = some .kind := by simpa using List.find?_some hpart
      rw [hpart] at hnew
      simp only [Option.map_some, Bool.and_eq_true, bne_iff_ne, List.contains_iff_mem] at hnew ⊢
      obtain ⟨old, hold, hP⟩ := h.exists_mem_namesOf hnew.2
      exact ⟨old, ⟨fun hvar => hnew.1 (h.keyword word (Node.mem_all_of_part? hpart) hrole hvar),
        hold⟩, hP⟩
  · simp only [List.contains_iff_mem] at hnew ⊢
    exact h.exists_mem_namesOf hnew
  · cases hnew

/-- A function that introduces the new name introduces an old one. -/
theorem exists_functionBinds (h : r.TracesTo s P new n)
    (hnew : functionBinds (n.respelled s) new = true) :
    ∃ old, functionBinds (n.respelled r) old = true ∧ P old := by
  unfold Script.functionBinds at hnew ⊢
  simp only [Node.respelled_kind, Bool.or_eq_true, Bool.and_eq_true, List.contains_iff_mem,
    beq_iff_eq] at hnew ⊢
  rcases hnew with ((hnew | hnew) | ⟨hkind, hnew⟩) | hnew
  · obtain ⟨old, hold, hP⟩ := h.exists_mem_namesOf hnew
    exact ⟨old, Or.inl (Or.inl (Or.inl hold)), hP⟩
  · obtain ⟨old, hold, hP⟩ := h.exists_mem_namesOf hnew
    exact ⟨old, Or.inl (Or.inl (Or.inr hold)), hP⟩
  · obtain ⟨old, hold, hP⟩ := h.exists_ownName? hnew
    exact ⟨old, Or.inl (Or.inr ⟨hkind, hold⟩), hP⟩
  · rw [Node.part?_respelled] at hnew ⊢
    cases hpart : n.part? .body with
    | none =>
      rw [hpart] at hnew
      cases hnew
    | some body =>
      have htraces := h.of_mem_all (Node.mem_all_of_part? hpart)
      rw [hpart] at hnew
      simp only [Option.map_some, Node.respelled_kind, Node.parts_respelled, List.flatMap_map,
        Bool.or_eq_true, Bool.and_eq_true, List.contains_iff_mem] at hnew ⊢
      obtain ⟨hblock, hnew | hnew⟩ := hnew
      · obtain ⟨c, hc, hnew⟩ := List.mem_flatMap.mp hnew
        obtain ⟨old, hold, hP⟩ := (htraces.of_mem_parts hc).exists_mem_hoistedNames hnew
        exact ⟨old, Or.inr ⟨hblock, Or.inl (List.mem_flatMap.mpr ⟨c, hc, hold⟩)⟩, hP⟩
      · obtain ⟨old, hold, hP⟩ := htraces.exists_blockBinds hnew
        exact ⟨old, Or.inr ⟨hblock, Or.inr hold⟩, hP⟩

/-- What introduces the new name in one respelling introduces an old one in the other. -/
theorem exists_rebinds (h : r.TracesTo s P new n) (hnew : rebinds (n.respelled s) new = true) :
    ∃ old, rebinds (n.respelled r) old = true ∧ P old := by
  unfold rebinds at hnew ⊢
  rw [Node.respelled_kind] at hnew ⊢
  split at hnew
  · rename_i hfunction
    simpa only [if_pos hfunction] using h.exists_functionBinds hnew
  · rename_i hblock
    simpa only [if_neg hblock] using h.exists_blockBinds hnew

end Respelling.TracesTo

/-- A new name stands for nothing but an old one, and what declares a variable stays what it is. -/
structure Respelling.Traces (r : Respelling) (old new : Text) (n : Node) : Prop where
  names : ∀ m ∈ n.all, (m.respelled r).text = new → m.text = old
  keyword : ∀ m ∈ n.all, m.text = Text.ofString "var" → (m.respelled r).text = Text.ofString "var"

section Traces

variable {r : Respelling} {old new : Text} {n m c : Node}

theorem Respelling.Traces.of_mem_all (h : r.Traces old new n) (hm : m ∈ n.all) :
    r.Traces old new m :=
  ⟨fun k hk => h.names k (Node.mem_all_trans hm hk),
    fun k hk => h.keyword k (Node.mem_all_trans hm hk)⟩

theorem Respelling.Traces.of_mem_children (h : r.Traces old new n) (hc : c ∈ n.children) :
    r.Traces old new c :=
  h.of_mem_all (Node.mem_all_of_mem_children hc (Node.mem_all_self c))

theorem Respelling.Traces.tracesTo (h : r.Traces old new n) :
    Respelling.same.TracesTo r (· = old) new n where
  names m hm hnew := by
    rw [Node.respelled_same]
    exact h.names m hm hnew
  keyword m hm _ hvar := by
    rw [Node.respelled_same] at hvar
    exact h.keyword m hm hvar

/-- What introduces the new name introduces the old one. -/
theorem rebinds_of_respelled (h : r.Traces old new n) (hnew : rebinds (n.respelled r) new = true) :
    rebinds n old = true := by
  obtain ⟨_, hold, rfl⟩ := h.tracesTo.exists_rebinds hnew
  rwa [Node.respelled_same] at hold

end Traces

/-! ## Where a name keeps its meaning -/

/-- A new name stands only where an old one keeps its meaning. -/
structure Respelling.Replaces (r : Respelling) (old new : Text) (n : Node) : Prop
    extends r.Traces old new n where
  token : ∀ m ∈ n.all, (m.respelled r).text = new → m.IsToken
  kept : ∀ m ∈ n.all, (m.respelled r).text = new → m ∈ kept old n

variable {r : Respelling} {old new : Text} {n m c : Node}

theorem Respelling.Replaces.of_mem_children (h : r.Replaces old new n) (hn : n.IsNested)
    (hc : c ∈ n.children) : r.Replaces old new c where
  toTraces := h.toTraces.of_mem_children hc
  token := fun m hm => h.token m (Node.mem_all_of_mem_children hc hm)
  kept := by
    intro m hm hnew
    have hmn := Node.mem_all_of_mem_children hc hm
    have htoken := h.token m hmn hnew
    have hkept := h.kept m hmn hnew
    rw [kept_eq] at hkept
    split at hkept
    · exact absurd hkept List.not_mem_nil
    · rcases List.mem_cons.mp hkept with rfl | hkept
      · rw [htoken.children] at hc
        exact absurd hc List.not_mem_nil
      · exact mem_kept_of_mem_flatMap hn hc hm htoken hkept

/-- Where the new name keeps its meaning, those nodes that show it are the ones that are found where
the old one keeps its meaning. -/
theorem filter_kept_respelled (h : r.Replaces old new n) (hn : n.IsNested) {p q : Node → Bool}
    (hp : ∀ m ∈ n.all, p (m.respelled r) = true → ∃ k ∈ m.all, (k.respelled r).text = new)
    (hpq : ∀ m ∈ kept old n, p (m.respelled r) = q m) :
    (kept new (n.respelled r)).filter p = ((kept old n).filter q).map (Node.respelled r) := by
  induction n using Node.induction with
  | step n ih =>
    by_cases hrebinds : rebinds n old = true
    · -- the old name has another meaning here, so the new one does not occur
      have hnone : kept old n = [] := by rw [kept_eq, if_pos hrebinds]
      rw [hnone, List.filter_nil, List.map_nil, List.filter_eq_nil_iff]
      intro x hx hpx
      have hx := kept_subset_all new _ hx
      rw [Node.all_respelled] at hx
      obtain ⟨m, hm, rfl⟩ := List.mem_map.mp hx
      obtain ⟨k, hk, hnew⟩ := hp m hm hpx
      have hkept := h.kept k (Node.mem_all_trans hm hk) hnew
      rw [hnone] at hkept
      exact absurd hkept List.not_mem_nil
    · have hkept : kept old n = n :: n.children.flatMap (kept old) := by
        rw [kept_eq, if_neg hrebinds]
      have hkept' : kept new (n.respelled r) =
          n.respelled r :: n.children.flatMap fun c => kept new (c.respelled r) := by
        rw [kept_eq, if_neg (mt (rebinds_of_respelled h.toTraces) hrebinds),
          Node.respelled_children, List.flatMap_map]
      have hself : p (n.respelled r) = q n := hpq n (by rw [hkept]; exact List.mem_cons_self)
      have hbelow : (n.children.flatMap fun c => kept new (c.respelled r)).filter p =
          ((n.children.flatMap (kept old)).filter q).map (Node.respelled r) := by
        rw [List.filter_flatMap, List.filter_flatMap, List.map_flatMap]
        refine List.flatMap_congr fun c hc => ?_
        refine ih c hc (h.of_mem_children hn hc) (hn.of_mem_children hc)
          (fun m hm => hp m (Node.mem_all_of_mem_children hc hm)) fun m hm => hpq m ?_
        rw [hkept]
        exact List.mem_cons_of_mem _ (List.mem_flatMap.mpr ⟨c, hc, hm⟩)
      rw [hkept, hkept', List.filter_cons, List.filter_cons, hself, hbelow]
      split <;> rfl

/-- The same below a root. -/
theorem filter_walk_respelled (h : ∀ c ∈ n.children, r.Replaces old new c) (hn : n.IsNested)
    {p q : Node → Bool}
    (hp : ∀ m : Node, p (m.respelled r) = true → ∃ k ∈ m.all, (k.respelled r).text = new)
    (hpq : ∀ m ∈ walk n old, p (m.respelled r) = q m) :
    (walk (n.respelled r) new).filter p = ((walk n old).filter q).map (Node.respelled r) := by
  rw [walk_eq] at hpq
  rw [walk_eq, walk_eq, Node.respelled_children, List.flatMap_map, List.filter_flatMap,
    List.filter_flatMap, List.map_flatMap]
  refine List.flatMap_congr fun c hc => ?_
  exact filter_kept_respelled (h c hc) (hn.of_mem_children hc) (fun m _ => hp m)
    fun m hm => hpq m (List.mem_flatMap.mpr ⟨c, hc, hm⟩)

/-- If the old name is replaced wherever it is referred to, the references to the new name are
those to the old one. -/
theorem references_respelled (h : ∀ c ∈ n.children, r.Replaces old new c) (hn : n.IsNested)
    (hreplaced : ∀ m ∈ references n old, (m.respelled r).text = new) :
    references (n.respelled r) new = (references n old).map (Node.respelled r) := by
  refine filter_walk_respelled h hn (fun m hm => ?_) fun m hm => ?_
  · have htext : (m.respelled r).text = new := by
      simp only [isReference, Bool.and_eq_true, beq_iff_eq] at hm
      exact hm.2
    exact ⟨m, m.mem_all_self, htext⟩
  · have htext : (m.respelled r).text = new → m.text = old := by
      rw [walk_eq] at hm
      obtain ⟨c, hc, hm⟩ := List.mem_flatMap.mp hm
      exact (h c hc).names m (kept_subset_all old c hm)
    rw [Bool.eq_iff_iff]
    refine ⟨fun hnew => ?_, fun hold => ?_⟩
    · simp only [isReference, Node.respelled_kind, Bool.and_eq_true, beq_iff_eq] at hnew ⊢
      exact ⟨hnew.1, htext hnew.2⟩
    · have hnew := hreplaced m (List.mem_filter.mpr ⟨hm, hold⟩)
      simp only [isReference, Node.respelled_kind, Bool.and_eq_true, beq_iff_eq] at hold ⊢
      exact ⟨hold.1, hnew⟩

theorem Node.target?_respelled (n : Node) :
    (n.respelled r).target? = n.target?.map (Node.respelled r) := by
  unfold Node.target?
  rw [Node.respelled_kind]
  split
  · exact n.part?_respelled r _
  · exact n.part?_respelled r _
  · exact n.part?_respelled r _
  · split
    · exact n.part?_respelled r _
    · rfl

theorem Node.mem_children_of_target? {t : Node} (h : n.target? = some t) : t ∈ n.children := by
  unfold Node.target? at h
  split at h
  · exact Node.mem_children_of_part? h
  · exact Node.mem_children_of_part? h
  · exact Node.mem_children_of_part? h
  · split at h
    · exact Node.mem_children_of_part? h
    · cases h

theorem Node.mem_all_of_target? {t : Node} (h : n.target? = some t) : t ∈ n.all :=
  Node.mem_all_of_mem_children (Node.mem_children_of_target? h) t.mem_all_self

theorem firstReassignment_eq_none_iff {name : Text} :
    firstReassignment n name = none ↔ bindingSites n name = [] := by
  rw [firstReassignment, List.min?_eq_none_iff, List.map_eq_nil_iff]

/-- If the old name is never given a value, the new one is not either. -/
theorem firstReassignment_respelled (h : ∀ c ∈ n.children, r.Replaces old new c) (hn : n.IsNested)
    (hold : firstReassignment n old = none) : firstReassignment (n.respelled r) new = none := by
  rw [firstReassignment_eq_none_iff] at hold ⊢
  have htarget : ∀ m : Node, (bindingTarget? (m.respelled r) new).isSome = true →
      ∃ t, m.target? = some t ∧ t.kind = .identifier ∧ (t.respelled r).text = new := by
    intro m hm
    obtain ⟨t', ht'⟩ := Option.isSome_iff_exists.mp hm
    rw [bindingTarget?, Node.target?_respelled, Option.filter_eq_some_iff] at ht'
    obtain ⟨ht', hname⟩ := ht'
    obtain ⟨t, ht, rfl⟩ := Option.map_eq_some_iff.mp ht'
    simp only [Node.respelled_kind, Bool.and_eq_true, beq_iff_eq] at hname
    exact ⟨t, ht, hname⟩
  have hsites : bindingSites (n.respelled r) new = (bindingSites n old).map (Node.respelled r) := by
    refine filter_walk_respelled h hn (fun m hm => ?_) fun m hm => ?_
    · obtain ⟨t, ht, -, hnew⟩ := htarget m hm
      exact ⟨t, Node.mem_all_of_target? ht, hnew⟩
    · have hnot : ¬(bindingTarget? m old).isSome = true := fun hm' => by
        have hmem : m ∈ bindingSites n old := List.mem_filter.mpr ⟨hm, hm'⟩
        rw [hold] at hmem
        exact absurd hmem List.not_mem_nil
      rw [Bool.eq_iff_iff]
      refine ⟨fun hnew => ?_, fun hm' => absurd hm' hnot⟩
      obtain ⟨t, ht, hkind, hnew⟩ := htarget m hnew
      rw [walk_eq] at hm
      obtain ⟨c, hc, hm⟩ := List.mem_flatMap.mp hm
      have htc := Node.mem_all_trans (kept_subset_all old c hm) (Node.mem_all_of_target? ht)
      have htext := (h c hc).names t htc hnew
      simp [bindingTarget?, ht, hkind, htext]
  rw [hsites, hold, List.map_nil]

end Debundle.Script
