import Debundle.Proofs.Data.Tables
import Debundle.Proofs.Exports.Coverage
import Debundle.Proofs.Factory.Invariance

/-!
# What a restored name denotes

A parameter gets its name back wherever it is referred to, and the scopes of the old name settle
where that is.  The scopes of the new name are not looked at.  If one of them is around a reference,
the reference is caught there: it does not denote the parameter any more, but a variable of the
module that has the name of the parameter by convention.

* `Factory.declares`: the names that a body declares.
* `Factory.IsCaptureFree`: no scope around a reference introduces a name.
* `Factory.restoring`: the tree with the names by convention.
* `Factory.isScoped_restoring`: a name changes only where it keeps its meaning.
* `Factory.mem_references_restoring_iff`: what refers to a restored name.
* `restore_isCaptureFree_iff`: a restored reference denotes the parameter if and only if no scope
  of the new name is around it.
-/

namespace Debundle

open Script

namespace Factory

/-! ## Scopes of a name -/

/-- Whether a body declares a variable: for the whole function, or directly in the body. -/
def declares (body : Node) (name : Text) : Bool :=
  (body.parts.flatMap hoistedNames).contains name || blockBinds body name

/-- Nothing between a body and a reference in it gives a name a meaning, and neither does the
body. -/
structure IsCaptureFree (body ref : Node) (name : Text) : Prop where
  scopes : ∀ scope ∈ body.descendants, ref ∈ scope.descendants → rebinds scope name = false
  body : declares body name = false

instance (body ref : Node) (name : Text) : Decidable (IsCaptureFree body ref name) :=
  decidable_of_iff ((∀ scope ∈ body.descendants, ref ∈ scope.descendants →
      rebinds scope name = false) ∧ declares body name = false)
    ⟨fun ⟨hscopes, hbody⟩ => ⟨hscopes, hbody⟩, fun h => ⟨h.scopes, h.body⟩⟩

/-- A function without parameters that has the body. -/
def functionOf (body : Node) : Node := .branch .functionExpression body.start body.stop [body]

/-- A script that consists of such a function. -/
def scriptOf (body : Node) : Node := .branch .program body.start body.stop [functionOf body]

/-! ## The tree with the restored names -/

/-- The new name of a reference to a parameter, if it gets one. -/
def newName? (function body n : Node) : Option Text :=
  ((renames function).find? fun e => decide (n ∈ selected body e.1)).map Prod.snd

/-- The names by convention for the references that get them; the offsets are those in the
factory. -/
def restoring (function body : Node) : Respelling := ⟨newName? function body, id⟩

section Body

variable {body n : Node} {name : Text}

theorem part?_functionOf (hrole : body.role = some .body) (role : Role) :
    (functionOf body).part? role = if role = .body then some body else none := by
  unfold functionOf Node.branch Node.part?
  rw [List.find?_singleton, hrole]
  by_cases h : role = .body
  · rw [h]
    rfl
  · rw [if_neg h, if_neg]
    simpa using Ne.symm h

/-- The function introduces what its body declares. -/
theorem rebinds_functionOf (hkind : body.kind = .statementBlock) (hrole : body.role = some .body)
    (name : Text) : rebinds (functionOf body) name = declares body name := by
  have hnames : ∀ role ≠ .body, (functionOf body).namesOf role = [] := by
    intro role hne
    rw [Node.namesOf, part?_functionOf hrole, if_neg hne]
  have hfunction : (functionOf body).kind.isFunctionLike = true := rfl
  rw [rebinds, if_pos hfunction, functionBinds, hnames _ (by decide), hnames _ (by decide),
    Node.ownName?, part?_functionOf hrole, part?_functionOf hrole]
  simp [hkind, declares]

/-- In a script that consists of the function, a name is referred to where it is in the body,
unless the body declares it. -/
theorem mem_references_scriptOf_iff (hkind : body.kind = .statementBlock)
    (hrole : body.role = some .body) :
    n ∈ references (scriptOf body) name ↔
      declares body name = false ∧ n ∈ references body name := by
  have hscript : walk (scriptOf body) name = kept name (functionOf body) := by
    rw [walk_eq]
    exact List.flatMap_singleton _ _
  rw [mem_references_iff, mem_references_iff, hscript, kept_eq, rebinds_functionOf hkind hrole]
  by_cases hdeclares : declares body name = true
  · simp [hdeclares]
  · have hblock : rebinds body name = false := by
      have hnot : body.kind.isFunctionLike = false := by
        rw [hkind]
        rfl
      rw [declares, Bool.or_eq_true, not_or] at hdeclares
      rw [rebinds, hnot]
      exact Bool.eq_false_iff.mpr hdeclares.2
    have hbody : (functionOf body).children.flatMap (kept name) = body :: walk body name := by
      rw [walk_eq]
      show [body].flatMap (kept name) = _
      rw [List.flatMap_singleton, kept_eq, hblock, if_neg Bool.false_ne_true]
    rw [if_neg hdeclares, hbody, List.mem_cons, List.mem_cons,
      and_iff_right (Bool.eq_false_iff.mpr hdeclares)]
    -- neither the function nor its body is a reference
    refine and_congr_left fun hreference => ⟨fun hn => ?_, fun hn => Or.inr (Or.inr hn)⟩
    rcases hn with rfl | rfl | hn
    · obtain ⟨hkind' | hkind', -⟩ := hreference <;> cases hkind'
    · rw [hkind] at hreference
      obtain ⟨hkind' | hkind', -⟩ := hreference <;> cases hkind'
    · exact hn

end Body

/-! ## The new names -/

variable {source : Source} {function body n ref : Node} {old new name : Text}

/-- No parameter is renamed twice. -/
theorem nodup_keys_renames (function : Node) : (Table.keys (renames function)).Nodup := by
  unfold renames
  refine List.foldlRecOn (motive := fun found : Table Text => found.keys.Nodup) _ _
    List.nodup_nil fun found hfound pair _ => ?_
  simp only
  split
  · exact Table.nodup_keys_insert hfound _ _
  · exact hfound

theorem text_of_mem_selected (hn : n ∈ selected body old) : n.text = old :=
  (mem_references_iff.mp (selected_subset body old hn)).2.2

theorem exists_of_newName? (h : newName? function body n = some new) :
    ∃ old, (old, new) ∈ renames function ∧ n ∈ selected body old := by
  obtain ⟨⟨old, _⟩, hfound, rfl⟩ := Option.map_eq_some_iff.mp h
  exact ⟨old, List.mem_of_find?_eq_some hfound, by simpa using List.find?_some hfound⟩

/-- A selected reference gets the new name of its parameter. -/
theorem newName?_of_mem_selected (h : (old, new) ∈ renames function) (hn : n ∈ selected body old) :
    newName? function body n = some new := by
  have hsome : (newName? function body n).isSome = true := by
    rw [newName?, Option.isSome_map, List.find?_isSome]
    exact ⟨(old, new), h, by simpa using hn⟩
  obtain ⟨new', hnew'⟩ := Option.isSome_iff_exists.mp hsome
  obtain ⟨old', h', hn'⟩ := exists_of_newName? hnew'
  have hold : old' = old := (text_of_mem_selected hn').symm.trans (text_of_mem_selected hn)
  have hnodup := nodup_keys_renames function
  rw [hold, Table.mem_iff_get? hnodup] at h'
  rw [Table.mem_iff_get? hnodup, h'] at h
  rw [hnew', Option.some.inj h]

theorem text_restoring : (n.respelled (restoring function body)).text =
    (newName? function body n).getD n.text :=
  n.respelled_text _

theorem newName?_eq_none (hkind : n.kind.isNameLike = false) : newName? function body n = none := by
  rw [Option.eq_none_iff_forall_ne_some]
  intro new hnew
  obtain ⟨old, -, hn⟩ := exists_of_newName? hnew
  rw [isNameLike_of_mem_references (selected_subset body old hn)] at hkind
  cases hkind

/-- What changes is a reference to a parameter. -/
theorem exists_of_text_restoring_ne
    (h : (n.respelled (restoring function body)).text ≠ n.text) :
    n ∈ references body n.text ∧ n.text ∈ Table.keys (renames function) := by
  rw [text_restoring] at h
  cases hnew : newName? function body n with
  | none =>
    rw [hnew] at h
    exact absurd rfl h
  | some new =>
    obtain ⟨old, hrename, hn⟩ := exists_of_newName? hnew
    rw [text_of_mem_selected hn]
    exact ⟨selected_subset body old hn, List.mem_map_of_mem hrename⟩

theorem functionOf_restoring (function body : Node) :
    (functionOf body).respelled (restoring function body) =
      functionOf (body.respelled (restoring function body)) := by
  have hnone : newName? function body (functionOf body) = none := newName?_eq_none rfl
  conv_rhs => rw [functionOf, Node.branch, Node.respelled_start, Node.respelled_stop]
  show Node.mk _ _ _ _ ((newName? function body (functionOf body)).getD []) _ = _
  rw [hnone]
  rfl

/-- The word of a loop is not renamed. -/
theorem text_restoring_of_role (hregular : source.IsRegular) (hn : n ∈ source.root.all)
    (hrole : n.role = some .kind) : (n.respelled (restoring function body)).text = n.text := by
  rw [text_restoring, newName?_eq_none, Option.getD_none]
  rw [hregular.keyword n hn hrole]
  rfl

/-- A name changes only where it keeps its meaning. -/
theorem isScoped_restoring (hregular : source.IsRegular) (hbody : body ∈ source.root.all)
    (function : Node) : (restoring function body).IsScoped body where
  changed n _ hchanged := by
    obtain ⟨href, -⟩ := exists_of_text_restoring_ne hchanged
    exact ⟨hregular.isToken_of_mem_references hbody href, (mem_references_iff.mp href).1⟩
  keyword n hn hrole := text_restoring_of_role hregular
    (Node.mem_all_trans hbody (Node.mem_all_of_mem_descendants hn)) hrole

/-- The same in a script that consists of the body as a function, unless the body declares a
parameter again. -/
theorem isScoped_restoring_scriptOf (hregular : source.IsRegular) (hbody : body ∈ source.root.all)
    (hkind : body.kind = .statementBlock) (hrole : body.role = some .body)
    (hfree : ∀ old ∈ Table.keys (renames function), declares body old = false) :
    (restoring function body).IsScoped (scriptOf body) where
  changed n _ hchanged := by
    obtain ⟨href, hkey⟩ := exists_of_text_restoring_ne hchanged
    have hscript := (mem_references_scriptOf_iff hkind hrole).mpr ⟨hfree _ hkey, href⟩
    exact ⟨hregular.isToken_of_mem_references hbody href, (mem_references_iff.mp hscript).1⟩
  keyword n hn hrole' := by
    obtain ⟨c, hc, hn⟩ := List.mem_flatMap.mp hn
    rw [List.mem_singleton.mp hc, Node.all_eq] at hn
    rcases List.mem_cons.mp hn with rfl | hn
    · cases hrole'
    · obtain ⟨d, hd, hn⟩ := List.mem_flatMap.mp hn
      rw [List.mem_singleton.mp hd] at hn
      exact text_restoring_of_role hregular (Node.mem_all_trans hbody hn) hrole'

/-- A body declares with the new names what it declared before, unless it declares a parameter
again. -/
theorem declares_restoring (hregular : source.IsRegular) (hbody : body ∈ source.root.all)
    (hkind : body.kind = .statementBlock) (hrole : body.role = some .body)
    (hfree : ∀ old ∈ Table.keys (renames function), declares body old = false) (name : Text) :
    declares (body.respelled (restoring function body)) name = declares body name := by
  have hscoped := isScoped_restoring_scriptOf hregular hbody hkind hrole hfree
  have hnested : (scriptOf body).IsNested :=
    ((hregular.nested.of_mem_all hbody).around .functionExpression).around .program
  have hmem : functionOf body ∈ (scriptOf body).descendants :=
    List.mem_flatMap.mpr ⟨_, List.mem_singleton_self _, Node.mem_all_self _⟩
  rw [← rebinds_functionOf hkind hrole, ← hscoped.rebinds_respelled hnested hmem,
    functionOf_restoring, rebinds_functionOf (by rwa [Node.respelled_kind])
      (by rwa [Node.respelled_role])]

/-- A reference is free of capture if and only if the name keeps its meaning there and is not
declared in the body. -/
theorem isCaptureFree_iff (hregular : source.IsRegular) (hbody : body ∈ source.root.all)
    (href : ref ∈ references body old) :
    IsCaptureFree body ref name ↔ declares body name = false ∧ ref ∈ walk body name := by
  have hnested := hregular.nested.of_mem_all hbody
  have htoken := hregular.isToken_of_mem_references hbody href
  obtain ⟨hwalk, hkind, -⟩ := mem_references_iff.mp href
  have hbelow := ((mem_walk_iff hnested htoken).mp hwalk).1
  rw [mem_walk_iff_of_isToken hnested hbelow htoken hkind]
  exact ⟨fun h => ⟨h.body, h.scopes⟩, fun ⟨hdeclares, hscopes⟩ => ⟨hscopes, hdeclares⟩⟩

/-- A renamed reference refers to the new name if and only if that keeps its meaning there. -/
theorem mem_references_restoring_iff (hregular : source.IsRegular) (hbody : body ∈ source.root.all)
    (hrename : (old, new) ∈ renames function) (href : ref ∈ selected body old) :
    ref.respelled (restoring function body) ∈
        references (body.respelled (restoring function body)) new ↔ ref ∈ walk body new := by
  have hnested := hregular.nested.of_mem_all hbody
  have hreference := selected_subset body old href
  have hmem := mem_all_of_mem_references hreference
  have htoken := hregular.isToken_of_mem_references hbody hreference
  have hinj : ∀ m ∈ body.all, m.respelled (restoring function body) =
      ref.respelled (restoring function body) → m = ref := by
    intro m hm heq
    have hspan := congrArg Node.span heq
    have hchildren := congrArg Node.children heq
    rw [Node.span_respelled, Node.span_respelled] at hspan
    rw [Node.respelled_children, Node.respelled_children, htoken.children, List.map_nil,
      List.map_eq_nil_iff] at hchildren
    obtain ⟨hstart, hstop⟩ : m.start = ref.start ∧ m.stop = ref.stop := Prod.mk.inj hspan
    refine hnested.eq_of_span_eq hm hmem ⟨hchildren, ?_⟩ htoken hspan
    rw [hstart, hstop]
    exact htoken.start_lt_stop
  rw [(isScoped_restoring hregular hbody function).mem_references_respelled_iff hnested
    fun _ => hinj]
  refine and_iff_left ⟨(mem_references_iff.mp hreference).2.1, ?_⟩
  rw [text_restoring, newName?_of_mem_selected hrename href, Option.getD_some]

end Factory

/-- In a factory that is accepted, a renamed reference is free of capture if and only if the body
does not declare the new name and, in the body with the names by convention, the reference refers to
the name as the body has it.  If the body declares none of its parameters again, this says that in
the restored module, taken as a function without parameters, the reference refers to what the name
means around the module. -/
theorem restore_isCaptureFree_iff (code : Text) (restored : Restored)
    (h : restore code = .ok restored) :
    ∃ source function body, Source.parse ("(" ++ code ++ ")") = .ok source ∧
      Factory.read source = .ok (function, body) ∧
      restored.renamed = parameterRenames function body ∧
      (source.IsRegular → ∀ r ∈ restored.renamed, ∀ ref ∈ r.uses,
        (Factory.IsCaptureFree body ref r.new ↔ Factory.declares body r.new = false ∧
          ref.respelled (Factory.restoring function body) ∈
            references (body.respelled (Factory.restoring function body)) r.new) ∧
        ((∀ q ∈ restored.renamed, Factory.declares body q.old = false) →
          (Factory.IsCaptureFree body ref r.new ↔
            ref.respelled (Factory.restoring function body) ∈ references
              (Factory.scriptOf (body.respelled (Factory.restoring function body))) r.new))) := by
  obtain ⟨source, function, body, hparse, hread⟩ := exists_of_restore_eq_ok h
  have hrenamed := renamed_of_restore_eq_ok hparse hread h
  refine ⟨source, function, body, hparse, hread, hrenamed, fun hregular r hr ref href => ?_⟩
  obtain ⟨hfunction, hpart, hkind⟩ := Factory.mem_all_of_read hread
  have hbody := Node.mem_all_trans hfunction (Node.mem_all_of_part? hpart)
  have hrole : body.role = some .body := by simpa using List.find?_some hpart
  rw [hrenamed] at hr ⊢
  obtain ⟨⟨old, new⟩, hrename, rfl⟩ := List.mem_map.mp hr
  have hfree : Factory.IsCaptureFree body ref new ↔ Factory.declares body new = false ∧
      ref.respelled (Factory.restoring function body) ∈
        references (body.respelled (Factory.restoring function body)) new := by
    rw [Factory.mem_references_restoring_iff hregular hbody hrename href]
    exact Factory.isCaptureFree_iff hregular hbody (Factory.selected_subset body old href)
  refine ⟨hfree, fun hdeclares => hfree.trans ?_⟩
  rw [Factory.mem_references_scriptOf_iff (by rwa [Node.respelled_kind])
    (by rwa [Node.respelled_role]), Factory.declares_restoring hregular hbody hkind hrole]
  intro key hkey
  obtain ⟨e, he, rfl⟩ := List.mem_map.mp hkey
  exact hdeclares _ (List.mem_map_of_mem he)

/-- A factory in which another function has a parameter called `require`. -/
def innerRequire : Text :=
  "function(e,t)\x7bvar n=e(1);t.x=function(require)\x7breturn require(n)\x7d\x7d"

/-- A factory whose parameter is used inside a function with a parameter called `require`. -/
def usedInside : Text := "function(e)\x7bfunction f(require)\x7breturn e\x7d\x7d"

set_option maxRecDepth 100000 in
/-- A reference outside of the function with the parameter denotes the module's `require`. -/
theorem innerRequire_isCaptureFree :
    ∃ restored source function body, restore innerRequire = .ok restored ∧
      Source.parse ("(" ++ innerRequire ++ ")") = .ok source ∧
      Factory.read source = .ok (function, body) ∧ source.IsRegular ∧
      ∃ r ∈ restored.renamed, ∃ ref ∈ r.uses, r.new = Text.ofString "require" ∧
        Factory.IsCaptureFree body ref r.new ∧
        ref.respelled (Factory.restoring function body) ∈ references
          (Factory.scriptOf (body.respelled (Factory.restoring function body))) r.new := by
  have h : ((Source.parse ("(" ++ innerRequire ++ ")")).toOption.any fun source =>
      (Factory.read source).toOption.any fun (found : Node × Node) => decide (source.IsRegular ∧
        (∀ q ∈ parameterRenames found.1 found.2, Factory.declares found.2 q.old = false) ∧
        ∃ r ∈ parameterRenames found.1 found.2, ∃ ref ∈ r.uses,
          r.new = Text.ofString "require" ∧ Factory.IsCaptureFree found.2 ref r.new)) = true := by
    decide +kernel
  obtain ⟨source, hparse, h⟩ := exists_of_toOption_any h
  obtain ⟨⟨function, body⟩, hread, h⟩ := exists_of_toOption_any h
  obtain ⟨hregular, hdeclares, r, hr, ref, href, hnew, hfree⟩ := of_decide_eq_true h
  obtain ⟨restored, -, hrestored⟩ := exists_restore_eq_ok hparse hread
  obtain ⟨source', function', body', hparse', hread', -, hall⟩ :=
    restore_isCaptureFree_iff innerRequire restored hrestored
  obtain rfl : source = source' := Except.ok.inj (hparse.symm.trans hparse')
  obtain ⟨rfl, rfl⟩ := Prod.mk.inj (Except.ok.inj (hread.symm.trans hread'))
  rw [← renamed_of_restore_eq_ok hparse hread hrestored] at hdeclares hr
  exact ⟨restored, source, function, body, hrestored, hparse, hread, hregular, r, hr, ref, href,
    hnew, hfree, ((hall hregular r hr ref href).2 hdeclares).mp hfree⟩

set_option maxRecDepth 100000 in
/-- A reference inside of a function with such a parameter is caught by it. -/
theorem usedInside_not_isCaptureFree :
    ¬∀ (code : Text) (restored : Restored) (source : Source) (function body : Node),
      restore code = .ok restored → Source.parse ("(" ++ code ++ ")") = .ok source →
        Factory.read source = .ok (function, body) → ∀ r ∈ restored.renamed, ∀ ref ∈ r.uses,
          Factory.IsCaptureFree body ref r.new := by
  intro hall
  have h : ((Source.parse ("(" ++ usedInside ++ ")")).toOption.any fun source =>
      (Factory.read source).toOption.any fun (found : Node × Node) =>
        decide (¬∀ r ∈ parameterRenames found.1 found.2, ∀ ref ∈ r.uses,
          Factory.IsCaptureFree found.2 ref r.new)) = true := by
    decide +kernel
  obtain ⟨source, hparse, h⟩ := exists_of_toOption_any h
  obtain ⟨⟨function, body⟩, hread, h⟩ := exists_of_toOption_any h
  obtain ⟨restored, -, hrestored⟩ := exists_restore_eq_ok hparse hread
  rw [← renamed_of_restore_eq_ok hparse hread hrestored] at h
  exact of_decide_eq_true h (hall usedInside restored source function body hrestored hparse hread)

end Debundle
