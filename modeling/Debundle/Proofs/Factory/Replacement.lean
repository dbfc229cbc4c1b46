import Debundle.Proofs.Factory.Capture
import Debundle.Proofs.Factory.Division

/-!
# What is replaced in a restored module

All references that are renamed stand in statements, so each of them is in one piece of the body.
They are names, so they do not overlap, and when they are sorted, none of them hides another one.
So each of them is replaced, in its piece, and what stands between them stays.

* `Node.IsOrderly`: what is expected of the tree of a body.
* `RenamedUse`: a reference with its new name.
* `insideOne_of_mem_usesOf`, `pairwise_usesOf`: where the references stand.
* `replaced`: a piece with its references replaced.
* `restore_replaces`: a restored module consists of such pieces, and every reference is replaced in
  one of them.
-/

namespace Debundle

open Script

/-! ## Trees of bodies -/

/-- Whether no name stands inside nodes of a kind. -/
def Script.Kind.isWordless (k : Kind) : Bool := k.isExtra || k == .keyword || k == .stringLiteral

/-- In the tree of a body everything is nested, names are leaves that are not empty, and no name
stands inside a comment, a keyword or a string. -/
structure Script.Node.IsOrderly (n : Node) : Prop where
  nested : n.IsNested
  name : ∀ m ∈ n.all, m.kind.isNameLike = true → m.IsToken
  wordless : ∀ m ∈ n.all, m.kind.isWordless = true → ∀ k ∈ m.all, k.kind.isNameLike = false

instance (n : Node) : Decidable n.IsOrderly :=
  decidable_of_iff (n.IsNested ∧
      (∀ m ∈ n.all, m.kind.isNameLike = true → m.IsToken) ∧
      ∀ m ∈ n.all, m.kind.isWordless = true → ∀ k ∈ m.all, k.kind.isNameLike = false)
    ⟨fun ⟨hnested, hname, hwordless⟩ => ⟨hnested, hname, hwordless⟩,
      fun h => ⟨h.nested, h.name, h.wordless⟩⟩

/-! ## Renamed references -/

/-- A reference that is renamed, with its new name. -/
structure RenamedUse where
  /-- The reference. -/
  node : Node
  /-- Its new name. -/
  new : Text

namespace RenamedUse

/-- What stands in place of the reference; a property in short form keeps its key. -/
def spelling (u : RenamedUse) : Text :=
  if u.node.kind = .shorthandPropertyIdentifier then u.node.text ++ ": " ++ u.new else u.new

/-- The edit that replaces the reference. -/
def edit (u : RenamedUse) : Edit := renameEdit u.new u.node

theorem edit_text (u : RenamedUse) : u.edit.text = u.spelling := by
  unfold edit renameEdit spelling
  simp only [beq_iff_eq]

end RenamedUse

/-- The references of renamed parameters. -/
def usesOf (renamed : List ParameterRename) : List RenamedUse :=
  renamed.flatMap fun r => r.uses.map fun n => ⟨n, r.new⟩

namespace Factory

variable {body function n c : Node} {name : Text} {u v : RenamedUse}

theorem map_edit_usesOf (function body : Node) :
    (usesOf (parameterRenames function body)).map RenamedUse.edit = factoryEdits function body := by
  rw [usesOf, factoryEdits, List.map_flatMap]
  refine List.flatMap_congr fun r _ => ?_
  rw [List.map_map]
  rfl

theorem exists_of_mem_usesOf (h : u ∈ usesOf (parameterRenames function body)) :
    ∃ old, (old, u.new) ∈ renames function ∧ u.node ∈ selected body old := by
  obtain ⟨r, hr, hu⟩ := List.mem_flatMap.mp h
  obtain ⟨⟨old, new⟩, hrename, rfl⟩ := List.mem_map.mp hr
  obtain ⟨n, hn, rfl⟩ := List.mem_map.mp hu
  exact ⟨old, hrename, hn⟩

/-! ## Where they stand -/

theorem isWordless_of_not_isPart (h : c.isPart = false) : c.kind.isWordless = true := by
  simp only [Node.isPart, Bool.and_eq_false_iff, Bool.not_eq_false', bne_eq_false_iff_eq] at h
  simp only [Kind.isWordless, Bool.or_eq_true, beq_iff_eq]
  exact Or.inl h

variable (hbody : body.IsOrderly)

include hbody

theorem isWordless_eq_false (hc : c ∈ body.all) (hn : n ∈ c.all)
    (hname : n.kind.isNameLike = true) : c.kind.isWordless = false := by
  by_contra hwordless
  rw [hbody.wordless c hc (eq_true_of_ne_false hwordless) n hn] at hname
  cases hname

/-- A child in which there is a name is a part. -/
theorem isPart_of_mem_all (hc : c ∈ body.all) (hn : n ∈ c.all) (hname : n.kind.isNameLike = true) :
    c.isPart = true := by
  by_contra hpart
  have hwordless := isWordless_of_not_isPart (Bool.eq_false_iff.mpr hpart)
  rw [isWordless_eq_false hbody hc hn hname] at hwordless
  cases hwordless

/-- No name stands in a directive. -/
theorem isDirective_eq_false (hc : c ∈ body.all) (hn : n ∈ c.all)
    (hname : n.kind.isNameLike = true) : c.isDirective = false := by
  by_contra hdirective
  rw [Bool.not_eq_false, Node.isDirective, Bool.and_eq_true, beq_iff_eq] at hdirective
  obtain ⟨hkind, hparts⟩ := hdirective
  rw [Node.all_eq] at hn
  rcases List.mem_cons.mp hn with rfl | hn
  · rw [hkind] at hname
    cases hname
  · obtain ⟨d, hd, hn⟩ := List.mem_flatMap.mp hn
    have hdbody := Node.mem_all_trans hc (Node.mem_all_of_mem_children hd d.mem_all_self)
    have hpart : d ∈ c.parts :=
      List.mem_filter.mpr ⟨hd, isPart_of_mem_all hbody hdbody hn hname⟩
    split at hparts
    · rename_i inner hinner
      rw [hinner] at hpart
      have hwordless := isWordless_eq_false hbody hdbody hn hname
      rw [List.mem_singleton.mp hpart, Kind.isWordless, hparts, Bool.or_true] at hwordless
      cases hwordless
    · cases hparts

/-- A reference stands in a statement behind the directives. -/
theorem exists_statement_of_mem_references (hn : n ∈ references body name) :
    ∃ c ∈ body.bodyStatements, n ∈ c.all := by
  have hname := isNameLike_of_mem_references hn
  have hwalk := (mem_references_iff.mp hn).1
  rw [walk_eq] at hwalk
  obtain ⟨c, hc, hkept⟩ := List.mem_flatMap.mp hwalk
  have hnc := kept_subset_all name c hkept
  have hcall := Node.mem_all_of_mem_children hc c.mem_all_self
  have hparts : c ∈ body.parts := List.mem_filter.mpr ⟨hc, isPart_of_mem_all hbody hcall hnc hname⟩
  rw [← List.takeWhile_append_dropWhile (p := Node.isDirective) (l := body.parts)] at hparts
  refine ⟨c, (List.mem_append.mp hparts).resolve_left fun hmem => ?_, hnc⟩
  have hdirective := List.all_eq_true.mp List.all_takeWhile c hmem
  rw [isDirective_eq_false hbody hcall hnc hname] at hdirective
  cases hdirective

theorem isToken_of_mem_selected {old : Text} (hn : n ∈ selected body old) :
    n ∈ body.all ∧ n.IsToken := by
  have href := selected_subset body old hn
  have hmem := mem_all_of_mem_references href
  exact ⟨hmem, hbody.name n hmem (isNameLike_of_mem_references href)⟩

theorem statementSpans_divides_of_isOrderly : Divides (statementSpans body) body :=
  statementSpans_divides (hbody.nested _ body.mem_all_self) fun c hc =>
    (hbody.nested.of_mem_children hc c c.mem_all_self).start_le_stop

/-- Each renamed reference stands in one piece of the body. -/
theorem insideOne_of_mem_usesOf (hu : u ∈ usesOf (parameterRenames function body)) :
    InsideOne (statementSpans body) u.node.span := by
  obtain ⟨old, -, hselected⟩ := exists_of_mem_usesOf hu
  obtain ⟨c, hc, hn⟩ :=
    exists_statement_of_mem_references hbody (selected_subset body old hselected)
  have hchild := Node.mem_children_of_mem_parts (mem_parts_of_mem_bodyStatements hc)
  exact ((statementSpans_divides_of_isOrderly hbody).statement c hc).of_inside
    ((hbody.nested.of_mem_children hchild).within hn)

/-- The references that are renamed with one parameter stand one behind the other. -/
theorem pairwise_selected (old : Text) :
    (selected body old).Pairwise fun n m => n.stop ≤ m.start := by
  have hreferences := pairwise_references hbody.nested hbody.name old
  unfold selected
  split
  · exact hreferences
  · exact hreferences.filter _

/-- Renamed references do not overlap, whichever parameters they refer to. -/
theorem pairwise_usesOf (function : Node) :
    (usesOf (parameterRenames function body)).Pairwise fun u v =>
      u.node.stop ≤ v.node.start ∨ v.node.stop ≤ u.node.start := by
  have hnodup : (renames function).Pairwise fun e f => e.1 ≠ f.1 :=
    List.pairwise_map.mp (nodup_keys_renames function)
  rw [usesOf, List.pairwise_flatMap, parameterRenames, List.forall_mem_map, List.pairwise_map]
  refine ⟨fun e _ => List.pairwise_map.mpr ((pairwise_selected hbody e.1).imp Or.inl), ?_⟩
  refine (List.Pairwise.and_mem.mp hnodup).imp ?_
  rintro ⟨old, new⟩ ⟨old', new'⟩ ⟨he, he', hne⟩ u hu v hv
  obtain ⟨n, hn, rfl⟩ := List.mem_map.mp hu
  obtain ⟨m, hm, rfl⟩ := List.mem_map.mp hv
  have hn' := isToken_of_mem_selected hbody hn
  have hm' := isToken_of_mem_selected hbody hm
  refine (hbody.nested.eq_or_apart hn'.1 hm'.1 hn'.2 hm'.2).resolve_left ?_
  rintro rfl
  exact hne ((text_of_mem_selected hn).symm.trans (text_of_mem_selected hm))

end Factory

/-! ## Replacing them -/

open scoped List in
/-- Every item is in exactly one of the shares into which it is sorted by a property. -/
theorem flatMap_filter_perm {α β : Type} {p : β → α → Bool} {shares : List β} {xs : List α}
    (h : ∀ x ∈ xs, ∃ before s after, shares = before ++ s :: after ∧ p s x = true ∧
      ∀ t ∈ before ++ after, p t x = false) :
    (shares.flatMap fun s => xs.filter (p s)) ~ xs := by
  induction xs with
  | nil => simp
  | cons x xs ih =>
    obtain ⟨⟨before, s, after, hshares, hs, hothers⟩, hxs⟩ := List.forall_mem_cons.mp h
    have hone : (shares.flatMap fun s => [x].filter (p s)) = [x] := by
      obtain ⟨hbefore, hafter⟩ := List.forall_mem_append.mp hothers
      have hnone : ∀ ts : List β, (∀ t ∈ ts, p t x = false) →
          (ts.flatMap fun s => [x].filter (p s)) = [] := fun ts hts =>
        List.flatMap_eq_nil_iff.mpr fun t ht => by simp [hts t ht]
      rw [hshares, List.flatMap_append, List.flatMap_cons, hnone _ hbefore, hnone _ hafter]
      simp [hs]
    calc (shares.flatMap fun s => (x :: xs).filter (p s))
        = shares.flatMap fun s => [x].filter (p s) ++ xs.filter (p s) :=
          List.flatMap_congr fun s _ => List.filter_append [x] xs
      _ ~ (shares.flatMap fun s => [x].filter (p s)) ++ shares.flatMap fun s => xs.filter (p s) :=
          (List.flatMap_append_perm shares _ _).symm
      _ = x :: shares.flatMap fun s => xs.filter (p s) := by rw [hone, List.singleton_append]
      _ ~ x :: xs := (ih hxs).cons x

/-- The bytes from `cursor` to `stop` with references replaced. -/
def replaced (bytes : Bytes) (stop : Nat) : Nat → List RenamedUse → Bytes
  | cursor, [] => bytes.slice cursor stop
  | cursor, u :: uses =>
    bytes.slice cursor u.node.start ++ u.spelling.bytes ++ replaced bytes stop u.node.stop uses

variable {bytes : Bytes} {span : Nat × Nat} {uses : List RenamedUse}

/-- Of references that stand one behind the other, those inside a piece are replaced in it, and no
others. -/
theorem editedBytes_eq_replaced {cursor : Nat} (hcursor : span.1 ≤ cursor)
    (hordered : uses.Pairwise fun u v => u.node.stop ≤ v.node.start)
    (hfilled : ∀ u ∈ uses, u.node.start < u.node.stop)
    (hbehind : ∀ u ∈ uses, Factory.Inside u.node.span span → cursor ≤ u.node.start) :
    editedBytes bytes span.2 cursor (uses.map RenamedUse.edit) =
      replaced bytes span.2 cursor (uses.filter fun u => Factory.Inside u.node.span span) := by
  induction uses generalizing cursor with
  | nil => rfl
  | cons u uses ih =>
    obtain ⟨hfirst, hordered⟩ := List.pairwise_cons.mp hordered
    obtain ⟨hlt, hfilled⟩ := List.forall_mem_cons.mp hfilled
    obtain ⟨hu, hbehind⟩ := List.forall_mem_cons.mp hbehind
    rw [List.map_cons, editedBytes]
    by_cases hinside : Factory.Inside u.node.span span
    · have hstart := hu hinside
      have hstop : u.node.stop ≤ span.2 := hinside.2
      have happly : ¬(u.edit.start < cursor || span.2 < u.edit.stop) = true := by
        simp only [Bool.or_eq_true, decide_eq_true_eq, not_or, Nat.not_lt]
        exact ⟨hstart, hstop⟩
      rw [if_neg happly, List.filter_cons_of_pos (by simpa using hinside), replaced, u.edit_text,
        ← ih (by omega) hordered hfilled fun v hv _ => hfirst v hv]
      rfl
    · have hskip : (u.edit.start < cursor || span.2 < u.edit.stop) = true := by
        have houtside : ¬(span.1 ≤ u.node.start ∧ u.node.stop ≤ span.2) := hinside
        show (u.node.start < cursor || span.2 < u.node.stop) = true
        simp only [Bool.or_eq_true, decide_eq_true_eq]
        omega
      rw [if_pos hskip, List.filter_cons_of_neg (by simpa using hinside)]
      exact ih hcursor hordered hfilled hbehind

/-- References in the order in which they are replaced. -/
def inPlaces (uses : List RenamedUse) : List RenamedUse :=
  uses.mergeSort fun u v => u.edit.le v.edit

theorem inPlaces_perm (uses : List RenamedUse) : (inPlaces uses).Perm uses :=
  List.mergeSort_perm uses _

theorem map_edit_inPlaces (uses : List RenamedUse) :
    (inPlaces uses).map RenamedUse.edit = (uses.map RenamedUse.edit).mergeSort Edit.le :=
  List.map_mergeSort fun _ _ _ _ => rfl

/-- References that are apart are replaced from left to right. -/
theorem pairwise_inPlaces (hfilled : ∀ u ∈ uses, u.node.start < u.node.stop)
    (hapart : uses.Pairwise fun u v => u.node.stop ≤ v.node.start ∨ v.node.stop ≤ u.node.start) :
    (inPlaces uses).Pairwise fun u v => u.node.stop ≤ v.node.start := by
  have hsorted : ((uses.map RenamedUse.edit).mergeSort Edit.le).Pairwise fun d e =>
      d.stop ≤ e.start :=
    pairwise_mergeSort_of_apart (List.forall_mem_map.mpr hfilled) (List.pairwise_map.mpr hapart)
  rw [← map_edit_inPlaces] at hsorted
  exact List.pairwise_map.mp hsorted

/-- If the body of a factory is in order, its module is made of the pieces of the body, one line
behind the other.  The pieces stand in order, each statement is in exactly one of them and no
directive in any; the references that are renamed do not overlap, and each is in exactly one piece.
They are shared out among the pieces, and in each piece its share is replaced and nothing else. -/
theorem restore_replaces (code : Text) {source : Source} {function body : Node}
    (hparse : Source.parse ("(" ++ code ++ ")") = .ok source)
    (hread : Factory.read source = .ok (function, body)) (hbody : body.IsOrderly) :
    ∃ restored, restore code = .ok restored ∧
      restored.renamed = parameterRenames function body ∧
      Factory.Divides (Factory.statementSpans body) body ∧
      ((usesOf restored.renamed).Pairwise fun u v => Factory.Apart u.node.span v.node.span) ∧
      (∀ u ∈ usesOf restored.renamed,
        Factory.InsideOne (Factory.statementSpans body) u.node.span) ∧
      ∃ share : Nat × Nat → List RenamedUse,
        ((Factory.statementSpans body).flatMap share).Perm (usesOf restored.renamed) ∧
        (∀ span, (∀ u ∈ share span, Factory.Inside u.node.span span) ∧
          (share span).Pairwise fun u v => u.node.stop ≤ v.node.start) ∧
        restored.source.bytes = List.intercalate (Text.bytes "\n")
          ((Factory.statementSpans body).map fun span =>
            replaced source.bytes span.2 span.1 (share span)) := by
  obtain ⟨piece, hpiece, hrestore⟩ := exists_restore_eq_join hparse hread
  have hinside : ∀ u ∈ usesOf (parameterRenames function body),
      Factory.InsideOne (Factory.statementSpans body) u.node.span := fun u hu =>
    Factory.insideOne_of_mem_usesOf hbody hu
  have hfilled : ∀ u ∈ usesOf (parameterRenames function body), u.node.start < u.node.stop := by
    intro u hu
    obtain ⟨old, -, hselected⟩ := Factory.exists_of_mem_usesOf hu
    exact (Factory.isToken_of_mem_selected hbody hselected).2.start_lt_stop
  have hapart := Factory.pairwise_usesOf hbody function
  generalize husesOf : usesOf (parameterRenames function body) = uses at hinside hfilled hapart
  have hordered := pairwise_inPlaces hfilled hapart
  refine ⟨_, hrestore, rfl, Factory.statementSpans_divides_of_isOrderly hbody,
    husesOf ▸ hapart.imp Factory.Apart.of_le, husesOf ▸ hinside,
    fun span => (inPlaces uses).filter fun u => Factory.Inside u.node.span span, ?_, ?_, ?_⟩
  · rw [husesOf]
    refine (flatMap_filter_perm fun u hu => ?_).trans (inPlaces_perm uses)
    have hu := (inPlaces_perm uses).subset hu
    obtain ⟨before, span, after, hspans, hspan, hothers⟩ := hinside u hu
    exact ⟨before, span, after, hspans, decide_eq_true hspan, fun t ht =>
      decide_eq_false fun h => h.not_apart (hfilled u hu) (hothers t ht)⟩
  · exact fun span => ⟨fun u hu => of_decide_eq_true (List.mem_filter.mp hu).2, hordered.filter _⟩
  · show (Text.join _ _).bytes = _
    rw [Text.bytes_join, List.map_map]
    refine congrArg _ (List.map_congr_left fun span hspan => ?_)
    rw [Function.comp_apply, (hpiece span hspan).2, ← Factory.map_edit_usesOf, husesOf,
      ← map_edit_inPlaces]
    exact editedBytes_eq_replaced (Nat.le_refl _) hordered
      (fun u hu => hfilled u ((inPlaces_perm uses).subset hu)) fun u _ h => h.1

/-- A factory with a directive, comments, and references of three parameters, one of them in a
property in short form. -/
def remarkedFactory : Text :=
  "function(e,t,n)\x7b'use strict';/*a*/e(1);t.b=\x7be\x7d;/*c*/n.d=2/*f*/\x7d"

set_option maxRecDepth 100000 in
/-- The four references in three statements are shared out among three pieces. -/
theorem remarkedFactory_replaces :
    ∃ source function body restored, Source.parse ("(" ++ remarkedFactory ++ ")") = .ok source ∧
      Factory.read source = .ok (function, body) ∧ body.IsOrderly ∧
      restore remarkedFactory = .ok restored ∧ (usesOf restored.renamed).length = 4 ∧
      Factory.statementSpans body = [(30, 40), (40, 48), (48, 63)] ∧
      (∀ u ∈ usesOf restored.renamed,
        Factory.InsideOne (Factory.statementSpans body) u.node.span) ∧
      ∃ share : Nat × Nat → List RenamedUse,
        ((Factory.statementSpans body).flatMap share).Perm (usesOf restored.renamed) ∧
        restored.source.bytes = List.intercalate (Text.bytes "\n")
          ((Factory.statementSpans body).map fun span =>
            replaced source.bytes span.2 span.1 (share span)) := by
  have h : ((Source.parse ("(" ++ remarkedFactory ++ ")")).toOption.any fun source =>
      (Factory.read source).toOption.any fun (found : Node × Node) => decide (
        found.2.IsOrderly ∧ (usesOf (parameterRenames found.1 found.2)).length = 4 ∧
        Factory.statementSpans found.2 = [(30, 40), (40, 48), (48, 63)])) = true := by
    decide +kernel
  obtain ⟨source, hparse, h⟩ := exists_of_toOption_any h
  obtain ⟨⟨function, body⟩, hread, h⟩ := exists_of_toOption_any h
  obtain ⟨horderly, hlength, hspans⟩ := of_decide_eq_true h
  obtain ⟨restored, hrestored, hrenamed, -, -, hinside, share, hperm, -, hbytes⟩ :=
    restore_replaces remarkedFactory hparse hread horderly
  exact ⟨source, function, body, restored, hparse, hread, horderly, hrestored,
    hrenamed ▸ hlength, hspans, hinside, share, hperm, hbytes⟩

end Debundle
