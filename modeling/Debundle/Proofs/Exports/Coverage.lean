import Debundle.Proofs.Exports.Renamings
import Debundle.Proofs.Factory.Renaming
import Debundle.Proofs.Script.Scoping

/-!
# What a renaming reaches

A variable with one declaration has one value, so all its references could get the new name.  Which
ones do get it is settled by offsets: from a declaration in front of the export on, the declared
name and what begins behind the declaration is renamed; if the declaration stands behind the
export, what begins in front of it is.  So a function that is declared behind its export keeps its
name where it is declared, and a function that is declared in front of it keeps its name wherever
its own body mentions it.

* `Source.IsRegular`: what is expected of the tree of a script.
* `RenamingStep.Reaches`: which references get the new name.
* `RenamingStep.IsComplete`: all of them do.
* `RenamingStep.IsDone.bytes_after`: the references that get the new name are replaced in the
  source, and nothing else is.
* `renamings_isComplete_iff`: when a renaming is complete.
-/

namespace Debundle

open Script

/-! ## Trees of scripts -/

/-- Whether nodes of a kind are names: an identifier, or what stands for one in a property. -/
def Script.Kind.isNameLike : Kind → Bool
  | .identifier | .shorthandPropertyIdentifier | .propertyIdentifier => true
  | _ => false

/-- In the tree of a script everything is nested, a name is a leaf that carries the text at its
place, and the word with which a loop declares a variable is a keyword. -/
structure Script.Source.IsRegular (source : Source) : Prop where
  nested : source.root.IsNested
  name : ∀ n ∈ source.root.all, n.kind.isNameLike = true →
    (n.children = [] ∧ n.start < n.stop) ∧ source.bytes.slice n.start n.stop = n.text.bytes
  keyword : ∀ n ∈ source.root.all, n.role = some .kind → n.kind = .keyword

instance (source : Source) : Decidable source.IsRegular :=
  decidable_of_iff (source.root.IsNested ∧
      (∀ n ∈ source.root.all, n.kind.isNameLike = true →
        (n.children = [] ∧ n.start < n.stop) ∧ source.bytes.slice n.start n.stop = n.text.bytes) ∧
      ∀ n ∈ source.root.all, n.role = some .kind → n.kind = .keyword)
    ⟨fun ⟨hnested, hname, hkeyword⟩ => ⟨hnested, hname, hkeyword⟩,
      fun h => ⟨h.nested, h.name, h.keyword⟩⟩

theorem Script.Source.IsRegular.isToken {source : Source} (h : source.IsRegular) {n : Node}
    (hn : n ∈ source.root.all) (hkind : n.kind.isNameLike = true) : n.IsToken :=
  ⟨(h.name n hn hkind).1.1, (h.name n hn hkind).1.2⟩

theorem Script.Source.IsOf.stop_le {source : Source} {text : Text} (h : source.IsOf text) {n : Node}
    (hn : n ∈ source.root.all) : n.stop ≤ source.bytes.length := by
  obtain ⟨-, ⟨before, after, htext, hstop⟩, -⟩ := Node.liesIn_iff.mp (h.root.of_mem_all hn)
  rw [h.bytes, Text.length_bytes, htext, Text.utf8Size_append]
  omega

/-- A name is not empty. -/
theorem Script.Source.IsRegular.text_ne_nil {source : Source} (h : source.IsRegular) {text : Text}
    (hsource : source.IsOf text) {n : Node} (hn : n ∈ source.root.all)
    (hkind : n.kind.isNameLike = true) : n.text ≠ [] := by
  obtain ⟨⟨-, hlt⟩, hslice⟩ := h.name n hn hkind
  intro hnil
  have hlength := congrArg List.length hslice
  rw [Bytes.length_slice (hsource.stop_le hn), hnil, Text.bytes_nil, List.length_nil] at hlength
  omega

/-! ## References -/

theorem isNameLike_of_mem_references {root n : Node} {name : Text} (h : n ∈ references root name) :
    n.kind.isNameLike = true := by
  obtain ⟨-, hkind | hkind, -⟩ := mem_references_iff.mp h
  · rw [hkind]
    rfl
  · rw [hkind]
    rfl

/-- References stand one behind the other. -/
theorem pairwise_references {root : Node} (hroot : root.IsNested)
    (hname : ∀ n ∈ root.all, n.kind.isNameLike = true → n.IsToken) (name : Text) :
    (references root name).Pairwise fun n m => n.stop ≤ m.start := by
  refine hroot.pairwise_references fun n hn href => hname n hn ?_
  simp only [isReference, Bool.and_eq_true, Bool.or_eq_true, beq_iff_eq] at href
  rcases href.1 with hkind | hkind <;> rw [hkind] <;> rfl

/-- A reference is a token. -/
theorem Script.Source.IsRegular.isToken_of_mem_references {source : Source} (h : source.IsRegular)
    {root n : Node} {name : Text} (hroot : root ∈ source.root.all) (hn : n ∈ references root name) :
    n.IsToken :=
  h.isToken (Node.mem_all_trans hroot (mem_all_of_mem_references hn))
    (isNameLike_of_mem_references hn)

/-- What a site gives a value to is a reference. -/
theorem mem_references_of_bindingTarget? {root site target : Node} {name : Text}
    (hsite : site ∈ bindingSites root name) (h : bindingTarget? site name = some target) :
    target ∈ references root name := by
  obtain ⟨htarget, -⟩ := Option.filter_eq_some_iff.mp h
  obtain ⟨-, hkind, htext⟩ := mem_all_of_bindingTarget? h
  exact mem_references_iff.mpr ⟨mem_walk_of_mem_children (List.mem_of_mem_filter hsite)
    (Node.mem_children_of_target? htarget) (rebinds_identifier (Or.inl hkind) name), Or.inl hkind, htext⟩

theorem renamedReferences_subset (root assignment : Node) (name : Text) :
    renamedReferences root assignment name ⊆ references root name := by
  intro n hn
  rcases mem_renamedReferences hn with ⟨site, hsite, htarget⟩ | hn
  · exact mem_references_of_bindingTarget? hsite htarget
  · exact hn

/-! ## One declaration -/

namespace RenamingStep

/-- Every reference to the old name gets the new one. -/
def IsComplete (s : RenamingStep) : Prop :=
  ∀ ref ∈ references s.before.root s.old, ∃ n ∈ s.renamed, n.span = ref.span

instance (s : RenamingStep) : Decidable s.IsComplete :=
  inferInstanceAs (Decidable (∀ ref ∈ references s.before.root s.old,
    ∃ n ∈ s.renamed, n.span = ref.span))

/-- Whether a reference gets the new name, if the variable is declared once, at `site`, as `target`:
it is the declared name of a declaration in front of the export, or it begins neither before the end
of a declaration in front of the export nor behind the beginning of one behind it. -/
def Reaches (s : RenamingStep) (site target ref : Node) : Prop :=
  (site.start < s.subject.assignment.start ∧ ref.span = target.span) ∨
    (site.start < s.subject.assignment.start → site.stop ≤ ref.start) ∧
      (s.subject.assignment.stop < site.start → ref.start < site.start)

variable {s : RenamingStep} {site target ref : Node}

theorem outermost_singleton (site : Node) : outermost [site] = [site] := by
  simp [outermost, covers]

/-- What is renamed if the variable is declared once. -/
theorem renamed_eq (hsites : bindingSites s.before.root s.old = [site])
    (htarget : bindingTarget? site s.old = some target) :
    s.renamed =
      (if site.start < s.subject.assignment.start then [target] else []) ++
        (references s.before.root s.old).filter fun ref =>
          !(decide (site.start < s.subject.assignment.start) &&
              (target.span == ref.span || decide (ref.start < site.stop))) &&
            !(decide (s.subject.assignment.stop < site.start) && decide (site.start ≤ ref.start)) := by
  have hlast : firstMaximal Node.stop
      (outermost ([site].filter (·.start < s.subject.assignment.start))) =
        if site.start < s.subject.assignment.start then some site else none := by
    by_cases hfront : site.start < s.subject.assignment.start
    · rw [List.filter_cons_of_pos (by simpa using hfront), List.filter_nil, outermost_singleton,
        if_pos hfront]
      rfl
    · rw [List.filter_cons_of_neg (by simpa using hfront), if_neg hfront]
      rfl
  have hnext : firstMinimal Node.start
      (outermost ([site].filter (s.subject.assignment.stop < ·.start))) =
        if s.subject.assignment.stop < site.start then some site else none := by
    by_cases hbehind : s.subject.assignment.stop < site.start
    · rw [List.filter_cons_of_pos (by simpa using hbehind), List.filter_nil, outermost_singleton,
        if_pos hbehind]
      rfl
    · rw [List.filter_cons_of_neg (by simpa using hbehind), if_neg hbehind]
      rfl
  unfold renamed renamedReferences
  rw [hsites]
  simp only [hlast, hnext]
  by_cases hfront : site.start < s.subject.assignment.start
  · by_cases hbehind : s.subject.assignment.stop < site.start
    · simp [hfront, hbehind, htarget]
    · simp [hfront, hbehind, htarget]
  · by_cases hbehind : s.subject.assignment.stop < site.start
    · simp [hfront, hbehind]
    · simp [hfront, hbehind]

/-- A reference gets the new name if and only if the renaming reaches it. -/
theorem exists_renamed_iff (hsites : bindingSites s.before.root s.old = [site])
    (htarget : bindingTarget? site s.old = some target)
    (href : ref ∈ references s.before.root s.old) :
    (∃ n ∈ s.renamed, n.span = ref.span) ↔ s.Reaches site target ref := by
  rw [renamed_eq hsites htarget]
  constructor
  · rintro ⟨n, hn, hspan⟩
    obtain ⟨hstart, -⟩ := Prod.mk.inj hspan
    rcases List.mem_append.mp hn with hn | hn
    · split at hn
      · rename_i hfront
        rw [List.mem_singleton.mp hn] at hspan
        exact Or.inl ⟨hfront, hspan.symm⟩
      · exact absurd hn List.not_mem_nil
    · simp only [List.mem_filter, Bool.and_eq_true, Bool.not_eq_true', Bool.and_eq_false_iff,
        Bool.or_eq_false_iff, decide_eq_false_iff_not] at hn
      obtain ⟨-, hfront, hbehind⟩ := hn
      exact Or.inr ⟨by omega, by omega⟩
  · intro hreaches
    by_cases hdeclared : site.start < s.subject.assignment.start ∧ ref.span = target.span
    · rw [if_pos hdeclared.1]
      exact ⟨target, List.mem_append_left _ (List.mem_singleton_self target), hdeclared.2.symm⟩
    · obtain ⟨hfront, hbehind⟩ := hreaches.resolve_left hdeclared
      refine ⟨ref, List.mem_append_right _ (List.mem_filter.mpr ⟨href, ?_⟩), rfl⟩
      simp only [Bool.and_eq_true, Bool.not_eq_true', Bool.and_eq_false_iff,
        Bool.or_eq_false_iff, decide_eq_false_iff_not, beq_eq_false_iff_ne]
      refine ⟨?_, by omega⟩
      by_cases hstart : site.start < s.subject.assignment.start
      · exact Or.inr ⟨fun heq => hdeclared ⟨hstart, heq.symm⟩, by omega⟩
      · exact Or.inl hstart

/-! ## What becomes of the source -/

variable {fileName : Option Text}

theorem IsDone.mem_all_statement (h : s.IsDone fileName) :
    ∃ statement ∈ s.before.root.all, exportedVariable? statement = some s.subject := by
  obtain ⟨statement, hstatement, hexported⟩ := h.exported
  exact ⟨statement, Node.mem_all_of_mem_children (Node.mem_children_of_mem_parts hstatement)
    statement.mem_all_self, hexported⟩

theorem targetName_ne_nil {exported variableName : Text} (h : exported ≠ []) :
    targetName exported variableName fileName ≠ [] := by
  unfold targetName
  split
  · rename_i heq
    exact beq_iff_eq.mp heq ▸ h
  · split
    · cases hinfer : inferName? fileName with
      | none =>
        show defaultExportName ≠ []
        decide
      | some name =>
        rintro rfl
        cases isVariableName_of_inferName? hinfer
    · exact h

/-- The new name is not empty. -/
theorem IsDone.new_ne_nil (h : s.IsDone fileName) (hregular : s.before.IsRegular) : s.new ≠ [] := by
  obtain ⟨statement, hstatement, hexported⟩ := h.mem_all_statement
  obtain ⟨text, hparse⟩ := h.parsed
  obtain ⟨-, ⟨n, hn, hkind, htext⟩, -⟩ := exportedVariable?_mem hexported
  rw [h.new]
  refine targetName_ne_nil (htext ▸ hregular.text_ne_nil (Source.isOf_of_parse hparse)
    (Node.mem_all_trans hstatement hn) ?_)
  rw [hkind]
  rfl

/-- What is renamed is a token of the script. -/
theorem isToken_of_mem_renamed (hregular : s.before.IsRegular) {n : Node} (hn : n ∈ s.renamed) :
    n ∈ s.before.root.all ∧ n.IsToken := by
  have href := renamedReferences_subset _ _ _ hn
  exact ⟨mem_all_of_mem_references href,
    hregular.isToken_of_mem_references (Node.mem_all_self _) href⟩

/-- The edits in the order in which they are applied. -/
def pieces (s : RenamingStep) : List Edit := s.edits.mergeSort Edit.le

/-- Nothing is renamed twice. -/
theorem pairwise_renamed (hregular : s.before.IsRegular) :
    s.renamed.Pairwise fun n m => n.stop ≤ m.start ∨ m.stop ≤ n.start := by
  have hreferences := pairwise_references hregular.nested (fun n hn => hregular.isToken hn) s.old
  have htoken : ∀ n ∈ s.renamed, n ∈ s.before.root.all ∧ n.IsToken := fun n hn =>
    isToken_of_mem_renamed hregular hn
  have hone : ∀ target : Option Node,
      target.toList.Pairwise fun n m => n.stop ≤ m.start ∨ m.stop ≤ n.start := by
    intro target
    cases target with
    | none => exact List.Pairwise.nil
    | some t => exact List.pairwise_singleton _ t
  unfold renamed renamedReferences at htoken ⊢
  refine List.pairwise_append.mpr
    ⟨hone _, (hreferences.imp Or.inl).filter _, fun n hn m hm => ?_⟩
  · -- the declared name is left out among the references
    obtain ⟨hnall, hntoken⟩ := htoken n (List.mem_append_left _ hn)
    obtain ⟨hmall, hmtoken⟩ := htoken m (List.mem_append_right _ hm)
    refine (hregular.nested.eq_or_apart hnall hmall hntoken hmtoken).resolve_left ?_
    rintro rfl
    have hrange := (List.mem_filter.mp hm).2
    rw [Option.mem_toList.mp hn] at hrange
    simp at hrange

theorem inOrder_pieces (h : s.IsDone fileName) (hregular : s.before.IsRegular) :
    InOrder s.before.bytes.length 0 s.pieces := by
  obtain ⟨text, hparse⟩ := h.parsed
  have hsource := Source.isOf_of_parse hparse
  have hnew := h.new_ne_nil hregular
  have hfilled : ∀ e ∈ s.edits, 0 ≤ e.start ∧ e.start < e.stop ∧ e.stop ≤ s.before.bytes.length ∧
      e.text ≠ [] := by
    intro e he
    obtain ⟨n, hn, rfl⟩ := List.mem_map.mp he
    obtain ⟨hmem, htoken⟩ := isToken_of_mem_renamed hregular hn
    refine ⟨Nat.zero_le _, htoken.start_lt_stop, hsource.stop_le hmem, ?_⟩
    show (if n.kind == .shorthandPropertyIdentifier then n.text ++ ": " ++ s.new else s.new) ≠ []
    split
    · exact List.append_ne_nil_of_right_ne_nil _ hnew
    · exact hnew
  refine inOrder_of_pairwise ?_ fun e he => hfilled e (List.mem_mergeSort.mp he)
  exact pairwise_mergeSort_of_apart (fun e he => (hfilled e he).2.1)
    (List.pairwise_map.mpr (pairwise_renamed hregular))

/-- The references that get the new name are replaced in the source, and nothing else is. -/
theorem IsDone.bytes_after (h : s.IsDone fileName) (hregular : s.before.IsRegular) :
    s.after.bytes = spliced s.before.bytes 0 s.pieces := by
  obtain ⟨text, hparse⟩ := h.parsed
  obtain ⟨statement, hstatement, hexported⟩ := h.exported
  obtain ⟨u, -, hbytes, hrenamed⟩ :=
    exists_renameVariable fileName (Source.isOf_of_parse hparse) hstatement hexported
  obtain ⟨text', hrenamed', hparse'⟩ := h.renamed
  rw [h.new] at hrenamed'
  obtain rfl : u = text' := Except.ok.inj (hrenamed.symm.trans hrenamed')
  rw [(Source.isOf_of_parse hparse').bytes, hbytes, ← editedBytes_eq_spliced
    (inOrder_pieces h hregular), pieces, edits, h.new]
  rfl

/-! ## When a renaming is complete -/

theorem IsDone.assignment_le (h : s.IsDone fileName) (hregular : s.before.IsRegular) :
    s.subject.assignment.start ≤ s.subject.assignment.stop := by
  obtain ⟨statement, hstatement, hexported⟩ := h.mem_all_statement
  exact (hregular.nested _ (Node.mem_all_trans hstatement
    (exportedVariable?_mem hexported).1)).start_le_stop

/-- A renaming reaches the declared name, and what stands behind a declaration in front of the
export. -/
theorem IsDone.reaches_iff_of_front (h : s.IsDone fileName) (hregular : s.before.IsRegular)
    (htarget : target ∈ references s.before.root s.old)
    (href : ref ∈ references s.before.root s.old)
    (hfront : site.start < s.subject.assignment.start) :
    s.Reaches site target ref ↔ ref = target ∨ site.stop ≤ ref.start := by
  have hle := h.assignment_le hregular
  constructor
  · rintro (⟨-, hspan⟩ | ⟨hbehind, -⟩)
    · have hroot := s.before.root.mem_all_self
      exact Or.inl (hregular.nested.eq_of_span_eq (mem_all_of_mem_references href)
        (mem_all_of_mem_references htarget) (hregular.isToken_of_mem_references hroot href)
        (hregular.isToken_of_mem_references hroot htarget) hspan)
    · exact Or.inr (hbehind hfront)
  · rintro (rfl | hbehind)
    · exact Or.inl ⟨hfront, rfl⟩
    · exact Or.inr ⟨fun _ => hbehind, fun _ => by omega⟩

/-- A renaming does not reach the name that a declaration behind the export declares. -/
theorem IsDone.not_reaches_of_behind (h : s.IsDone fileName) (hregular : s.before.IsRegular)
    (hsite : site ∈ bindingSites s.before.root s.old)
    (htarget : bindingTarget? site s.old = some target)
    (hbehind : s.subject.assignment.stop < site.start) : ¬s.Reaches site target target := by
  have hle := h.assignment_le hregular
  have hnested := hregular.nested.of_mem_all (mem_all_of_mem_walk (List.mem_of_mem_filter hsite))
  have hinside := (hnested.within (mem_all_of_bindingTarget? htarget).1).1
  rintro (⟨hfront, -⟩ | ⟨-, hbefore⟩)
  · omega
  · have hlt := hbefore hbehind
    omega

end RenamingStep

/-- A run is the list of its renamings.  If the variable of a renaming has one site that gives it a
value, that is its declaration, and the declared name is one of its references.  All of them get the
new name if and only if the renaming reaches all of them: if the declaration is in front of the
export, every other reference must begin behind it; if it is behind the export, the declared name
itself is not reached. -/
theorem renamings_isComplete_iff (source : Text) (fileName : Option Text) :
    (∃ r, renameExports source fileName = .ok r ∧
      r.renamed = (renamings source fileName).map (fun s => (s.old, s.new)) ∧
      r.source = sourceAfter (renamings source fileName) source) ∧
    ∀ s ∈ renamings source fileName, ∀ site, bindingSites s.before.root s.old = [site] →
      ∃ target, bindingTarget? site s.old = some target ∧
        target ∈ references s.before.root s.old ∧
        site.kind ≠ .assignmentExpression ∧ site.kind ≠ .augmentedAssignmentExpression ∧
        (s.IsComplete ↔ ∀ ref ∈ references s.before.root s.old, s.Reaches site target ref) ∧
        (s.before.IsRegular →
          s.after.bytes = spliced s.before.bytes 0 s.pieces ∧
          (site.start < s.subject.assignment.start → (s.IsComplete ↔
            ∀ ref ∈ references s.before.root s.old, ref = target ∨ site.stop ≤ ref.start)) ∧
          (s.subject.assignment.stop < site.start → ¬s.IsComplete)) := by
  refine ⟨exists_renameExports_eq source fileName, fun s hs site hsites => ?_⟩
  have hdone := isDone_of_mem_renamings hs
  have hsite : site ∈ bindingSites s.before.root s.old := by
    rw [hsites]
    exact List.mem_singleton_self site
  obtain ⟨target, htarget⟩ := Option.isSome_iff_exists.mp (List.mem_filter.mp hsite).2
  have hreference := mem_references_of_bindingTarget? hsite htarget
  have hcomplete : s.IsComplete ↔
      ∀ ref ∈ references s.before.root s.old, s.Reaches site target ref :=
    forall₂_congr fun ref href => RenamingStep.exists_renamed_iff hsites htarget href
  have hdeclared := hdone.declared
  rw [isDeclared, hsites] at hdeclared
  simp only [List.any_cons, List.any_nil, Bool.or_false, Bool.and_eq_true, bne_iff_ne] at hdeclared
  refine ⟨target, htarget, hreference, hdeclared.1, hdeclared.2, hcomplete, fun hregular =>
    ⟨hdone.bytes_after hregular, fun hfront => ?_, fun hbehind hall => ?_⟩⟩
  · rw [hcomplete]
    exact forall₂_congr fun ref href => hdone.reaches_iff_of_front hregular hreference href hfront
  · exact hdone.not_reaches_of_behind hregular hsite htarget hbehind
      (hcomplete.mp hall target hreference)

/-- A module that declares a variable, exports it and uses it again. -/
def variableFirst : Text := "var a=1;exports.b=a;f(a)"

/-- A module that exports a function and declares it behind that. -/
def functionLast : Text := "exports.b=a;function a()\x7b\x7d"

/-- What is found out about the renaming at a statement holds of a renaming. -/
theorem exists_mem_renamings {source : Text} {fileName : Option Text} {i : Nat}
    {p : RenamingStep → Bool} (h : (renamingAt? source fileName i).any p = true) :
    ∃ s ∈ renamings source fileName, p s = true := by
  cases hs : renamingAt? source fileName i with
  | none =>
    rw [hs] at h
    cases h
  | some s =>
    rw [hs] at h
    exact ⟨s, mem_renamings_of_renamingAt? hs, h⟩

set_option maxRecDepth 100000 in
/-- A variable that is declared first is renamed wherever it is used. -/
theorem variableFirst_isComplete :
    ∃ s ∈ renamings variableFirst none, ∃ site, bindingSites s.before.root s.old = [site] ∧
      s.before.IsRegular ∧ s.after.bytes = Text.bytes "var b=1;exports.b=b;f(b)" ∧
      s.IsComplete := by
  have h : ((renamingAt? variableFirst none 1).any fun s =>
      decide (s.before.IsRegular ∧ s.after.bytes = Text.bytes "var b=1;exports.b=b;f(b)" ∧
        ∃ site ∈ bindingSites s.before.root s.old, ∃ target ∈ bindingTarget? site s.old,
          bindingSites s.before.root s.old = [site] ∧
          site.start < s.subject.assignment.start ∧
          ∀ ref ∈ references s.before.root s.old, ref = target ∨ site.stop ≤ ref.start)) = true := by
    decide +kernel
  obtain ⟨s, hs, h⟩ := exists_mem_renamings h
  obtain ⟨hregular, hbytes, site, -, target, htarget, hsites, hfront, hbehind⟩ :=
    of_decide_eq_true h
  obtain ⟨target', htarget', -, -, -, -, hcomplete⟩ :=
    (renamings_isComplete_iff variableFirst none).2 s hs site hsites
  obtain rfl : target = target' := Option.some.inj (htarget.symm.trans htarget')
  exact ⟨s, hs, site, hsites, hregular, hbytes, ((hcomplete hregular).2.1 hfront).mpr hbehind⟩

set_option maxRecDepth 100000 in
/-- A function that is declared behind its export gets its new name in the export only. -/
theorem functionLast_not_isComplete :
    ¬∀ (source : Text) (fileName : Option Text), ∀ s ∈ renamings source fileName, ∀ site,
      bindingSites s.before.root s.old = [site] → site.kind = .functionDeclaration →
        s.IsComplete := by
  intro hall
  have h : ((renamingAt? functionLast none 0).any fun s =>
      decide (s.after.bytes = Text.bytes "exports.b=b;function a()\x7b\x7d" ∧ ¬s.IsComplete ∧
        ∃ site ∈ bindingSites s.before.root s.old,
          bindingSites s.before.root s.old = [site] ∧ site.kind = .functionDeclaration)) = true := by
    decide +kernel
  obtain ⟨s, hs, h⟩ := exists_mem_renamings h
  obtain ⟨-, hnot, site, -, hsites, hkind⟩ := of_decide_eq_true h
  exact hnot (hall functionLast none s hs site hsites hkind)

end Debundle
