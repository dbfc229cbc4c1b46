import Debundle.Proofs.Exports.Coverage

/-!
# Whether the new name is fresh

A variable that gets a name which is in use is mixed up with what had the name before.  Nothing
looks for that: the new name comes from the export, and the only check is that the result can be
parsed.  What happens is settled by the scopes of the new name.  A renamed reference that is inside
a scope with a variable of the new name is caught there, and one that is not stands side by side
with whatever referred to the new name already.

* `RenamingStep.renamedRoot`: the tree with the new name.
* `RenamingStep.IsFresh`: the new name is not in use.
* `RenamingStep.KeepsApart`: in the tree with the new name, the references to it are those that got
  it.
* `RenamingStep.isScoped_respelling`: the scopes stay what they are.
* `RenamingStep.mem_references_renamedRoot_iff`: what refers to the new name.
* `renamings_isFresh_iff`: a renaming keeps variables apart if and only if the new name is fresh.
-/

namespace Debundle

open Script

namespace RenamingStep

/-- The new name for what is renamed, and the new offsets for everything. -/
def respelling (s : RenamingStep) : Respelling :=
  ⟨fun n => if n ∈ s.renamed then some s.new else none, shifted s.pieces⟩

/-- The tree with the new name.  A property in short form counts as the reference in it. -/
def renamedRoot (s : RenamingStep) : Node := s.before.root.respelled s.respelling

/-- The new name is not in use: below the root nothing refers to it or gives it a value, and no
scope around something that is renamed introduces it. -/
structure IsFresh (s : RenamingStep) : Prop where
  references : references s.before.root s.new = []
  sites : bindingSites s.before.root s.new = []
  scopes : ∀ scope ∈ s.before.root.descendants, (∃ ref ∈ s.renamed, ref ∈ scope.all) →
    rebinds scope s.new = false

instance (s : RenamingStep) : Decidable s.IsFresh :=
  decidable_of_iff (Script.references s.before.root s.new = [] ∧
      bindingSites s.before.root s.new = [] ∧
      ∀ scope ∈ s.before.root.descendants, (∃ ref ∈ s.renamed, ref ∈ scope.all) →
        rebinds scope s.new = false)
    ⟨fun ⟨hreferences, hsites, hscopes⟩ => ⟨hreferences, hsites, hscopes⟩,
      fun h => ⟨h.references, h.sites, h.scopes⟩⟩

/-- In the tree with the new name, the references to it are those that got it. -/
def KeepsApart (s : RenamingStep) : Prop :=
  ∀ n ∈ s.before.root.all,
    n.respelled s.respelling ∈ references s.renamedRoot s.new ↔ n ∈ s.renamed

variable {s : RenamingStep} {fileName : Option Text} {n m : Node}

/-! ## Texts -/

theorem text_respelled : (n.respelled s.respelling).text =
    if n ∈ s.renamed then s.new else n.text := by
  rw [Node.respelled_text]
  show (if n ∈ s.renamed then some s.new else none).getD n.text = _
  split <;> rfl

theorem text_of_mem_renamed (h : n ∈ s.renamed) : n.text = s.old :=
  (mem_references_iff.mp (renamedReferences_subset _ _ _ h)).2.2

/-- The word of a loop is not renamed. -/
theorem text_respelled_of_role (hregular : s.before.IsRegular) (hn : n ∈ s.before.root.all)
    (hrole : n.role = some .kind) : (n.respelled s.respelling).text = n.text := by
  rw [text_respelled, if_neg]
  intro hrenamed
  have hkind := hregular.keyword n hn hrole
  have hname := isNameLike_of_mem_references (renamedReferences_subset _ _ _ hrenamed)
  rw [hkind] at hname
  cases hname

/-! ## Scopes -/

/-- A name changes only where it keeps its meaning. -/
theorem isScoped_respelling (hregular : s.before.IsRegular) :
    s.respelling.IsScoped s.before.root where
  changed n _ hchanged := by
    rw [text_respelled] at hchanged
    split at hchanged
    · rename_i hrenamed
      rw [text_of_mem_renamed hrenamed]
      exact ⟨(isToken_of_mem_renamed hregular hrenamed).2,
        (mem_references_iff.mp (renamedReferences_subset _ _ _ hrenamed)).1⟩
    · exact absurd rfl hchanged
  keyword n hn hrole :=
    text_respelled_of_role hregular (Node.mem_all_of_mem_descendants hn) hrole

/-! ## References -/

/-- Different names have different places. -/
theorem eq_of_respelled_eq (h : s.IsDone fileName) (hregular : s.before.IsRegular)
    (hn : n ∈ s.before.root.all) (hm : m ∈ s.before.root.all) (hname : m.kind.isNameLike = true)
    (heq : n.respelled s.respelling = m.respelled s.respelling) : n = m := by
  have hkind : n.kind = m.kind := by
    have hkind := congrArg Node.kind heq
    rwa [Node.respelled_kind, Node.respelled_kind] at hkind
  have hinOrder := inOrder_pieces h hregular
  have houtside : ∀ k ∈ s.before.root.all, Outside s.pieces k.start ∧ Outside s.pieces k.stop := by
    intro k hk
    have hoffset : ∀ e ∈ s.pieces,
        (k.start ≤ e.start ∨ e.stop ≤ k.start) ∧ (k.stop ≤ e.start ∨ e.stop ≤ k.stop) := by
      intro e he
      obtain ⟨ref, href, rfl⟩ := List.mem_map.mp (List.mem_mergeSort.mp he)
      obtain ⟨hmem, htoken⟩ := isToken_of_mem_renamed hregular href
      exact hregular.nested.offset_outside hmem hk htoken
    exact ⟨fun e he => (hoffset e he).1, fun e he => (hoffset e he).2⟩
  have hspan := congrArg Node.span heq
  rw [Node.span_respelled, Node.span_respelled] at hspan
  obtain ⟨hstart, hstop⟩ := Prod.mk.inj hspan
  refine hregular.nested.eq_of_span_eq hn hm (hregular.isToken hn (hkind ▸ hname))
    (hregular.isToken hm hname) (Prod.ext ?_ ?_)
  · exact (shifted_inj hinOrder (houtside n hn).1 (houtside m hm).1).mp hstart
  · exact (shifted_inj hinOrder (houtside n hn).2 (houtside m hm).2).mp hstop

/-- In the tree with the new name, it is referred to by what was renamed and by what referred to it
before, as far as the new name keeps its meaning. -/
theorem mem_references_renamedRoot_iff (h : s.IsDone fileName) (hregular : s.before.IsRegular)
    (hn : n ∈ s.before.root.all) :
    n.respelled s.respelling ∈ references s.renamedRoot s.new ↔
      n ∈ walk s.before.root s.new ∧ n ∈ s.renamed ∨ n ∈ references s.before.root s.new := by
  have hinj : n.kind = .identifier ∨ n.kind = .shorthandPropertyIdentifier →
      ∀ m ∈ s.before.root.all, m.respelled s.respelling = n.respelled s.respelling → m = n := by
    intro hkind m hm heq
    refine eq_of_respelled_eq h hregular hm hn ?_ heq
    rcases hkind with hkind | hkind <;> rw [hkind] <;> rfl
  rw [renamedRoot, (isScoped_respelling hregular).mem_references_respelled_iff hregular.nested hinj,
    mem_references_iff, text_respelled]
  constructor
  · rintro ⟨hwalk, hkind, htext⟩
    by_cases hrenamed : n ∈ s.renamed
    · exact Or.inl ⟨hwalk, hrenamed⟩
    · rw [if_neg hrenamed] at htext
      exact Or.inr ⟨hwalk, hkind, htext⟩
  · rintro (⟨hwalk, hrenamed⟩ | ⟨hwalk, hkind, htext⟩)
    · refine ⟨hwalk, ?_, if_pos hrenamed⟩
      exact (mem_references_iff.mp (renamedReferences_subset _ _ _ hrenamed)).2.1
    · refine ⟨hwalk, hkind, ?_⟩
      rw [htext, ite_self]

/-- Something that is renamed is where the new name keeps its meaning if and only if no scope around
it introduces the new name. -/
theorem mem_walk_new_iff (hregular : s.before.IsRegular) (hn : n ∈ s.renamed) :
    n ∈ walk s.before.root s.new ↔
      ∀ scope ∈ s.before.root.descendants, n ∈ scope.all → rebinds scope s.new = false := by
  have htoken := (isToken_of_mem_renamed hregular hn).2
  have hwalk := (mem_references_iff.mp (renamedReferences_subset _ _ _ hn)).1
  have hbelow := ((mem_walk_iff hregular.nested htoken).mp hwalk).1
  rw [mem_walk_iff hregular.nested htoken]
  exact and_iff_right hbelow

end RenamingStep

/-- A run is the list of its renamings, and a renaming gives a variable a name that is not in use if
and only if, in the tree with the new name, the references to it are those that got it. -/
theorem renamings_isFresh_iff (source : Text) (fileName : Option Text) :
    (∃ r, renameExports source fileName = .ok r ∧
      r.renamed = (renamings source fileName).map (fun s => (s.old, s.new)) ∧
      r.source = sourceAfter (renamings source fileName) source) ∧
    ∀ s ∈ renamings source fileName, s.before.IsRegular → (s.IsFresh ↔ s.KeepsApart) := by
  refine ⟨exists_renameExports_eq source fileName, fun s hs hregular => ?_⟩
  have hdone := isDone_of_mem_renamings hs
  constructor
  · intro hfresh n hn
    rw [RenamingStep.mem_references_renamedRoot_iff hdone hregular hn, hfresh.references]
    refine ⟨fun h => (h.resolve_right List.not_mem_nil).2, fun hrenamed => Or.inl ⟨?_, hrenamed⟩⟩
    exact (RenamingStep.mem_walk_new_iff hregular hrenamed).mpr fun scope hscope hmem =>
      hfresh.scopes scope hscope ⟨n, hrenamed, hmem⟩
  · intro hapart
    have hreferences : references s.before.root s.new = [] := by
      refine List.eq_nil_iff_forall_not_mem.mpr fun n hn => ?_
      have hroot := mem_all_of_mem_references hn
      have hrenamed := (hapart n hroot).mp
        ((RenamingStep.mem_references_renamedRoot_iff hdone hregular hroot).mpr (Or.inr hn))
      -- what has the new name does not have the old one
      refine hdone.differs ?_
      rw [← RenamingStep.text_of_mem_renamed hrenamed, (mem_references_iff.mp hn).2.2]
    refine ⟨hreferences, List.eq_nil_iff_forall_not_mem.mpr fun site hsite => ?_, ?_⟩
    · obtain ⟨target, htarget⟩ := Option.isSome_iff_exists.mp (List.mem_filter.mp hsite).2
      have hmem := mem_references_of_bindingTarget? hsite htarget
      rw [hreferences] at hmem
      exact absurd hmem List.not_mem_nil
    · rintro scope hscope ⟨n, hrenamed, hmem⟩
      have hroot := (RenamingStep.isToken_of_mem_renamed hregular hrenamed).1
      have hfound := (RenamingStep.mem_references_renamedRoot_iff hdone hregular hroot).mp
        ((hapart n hroot).mpr hrenamed)
      rw [hreferences] at hfound
      have hwalk := (hfound.resolve_right List.not_mem_nil).1
      exact (RenamingStep.mem_walk_new_iff hregular hrenamed).mp hwalk scope hscope hmem

/-- A module that exports one variable under the name of another one. -/
def nameTaken : Text := "var a=1,b=2;exports.b=a;"

/-- A module that exports a variable under a name that is bound in a function which does not use the
variable. -/
def nameElsewhere : Text := "var a=1;exports.b=a;f(function(b)\x7breturn b\x7d)"

set_option maxRecDepth 100000 in
/-- A name that is bound elsewhere is fresh. -/
theorem nameElsewhere_keepsApart :
    ∃ s ∈ renamings nameElsewhere none, s.before.IsRegular ∧ s.IsFresh ∧
      s.after.root = s.renamedRoot ∧ s.KeepsApart := by
  have h : ((renamingAt? nameElsewhere none 1).any fun s =>
      decide (s.before.IsRegular ∧ s.IsFresh ∧ s.edits.Pairwise (fun d e => d.le e = true) ∧
        s.after.root = s.before.root.respelled ⟨s.respelling.text?, shifted s.edits⟩)) = true := by
    decide +kernel
  obtain ⟨s, hs, h⟩ := exists_mem_renamings h
  obtain ⟨hregular, hfresh, hsorted, hroot⟩ := of_decide_eq_true h
  have hpieces : s.pieces = s.edits := List.mergeSort_of_pairwise hsorted
  refine ⟨s, hs, hregular, hfresh, ?_, ((renamings_isFresh_iff _ _).2 s hs hregular).mp hfresh⟩
  rw [hroot, RenamingStep.renamedRoot, RenamingStep.respelling, hpieces]

set_option maxRecDepth 100000 in
/-- A variable gets the name of another one. -/
theorem nameTaken_not_isFresh :
    ¬∀ (source : Text) (fileName : Option Text), ∀ s ∈ renamings source fileName, s.IsFresh := by
  intro hall
  have h : ((renamingAt? nameTaken none 1).any fun s =>
      decide (s.after.bytes = Text.bytes "var b=1,b=2;exports.b=b;" ∧ ¬s.IsFresh)) = true := by
    decide +kernel
  obtain ⟨s, hs, h⟩ := exists_mem_renamings h
  exact (of_decide_eq_true h).2 (hall nameTaken none s hs)

end Debundle
