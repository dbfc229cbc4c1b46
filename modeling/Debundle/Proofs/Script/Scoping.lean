import Debundle.Proofs.Script.Respelling

/-!
# Names that change where they keep their meaning

A renaming pass changes a name only where nothing around it gives the name another meaning.  So no
name that a scope introduces is changed inside the scope, and none is put there that the scope did
not introduce before: every scope stays what it is, for old and new names alike.  What the changed
names refer to is then settled by the scopes of the tree as it was.

* `Respelling.IsScoped`: names change only where they keep their meaning.
* `Respelling.IsScoped.rebinds_respelled`: the scopes stay what they are.
* `Respelling.IsScoped.walk_respelled`: so every name keeps its meaning where it did.
* `Respelling.IsScoped.mem_references_respelled_iff`: what refers to a name afterwards.
-/

namespace Debundle.Script

variable {n m k root : Node} {name : Text} {r : Respelling}

theorem Node.mem_descendants_of_mem_all (hm : m ∈ n.descendants) (hk : k ∈ m.all) :
    k ∈ n.descendants := by
  obtain ⟨c, hc, hm⟩ := List.mem_flatMap.mp hm
  exact List.mem_flatMap.mpr ⟨c, hc, Node.mem_all_trans hm hk⟩

/-! ## References -/

theorem mem_references_iff :
    n ∈ references root name ↔ n ∈ walk root name ∧
      (n.kind = .identifier ∨ n.kind = .shorthandPropertyIdentifier) ∧ n.text = name := by
  rw [references, List.mem_filter, isReference, Bool.and_eq_true, Bool.or_eq_true, beq_iff_eq,
    beq_iff_eq, beq_iff_eq]

/-- What can be a reference introduces nothing. -/
theorem rebinds_identifier (h : n.kind = .identifier ∨ n.kind = .shorthandPropertyIdentifier)
    (name : Text) : rebinds n name = false := by
  rw [rebinds, blockBinds]
  rcases h with h | h <;> rw [h] <;> rfl

/-- A reference keeps the meaning that it has at the root if nothing between the two gives its name
another one. -/
theorem mem_walk_iff_of_isToken (hroot : root.IsNested) (hn : n ∈ root.descendants)
    (htoken : n.IsToken) (hkind : n.kind = .identifier ∨ n.kind = .shorthandPropertyIdentifier) :
    n ∈ walk root name ↔
      ∀ scope ∈ root.descendants, n ∈ scope.descendants → rebinds scope name = false := by
  rw [mem_walk_iff hroot htoken, and_iff_right hn]
  refine forall₂_congr fun scope _ => ⟨fun h hmem => h (Node.mem_all_of_mem_descendants hmem), ?_⟩
  intro h hmem
  rw [Node.all_eq] at hmem
  rcases List.mem_cons.mp hmem with rfl | hmem
  · exact rebinds_identifier hkind name
  · exact h hmem

/-! ## Scopes -/

/-- Below a root, texts change only at tokens around which nothing gives them another meaning, and
the word with which a loop declares a variable does not change. -/
structure Respelling.IsScoped (r : Respelling) (root : Node) : Prop where
  changed : ∀ n ∈ root.descendants, (n.respelled r).text ≠ n.text →
    n.IsToken ∧ n ∈ walk root n.text
  keyword : ∀ n ∈ root.descendants, n.role = some .kind → (n.respelled r).text = n.text

namespace Respelling.IsScoped

/-- No scope around what changes introduces its old text. -/
theorem rebinds_eq_false (h : r.IsScoped root) (hroot : root.IsNested) (hm : m ∈ root.descendants)
    (hk : k ∈ m.all) (hchanged : (k.respelled r).text ≠ k.text) : rebinds m k.text = false := by
  obtain ⟨htoken, hwalk⟩ := h.changed k (Node.mem_descendants_of_mem_all hm hk) hchanged
  exact ((mem_walk_iff hroot htoken).mp hwalk).2 m hm hk

/-- The scopes stay what they are. -/
theorem rebinds_respelled (h : r.IsScoped root) (hroot : root.IsNested) (hm : m ∈ root.descendants)
    (name : Text) : rebinds (m.respelled r) name = rebinds m name := by
  have hkeyword : ∀ k ∈ m.all, k.role = some .kind → (k.respelled r).text = k.text := fun k hk =>
    h.keyword k (Node.mem_descendants_of_mem_all hm hk)
  rw [Bool.eq_iff_iff]
  constructor
  · intro hnew
    have htraces : Respelling.same.TracesTo r (fun t => t = name ∨ rebinds m t = false) name m := by
      refine ⟨fun k hk hname => ?_, fun k hk hrole hvar => ?_⟩
      · rw [Node.respelled_same]
        by_cases hchanged : (k.respelled r).text = k.text
        · exact Or.inl (hchanged.symm.trans hname)
        · exact Or.inr (h.rebinds_eq_false hroot hm hk hchanged)
      · rw [Node.respelled_same] at hvar
        rw [hkeyword k hk hrole, hvar]
    obtain ⟨old, hold, hname⟩ := htraces.exists_rebinds hnew
    rw [Node.respelled_same] at hold
    rcases hname with rfl | hfree
    · exact hold
    · rw [hfree] at hold
      cases hold
  · intro hold
    have htraces : r.TracesTo Respelling.same (· = name) name m := by
      refine ⟨fun k hk hname => ?_, fun k hk hrole hvar => ?_⟩
      · -- inside a scope of the name, the name does not change
        rw [Node.respelled_same] at hname
        by_contra hne
        have hfree := h.rebinds_eq_false hroot hm hk (by rwa [hname])
        rw [hname, hold] at hfree
        cases hfree
      · rw [hkeyword k hk hrole] at hvar
        rw [Node.respelled_same, hvar]
    rw [← Node.respelled_same m] at hold
    obtain ⟨_, hnew, rfl⟩ := htraces.exists_rebinds hold
    exact hnew

theorem kept_respelled (h : r.IsScoped root) (hroot : root.IsNested) (name : Text)
    (hm : ∀ k ∈ m.all, k ∈ root.descendants) :
    kept name (m.respelled r) = (kept name m).map (Node.respelled r) := by
  induction m using Node.induction with
  | step m ih =>
    rw [kept_eq, kept_eq, h.rebinds_respelled hroot (hm m m.mem_all_self)]
    split
    · rfl
    · rw [Node.respelled_children, List.flatMap_map, List.map_cons, List.map_flatMap]
      congr 1
      refine List.flatMap_congr fun c hc => ?_
      exact ih c hc fun k hk => hm k (Node.mem_all_of_mem_children hc hk)

/-- Every name keeps its meaning where it did. -/
theorem walk_respelled (h : r.IsScoped root) (hroot : root.IsNested) (name : Text) :
    walk (root.respelled r) name = (walk root name).map (Node.respelled r) := by
  rw [walk_eq, walk_eq, Node.respelled_children, List.flatMap_map, List.map_flatMap]
  refine List.flatMap_congr fun c hc => ?_
  exact h.kept_respelled hroot name fun k hk => List.mem_flatMap.mpr ⟨c, hc, hk⟩

/-- A node refers to a name afterwards if it is spelled so, and stands where the name kept its
meaning before. -/
theorem mem_references_respelled_iff (h : r.IsScoped root) (hroot : root.IsNested)
    (hinj : n.kind = .identifier ∨ n.kind = .shorthandPropertyIdentifier →
      ∀ m ∈ root.all, m.respelled r = n.respelled r → m = n) :
    n.respelled r ∈ references (root.respelled r) name ↔ n ∈ walk root name ∧
      (n.kind = .identifier ∨ n.kind = .shorthandPropertyIdentifier) ∧
      (n.respelled r).text = name := by
  rw [mem_references_iff, h.walk_respelled hroot, Node.respelled_kind]
  refine and_congr_left fun ⟨hkind, _⟩ => ⟨fun hwalk => ?_, List.mem_map_of_mem⟩
  obtain ⟨m, hm, heq⟩ := List.mem_map.mp hwalk
  rwa [← hinj hkind m (mem_all_of_mem_walk hm) heq]

end Respelling.IsScoped

end Debundle.Script
