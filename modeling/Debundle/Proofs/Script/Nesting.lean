import Debundle.Proofs.Script.Descent
import Mathlib.Data.List.Pairwise

/-!
# Nested spans

In the tree of a script the children of a node stand inside it, one behind the other.  So two nodes
of a tree are nested or apart, and a leaf that is not empty is the only leaf with its span.

* `Node.IsNested`: all children stand inside their parents, one behind the other.
* `Node.IsNested.apart`: what is below different children is apart.
* `Node.IsNested.eq_or_apart`, `Node.IsNested.eq_of_span_eq`: tokens, that is leaves that are not
  empty, are apart, so a token is known by its span.
* `Node.IsNested.offset_outside`: no node begins or ends inside a token.
* `Node.IsNested.pairwise_all`: nodes are listed in the order in which they begin.
* `Node.IsNested.pairwise_tokens`: tokens are listed from left to right.
* `mem_walk_iff`: a token is where a name keeps its meaning if nothing around it rebinds the name.
-/

namespace Debundle.Script

namespace Node

/-- The children of a node stand inside it, one behind the other. -/
structure Encloses (n : Node) : Prop where
  start_le_stop : n.start ≤ n.stop
  inside : ∀ c ∈ n.children, n.start ≤ c.start ∧ c.stop ≤ n.stop
  ordered : n.children.Pairwise fun c d => c.stop ≤ d.start

instance (n : Node) : Decidable n.Encloses :=
  decidable_of_iff (n.start ≤ n.stop ∧ (∀ c ∈ n.children, n.start ≤ c.start ∧ c.stop ≤ n.stop) ∧
      n.children.Pairwise fun c d => c.stop ≤ d.start)
    ⟨fun ⟨h, hinside, hordered⟩ => ⟨h, hinside, hordered⟩,
      fun h => ⟨h.start_le_stop, h.inside, h.ordered⟩⟩

/-- All children stand inside their parents, one behind the other. -/
def IsNested (n : Node) : Prop := ∀ m ∈ n.all, m.Encloses

instance (n : Node) : Decidable n.IsNested := inferInstanceAs (Decidable (∀ m ∈ n.all, m.Encloses))

/-- A leaf that is not empty. -/
structure IsToken (n : Node) : Prop where
  children : n.children = []
  start_lt_stop : n.start < n.stop

instance (n : Node) : Decidable n.IsToken :=
  decidable_of_iff (n.children = [] ∧ n.start < n.stop)
    ⟨fun ⟨hchildren, hlt⟩ => ⟨hchildren, hlt⟩, fun h => ⟨h.children, h.start_lt_stop⟩⟩

/-- Everything below a node. -/
def descendants (n : Node) : List Node := n.children.flatMap all

theorem mem_all_of_mem_descendants {n m : Node} (h : m ∈ n.descendants) : m ∈ n.all := by
  rw [all_eq]
  exact List.mem_cons_of_mem n h

namespace IsNested

variable {n m k c d : Node}

theorem of_mem_all (hn : n.IsNested) (hm : m ∈ n.all) : m.IsNested :=
  fun _ hk => hn _ (mem_all_trans hm hk)

theorem of_mem_children (hn : n.IsNested) (hc : c ∈ n.children) : c.IsNested :=
  hn.of_mem_all (mem_all_of_mem_children hc (mem_all_self c))

theorem within (hn : n.IsNested) (hm : m ∈ n.all) : n.start ≤ m.start ∧ m.stop ≤ n.stop := by
  induction n using induction with
  | step n ih =>
    rw [all_eq] at hm
    rcases List.mem_cons.mp hm with rfl | hm
    · exact ⟨Nat.le_refl _, Nat.le_refl _⟩
    · obtain ⟨c, hc, hm⟩ := List.mem_flatMap.mp hm
      have hchild := (hn n (mem_all_self n)).inside c hc
      have hbelow := ih c hc (hn.of_mem_children hc) hm
      omega

/-- A node around a nested one, from its beginning to its end. -/
theorem around (hn : n.IsNested) (kind : Kind) : (branch kind n.start n.stop [n]).IsNested := by
  intro m hm
  rw [all_eq] at hm
  rcases List.mem_cons.mp hm with rfl | hm
  · refine ⟨(hn n n.mem_all_self).start_le_stop, fun c hc => ?_, List.pairwise_singleton _ n⟩
    rw [List.mem_singleton.mp hc]
    exact ⟨Nat.le_refl _, Nat.le_refl _⟩
  · obtain ⟨c, hc, hm⟩ := List.mem_flatMap.mp hm
    rw [List.mem_singleton.mp hc] at hm
    exact hn m hm

/-- What is below different children is apart. -/
theorem apart (hn : n.IsNested) (hc : c ∈ n.children) (hd : d ∈ n.children) (hne : c ≠ d)
    (hm : m ∈ c.all) (hk : k ∈ d.all) : m.stop ≤ k.start ∨ k.stop ≤ m.start := by
  have hordered : n.children.Pairwise fun c d => c.stop ≤ d.start ∨ d.stop ≤ c.start :=
    (hn n (mem_all_self n)).ordered.imp Or.inl
  have hsymm : Std.Symm fun c d : Node => c.stop ≤ d.start ∨ d.stop ≤ c.start :=
    ⟨fun _ _ => Or.symm⟩
  have hapart := hordered.forall hc hd hne
  have hmc := (hn.of_mem_children hc).within hm
  have hkd := (hn.of_mem_children hd).within hk
  omega

/-- Two nodes of a tree, unless they are below the same child. -/
theorem cases_of_mem_all (hn : n.IsNested) (hm : m ∈ n.all) (hk : k ∈ n.all) :
    m = n ∨ k = n ∨ (∃ c ∈ n.children, m ∈ c.all ∧ k ∈ c.all) ∨
      m.stop ≤ k.start ∨ k.stop ≤ m.start := by
  rw [all_eq] at hm hk
  rcases List.mem_cons.mp hm with rfl | hm
  · exact Or.inl rfl
  · rcases List.mem_cons.mp hk with rfl | hk
    · exact Or.inr (Or.inl rfl)
    · obtain ⟨c, hc, hm⟩ := List.mem_flatMap.mp hm
      obtain ⟨d, hd, hk⟩ := List.mem_flatMap.mp hk
      by_cases hcd : c = d
      · subst hcd
        exact Or.inr (Or.inr (Or.inl ⟨c, hc, hm, hk⟩))
      · exact Or.inr (Or.inr (Or.inr (hn.apart hc hd hcd hm hk)))

theorem eq_of_mem_all_token (hn : n.IsToken) (hm : m ∈ n.all) : m = n := by
  rw [all_eq, hn.children] at hm
  exact List.mem_singleton.mp hm

/-- Two tokens are apart. -/
theorem eq_or_apart (hn : n.IsNested) (hm : m ∈ n.all) (hk : k ∈ n.all) (hmt : m.IsToken)
    (hkt : k.IsToken) : m = k ∨ m.stop ≤ k.start ∨ k.stop ≤ m.start := by
  induction n using induction with
  | step n ih =>
    rcases hn.cases_of_mem_all hm hk with rfl | rfl | ⟨c, hc, hmc, hkc⟩ | hapart
    · exact Or.inl (eq_of_mem_all_token hmt hk).symm
    · exact Or.inl (eq_of_mem_all_token hkt hm)
    · exact ih c hc (hn.of_mem_children hc) hmc hkc
    · exact Or.inr hapart

/-- A token is known by its span. -/
theorem eq_of_span_eq (hn : n.IsNested) (hm : m ∈ n.all) (hk : k ∈ n.all) (hmt : m.IsToken)
    (hkt : k.IsToken) (h : m.span = k.span) : m = k := by
  refine (hn.eq_or_apart hm hk hmt hkt).resolve_right fun hapart => ?_
  obtain ⟨hstart, hstop⟩ := Prod.mk.inj h
  have hlt := hmt.start_lt_stop
  omega

/-- No node begins or ends inside a token. -/
theorem offset_outside (hn : n.IsNested) (hm : m ∈ n.all) (hk : k ∈ n.all) (hmt : m.IsToken) :
    (k.start ≤ m.start ∨ m.stop ≤ k.start) ∧ (k.stop ≤ m.start ∨ m.stop ≤ k.stop) := by
  induction n using induction with
  | step n ih =>
    rcases hn.cases_of_mem_all hm hk with rfl | rfl | ⟨c, hc, hmc, hkc⟩ | hapart
    · rw [eq_of_mem_all_token hmt hk]
      omega
    · have hwithin := hn.within hm
      omega
    · exact ih c hc (hn.of_mem_children hc) hmc hkc
    · have hmle := (hn m hm).start_le_stop
      have hkle := (hn k hk).start_le_stop
      omega

/-- Nodes are listed in the order in which they begin, and each is apart from those listed before it
unless it is below one of them. -/
theorem pairwise_all (hn : n.IsNested) :
    n.all.Pairwise fun m k => m.start ≤ k.start ∧ (m.stop ≤ k.start ∨ k ∈ m.descendants) := by
  induction n using induction with
  | step n ih =>
    have hself : ∀ k ∈ n.descendants, n.start ≤ k.start ∧ (n.stop ≤ k.start ∨ k ∈ n.descendants) :=
      fun k hk => ⟨(hn.within (mem_all_of_mem_descendants hk)).1, Or.inr hk⟩
    rw [all_eq]
    refine List.pairwise_cons.mpr ⟨hself, List.pairwise_flatMap.mpr
      ⟨fun c hc => ih c hc (hn.of_mem_children hc), ?_⟩⟩
    refine (List.Pairwise.and_mem.mp (hn n (mem_all_self n)).ordered).imp fun h m hm k hk => ?_
    obtain ⟨hc, hd, hcd⟩ := h
    have hmc := (hn.of_mem_children hc).within hm
    have hkd := (hn.of_mem_children hd).within hk
    have hmle := (hn m (mem_all_of_mem_children hc hm)).start_le_stop
    omega

/-- Tokens are listed from left to right. -/
theorem pairwise_tokens (hn : n.IsNested) {p : Node → Bool}
    (hp : ∀ m ∈ n.all, p m = true → m.IsToken) :
    (n.all.filter p).Pairwise fun m k => m.stop ≤ k.start := by
  refine (List.Pairwise.and_mem.mp (hn.pairwise_all.filter p)).imp ?_
  rintro m k ⟨hm, -, -, hapart⟩
  obtain ⟨hmem, hpm⟩ := List.mem_filter.mp hm
  refine hapart.resolve_right fun hk => ?_
  rw [descendants, (hp m hmem hpm).children] at hk
  exact absurd hk List.not_mem_nil

end IsNested

end Node

/-! ## Where a name keeps its meaning -/

variable {name : Text} {n m c : Node}

/-- A token that is kept below a node is kept below the child in which it is. -/
theorem mem_kept_of_mem_flatMap (hn : n.IsNested) (hc : c ∈ n.children) (hm : m ∈ c.all)
    (htoken : m.IsToken) (h : m ∈ n.children.flatMap (kept name)) : m ∈ kept name c := by
  obtain ⟨d, hd, hkept⟩ := List.mem_flatMap.mp h
  by_cases hcd : c = d
  · rw [hcd]
    exact hkept
  · have hapart := hn.apart hc hd hcd hm (kept_subset_all name d hkept)
    have hlt := htoken.start_lt_stop
    omega

/-- A token is where a name keeps its meaning if and only if nothing that the token is in gives the
name another one. -/
theorem mem_kept_iff (hn : n.IsNested) (hm : m.IsToken) :
    m ∈ kept name n ↔ m ∈ n.all ∧ ∀ k ∈ n.all, m ∈ k.all → rebinds k name = false := by
  induction n using Node.induction with
  | step n ih =>
    constructor
    · intro h
      refine ⟨kept_subset_all name n h, fun k hk hmk => ?_⟩
      rw [kept_eq] at h
      split at h
      · exact absurd h List.not_mem_nil
      · rename_i hself
        rw [Node.all_eq] at hk
        rcases List.mem_cons.mp hk with rfl | hk
        · exact Bool.eq_false_iff.mpr hself
        · obtain ⟨c, hc, hk⟩ := List.mem_flatMap.mp hk
          have hmc := Node.mem_all_trans hk hmk
          rcases List.mem_cons.mp h with rfl | h
          · rw [hm.children] at hc
            exact absurd hc List.not_mem_nil
          · have hkept := mem_kept_of_mem_flatMap hn hc hmc hm h
            exact ((ih c hc (hn.of_mem_children hc)).mp hkept).2 k hk hmk
    · rintro ⟨hmem, hfree⟩
      rw [kept_eq, if_neg (Bool.eq_false_iff.mp (hfree n n.mem_all_self hmem))]
      rw [Node.all_eq] at hmem
      rcases List.mem_cons.mp hmem with rfl | hmem
      · exact List.mem_cons_self
      · obtain ⟨c, hc, hmc⟩ := List.mem_flatMap.mp hmem
        refine List.mem_cons_of_mem _ (List.mem_flatMap.mpr ⟨c, hc, ?_⟩)
        exact (ih c hc (hn.of_mem_children hc)).mpr
          ⟨hmc, fun k hk => hfree k (Node.mem_all_of_mem_children hc hk)⟩

/-- The same below a root. -/
theorem mem_walk_iff (hn : n.IsNested) (hm : m.IsToken) :
    m ∈ walk n name ↔
      m ∈ n.descendants ∧ ∀ k ∈ n.descendants, m ∈ k.all → rebinds k name = false := by
  rw [walk_eq]
  constructor
  · intro h
    obtain ⟨c, hc, hkept⟩ := List.mem_flatMap.mp h
    have hmc := kept_subset_all name c hkept
    refine ⟨List.mem_flatMap.mpr ⟨c, hc, hmc⟩, fun k hk hmk => ?_⟩
    obtain ⟨d, hd, hk⟩ := List.mem_flatMap.mp hk
    have hkept := mem_kept_of_mem_flatMap hn hd (Node.mem_all_trans hk hmk) hm h
    exact ((mem_kept_iff (hn.of_mem_children hd) hm).mp hkept).2 k hk hmk
  · rintro ⟨hmem, hfree⟩
    obtain ⟨c, hc, hmc⟩ := List.mem_flatMap.mp hmem
    refine List.mem_flatMap.mpr ⟨c, hc, (mem_kept_iff (hn.of_mem_children hc) hm).mpr ⟨hmc, ?_⟩⟩
    exact fun k hk => hfree k (List.mem_flatMap.mpr ⟨c, hc, hk⟩)

/-- The uses of a name stand one behind the other, if they are tokens. -/
theorem Node.IsNested.pairwise_references (hn : n.IsNested)
    (htokens : ∀ m ∈ n.all, isReference m name = true → m.IsToken) :
    (references n name).Pairwise fun m k => m.stop ≤ k.start :=
  (hn.pairwise_tokens htokens).sublist ((walk_sublist_all n name).filter _)

end Debundle.Script
