import Debundle.Script.Scope
import Mathlib.Data.List.Basic
import Mathlib.Data.List.Flatten

/-!
# Below a node

Everything that the analyses look at is found by going down from a node: a child in a role, what
stands in parentheses, the places where a name keeps its meaning.

* `Node.induction`: what holds of a node if it holds of its children holds of every node.
* `Node.all_eq`, `Node.size_eq`, `Node.unwrap_eq`: the recursive functions on trees, one level at a
  time.
* `kept`: a node and what is below it, as far as a name keeps its meaning.
* `walk_eq`: working off a stack gives these nodes, parents before children.
-/

namespace Debundle.Script

namespace Node

variable {n m c : Node}

/-- What holds of a node if it holds of its children holds of every node. -/
theorem induction {P : Node → Prop} (step : ∀ n, (∀ c ∈ n.children, P c) → P n) (n : Node) : P n :=
  @Node.rec P (fun cs => ∀ c ∈ cs, P c)
    (fun kind role start stop text children h =>
      step ⟨kind, role, start, stop, text, children⟩ h)
    (fun _ h => absurd h List.not_mem_nil)
    (fun _ _ hc hcs => List.forall_mem_cons.mpr ⟨hc, hcs⟩) n

/-! ## All nodes -/

theorem all_eq (n : Node) : n.all = n :: n.children.flatMap all := by
  have hlist : ∀ cs : List Node, all.allOf cs = cs.flatMap all := by
    intro cs
    induction cs with
    | nil => rfl
    | cons c cs ih => rw [all.allOf, ih, List.flatMap_cons]
  cases n
  rw [all, hlist]

theorem mem_all_self (n : Node) : n ∈ n.all := by
  rw [all_eq]
  exact List.mem_cons_self

theorem mem_all_of_mem_children (hc : c ∈ n.children) (hm : m ∈ c.all) : m ∈ n.all := by
  rw [all_eq]
  exact List.mem_cons_of_mem _ (List.mem_flatMap_of_mem hc hm)

theorem mem_all_trans (hm : m ∈ n.all) {k : Node} (hk : k ∈ m.all) : k ∈ n.all := by
  induction n using induction with
  | step n ih =>
    rw [all_eq] at hm
    rcases List.mem_cons.mp hm with rfl | hm
    · exact hk
    · obtain ⟨c, hc, hm⟩ := List.mem_flatMap.mp hm
      exact mem_all_of_mem_children hc (ih c hc hm)

theorem size_eq (n : Node) : n.size = size.sizeOf n.children + 1 := by
  cases n
  rw [size]

theorem sizeOf_append (cs ds : List Node) :
    size.sizeOf (cs ++ ds) = size.sizeOf cs + size.sizeOf ds := by
  induction cs with
  | nil => rw [List.nil_append, size.sizeOf, Nat.zero_add]
  | cons c cs ih => rw [List.cons_append, size.sizeOf, size.sizeOf, ih, Nat.add_assoc]

/-! ## Parts -/

theorem mem_children_of_part? {role : Role} (h : n.part? role = some c) : c ∈ n.children :=
  List.mem_of_find?_eq_some h

theorem mem_children_of_mem_parts (h : c ∈ n.parts) : c ∈ n.children := List.mem_of_mem_filter h

theorem unwrapOnly_eq (cs : List Node) :
    unwrap.unwrapOnly cs =
      match cs.filter isPart with
      | [c] => some c.unwrap
      | _ => none := by
  induction cs with
  | nil => rfl
  | cons c cs ih =>
    rw [unwrap.unwrapOnly]
    by_cases hc : c.isPart = true
    · rw [if_pos hc, List.filter_cons_of_pos hc]
      cases hcs : cs.filter isPart with
      | nil =>
        have hnone : cs.any isPart = false := by
          simpa [List.filter_eq_nil_iff] using hcs
        rw [hnone, if_neg Bool.false_ne_true]
      | cons d ds =>
        have hsome : cs.any isPart = true := by
          have hd : d ∈ cs.filter isPart := hcs ▸ List.mem_cons_self
          exact List.any_eq_true.mpr ⟨d, List.mem_filter.mp hd⟩
        rw [hsome, if_pos rfl]
    · rw [if_neg hc, List.filter_cons_of_neg hc, ih]

/-- Parentheses around one part are taken off. -/
theorem unwrap_eq (n : Node) :
    n.unwrap =
      if n.kind == .parenthesizedExpression then
        match n.parts with
        | [c] => c.unwrap
        | _ => n
      else n := by
  have hstep : n.unwrap =
      if n.kind == .parenthesizedExpression then (unwrap.unwrapOnly n.children).getD n else n := by
    cases n
    rw [unwrap]
  rw [hstep, unwrapOnly_eq, parts]
  rcases n.children.filter isPart with _ | ⟨c, _ | _⟩ <;> rfl

theorem unwrap_mem_all (n : Node) : n.unwrap ∈ n.all := by
  induction n using induction with
  | step n ih =>
    rw [unwrap_eq]
    split
    · split
      · rename_i c hparts
        have hpart : c ∈ n.parts := hparts ▸ List.mem_cons_self
        have hc := mem_children_of_mem_parts hpart
        exact mem_all_of_mem_children hc (ih c hc)
      · exact mem_all_self n
    · exact mem_all_self n

theorem mem_all_of_expression? (h : n.expression? = some m) : m ∈ n.all := by
  obtain ⟨c, hc, rfl⟩ := Option.map_eq_some_iff.mp h
  exact mem_all_of_mem_children (mem_children_of_mem_parts (List.mem_of_head? hc))
    (unwrap_mem_all c)

theorem mem_all_of_part? {role : Role} (h : n.part? role = some m) : m ∈ n.all :=
  mem_all_of_mem_children (mem_children_of_part? h) (mem_all_self m)

end Node

/-! ## Where a name keeps its meaning -/

/-- A node and what is below it, as far as a name keeps the meaning that it has above the node;
parents before children. -/
def kept (name : Text) : Node → List Node
  | ⟨kind, role, start, stop, text, children⟩ =>
    let self : Node := ⟨kind, role, start, stop, text, children⟩
    if rebinds self name then [] else self :: keptIn children
where
  /-- The same for a list of trees. -/
  keptIn : List Node → List Node
    | [] => []
    | c :: cs => kept name c ++ keptIn cs

variable {name : Text} {n m : Node}

theorem kept_eq (name : Text) (n : Node) :
    kept name n = if rebinds n name then [] else n :: n.children.flatMap (kept name) := by
  have hlist : ∀ cs : List Node, kept.keptIn name cs = cs.flatMap (kept name) := by
    intro cs
    induction cs with
    | nil => rfl
    | cons c cs ih => rw [kept.keptIn, ih, List.flatMap_cons]
  cases n
  rw [kept, hlist]

theorem kept_sublist_all (name : Text) (n : Node) : (kept name n).Sublist n.all := by
  induction n using Node.induction with
  | step n ih =>
    rw [kept_eq, Node.all_eq]
    split
    · exact List.nil_sublist _
    · exact (List.Sublist.flatMap_right n.children ih).cons_cons n

theorem kept_subset_all (name : Text) (n : Node) : kept name n ⊆ n.all :=
  (kept_sublist_all name n).subset

/-- Working off a stack gives what is kept of each node on it, if there is time for all nodes. -/
theorem walkStack_eq (name : Text) {fuel : Nat} {stack : List Node}
    (h : Node.size.sizeOf stack ≤ fuel) :
    walkStack name fuel stack = stack.flatMap (kept name) := by
  induction fuel generalizing stack with
  | zero =>
    cases stack with
    | nil => rfl
    | cons n stack =>
      rw [Node.size.sizeOf, Node.size_eq] at h
      omega
  | succ fuel ih =>
    cases stack with
    | nil => rfl
    | cons n stack =>
      rw [Node.size.sizeOf, Node.size_eq] at h
      rw [walkStack, List.flatMap_cons, kept_eq]
      split
      · rw [ih (by omega), List.nil_append]
      · have hstack : Node.size.sizeOf (n.children ++ stack) ≤ fuel := by
          rw [Node.sizeOf_append]
          omega
        rw [ih hstack, List.flatMap_append, List.cons_append]

/-- The nodes below a root where a name keeps its meaning. -/
theorem walk_eq (root : Node) (name : Text) :
    walk root name = root.children.flatMap (kept name) := by
  refine walkStack_eq name ?_
  rw [Node.size_eq]
  omega

theorem walk_sublist_all (root : Node) (name : Text) : (walk root name).Sublist root.all := by
  rw [walk_eq, Node.all_eq]
  exact (List.Sublist.flatMap_right root.children fun c _ => kept_sublist_all name c).cons root

theorem mem_all_of_mem_walk {root : Node} (h : m ∈ walk root name) : m ∈ root.all :=
  (walk_sublist_all root name).subset h

/-- A child of a node at which a name keeps its meaning is such a node, unless it rebinds the
name. -/
theorem mem_kept_of_mem_children {c : Node} (hm : m ∈ kept name n) (hc : c ∈ m.children)
    (hfree : rebinds c name = false) : c ∈ kept name n := by
  induction n using Node.induction with
  | step n ih =>
    rw [kept_eq] at hm ⊢
    split at hm
    · exact absurd hm List.not_mem_nil
    · rename_i hself
      rw [if_neg hself]
      refine List.mem_cons_of_mem n (List.mem_flatMap.mpr ?_)
      rcases List.mem_cons.mp hm with rfl | hm
      · exact ⟨c, hc, by rw [kept_eq, hfree]; exact List.mem_cons_self⟩
      · obtain ⟨d, hd, hm⟩ := List.mem_flatMap.mp hm
        exact ⟨d, hd, ih d hd hm⟩

theorem mem_walk_of_mem_children {root c : Node} (hm : m ∈ walk root name) (hc : c ∈ m.children)
    (hfree : rebinds c name = false) : c ∈ walk root name := by
  rw [walk_eq] at hm ⊢
  obtain ⟨d, hd, hm⟩ := List.mem_flatMap.mp hm
  exact List.mem_flatMap.mpr ⟨d, hd, mem_kept_of_mem_children hm hc hfree⟩

theorem mem_all_of_mem_references {root : Node} (h : m ∈ references root name) : m ∈ root.all :=
  mem_all_of_mem_walk (List.mem_of_mem_filter h)

end Debundle.Script
