import Debundle.Proofs.Script.Nesting
import Debundle.Proofs.Script.Source
import Mathlib.Data.List.Lex

/-!
# Addresses

Equal nodes may stand at several places of a tree, so a place is known by the way that leads to it:
the indices of the children on the way down from the root.  In the lexicographic order of these
addresses a node comes before everything below it, and what is below one child before what is below
the next one.

The nodes at which a name keeps its meaning are found by working off a stack.  Said by addresses,
they are the nodes to which there is a way without a node that gives the name another meaning, each
of them once, in the order of the addresses.

* `Node.at?`: the node at an address.
* `KeepsBelow`, `KeepsFrom`: nothing on the way to an address rebinds a name.
* `keptAddresses`: the addresses of what is kept of a node; `map_at?_keptAddresses`,
  `mem_keptAddresses` and `pairwise_keptAddresses` say what stands there, which ones these are and
  in which order they come.
* `walk_addresses`: the nodes below a root where a name keeps its meaning, and its references.
-/

namespace Debundle.Script

/-! ## The node at an address -/

/-- The node at an address: the indices of the children on the way down to it. -/
def Node.at? (n : Node) : List Nat → Option Node
  | [] => some n
  | i :: address => n.children[i]?.bind fun c => c.at? address

theorem Node.at?_cons_eq_some_iff {n m : Node} {i : Nat} {address : List Nat} :
    n.at? (i :: address) = some m ↔ ∃ c, n.children[i]? = some c ∧ c.at? address = some m := by
  rw [at?, Option.bind_eq_some_iff]

/-- On the way from a node to an address below it nothing rebinds a name; the end of the way counts,
the node itself does not. -/
def KeepsBelow (name : Text) (n : Node) (address : List Nat) : Prop :=
  ∀ way, way <+: address → way ≠ [] → ∀ m, n.at? way = some m → rebinds m name = false

/-- The same with the node itself. -/
def KeepsFrom (name : Text) (n : Node) (address : List Nat) : Prop :=
  rebinds n name = false ∧ KeepsBelow name n address

variable {name : Text} {n c : Node} {i : Nat} {address : List Nat}

theorem keepsBelow_nil : KeepsBelow name n [] := fun _ hway hne =>
  absurd (List.prefix_nil.mp hway) hne

/-- Below a node the way to an address goes on from a child. -/
theorem keepsBelow_cons (hc : n.children[i]? = some c) :
    KeepsBelow name n (i :: address) ↔ KeepsFrom name c address := by
  constructor
  · intro h
    have hstep : ∀ way, way <+: address → ∀ m, c.at? way = some m → rebinds m name = false :=
      fun way hway m hm => h (i :: way) (List.cons_prefix_cons.mpr ⟨rfl, hway⟩)
        (List.cons_ne_nil i way) m (Node.at?_cons_eq_some_iff.mpr ⟨c, hc, hm⟩)
    exact ⟨hstep [] List.nil_prefix c rfl, fun way hway _ => hstep way hway⟩
  · rintro ⟨hchild, hbelow⟩ way hway hne m hm
    rcases List.prefix_cons_iff.mp hway with rfl | ⟨rest, rfl, hrest⟩
    · exact absurd rfl hne
    · obtain ⟨d, hd, hm⟩ := Node.at?_cons_eq_some_iff.mp hm
      obtain rfl : d = c := Option.some.inj (hd.symm.trans hc)
      rcases eq_or_ne rest [] with rfl | hne
      · rw [← Option.some.inj hm]
        exact hchild
      · exact hbelow rest hrest hne m hm

/-! ## The addresses of what is kept -/

/-- The addresses, from a node on, at which a name keeps the meaning that it has above the node;
parents before children. -/
def keptAddresses (name : Text) : Node → List (List Nat)
  | ⟨kind, role, start, stop, text, children⟩ =>
    let self : Node := ⟨kind, role, start, stop, text, children⟩
    if rebinds self name then [] else [] :: keptFrom 0 children
where
  /-- The same for a list of children, the first of which has an index. -/
  keptFrom (i : Nat) : List Node → List (List Nat)
    | [] => []
    | c :: cs => (keptAddresses name c).map (i :: ·) ++ keptFrom (i + 1) cs

/-- The addresses below a node at which a name keeps the meaning that it has at the node. -/
def addressesBelow (name : Text) (n : Node) : List (List Nat) :=
  n.children.zipIdx.flatMap fun child => (keptAddresses name child.1).map (child.2 :: ·)

theorem keptAddresses_eq (name : Text) (n : Node) :
    keptAddresses name n = if rebinds n name then [] else [] :: addressesBelow name n := by
  have hlist : ∀ (cs : List Node) (i : Nat), keptAddresses.keptFrom name i cs =
      (cs.zipIdx i).flatMap fun child => (keptAddresses name child.1).map (child.2 :: ·) := by
    intro cs
    induction cs with
    | nil => exact fun _ => rfl
    | cons c cs ih =>
      intro i
      rw [keptAddresses.keptFrom, ih, List.zipIdx_cons, List.flatMap_cons]
  cases n
  rw [keptAddresses, hlist]
  rfl

theorem mem_addressesBelow : address ∈ addressesBelow name n ↔
    ∃ i c rest, address = i :: rest ∧ n.children[i]? = some c ∧ rest ∈ keptAddresses name c := by
  rw [addressesBelow, List.mem_flatMap]
  constructor
  · rintro ⟨⟨c, i⟩, hc, haddress⟩
    obtain ⟨rest, hrest, rfl⟩ := List.mem_map.mp haddress
    exact ⟨i, c, rest, rfl, List.mem_zipIdx_iff_getElem?.mp hc, hrest⟩
  · rintro ⟨i, c, rest, rfl, hc, hrest⟩
    exact ⟨(c, i), List.mem_zipIdx_iff_getElem?.mpr hc, List.mem_map_of_mem hrest⟩

/-- Addresses are kept below a node if they are on from its children. -/
theorem map_at?_addressesBelow
    (h : ∀ c ∈ n.children, (keptAddresses name c).map c.at? = (kept name c).map some) :
    (addressesBelow name n).map n.at? = (n.children.flatMap (kept name)).map some := by
  have hchild : ∀ child ∈ n.children.zipIdx,
      ((keptAddresses name child.1).map (child.2 :: ·)).map n.at? =
        (kept name child.1).map some := by
    rintro ⟨c, i⟩ hc
    have hget : n.children[i]? = some c := List.mem_zipIdx_iff_getElem?.mp hc
    rw [← h c (List.mem_of_getElem? hget), List.map_map]
    refine List.map_congr_left fun rest _ => ?_
    rw [Function.comp_apply, Node.at?, hget, Option.bind_some]
  have hzip : n.children.flatMap (kept name) =
      n.children.zipIdx.flatMap fun child => kept name child.1 := by
    conv_lhs => rw [← List.zipIdx_map_fst 0 n.children, List.flatMap_map]
  rw [addressesBelow, List.map_flatMap, hzip, List.map_flatMap]
  exact List.flatMap_congr hchild

/-- What stands at these addresses is what is kept. -/
theorem map_at?_keptAddresses (name : Text) (n : Node) :
    (keptAddresses name n).map n.at? = (kept name n).map some := by
  induction n using Node.induction with
  | step n ih =>
    rw [keptAddresses_eq, kept_eq]
    split
    · rfl
    · rw [List.map_cons, List.map_cons, map_at?_addressesBelow ih]
      rfl

/-- Below a node the addresses go on from its children. -/
theorem mem_addressesBelow_iff (h : ∀ c ∈ n.children, ∀ address,
      address ∈ keptAddresses name c ↔ (c.at? address).isSome ∧ KeepsFrom name c address) :
    address ∈ addressesBelow name n ↔
      address ≠ [] ∧ (n.at? address).isSome ∧ KeepsBelow name n address := by
  rw [mem_addressesBelow]
  constructor
  · rintro ⟨i, c, rest, rfl, hc, hrest⟩
    obtain ⟨hsome, hkeeps⟩ := (h c (List.mem_of_getElem? hc) rest).mp hrest
    refine ⟨List.cons_ne_nil i rest, ?_, (keepsBelow_cons hc).mpr hkeeps⟩
    rw [Node.at?, hc, Option.bind_some]
    exact hsome
  · rintro ⟨hne, hsome, hkeeps⟩
    obtain ⟨i, rest, rfl⟩ := List.exists_cons_of_ne_nil hne
    obtain ⟨m, hm⟩ := Option.isSome_iff_exists.mp hsome
    obtain ⟨c, hc, hm⟩ := Node.at?_cons_eq_some_iff.mp hm
    exact ⟨i, c, rest, rfl, hc, (h c (List.mem_of_getElem? hc) rest).mpr
      ⟨Option.isSome_iff_exists.mpr ⟨m, hm⟩, (keepsBelow_cons hc).mp hkeeps⟩⟩

/-- The addresses are those to which there is a way where the name keeps its meaning. -/
theorem mem_keptAddresses :
    address ∈ keptAddresses name n ↔ (n.at? address).isSome ∧ KeepsFrom name n address := by
  induction n using Node.induction generalizing address with
  | step n ih =>
    have hbelow : address ∈ addressesBelow name n ↔
        address ≠ [] ∧ (n.at? address).isSome ∧ KeepsBelow name n address :=
      mem_addressesBelow_iff fun c hc _ => ih c hc
    rw [keptAddresses_eq, KeepsFrom]
    cases rebinds n name with
    | true => simp
    | false =>
      rw [if_neg Bool.false_ne_true, List.mem_cons, hbelow]
      rcases eq_or_ne address [] with rfl | hne
      · simp [Node.at?, keepsBelow_nil]
      · simp [hne]

/-- Below a node, what is below one child comes before what is below the next one. -/
theorem pairwise_addressesBelow
    (h : ∀ c ∈ n.children, (keptAddresses name c).Pairwise (· < ·)) :
    (addressesBelow name n).Pairwise (· < ·) := by
  rw [addressesBelow, List.pairwise_flatMap]
  constructor
  · rintro ⟨c, i⟩ hc
    have hmem : c ∈ n.children := List.mem_of_getElem? (List.mem_zipIdx_iff_getElem?.mp hc)
    exact List.pairwise_map.mpr ((h c hmem).imp fun hlt =>
      List.cons_lt_cons_iff.mpr (Or.inr ⟨rfl, hlt⟩))
  · have hindices : n.children.zipIdx.Pairwise fun a b => a.2 < b.2 := by
      rw [← List.pairwise_map, List.zipIdx_map_snd]
      exact List.pairwise_lt_range'
    refine hindices.imp fun hlt x hx y hy => ?_
    obtain ⟨rest, -, rfl⟩ := List.mem_map.mp hx
    obtain ⟨rest', -, rfl⟩ := List.mem_map.mp hy
    exact List.cons_lt_cons_iff.mpr (Or.inl hlt)

/-- The addresses are in order, so none of them comes twice. -/
theorem pairwise_keptAddresses (name : Text) (n : Node) :
    (keptAddresses name n).Pairwise (· < ·) := by
  induction n using Node.induction with
  | step n ih =>
    rw [keptAddresses_eq]
    split
    · exact List.Pairwise.nil
    · refine List.pairwise_cons.mpr ⟨fun address haddress => ?_, pairwise_addressesBelow ih⟩
      obtain ⟨i, c, rest, rfl, -, -⟩ := mem_addressesBelow.mp haddress
      exact List.nil_lt_cons i rest

/-! ## Working off the stack -/

/-- Below a root the nodes where a name keeps its meaning stand at exactly the addresses to which
there is a way without a node that rebinds the name, and they come in the order of these addresses.
More steps than there are nodes find nothing more.  If everything is nested, the uses of the name
come in the order in which they begin, and two of them are apart unless one is below the other; as
they are leaves that are not empty, each stands behind those before it. -/
theorem walk_addresses (root : Node) (name : Text) :
    (∃ addresses : List (List Nat),
      (walk root name).map some = addresses.map root.at? ∧
      addresses.Pairwise (· < ·) ∧
      ∀ address, address ∈ addresses ↔
        address ≠ [] ∧ (root.at? address).isSome ∧ KeepsBelow name root address) ∧
    (∀ steps, root.size ≤ steps → walkStack name steps root.children = walk root name) ∧
    (root.IsNested →
      ((references root name).Pairwise fun m k =>
        m.start ≤ k.start ∧ (m.stop ≤ k.start ∨ k ∈ m.descendants)) ∧
      ((∀ m ∈ root.all, isReference m name = true → m.IsToken) →
        (references root name).Pairwise fun m k => m.start < k.start ∧ m.stop ≤ k.start)) := by
  refine ⟨⟨addressesBelow name root, ?_, ?_, fun address => ?_⟩, fun steps hsteps => ?_,
    fun hroot => ⟨?_, fun htokens => ?_⟩⟩
  · rw [walk_eq, map_at?_addressesBelow fun c _ => map_at?_keptAddresses name c]
  · exact pairwise_addressesBelow fun c _ => pairwise_keptAddresses name c
  · exact mem_addressesBelow_iff fun c _ _ => mem_keptAddresses
  · rw [walk_eq]
    rw [Node.size_eq] at hsteps
    exact walkStack_eq name (by omega)
  · exact hroot.pairwise_all.sublist (List.filter_sublist.trans (walk_sublist_all root name))
  · refine (List.Pairwise.and_mem.mp (hroot.pairwise_references htokens)).imp ?_
    rintro m k ⟨hm, -, hmk⟩
    have hlt := (htokens m (mem_all_of_mem_references hm) (List.mem_filter.mp hm).2).start_lt_stop
    exact ⟨by omega, hmk⟩

set_option maxRecDepth 100000 in
/-- In a script with a function that has a parameter of the same name, the uses outside of the
function are found, from left to right. -/
theorem walk_addresses_shadowed :
    ∃ source, Source.parse "a(function(a)\x7ba\x7d,\x7ba\x7d)" = .ok source ∧
      source.root.IsNested ∧
      (∀ m ∈ source.root.all, isReference m "a" = true → m.IsToken) ∧
      (references source.root "a").map Node.span = [(0, 1), (18, 19)] ∧
      (references source.root "a").Pairwise fun m k => m.start < k.start ∧ m.stop ≤ k.start := by
  have h : ((Source.parse "a(function(a)\x7ba\x7d,\x7ba\x7d)").toOption.any fun source =>
      decide (source.root.IsNested ∧
        (∀ m ∈ source.root.all, isReference m "a" = true → m.IsToken) ∧
        (references source.root "a").map Node.span = [(0, 1), (18, 19)])) = true := by
    decide +kernel
  obtain ⟨source, hparse, h⟩ := exists_of_toOption_any h
  obtain ⟨hnested, htokens, hspans⟩ := of_decide_eq_true h
  exact ⟨source, hparse, hnested, htokens, hspans,
    ((walk_addresses source.root "a").2.2 hnested).2 htokens⟩

end Debundle.Script
