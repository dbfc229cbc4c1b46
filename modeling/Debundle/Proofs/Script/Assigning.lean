import Debundle.Proofs.Script.Binding
import Debundle.Proofs.Script.Descent

/-!
# Where a name is given a value

Which constructs give a name a value is said here form by form, as the language has it: assignments,
declarations, `++` and `--`, and the head of a loop over something, which assigns its target anew in
every turn.  The target may be a pattern, and it may stand in parentheses.

The search looks at assignments and declarations only, and there for a target that is nothing but
the name.  So it has the first place of those that it looks at, and the first place of all exactly
if no other one stands before it.

* `Forms`: what counts as a construct that gives a name a value, for the language and for the
  search.
* `Node.Targets`, `Node.Assigns`: targets, and the constructs that have one.
* `Node.Reaches`, `mem_walk_iff_reaches`: the nodes below a root where a name keeps its meaning.
* `Node.IsFirst`: the first place at which a name is given a value.
* `firstReassignment_isFirst`: what the search finds, and when this is the first place of all.
-/

namespace Debundle.Script

/-- What counts when it is read off a tree where a name is given a value. -/
structure Forms where
  /-- Whether a target gives a name a value. -/
  target : Node → Text → Prop
  /-- Whether `++` and `--` count. -/
  updates : Bool
  /-- Whether the head of a loop over something counts. -/
  loopHeads : Bool

namespace Node

/-! ## The rule -/

/-- A target gives a name a value: it is a pattern that has the name, perhaps in parentheses. -/
inductive Targets : Node → Text → Prop where
  | pattern {p : Node} {name : Text} (h : p.Binds .language name) : Targets p name
  | parentheses {n p : Node} {name : Text} (hn : n.kind = .parenthesizedExpression)
      (hp : p ∈ n.parts) (h : Targets p name) : Targets n name

end Node

namespace Forms

/-- The language. -/
def language : Forms where
  target := Node.Targets
  updates := true
  loopHeads := true

/-- What is looked at. -/
def search : Forms where
  target p name := p.kind = .identifier ∧ p.text = name
  updates := false
  loopHeads := false

end Forms

namespace Node

/-- A construct gives a name a value. -/
inductive Assigns (F : Forms) (n : Node) (name : Text) : Prop where
  /-- An assignment, plain or compound. -/
  | assignment {p : Node}
      (hn : n.kind = .assignmentExpression ∨ n.kind = .augmentedAssignmentExpression)
      (hp : n.part? .left = some p) (h : F.target p name)
  /-- A declaration of variables. -/
  | declarator {p : Node} (hn : n.kind = .variableDeclarator) (hp : n.part? .name = some p)
      (h : F.target p name)
  /-- A declaration of a function or a class. -/
  | declaration {p : Node} (hn : n.kind.isNamedDeclaration = true) (hp : n.part? .name = some p)
      (h : F.target p name)
  /-- An increment or a decrement. -/
  | update {p : Node} (hF : F.updates = true) (hn : n.kind = .updateExpression)
      (hp : n.part? .argument = some p) (h : F.target p name)
  /-- A loop over something. -/
  | loop {p : Node} (hF : F.loopHeads = true) (hn : n.kind = .forInStatement)
      (hp : n.part? .left = some p) (h : F.target p name)

/-- A node stands below another one, and neither it nor a node between the two rebinds a name. -/
inductive Reaches (name : Text) : Node → Node → Prop where
  | child {n c : Node} (hc : c ∈ n.children) (hfree : rebinds c name = false) : Reaches name n c
  | descend {n c d : Node} (hc : c ∈ n.children) (hfree : rebinds c name = false)
      (hd : Reaches name c d) : Reaches name n d

/-- An offset, if there is any, at which the first construct begins that gives a name a value below
a root. -/
def IsFirst (F : Forms) (root : Node) (name : Text) : Option Nat → Prop
  | some k =>
    (∃ n, Reaches name root n ∧ n.Assigns F name ∧ n.start = k) ∧
      ∀ n, Reaches name root n → n.Assigns F name → k ≤ n.start
  | none => ∀ n, Reaches name root n → ¬n.Assigns F name

variable {n m d root p : Node} {name : Text}

theorem Assigns.language (h : n.Assigns .search name) : n.Assigns .language name := by
  have htarget : ∀ {p : Node}, p.kind = .identifier ∧ p.text = name → p.Targets name := by
    rintro p ⟨hkind, rfl⟩
    exact .pattern (.name (by rw [hkind]; rfl))
  cases h with
  | assignment hn hp h => exact .assignment hn hp (htarget h)
  | declarator hn hp h => exact .declarator hn hp (htarget h)
  | declaration hn hp h => exact .declaration hn hp (htarget h)
  | update hF => exact absurd hF Bool.false_ne_true
  | loop hF => exact absurd hF Bool.false_ne_true

/-! ## The search -/

theorem mem_kept_iff_reaches :
    d ∈ kept name n ↔ rebinds n name = false ∧ (d = n ∨ Reaches name n d) := by
  induction n using induction with
  | step n ih =>
    rw [kept_eq]
    cases hfree : rebinds n name with
    | true => simp
    | false =>
      rw [if_neg Bool.false_ne_true, List.mem_cons, List.mem_flatMap, eq_self_iff_true, true_and]
      refine or_congr_right ⟨?_, fun h => ?_⟩
      · rintro ⟨c, hc, hd⟩
        obtain ⟨hfree, rfl | hd⟩ := (ih c hc).mp hd
        · exact .child hc hfree
        · exact .descend hc hfree hd
      · cases h with
        | child hc hfree => exact ⟨d, hc, (ih d hc).mpr ⟨hfree, Or.inl rfl⟩⟩
        | @descend _ c _ hc hfree hd => exact ⟨c, hc, (ih c hc).mpr ⟨hfree, Or.inr hd⟩⟩

/-- The nodes at which the walk arrives. -/
theorem mem_walk_iff_reaches : d ∈ walk root name ↔ Reaches name root d := by
  rw [walk_eq, List.mem_flatMap]
  constructor
  · rintro ⟨c, hc, hd⟩
    obtain ⟨hfree, rfl | hd⟩ := mem_kept_iff_reaches.mp hd
    · exact .child hc hfree
    · exact .descend hc hfree hd
  · intro h
    cases h with
    | child hc hfree => exact ⟨d, hc, mem_kept_iff_reaches.mpr ⟨hfree, Or.inl rfl⟩⟩
    | @descend _ c _ hc hfree hd => exact ⟨c, hc, mem_kept_iff_reaches.mpr ⟨hfree, Or.inr hd⟩⟩

/-- The targets that are looked at. -/
theorem target?_eq_some_iff :
    n.target? = some p ↔
      (n.kind = .assignmentExpression ∨ n.kind = .augmentedAssignmentExpression) ∧
          n.part? .left = some p ∨
        n.kind = .variableDeclarator ∧ n.part? .name = some p ∨
          n.kind.isNamedDeclaration = true ∧ n.part? .name = some p := by
  unfold target?
  cases n.kind <;> simp [Kind.isNamedDeclaration]

/-- What is found at a node. -/
theorem bindingTarget?_isSome_iff :
    (bindingTarget? n name).isSome = true ↔ n.Assigns .search name := by
  rw [bindingTarget?, Option.isSome_iff_exists]
  simp only [Option.filter_eq_some_iff, Bool.and_eq_true, beq_iff_eq]
  constructor
  · rintro ⟨p, hp, h⟩
    obtain ⟨hn, hp⟩ | ⟨hn, hp⟩ | ⟨hn, hp⟩ := target?_eq_some_iff.mp hp
    · exact .assignment hn hp h
    · exact .declarator hn hp h
    · exact .declaration hn hp h
  · intro h
    cases h with
    | assignment hn hp h => exact ⟨_, target?_eq_some_iff.mpr (Or.inl ⟨hn, hp⟩), h⟩
    | declarator hn hp h => exact ⟨_, target?_eq_some_iff.mpr (Or.inr (Or.inl ⟨hn, hp⟩)), h⟩
    | declaration hn hp h => exact ⟨_, target?_eq_some_iff.mpr (Or.inr (Or.inr ⟨hn, hp⟩)), h⟩
    | update hF => exact absurd hF Bool.false_ne_true
    | loop hF => exact absurd hF Bool.false_ne_true

theorem mem_bindingSites_iff :
    n ∈ bindingSites root name ↔ Reaches name root n ∧ n.Assigns .search name := by
  rw [bindingSites, List.mem_filter, mem_walk_iff_reaches, bindingTarget?_isSome_iff]

/-- The first place is found among those that are looked at. -/
theorem isFirst_search (root : Node) (name : Text) :
    IsFirst .search root name (firstReassignment root name) := by
  cases hfirst : firstReassignment root name with
  | none =>
    intro n hreach hassigns
    have hmem := mem_bindingSites_iff.mpr ⟨hreach, hassigns⟩
    rw [firstReassignment, List.min?_eq_none_iff, List.map_eq_nil_iff] at hfirst
    exact absurd hmem (hfirst ▸ List.not_mem_nil)
  | some k =>
    obtain ⟨hk, hle⟩ := List.min?_eq_some_iff.mp hfirst
    obtain ⟨n, hn, hstart⟩ := List.mem_map.mp hk
    obtain ⟨hreach, hassigns⟩ := mem_bindingSites_iff.mp hn
    refine ⟨⟨n, hreach, hassigns, hstart⟩, fun m hreach hassigns => ?_⟩
    exact hle _ (List.mem_map_of_mem (mem_bindingSites_iff.mpr ⟨hreach, hassigns⟩))

/-- A first place of those that are looked at is the first of all if none stands before it that is
passed over. -/
theorem IsFirst.language_iff {first : Option Nat} (h : IsFirst .search root name first) :
    IsFirst .language root name first ↔
      ∀ n, Reaches name root n → n.Assigns .language name →
        ∃ m, Reaches name root m ∧ m.Assigns .search name ∧ m.start ≤ n.start := by
  cases first with
  | none =>
    constructor
    · exact fun hnone n hreach hassigns => absurd hassigns (hnone n hreach)
    · intro hall n hreach hassigns
      obtain ⟨m, hm, hfound, -⟩ := hall n hreach hassigns
      exact h m hm hfound
  | some k =>
    obtain ⟨⟨m, hm, hfound, hstart⟩, hleast⟩ := h
    constructor
    · rintro ⟨-, hle⟩ n hreach hassigns
      exact ⟨m, hm, hfound, hstart.trans_le (hle n hreach hassigns)⟩
    · refine fun hall => ⟨⟨m, hm, hfound.language, hstart⟩, fun n hreach hassigns => ?_⟩
      obtain ⟨l, hl, hfound, hle⟩ := hall n hreach hassigns
      exact (hleast l hl hfound).trans hle

end Node

/-! ## What is passed over -/

/-- For every tree and every name: the offset that is found is where the first of those constructs
begins that are looked at, and none is found exactly if there is no such construct.  So it is where
the first construct of all begins that gives the name a value exactly if each one that is passed
over has one that is looked at at the same place or before it.  Passed over are `++` and `--`, loops
over something, and targets that are patterns, that stand in parentheses, or that are the word
`undefined`. -/
theorem firstReassignment_isFirst (root : Node) (name : Text) :
    root.IsFirst .search name (firstReassignment root name) ∧
      (root.IsFirst .language name (firstReassignment root name) ↔
        ∀ n, Node.Reaches name root n → n.Assigns .language name →
          ∃ m, Node.Reaches name root m ∧ m.Assigns .search name ∧ m.start ≤ n.start) :=
  ⟨Node.isFirst_search root name, (Node.isFirst_search root name).language_iff⟩

/-- A script that only counts up. -/
def counter : Text := "x++"

set_option maxRecDepth 100000 in
/-- The increment is not found. -/
theorem counter_not_found :
    ¬∀ (text : Text) (source : Source) (name : Text), Source.parse text = .ok source →
      source.root.IsFirst .language name (firstReassignment source.root name) := by
  intro hall
  have h : ((Source.parse counter).toOption.any fun source : Source =>
      decide (firstReassignment source.root "x" = none ∧
        ∃ n ∈ walk source.root "x", n.kind = .updateExpression ∧
          ∃ p ∈ n.part? .argument, p.kind = .identifier ∧ p.text = "x")) = true := by
    decide +kernel
  obtain ⟨source, hparse, h⟩ := exists_of_toOption_any h
  obtain ⟨hnone, n, hn, hkind, p, hp, hname, htext⟩ := of_decide_eq_true h
  have hfirst := hall counter source "x" hparse
  rw [hnone] at hfirst
  refine hfirst n (Node.mem_walk_iff_reaches.mp hn) (.update rfl hkind hp (.pattern ?_))
  rw [← htext]
  exact .name (by rw [hname]; rfl)

end Debundle.Script
