import Debundle.Proofs.Forest.Adoption
import Debundle.Proofs.Path.Components
import Mathlib.Data.List.DropRight
import Mathlib.Logic.Function.Iterate

/-!
# Where modules really are

The require paths of a bundle come from files that were somewhere.  A layout gives every module
its real location, and thereby a place to every item of the forest: the directory that is made for
an item is one level above it.  Nothing keeps a forest from growing levels above the real root, so
places go on above it.

A forest is faithful to a layout if its links lead from places to the places above them and its
settled names are those of the layout.  Then all directories that are ever merged are at one place,
no item is ever above its new directory, and no names disagree.

* `Layout`: the real location of every module.
* `Layout.place`: the place of an item.
* `Forest.Faithful`: the links and names of a forest agree with a layout.
-/

namespace Debundle

/-- The real locations of modules. -/
structure Layout where
  /-- The directories down to a module, and its own name. -/
  locate : Text → List Text
  /-- Every module has a name. -/
  locate_ne_nil : ∀ id, locate id ≠ []
  /-- Directories and modules have names. -/
  isName : ∀ id, ∀ c ∈ locate id, IsName c

/-- A place in a layout, or above its root. -/
structure Layout.Place where
  /-- The name at the place and the names above it, the nearest first. -/
  names : List Text
  /-- How many levels above the root it is. -/
  above : Nat
deriving DecidableEq

namespace Layout.Place

/-- The place above. -/
def up : Layout.Place → Layout.Place
  | ⟨[], n⟩ => ⟨[], n + 1⟩
  | ⟨_ :: names, n⟩ => ⟨names, n⟩

/-- The number of levels below the root. -/
def level (p : Layout.Place) : Int := p.names.length - p.above

@[simp] theorem up_cons (name : Text) (names : List Text) (n : Nat) :
    up ⟨name :: names, n⟩ = ⟨names, n⟩ := rfl

@[simp] theorem level_up (p : Layout.Place) : p.up.level = p.level - 1 := by
  obtain ⟨_ | ⟨name, names⟩, n⟩ := p <;> simp only [up, level, List.length_cons, List.length_nil] <;>
    omega

/-- Going up below the root drops names. -/
theorem up_iterate {k : Nat} {names : List Text} (n : Nat) (hk : k ≤ names.length) :
    up^[k] ⟨names, n⟩ = ⟨names.drop k, n⟩ := by
  induction k generalizing names with
  | zero => rfl
  | succ k ih =>
    cases names with
    | nil => simp at hk
    | cons name names =>
      rw [Function.iterate_succ_apply, up_cons, ih (by simpa using hk), List.drop_succ_cons]

end Layout.Place

/-- The beginning of the ids of directories that are made for items. -/
def Forest.parentMark : Text := Forest.parentWord ++ Text.ofString "-"

theorem Forest.parentIdOf_eq (x : Text) : Forest.parentIdOf x = Forest.parentMark ++ x := rfl

/-- An id that a module can have: not empty, and not one that is made for a directory. -/
def IsModuleId (id : Text) : Prop := id ≠ [] ∧ Text.startsWith id Forest.parentMark = false

instance (id : Text) : Decidable (IsModuleId id) := inferInstanceAs (Decidable (_ ∧ _))

theorem isModuleId_parentIdOf_ne {id x : Text} (hid : IsModuleId id) : Forest.parentIdOf x ≠ id := by
  rintro rfl
  have h := hid.2
  rw [Forest.parentIdOf_eq, Text.startsWith, ← Bool.not_eq_true, List.isPrefixOf_iff_prefix] at h
  exact h (List.prefix_append _ _)

namespace Layout

variable (R : Layout)

/-- The place of an item: that of its module, and one level up for each directory that was made. -/
def place (x : Text) : Place :=
  if Text.startsWith x Forest.parentMark then
    (place (x.drop Forest.parentMark.length)).up
  else ⟨(R.locate x).reverse, 0⟩
termination_by x.length
decreasing_by
  rename_i h
  rw [Text.startsWith, List.isPrefixOf_iff_prefix] at h
  have hlen := h.length_le
  have hpos : 0 < Forest.parentMark.length := by decide
  rw [List.length_drop]
  omega

theorem place_parentIdOf (x : Text) : R.place (Forest.parentIdOf x) = (R.place x).up := by
  rw [place]
  simp [Forest.parentIdOf_eq, Text.startsWith]

theorem place_of_isModuleId {id : Text} (hid : IsModuleId id) :
    R.place id = ⟨(R.locate id).reverse, 0⟩ := by
  rw [place]
  simp [hid.2]

/-- What is at a place or above it has a name. -/
theorem isName_place (x : Text) : ∀ c ∈ (R.place x).names, IsName c := by
  fun_induction R.place x with
  | case1 x _ ih =>
    intro c hc
    rcases hp : R.place (x.drop Forest.parentMark.length) with ⟨_ | ⟨name, names⟩, n⟩
    · rw [hp] at hc
      exact absurd hc List.not_mem_nil
    · rw [hp] at hc ih
      exact ih c (List.mem_cons_of_mem _ hc)
  | case2 x _ =>
    intro c hc
    exact R.isName x c (List.mem_reverse.mp hc)

/-- The number of levels of an item below the root. -/
def level (x : Text) : Int := (R.place x).level

end Layout

namespace Forest

variable {R : Layout} {K : Text → Prop} {f g h : Forest} {x y z : Text}

/-! ## Faithful forests -/

/-- The links and names of a forest agree with a layout, nothing is in conflict, and all ids are of
a kind. -/
structure Faithful (R : Layout) (K : Text → Prop) (f : Forest) : Prop where
  wellFormed : f.WellFormed
  /-- Links lead from places to the places above them. -/
  place_parent : ∀ x p, f.parentId? x = some p → R.place p = (R.place x).up
  /-- A settled name is the one that the layout has at the place. -/
  settled : ∀ x i, f.bare? x = some i → i.isPlaceholder = false →
    ∃ names n, R.place x = ⟨i.name :: names, n⟩
  /-- A placeholder is named by its id. -/
  placeholder : ∀ x i, f.bare? x = some i → i.isPlaceholder = true → i.name = x
  /-- A directory is made for an item only when the item goes into it. -/
  made : ∀ x, f.has (parentIdOf x) = true → f.parentId? x ≠ none
  /-- The ids are of a kind. -/
  kind : ∀ x, f.has x = true → K x
  /-- No names disagree. -/
  conflicts : f.conflicts = []

theorem Faithful.empty (R : Layout) (K : Text → Prop) : Faithful R K Forest.empty where
  wellFormed := wellFormed_empty
  place_parent x p hp := absurd hp (by simp [parentId?, find?, Forest.empty])
  settled x i hi := absurd hi (by simp [bare?, find?, Forest.empty])
  placeholder x i hi := absurd hi (by simp [bare?, find?, Forest.empty])
  made x hx := absurd hx (by simp [has, find?, Forest.empty])
  kind x hx := absurd hx (by simp [has, find?, Forest.empty])
  conflicts := rfl

namespace Faithful

variable (hf : Faithful R K f)
include hf

/-- The place that is reached by going up. -/
theorem place_ancestor {n : Nat} (hx : f.ancestor? n x = some y) :
    R.place y = Layout.Place.up^[n] (R.place x) := by
  induction n generalizing x with
  | zero => rw [Function.iterate_zero_apply, Option.some_inj.mp hx]
  | succ n ih =>
    obtain ⟨p, hp, hy⟩ := Option.bind_eq_some_iff.mp hx
    rw [ih hy, hf.place_parent x p hp, Function.iterate_succ_apply]

theorem level_ancestor {n : Nat} (hx : f.ancestor? n x = some y) : R.level y = R.level x - n := by
  have hiterate : ∀ (n : Nat) (p : Layout.Place), (Layout.Place.up^[n] p).level = p.level - n := by
    intro n
    induction n with
    | zero => intro p; simp
    | succ n ih =>
      intro p
      rw [Function.iterate_succ_apply, ih, Layout.Place.level_up]
      omega
  rw [Layout.level, hf.place_ancestor hx, hiterate, Layout.level]

theorem level_parent (hx : f.parentId? x = some y) : R.level y = R.level x - 1 :=
  hf.level_ancestor (n := 1) (by rw [ancestor?_one, hx])

/-- What is at or above an item is on its level or on a higher one. -/
theorem isAtOrAbove_eq_false (hy : f.has y = true) (hxy : R.level y < R.level x) :
    f.isAtOrAbove x y = false := by
  rw [← Bool.not_eq_true, hf.wellFormed.isAtOrAbove_iff hy]
  rintro ⟨n, hn⟩
  have hlevel := hf.level_ancestor hn
  omega

/-- A root has no directory that was made for it. -/
theorem has_parentIdOf_eq_false (hx : f.parentId? x = none) : f.has (parentIdOf x) = false := by
  rw [← Bool.not_eq_true]
  exact fun hhas => hf.made x hhas hx

/-- A change of links that leads to the places above. -/
theorem of_links (hg : g.WellFormed) (hbare : ∀ x, g.bare? x = f.bare? x)
    (hconflicts : g.conflicts = f.conflicts)
    (hplace : ∀ x p, g.parentId? x = some p → R.place p = (R.place x).up)
    (hkeep : ∀ x, f.parentId? x ≠ none → g.parentId? x ≠ none) : Faithful R K g where
  wellFormed := hg
  place_parent := hplace
  settled x i hi := hf.settled x i (hbare x ▸ hi)
  placeholder x i hi := hf.placeholder x i (hbare x ▸ hi)
  made x hx := hkeep x (hf.made x (by rwa [has_eq_isSome_bare?, ← hbare, ← has_eq_isSome_bare?]))
  kind x hx := hf.kind x (by rwa [has_eq_isSome_bare?, ← hbare, ← has_eq_isSome_bare?])
  conflicts := hconflicts.trans hf.conflicts

/-- An item that goes into a directory at the place above it. -/
theorem move {child parent : Text} (hchild : f.has child = true) (hparent : f.has parent = true)
    (hplace : R.place parent = (R.place child).up) : Faithful R K (f.move child parent) := by
  have hlevel : R.level parent < R.level child := by
    rw [Layout.level, hplace, Layout.Place.level_up, ← Layout.level]
    omega
  have habove := hf.isAtOrAbove_eq_false hparent hlevel
  refine hf.of_links (hf.wellFormed.move hchild hparent habove) (bare?_move f child parent)
    (conflicts_move f child parent) (fun x p hp => ?_) fun x hx => ?_
  · rw [parentId?_move hchild] at hp
    split at hp
    · rename_i heq
      rw [← Option.some_inj.mp hp, heq, hplace]
    · exact hf.place_parent x p hp
  · rw [parentId?_move hchild]
    split
    · simp
    · exact hx

/-- A placeholder that gets the name that the layout has at its place. -/
theorem settle {i : Item} (hi : f.bare? x = some i) {name : Text} {names : List Text} {n : Nat}
    (hplace : R.place x = ⟨name :: names, n⟩) : Faithful R K (f.settle x name) where
  wellFormed := hf.wellFormed.settle x name
  place_parent y p hp := hf.place_parent y p (by rwa [parentId?_settle] at hp)
  settled y j hj hsettled := by
    rw [bare?_settle] at hj
    split at hj
    · rename_i heq
      rw [heq, hi, Option.map_some, Option.some_inj] at hj
      rw [heq, ← hj]
      exact ⟨names, n, hplace⟩
    · exact hf.settled y j hj hsettled
  placeholder y j hj hplaceholder := by
    rw [bare?_settle] at hj
    split at hj
    · rename_i heq
      rw [heq, hi, Option.map_some, Option.some_inj] at hj
      rw [← hj] at hplaceholder
      exact absurd hplaceholder (by simp [Item.settled])
    · exact hf.placeholder y j hj hplaceholder
  made y hy := by
    rw [has_settle] at hy
    rw [parentId?_settle]
    exact hf.made y hy
  kind y hy := hf.kind y (by rwa [has_settle] at hy)
  conflicts := hf.conflicts

/-- A new file, placed and named as the layout has it or a placeholder for itself. -/
theorem insertFile {id name : Text} {isPlaceholder : Bool} (hid : IsModuleId id) (hkind : K id)
    (hfresh : f.has id = false)
    (hsettled : isPlaceholder = false → ∃ names n, R.place id = ⟨name :: names, n⟩)
    (hplaceholder : isPlaceholder = true → name = id) :
    Faithful R K (f.insert ⟨id, name, true, isPlaceholder, none, []⟩) := by
  have hparent := parentId?_insert f ⟨id, name, true, isPlaceholder, none, []⟩ rfl hfresh
  have hbare : ∀ x i, (f.insert ⟨id, name, true, isPlaceholder, none, []⟩).bare? x = some i →
      f.bare? x = some i ∨ (id = x ∧ i = ⟨id, name, true, isPlaceholder, none, []⟩) := by
    intro x i hi
    rw [bare?_insert] at hi
    rcases hx : f.bare? x with _ | j
    · rw [hx, Option.none_or] at hi
      split at hi
      · rename_i heq
        exact Or.inr ⟨heq, (Option.some_inj.mp hi).symm⟩
      · exact absurd hi (by simp)
    · rw [hx, Option.some_or] at hi
      exact Or.inl hi
  refine ⟨hf.wellFormed.insert name true isPlaceholder hid.1 hfresh, ?_, ?_, ?_, ?_, ?_, hf.conflicts⟩
  · intro x p hp
    exact hf.place_parent x p (by rwa [hparent] at hp)
  · intro x i hi hs
    rcases hbare x i hi with hi | ⟨rfl, rfl⟩
    · exact hf.settled x i hi hs
    · exact hsettled hs
  · intro x i hi hp
    rcases hbare x i hi with hi | ⟨rfl, rfl⟩
    · exact hf.placeholder x i hi hp
    · exact hplaceholder hp
  · intro x hx
    rw [has_insert, Bool.or_eq_true, decide_eq_true_iff] at hx
    rw [hparent]
    exact hf.made x (hx.resolve_right fun heq => isModuleId_parentIdOf_ne hid heq.symm)
  · intro x hx
    rw [has_insert, Bool.or_eq_true, decide_eq_true_iff] at hx
    rcases hx with hx | rfl
    · exact hf.kind x hx
    · exact hkind

/-- A directory that is made for a root, named as the layout has it or a placeholder for itself. -/
theorem roofed (hK : ∀ x, K x → K (parentIdOf x)) {name : Option Text} (hg : Roofed x name f g)
    (hx : f.has x = true)
    (hname : ∀ n, name = some n → ∃ names k, (R.place x).up = ⟨n :: names, k⟩) :
    Faithful R K g := by
  have hhas : ∀ y, g.has y = true → f.has y = true ∨ y = parentIdOf x := by
    intro y hy
    rw [has_eq_isSome_bare?, hg.bare] at hy
    split at hy
    · rename_i heq
      exact Or.inr heq
    · exact Or.inl (by rwa [has_eq_isSome_bare?])
  refine ⟨hg.wellFormed, ?_, ?_, ?_, ?_, ?_, hg.conflicts.trans hf.conflicts⟩
  · intro y p hp
    rw [hg.parent] at hp
    split at hp
    · rename_i heq
      rw [← Option.some_inj.mp hp, heq, R.place_parentIdOf]
    · exact hf.place_parent y p hp
  · intro y i hi hs
    rw [hg.bare] at hi
    split at hi
    · rename_i heq
      rw [← Option.some_inj.mp hi] at hs ⊢
      rw [heq, R.place_parentIdOf]
      cases name with
      | none => exact absurd hs (by simp [roof])
      | some n => exact hname n rfl
    · exact hf.settled y i hi hs
  · intro y i hi hp
    rw [hg.bare] at hi
    split at hi
    · rename_i heq
      rw [← Option.some_inj.mp hi] at hp ⊢
      cases name with
      | none => exact heq.symm
      | some n => exact absurd hp (by simp [roof])
    · exact hf.placeholder y i hi hp
  · intro y hy
    rw [hg.parent]
    split
    · simp
    · rename_i hne
      refine hf.made y ((hhas _ hy).resolve_right fun heq => hne ?_)
      simpa [parentIdOf_eq] using heq
  · intro y hy
    rcases hhas y hy with hy | rfl
    · exact hf.kind y hy
    · exact hK x (hf.kind x hx)

end Faithful

end Forest
end Debundle
