import Debundle.Forest.Basic
import Mathlib.Data.List.Nodup

/-!
# Links between items

A forest is read through three views: the item under an id, the id of the directory that an item
is in, and the ids in a directory.  Each way of changing a forest is described by what it does to
these views, so that nothing later has to look into the list of items.

* `Forest.find?_update`, `Forest.find?_insert`: the item under an id after a change.
* `Forest.parentId?_insert`, `Forest.parentId?_settle`, `Forest.parentId?_move`: the directory of
  an item after a change.
* `Forest.childrenOf_move`: the ids in a directory after an item has been moved.
* `Forest.bare?`, `Forest.IsSettled`: an item without its links, and whether its name is settled.
-/

namespace Debundle
namespace Forest

variable {f g : Forest} {x y z : Text}

/-! ## The item under an id -/

theorem mem_items_of_find? {i : Item} (h : f.find? x = some i) : i ∈ f.items :=
  List.mem_of_find?_eq_some h

theorem id_of_find? {i : Item} (h : f.find? x = some i) : i.id = x := by
  simpa using List.find?_some h

theorem has_iff : f.has x = true ↔ ∃ i, f.find? x = some i := by
  rw [has, Option.isSome_iff_exists]

theorem has_iff_mem : f.has x = true ↔ x ∈ f.items.map Item.id := by
  rw [has, find?, List.find?_isSome, List.mem_map]
  constructor
  · rintro ⟨i, hi, hx⟩
    exact ⟨i, hi, eq_of_beq hx⟩
  · rintro ⟨i, hi, hx⟩
    exact ⟨i, hi, beq_iff_eq.mpr hx⟩

theorem find?_eq_none_iff : f.find? x = none ↔ f.has x = false := by
  rw [has, Option.isSome_eq_false_iff, Option.isNone_iff_eq_none]

/-- Ids of their own are what makes looking up an item give the item back. -/
theorem find?_of_mem (hf : (f.items.map Item.id).Nodup) {i : Item} (hi : i ∈ f.items) :
    f.find? i.id = some i := by
  obtain ⟨j, hj⟩ := has_iff.mp (has_iff_mem.mpr (List.mem_map_of_mem hi))
  have hij : j = i := List.inj_on_of_nodup_map hf (mem_items_of_find? hj) hi (id_of_find? hj)
  rw [hj, hij]

/-! ## Changing the item under an id -/

/-- A change of one item that keeps its id is seen under that id only. -/
theorem find?_update (f : Forest) (id : Text) {change : Item → Item}
    (hid : ∀ i, (change i).id = i.id) (x : Text) :
    (f.update id change).find? x = if x = id then (f.find? x).map change else f.find? x := by
  have hkey : ((fun i : Item => i.id == x) ∘ fun i => if i.id == id then change i else i) =
      fun i => i.id == x := by
    funext i
    by_cases hi : i.id = id <;> simp [hi, hid]
  rw [update, find?, List.find?_map, hkey]
  change (f.find? x).map _ = _
  rcases hfind : f.find? x with _ | i
  · simp
  · have hix : i.id = x := id_of_find? hfind
    by_cases hx : x = id <;> simp [hix, hx]

theorem map_id_update (f : Forest) (id : Text) {change : Item → Item}
    (hid : ∀ i, (change i).id = i.id) :
    (f.update id change).items.map Item.id = f.items.map Item.id := by
  rw [update, List.map_map]
  refine List.map_congr_left fun i _ => ?_
  by_cases hi : i.id = id <;> simp [hi, hid]

/-- A new item is seen under its id, and every other id as before. -/
theorem find?_insert (f : Forest) (item : Item) (x : Text) :
    (f.insert item).find? x = (f.find? x).or (if item.id = x then some item else none) := by
  rw [insert, find?, List.find?_append]
  by_cases hx : item.id = x <;> simp [find?, hx]

theorem has_insert (f : Forest) (item : Item) (x : Text) :
    (f.insert item).has x = (f.has x || decide (item.id = x)) := by
  rw [has, find?_insert, Option.isSome_or, has]
  by_cases hx : item.id = x <;> simp [hx]

@[simp] theorem find?_record (f : Forest) (c : NameConflict) (x : Text) :
    (f.record c).find? x = f.find? x := rfl

@[simp] theorem parentId?_record (f : Forest) (c : NameConflict) (x : Text) :
    (f.record c).parentId? x = f.parentId? x := rfl

/-- An item whose name is settled. -/
def Item.settled (i : Item) (name : Text) : Item := { i with name := name, isPlaceholder := false }

theorem settle_eq (f : Forest) (id name : Text) : f.settle id name = f.update id (·.settled name) :=
  rfl

theorem Item.settled_id (name : Text) (i : Item) : (i.settled name).id = i.id := rfl

theorem find?_settle (f : Forest) (id name x : Text) :
    (f.settle id name).find? x =
      if x = id then (f.find? x).map (·.settled name) else f.find? x :=
  find?_update f id (Item.settled_id name) x

@[simp] theorem has_settle (f : Forest) (id name x : Text) : (f.settle id name).has x = f.has x := by
  rw [has, has, find?_settle]
  split <;> simp

/-! ## The directory of an item -/

theorem has_of_parentId? (h : f.parentId? x = some y) : f.has x = true := by
  rw [parentId?, Option.bind_eq_some_iff] at h
  obtain ⟨i, hi, -⟩ := h
  exact has_iff.mpr ⟨i, hi⟩

theorem parentId?_of_find? {i : Item} (h : f.find? x = some i) : f.parentId? x = i.parent := by
  rw [parentId?, h, Option.bind_some]

theorem parentId?_insert (f : Forest) (item : Item) (hitem : item.parent = none)
    (hfresh : f.has item.id = false) (x : Text) :
    (f.insert item).parentId? x = f.parentId? x := by
  rw [parentId?, find?_insert]
  by_cases hx : item.id = x
  · subst hx
    rw [parentId?, find?_eq_none_iff.mpr hfresh]
    simp [hitem]
  · simp [hx, parentId?]

@[simp] theorem parentId?_settle (f : Forest) (id name x : Text) :
    (f.settle id name).parentId? x = f.parentId? x := by
  rw [parentId?, parentId?, find?_settle]
  rcases f.find? x with _ | i <;> split <;> rfl

@[simp] theorem childrenOf_settle (f : Forest) (id name x : Text) :
    (f.settle id name).childrenOf x = f.childrenOf x := by
  rw [childrenOf, childrenOf, find?_settle]
  rcases f.find? x with _ | i <;> split <;> rfl

theorem childrenOf_insert (f : Forest) (item : Item) (hitem : item.children = [])
    (hfresh : f.has item.id = false) (x : Text) :
    (f.insert item).childrenOf x = f.childrenOf x := by
  rw [childrenOf, find?_insert]
  by_cases hx : item.id = x
  · subst hx
    rw [childrenOf, find?_eq_none_iff.mpr hfresh]
    simp [hitem]
  · simp [hx, childrenOf]

theorem childrenOf_of_find? {i : Item} (h : f.find? x = some i) : f.childrenOf x = i.children := by
  rw [childrenOf, h, Option.map_some, Option.getD_some]

/-! ## Moving an item -/

/-- A directory without one of its items. -/
def Item.without (i : Item) (child : Text) : Item := { i with children := i.children.erase child }

/-- An item in a directory. -/
def Item.under (i : Item) (parent : Text) : Item := { i with parent := some parent }

/-- A directory with an item in it. -/
def Item.including (i : Item) (child : Text) : Item :=
  if i.children.contains child then i else { i with children := i.children ++ [child] }

theorem Item.without_id (child : Text) (i : Item) : (i.without child).id = i.id := rfl

theorem Item.under_id (parent : Text) (i : Item) : (i.under parent).id = i.id := rfl

theorem Item.including_id (child : Text) (i : Item) : (i.including child).id = i.id := by
  unfold Item.including
  split <;> rfl

theorem Item.including_parent (child : Text) (i : Item) :
    (i.including child).parent = i.parent := by
  unfold Item.including
  split <;> rfl

theorem Item.including_children (child : Text) (i : Item) :
    (i.including child).children =
      if child ∈ i.children then i.children else i.children ++ [child] := by
  unfold Item.including
  by_cases h : child ∈ i.children <;> simp [h]

/-- The forest in which an item has been taken out of the directory that it is in. -/
def detach (f : Forest) (child : Text) : Forest :=
  match f.parentId? child with
  | none => f
  | some old => f.update old (·.without child)

/-- Moving takes an item out of one directory and puts it into the other. -/
theorem move_eq (f : Forest) (child parent : Text) :
    f.move child parent =
      ((f.detach child).update child (·.under parent)).update parent (·.including child) := by
  unfold move detach
  rcases f.parentId? child with _ | old <;> rfl

theorem find?_detach (f : Forest) (child x : Text) :
    (f.detach child).find? x =
      if f.parentId? child = some x then (f.find? x).map (·.without child) else f.find? x := by
  unfold detach
  rcases f.parentId? child with _ | old
  · simp
  · simp only [Option.some.injEq, eq_comm (a := old)]
    exact find?_update f old (Item.without_id child) x

theorem map_id_move (f : Forest) (child parent : Text) :
    (f.move child parent).items.map Item.id = f.items.map Item.id := by
  rw [move_eq, map_id_update _ _ (Item.including_id child),
    map_id_update _ _ (Item.under_id parent)]
  unfold detach
  rcases f.parentId? child with _ | old
  · rfl
  · exact map_id_update _ _ (Item.without_id child)

/-- The item under an id after a move, one change after the other. -/
theorem find?_move (f : Forest) (child parent x : Text) :
    (f.move child parent).find? x = (f.find? x).map fun i =>
      let i := if f.parentId? child = some x then i.without child else i
      let i := if x = child then i.under parent else i
      if x = parent then i.including child else i := by
  rw [move_eq, find?_update _ _ (Item.including_id child), find?_update _ _ (Item.under_id parent),
    find?_detach]
  rcases f.find? x with _ | i <;> split_ifs <;> rfl

@[simp] theorem has_move (f : Forest) (child parent x : Text) :
    (f.move child parent).has x = f.has x := by
  rw [has, has, find?_move, Option.isSome_map]

/-- Moving an item changes where that item is, and nothing else is elsewhere. -/
theorem parentId?_move {child : Text} (hchild : f.has child = true) (parent x : Text) :
    (f.move child parent).parentId? x = if x = child then some parent else f.parentId? x := by
  rw [parentId?, find?_move]
  rcases hfind : f.find? x with _ | i
  · have hx : x ≠ child := by
      rintro rfl
      rw [find?_eq_none_iff.mp hfind] at hchild
      exact absurd hchild (by simp)
    simp [hx, parentId?, hfind]
  · rw [parentId?_of_find? hfind, Option.map_some, Option.bind_some]
    split_ifs <;> simp only [Item.including_parent, Item.under, Item.without]

/-- Moving an item takes it out of the directory that it was in and puts it into the other. -/
theorem childrenOf_move {parent : Text} (f : Forest) (hparent : f.has parent = true)
    (child x : Text) :
    (f.move child parent).childrenOf x =
      let kept := if f.parentId? child = some x then (f.childrenOf x).erase child else f.childrenOf x
      if x = parent then if child ∈ kept then kept else kept ++ [child] else kept := by
  rw [childrenOf, find?_move]
  rcases hfind : f.find? x with _ | i
  · have hx : x ≠ parent := by
      rintro rfl
      rw [find?_eq_none_iff.mp hfind] at hparent
      exact absurd hparent (by simp)
    simp [hx, childrenOf, hfind]
  · rw [childrenOf_of_find? hfind, Option.map_some, Option.map_some, Option.getD_some]
    split_ifs <;> simp_all only [Item.including_children, Item.under, Item.without]

/-! ## What an item is, apart from its place -/

/-- An item without its links. -/
def Item.bare (i : Item) : Item := { i with parent := none, children := [] }

/-- The item under an id without its links. -/
def bare? (f : Forest) (x : Text) : Option Item := (f.find? x).map Item.bare

/-- Whether the name of an item is settled. -/
def IsSettled (f : Forest) (x : Text) : Prop := ∃ i, f.bare? x = some i ∧ i.isPlaceholder = false

theorem has_eq_isSome_bare? (f : Forest) (x : Text) : f.has x = (f.bare? x).isSome := by
  rw [has, bare?, Option.isSome_map]

theorem bare?_of_find? {i : Item} (h : f.find? x = some i) : f.bare? x = some i.bare := by
  rw [bare?, h, Option.map_some]

@[simp] theorem bare?_record (f : Forest) (c : NameConflict) (x : Text) :
    (f.record c).bare? x = f.bare? x := rfl

theorem bare?_settle (f : Forest) (id name x : Text) :
    (f.settle id name).bare? x =
      if x = id then (f.bare? x).map (·.settled name) else f.bare? x := by
  rw [bare?, bare?, find?_settle]
  rcases f.find? x with _ | i <;> split <;> rfl

theorem bare?_insert (f : Forest) (item : Item) (x : Text) :
    (f.insert item).bare? x = (f.bare? x).or (if item.id = x then some item.bare else none) := by
  rw [bare?, bare?, find?_insert]
  rcases f.find? x with _ | i
  · split <;> simp
  · simp

theorem Item.without_bare (child : Text) (i : Item) : (i.without child).bare = i.bare := rfl

theorem Item.under_bare (parent : Text) (i : Item) : (i.under parent).bare = i.bare := rfl

theorem Item.including_bare (child : Text) (i : Item) : (i.including child).bare = i.bare := by
  unfold Item.including
  split <;> rfl

/-- Moving an item changes nothing but links. -/
@[simp] theorem bare?_move (f : Forest) (child parent x : Text) :
    (f.move child parent).bare? x = f.bare? x := by
  rw [bare?, bare?, find?_move, Option.map_map]
  refine Option.map_congr fun i _ => ?_
  simp only [Function.comp, apply_ite Item.bare, Item.including_bare, Item.under_bare,
    Item.without_bare, ite_self]

end Forest
end Debundle
