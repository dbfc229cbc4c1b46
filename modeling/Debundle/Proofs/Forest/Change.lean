import Debundle.Proofs.Forest.Lineage
import Mathlib.Logic.Relation

/-!
# What can happen to a forest

However a forest is grown, only four things happen to it: an item without links is added, a
placeholder gets its name, a conflict about a settled name is recorded, or an item is moved into a
directory that is not below it.  What all four keep is kept by everything that is made of them.

Nothing comes from nowhere.  An item is added because its id was asked for, or as the directory of
an item that exists; and an item is moved into the directory that is made for it, or into one where
something is already.

* `Forest.IsUsed`: something is in a directory.
* `Forest.Scope`: which ids are asked for, and which kinds of conflict are found.
* `Forest.Change`: one of the four.
* `Forest.Change.wellFormed`: each of them keeps a forest well formed.
* `Forest.Evolves`: any number of them.
-/

namespace Debundle
namespace Forest

variable {S T : Scope} {f g h : Forest} {x y : Text}

/-- Something is in a directory. -/
def IsUsed (f : Forest) (id : Text) : Prop := ∃ child, f.parentId? child = some id

/-- What may come up when a forest changes: which ids are asked for, and which kinds of conflict are
found. -/
structure Scope where
  /-- The ids that are asked for. -/
  ids : Text → Prop
  /-- The kinds of conflict. -/
  kinds : ConflictKind → Prop

/-- All that may come up in one scope may come up in another. -/
structure Scope.Within (S T : Scope) : Prop where
  ids : ∀ id, S.ids id → T.ids id
  kinds : ∀ kind, S.kinds kind → T.kinds kind

/-- A single change of a forest. -/
inductive Change (S : Scope) : Forest → Forest → Prop where
  /-- A new item, in no directory and with nothing in it. -/
  | insert {f : Forest} {id : Text} (name : Text) (isFile isPlaceholder : Bool) (hid : id ≠ [])
      (hfresh : f.has id = false)
      (horigin : S.ids id ∨ isFile = false ∧ ∃ child, f.has child = true ∧ id = parentIdOf child) :
      Change S f (f.insert ⟨id, name, isFile, isPlaceholder, none, []⟩)
  /-- A name for a placeholder. -/
  | settle {f : Forest} {i : Item} (name : Text) (hi : f.find? i.id = some i)
      (hplaceholder : i.isPlaceholder = true) : Change S f (f.settle i.id name)
  /-- A conflict about a name that is settled. -/
  | record {f : Forest} {i : Item} {rejected : Text} {kind : ConflictKind} (hkind : S.kinds kind)
      (hi : f.find? i.id = some i) (hsettled : i.isPlaceholder = false) (hne : i.name ≠ rejected) :
      Change S f (f.record ⟨kind, i.id, i.name, rejected⟩)
  /-- Another directory, not below the item, for an item. -/
  | move {f : Forest} {child parent : Text} (hchild : f.has child = true)
      (hparent : f.has parent = true) (habove : f.isAtOrAbove child parent = false)
      (hplace : parent = parentIdOf child ∨ f.IsUsed parent) : Change S f (f.move child parent)

/-- Any number of changes. -/
def Evolves (S : Scope) : Forest → Forest → Prop := Relation.ReflTransGen (Change S)

theorem Evolves.refl (f : Forest) : Evolves S f f := Relation.ReflTransGen.refl

theorem Evolves.trans (hfg : Evolves S f g) (hgh : Evolves S g h) : Evolves S f h :=
  Relation.ReflTransGen.trans hfg hgh

theorem Change.evolves (hfg : Change S f g) : Evolves S f g := Relation.ReflTransGen.single hfg

theorem Change.mono (hST : S.Within T) (hfg : Change S f g) : Change T f g := by
  cases hfg with
  | insert name isFile isPlaceholder hid hfresh horigin =>
    exact .insert name isFile isPlaceholder hid hfresh (horigin.imp_left (hST.ids _))
  | settle name hi hplaceholder => exact .settle name hi hplaceholder
  | record hkind hi hsettled hne => exact .record (hST.kinds _ hkind) hi hsettled hne
  | move hchild hparent habove hplace => exact .move hchild hparent habove hplace

theorem Evolves.mono (hST : S.Within T) (hfg : Evolves S f g) : Evolves T f g :=
  Relation.ReflTransGen.mono (fun _ _ => Change.mono hST) _ _ hfg

/-! ## Nothing disappears -/

theorem Change.has (hfg : Change S f g) (hx : f.has x = true) : g.has x = true := by
  cases hfg with
  | insert name isFile isPlaceholder hid hfresh => rw [has_insert, hx, Bool.true_or]
  | settle name hi hplaceholder => rw [has_settle, hx]
  | record hkind hi hsettled hne => exact hx
  | move hchild hparent habove => rw [has_move, hx]

theorem Evolves.has (hfg : Evolves S f g) (hx : f.has x = true) : g.has x = true := by
  induction hfg with
  | refl => exact hx
  | tail _ hgh ih => exact hgh.has ih

/-! ## Well-formedness is kept -/

theorem WellFormed.childrenOf_move (hf : f.WellFormed) {child parent : Text}
    (hparent : f.has parent = true) (y : Text) :
    (f.move child parent).childrenOf y =
      (f.childrenOf y).erase child ++ if y = parent then [child] else [] := by
  rw [Forest.childrenOf_move f hparent]
  have hkept : (if f.parentId? child = some y then (f.childrenOf y).erase child
      else f.childrenOf y) = (f.childrenOf y).erase child := by
    split
    · rfl
    · rename_i hne
      rw [List.erase_of_not_mem]
      exact fun hmem => hne (hf.mem_childrenOf_iff.mp hmem)
  have hnot : child ∉ (f.childrenOf y).erase child := (hf.nodup_childrenOf y).not_mem_erase
  simp only [hkept, if_neg hnot]
  split <;> simp

/-- Going up from what is not below `child` is not affected by moving `child`. -/
theorem ancestor?_move_of_forall_ne {child parent : Text} (hchild : f.has child = true)
    (hx : ∀ k, f.ancestor? k x ≠ some child) (n : Nat) :
    (f.move child parent).ancestor? n x = f.ancestor? n x := by
  refine ancestor?_congr_of_passed (fun k y hy => ?_) n
  rw [parentId?_move hchild, if_neg]
  rintro rfl
  exact hx k hy

/-- Moving an item to where it is not below itself opens no way up that does not end. -/
theorem WellFormed.exists_ancestor?_move_none (hf : f.WellFormed) {child parent : Text}
    (hchild : f.has child = true) (hparent : f.has parent = true)
    (habove : f.isAtOrAbove child parent = false) (x : Text) :
    ∃ n, (f.move child parent).ancestor? n x = none := by
  have hnever : ∀ k, f.ancestor? k parent ≠ some child := by
    intro k hk
    rw [(hf.isAtOrAbove_iff hparent).mpr ⟨k, hk⟩] at habove
    exact absurd habove (by simp)
  have hsome : ∃ n, (f.move child parent).ancestor? n child = none := by
    obtain ⟨n, hn⟩ := hf.exists_ancestor?_none parent
    refine ⟨n + 1, ?_⟩
    rw [ancestor?_succ, parentId?_move hchild, if_pos rfl, Option.bind_some,
      ancestor?_move_of_forall_ne hchild hnever, hn]
  -- below `child` the old way up leads to `child`, from where the new one is known to end
  obtain ⟨n, hn⟩ := hf.exists_ancestor?_none x
  induction n generalizing x with
  | zero => exact absurd hn (by simp)
  | succ n ih =>
    by_cases hx : x = child
    · exact hx ▸ hsome
    · rcases hp : f.parentId? x with _ | p
      · exact ⟨1, by rw [ancestor?_one, parentId?_move hchild, if_neg hx, hp]⟩
      · rw [ancestor?_succ, hp, Option.bind_some] at hn
        obtain ⟨m, hm⟩ := ih p hn
        exact ⟨m + 1, by
          rw [ancestor?_succ, parentId?_move hchild, if_neg hx, hp, Option.bind_some, hm]⟩

theorem WellFormed.insert (hf : f.WellFormed) {id : Text} (name : Text)
    (isFile isPlaceholder : Bool) (hid : id ≠ []) (hfresh : f.has id = false) :
    (f.insert ⟨id, name, isFile, isPlaceholder, none, []⟩).WellFormed := by
  have hparent := parentId?_insert f ⟨id, name, isFile, isPlaceholder, none, []⟩ rfl hfresh
  have hchildren := childrenOf_insert f ⟨id, name, isFile, isPlaceholder, none, []⟩ rfl hfresh
  refine .of_links ?_ ?_ ?_ ?_ ?_ ?_
  · have hnew : id ∉ f.items.map Item.id := by
      rw [← has_iff_mem, hfresh]
      simp
    rw [Forest.insert, List.map_append, List.map_singleton, List.nodup_append]
    refine ⟨hf.nodup, List.nodup_singleton _, fun a ha b hb => ?_⟩
    rintro rfl
    exact hnew (by simpa [List.mem_singleton.mp hb] using ha)
  · intro x hx
    rw [has_insert, Bool.or_eq_true, decide_eq_true_iff] at hx
    rcases hx with hx | rfl
    · exact hf.ne_nil hx
    · exact hid
  · intro x y
    rw [hchildren, hparent, hf.mem_childrenOf_iff]
  · intro x y hxy
    rw [hparent] at hxy
    rw [has_insert, hf.has_parent hxy, Bool.true_or]
  · intro y
    rw [hchildren]
    exact hf.nodup_childrenOf y
  · intro x
    obtain ⟨n, hn⟩ := hf.exists_ancestor?_none x
    exact ⟨n, by rw [ancestor?_congr hparent, hn]⟩

theorem WellFormed.settle (hf : f.WellFormed) (id name : Text) : (f.settle id name).WellFormed := by
  refine .of_links ?_ ?_ ?_ ?_ ?_ ?_
  · rw [settle_eq, map_id_update _ _ (Item.settled_id name)]
    exact hf.nodup
  · intro x hx
    rw [has_settle] at hx
    exact hf.ne_nil hx
  · intro x y
    rw [childrenOf_settle, parentId?_settle, hf.mem_childrenOf_iff]
  · intro x y hxy
    rw [parentId?_settle] at hxy
    rw [has_settle, hf.has_parent hxy]
  · intro y
    rw [childrenOf_settle]
    exact hf.nodup_childrenOf y
  · intro x
    obtain ⟨n, hn⟩ := hf.exists_ancestor?_none x
    exact ⟨n, by rw [ancestor?_congr (parentId?_settle f id name), hn]⟩

theorem WellFormed.record (hf : f.WellFormed) (c : NameConflict) : (f.record c).WellFormed := by
  refine ⟨hf.nodup, hf.id_ne_nil, hf.parent_mem, hf.child_mem, hf.mem_children_iff,
    hf.nodup_children, fun i hi => ?_⟩
  obtain ⟨n, r, hn, hr⟩ := hf.rooted i hi
  exact ⟨n, r, by rw [ancestor?_congr (parentId?_record f c), hn], hr⟩

theorem WellFormed.isAtOrAbove_record (hf : f.WellFormed) (hx : f.has x = true) (c : NameConflict)
    (y : Text) : (f.record c).isAtOrAbove y x = f.isAtOrAbove y x :=
  hf.isAtOrAbove_congr (hf.record c) hx hx (fun n => ancestor?_congr (parentId?_record f c) n x) y

theorem WellFormed.move (hf : f.WellFormed) {child parent : Text} (hchild : f.has child = true)
    (hparent : f.has parent = true) (habove : f.isAtOrAbove child parent = false) :
    (f.move child parent).WellFormed := by
  have herase : ∀ x y, x ∈ (f.childrenOf y).erase child ↔ x ≠ child ∧ x ∈ f.childrenOf y :=
    fun x y => (hf.nodup_childrenOf y).mem_erase_iff
  refine .of_links ?_ ?_ ?_ ?_ ?_ ?_
  · rw [map_id_move]
    exact hf.nodup
  · intro x hx
    rw [has_move] at hx
    exact hf.ne_nil hx
  · intro x y
    rw [hf.childrenOf_move hparent, parentId?_move hchild, List.mem_append, herase,
      hf.mem_childrenOf_iff]
    by_cases hx : x = child
    · rw [if_pos hx, Option.some_inj, eq_comm (b := y)]
      by_cases hy : y = parent <;> simp [hx, hy]
    · rw [if_neg hx]
      by_cases hy : y = parent <;> simp [hx, hy]
  · intro x y hxy
    rw [parentId?_move hchild] at hxy
    rw [has_move]
    split at hxy
    · exact Option.some_inj.mp hxy ▸ hparent
    · exact hf.has_parent hxy
  · intro y
    rw [hf.childrenOf_move hparent]
    have hkept := (hf.nodup_childrenOf y).erase child
    split
    · refine List.nodup_append.mpr ⟨hkept, List.nodup_singleton _, fun a ha b hb => ?_⟩
      rw [List.mem_singleton.mp hb]
      exact ((herase a y).mp ha).1
    · rwa [List.append_nil]
  · exact hf.exists_ancestor?_move_none hchild hparent habove

/-- Each single change keeps a forest well formed. -/
theorem Change.wellFormed (hfg : Change S f g) (hf : f.WellFormed) : g.WellFormed := by
  cases hfg with
  | insert name isFile isPlaceholder hid hfresh =>
    exact hf.insert name isFile isPlaceholder hid hfresh
  | settle name hi hplaceholder => exact hf.settle _ name
  | record hkind hi hsettled hne => exact hf.record _
  | move hchild hparent habove => exact hf.move hchild hparent habove

/-- Any number of changes keeps a forest well formed. -/
theorem Evolves.wellFormed (hfg : Evolves S f g) (hf : f.WellFormed) : g.WellFormed := by
  induction hfg with
  | refl => exact hf
  | tail _ hgh ih => exact hgh.wellFormed ih

end Forest
end Debundle
