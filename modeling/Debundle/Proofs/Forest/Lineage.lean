import Debundle.Proofs.Forest.Links
import Mathlib.Data.List.Perm.Subperm
import Mathlib.Data.Nat.Find

/-!
# Lineages

In a well-formed forest the links of two items never contradict each other: an item lists exactly
those that name it as their directory, and whoever goes up from directory to directory arrives at
a root.  Then going up never comes back to where it was, so there are fewer levels above an item
than there are items, and the bound inside `Forest.lineage` is never felt.

* `Forest.ancestor?`: what is reached by going up a number of levels.
* `Forest.WellFormed`: links agree with each other, and every way up ends at a root.
* `Forest.WellFormed.of_links`: well-formedness from the views of a forest.
* `Forest.WellFormed.ancestor?_length`: there are fewer levels than items.
* `Forest.WellFormed.isAtOrAbove_iff`: the test for being above an item is exact.
* `Forest.WellFormed.getElem?_lineage`: a lineage in terms of going up.
-/

namespace Debundle
namespace Forest

variable {f g : Forest} {x y z : Text}

/-! ## Going up -/

/-- What is reached from an id by going up a number of levels. -/
def ancestor? (f : Forest) : Nat → Text → Option Text
  | 0, x => some x
  | n + 1, x => (f.parentId? x).bind (f.ancestor? n)

@[simp] theorem ancestor?_zero (f : Forest) (x : Text) : f.ancestor? 0 x = some x := rfl

theorem ancestor?_succ (f : Forest) (n : Nat) (x : Text) :
    f.ancestor? (n + 1) x = (f.parentId? x).bind (f.ancestor? n) := rfl

@[simp] theorem ancestor?_one (f : Forest) (x : Text) : f.ancestor? 1 x = f.parentId? x := by
  rw [ancestor?_succ]
  rcases f.parentId? x with _ | p <;> rfl

theorem ancestor?_add (f : Forest) (m n : Nat) (x : Text) :
    f.ancestor? (m + n) x = (f.ancestor? m x).bind (f.ancestor? n) := by
  induction m generalizing x with
  | zero => rw [Nat.zero_add, ancestor?_zero, Option.bind_some]
  | succ m ih =>
    rw [Nat.add_right_comm, ancestor?_succ, ancestor?_succ, Option.bind_assoc]
    exact Option.bind_congr fun p _ => ih p

/-- The last level of a way up. -/
theorem ancestor?_succ_last (f : Forest) (n : Nat) (x : Text) :
    f.ancestor? (n + 1) x = (f.ancestor? n x).bind f.parentId? := by
  rw [ancestor?_add]
  exact Option.bind_congr fun p _ => ancestor?_one f p

theorem ancestor?_eq_none_of_le {m n : Nat} (h : f.ancestor? m x = none) (hmn : m ≤ n) :
    f.ancestor? n x = none := by
  obtain ⟨k, rfl⟩ := Nat.exists_eq_add_of_le hmn
  rw [ancestor?_add, h, Option.bind_none]

/-- Going up depends on nothing but the directories of what is passed on the way. -/
theorem ancestor?_congr_of_passed (h : ∀ k y, f.ancestor? k x = some y → g.parentId? y = f.parentId? y)
    (n : Nat) : g.ancestor? n x = f.ancestor? n x := by
  induction n with
  | zero => rfl
  | succ n ih =>
    rw [ancestor?_succ_last, ancestor?_succ_last, ih]
    exact Option.bind_congr fun y hy => h n y hy

/-- Going up depends on nothing but the directories of items. -/
theorem ancestor?_congr (h : ∀ x, g.parentId? x = f.parentId? x) (n : Nat) (x : Text) :
    g.ancestor? n x = f.ancestor? n x :=
  ancestor?_congr_of_passed (fun _ y _ => h y) n

/-- Whoever comes back once comes back again and again. -/
theorem ancestor?_mul {k : Nat} (h : f.ancestor? k x = some x) (m : Nat) :
    f.ancestor? (m * k) x = some x := by
  induction m with
  | zero => rw [Nat.zero_mul, ancestor?_zero]
  | succ m ih => rw [Nat.succ_mul, ancestor?_add, ih, Option.bind_some, h]

/-! ## Well-formed forests -/

/-- A forest whose links agree with each other: ids are not empty and name one item each, links
lead to items, an item is listed, once, by exactly the directory that it is in, and going up ends
at a root. -/
structure WellFormed (f : Forest) : Prop where
  /-- No two items share an id. -/
  nodup : (f.items.map Item.id).Nodup
  /-- No id is empty. -/
  id_ne_nil : ∀ i ∈ f.items, i.id ≠ []
  /-- Every item is in a directory that exists. -/
  parent_mem : ∀ i ∈ f.items, ∀ p, i.parent = some p → ∃ j ∈ f.items, j.id = p
  /-- Every item that is listed exists. -/
  child_mem : ∀ i ∈ f.items, ∀ c ∈ i.children, ∃ j ∈ f.items, j.id = c
  /-- An item is listed by exactly the directory that it is in. -/
  mem_children_iff : ∀ i ∈ f.items, ∀ j ∈ f.items, j.id ∈ i.children ↔ j.parent = some i.id
  /-- No directory lists an item twice. -/
  nodup_children : ∀ i ∈ f.items, i.children.Nodup
  /-- Going up from an item ends at a root. -/
  rooted : ∀ i ∈ f.items, ∃ n r, f.ancestor? n i.id = some r ∧ f.has r ∧ f.parentId? r = none

namespace WellFormed

variable (hf : f.WellFormed)
include hf

theorem find?_of_mem {i : Item} (hi : i ∈ f.items) : f.find? i.id = some i :=
  Forest.find?_of_mem hf.nodup hi

theorem ne_nil (hx : f.has x = true) : x ≠ [] := by
  obtain ⟨i, hi⟩ := has_iff.mp hx
  rw [← id_of_find? hi]
  exact hf.id_ne_nil i (mem_items_of_find? hi)

theorem has_parent (h : f.parentId? x = some y) : f.has y = true := by
  obtain ⟨i, hi⟩ := has_iff.mp (has_of_parentId? h)
  rw [parentId?_of_find? hi] at h
  obtain ⟨j, hj, rfl⟩ := hf.parent_mem i (mem_items_of_find? hi) y h
  exact has_iff.mpr ⟨j, hf.find?_of_mem hj⟩

/-- The two sides of a link in terms of ids. -/
theorem mem_childrenOf_iff : x ∈ f.childrenOf y ↔ f.parentId? x = some y := by
  constructor
  · intro hx
    rcases hi : f.find? y with _ | i
    · simp [childrenOf, hi] at hx
    · rw [childrenOf_of_find? hi] at hx
      obtain ⟨j, hj, rfl⟩ := hf.child_mem i (mem_items_of_find? hi) x hx
      rw [parentId?_of_find? (hf.find?_of_mem hj),
        (hf.mem_children_iff i (mem_items_of_find? hi) j hj).mp hx, id_of_find? hi]
  · intro hx
    obtain ⟨j, hj⟩ := has_iff.mp (has_of_parentId? hx)
    obtain ⟨i, hi⟩ := has_iff.mp (hf.has_parent hx)
    rw [parentId?_of_find? hj] at hx
    rw [childrenOf_of_find? hi, ← id_of_find? hj]
    refine (hf.mem_children_iff i (mem_items_of_find? hi) j (mem_items_of_find? hj)).mpr ?_
    rw [hx, id_of_find? hi]

theorem nodup_childrenOf (y : Text) : (f.childrenOf y).Nodup := by
  rcases hi : f.find? y with _ | i
  · simp [childrenOf, hi]
  · rw [childrenOf_of_find? hi]
    exact hf.nodup_children i (mem_items_of_find? hi)

/-- Whatever one starts from, going up comes to an end. -/
theorem exists_ancestor?_none (x : Text) : ∃ n, f.ancestor? n x = none := by
  rcases hx : f.find? x with _ | i
  · exact ⟨1, by rw [ancestor?_one, parentId?, hx, Option.bind_none]⟩
  · obtain ⟨n, r, hn, -, hr⟩ := hf.rooted i (mem_items_of_find? hx)
    rw [id_of_find? hx] at hn
    exact ⟨n + 1, by rw [ancestor?_succ_last, hn, Option.bind_some, hr]⟩

/-- Nothing is above itself. -/
theorem ancestor?_succ_ne_self (k : Nat) (x : Text) : f.ancestor? (k + 1) x ≠ some x := by
  intro h
  obtain ⟨n, hn⟩ := hf.exists_ancestor?_none x
  have hmul := ancestor?_mul h n
  rw [ancestor?_eq_none_of_le hn (Nat.le_mul_of_pos_right n (Nat.succ_pos k))] at hmul
  exact absurd hmul (by simp)

theorem has_ancestor {n : Nat} (hx : f.has x = true) (h : f.ancestor? n x = some y) :
    f.has y = true := by
  induction n generalizing x with
  | zero =>
    rw [ancestor?_zero, Option.some_inj] at h
    exact h ▸ hx
  | succ n ih =>
    obtain ⟨p, hp, hy⟩ := Option.bind_eq_some_iff.mp h
    exact ih (hf.has_parent hp) hy

/-- No two levels above an item hold the same item. -/
theorem ancestor?_inj {m n : Nat} (hm : f.ancestor? m x = some y) (hn : f.ancestor? n x = some y) :
    m = n := by
  wlog hmn : m ≤ n generalizing m n
  · exact (this hn hm (Nat.le_of_not_le hmn)).symm
  obtain ⟨k, rfl⟩ := Nat.exists_eq_add_of_le hmn
  rw [ancestor?_add, hm, Option.bind_some] at hn
  cases k with
  | zero => rfl
  | succ k => exact absurd hn (hf.ancestor?_succ_ne_self k y)

/-- There are fewer levels above an item than there are items: they all hold different ones. -/
theorem lt_length_of_ancestor? {n : Nat} (hx : f.has x = true) (h : f.ancestor? n x = some y) :
    n < f.items.length := by
  have hdefined : ∀ k ≤ n, ∃ z, f.ancestor? k x = some z := by
    intro k hk
    by_contra hnone
    rw [not_exists] at hnone
    rw [ancestor?_eq_none_of_le (Option.eq_none_iff_forall_not_mem.mpr hnone) hk] at h
    exact absurd h (by simp)
  let way := (List.range (n + 1)).map fun k => (f.ancestor? k x).getD []
  have hway : way.Nodup := by
    refine List.Nodup.map_on (fun k hk l hl hkl => ?_) List.nodup_range
    obtain ⟨a, ha⟩ := hdefined k (by simpa [Nat.lt_succ_iff] using hk)
    obtain ⟨b, hb⟩ := hdefined l (by simpa [Nat.lt_succ_iff] using hl)
    rw [ha, hb, Option.getD_some, Option.getD_some] at hkl
    exact hf.ancestor?_inj ha (hkl ▸ hb)
  have hsub : way ⊆ f.items.map Item.id := by
    intro a ha
    obtain ⟨k, hk, rfl⟩ := List.mem_map.mp ha
    obtain ⟨b, hb⟩ := hdefined k (by simpa [Nat.lt_succ_iff] using hk)
    rw [hb, Option.getD_some]
    exact has_iff_mem.mp (hf.has_ancestor hx hb)
  have hlen := (hway.subperm hsub).length_le
  simp only [way, List.length_map, List.length_range] at hlen
  omega

theorem ancestor?_length (hx : f.has x = true) : f.ancestor? f.items.length x = none := by
  rcases h : f.ancestor? f.items.length x with _ | y
  · rfl
  · exact absurd (hf.lt_length_of_ancestor? hx h) (Nat.lt_irrefl _)

end WellFormed

/-- Well-formedness in terms of the views of a forest. -/
theorem WellFormed.of_links (hnodup : (f.items.map Item.id).Nodup)
    (hne : ∀ x, f.has x = true → x ≠ [])
    (hlink : ∀ x y, x ∈ f.childrenOf y ↔ f.parentId? x = some y)
    (hparent : ∀ x y, f.parentId? x = some y → f.has y = true)
    (hchildren : ∀ y, (f.childrenOf y).Nodup)
    (hroot : ∀ x, ∃ n, f.ancestor? n x = none) : f.WellFormed := by
  have hfind : ∀ i ∈ f.items, f.find? i.id = some i := fun i hi => Forest.find?_of_mem hnodup hi
  have hmem : ∀ x, f.has x = true → ∃ j ∈ f.items, j.id = x := by
    intro x hx
    obtain ⟨j, hj⟩ := has_iff.mp hx
    exact ⟨j, mem_items_of_find? hj, id_of_find? hj⟩
  refine ⟨hnodup, fun i hi => hne _ (has_iff.mpr ⟨i, hfind i hi⟩), ?_, ?_, ?_, ?_, ?_⟩
  · intro i hi p hp
    exact hmem p (hparent i.id p (by rw [parentId?_of_find? (hfind i hi), hp]))
  · intro i hi c hc
    rw [← childrenOf_of_find? (hfind i hi)] at hc
    exact hmem c (has_of_parentId? ((hlink c i.id).mp hc))
  · intro i hi j hj
    rw [← childrenOf_of_find? (hfind i hi), hlink, parentId?_of_find? (hfind j hj)]
  · intro i hi
    rw [← childrenOf_of_find? (hfind i hi)]
    exact hchildren i.id
  · intro i hi
    -- the first level with nothing on it is not the lowest one, and a root is right below it
    have hfirst := Nat.find_spec (hroot i.id)
    have hbefore : ∀ m, m < Nat.find (hroot i.id) → f.ancestor? m i.id ≠ none :=
      fun m hm => Nat.find_min (hroot i.id) hm
    rcases hn : Nat.find (hroot i.id) with _ | n
    · rw [hn] at hfirst
      exact absurd hfirst (by simp)
    · rw [hn] at hfirst hbefore
      obtain ⟨r, hr⟩ := Option.ne_none_iff_exists'.mp (hbefore n (Nat.lt_succ_self n))
      rw [ancestor?_succ_last, hr, Option.bind_some] at hfirst
      refine ⟨n, r, hr, ?_, hfirst⟩
      cases n with
      | zero =>
        rw [ancestor?_zero, Option.some_inj] at hr
        exact hr ▸ has_iff.mpr ⟨i, hfind i hi⟩
      | succ n =>
        rw [ancestor?_succ_last] at hr
        obtain ⟨q, -, hq⟩ := Option.bind_eq_some_iff.mp hr
        exact hparent q r hq

/-- The forest without items is well formed. -/
theorem wellFormed_empty : empty.WellFormed := by
  refine .of_links List.nodup_nil ?_ ?_ ?_ ?_ ?_
  · intro x hx
    exact absurd hx (by simp [has, find?, empty])
  · intro x y
    simp [childrenOf, parentId?, find?, empty]
  · intro x y hxy
    exact absurd hxy (by simp [parentId?, find?, empty])
  · intro y
    simp [childrenOf, find?, empty]
  · intro x
    exact ⟨1, by simp [parentId?, find?, empty]⟩

/-! ## Lineages -/

theorem lineageFor_succ {i : Item} (h : f.find? x = some i) (n : Nat) :
    f.lineageFor (n + 1) x = i :: (f.parentId? x).elim [] (f.lineageFor n) := by
  rw [lineageFor, parentId?_of_find? h]
  simp only [h]
  rcases i.parent with _ | p <;> rfl

/-- What a lineage holds: the items that are reached by going up fewer levels than the bound. -/
theorem mem_map_id_lineageFor (hf : f.WellFormed) (hx : f.has x = true) (n : Nat) :
    y ∈ (f.lineageFor n x).map Item.id ↔ ∃ k, k < n ∧ f.ancestor? k x = some y := by
  induction n generalizing x with
  | zero => simp [lineageFor]
  | succ n ih =>
    obtain ⟨i, hi⟩ := has_iff.mp hx
    rw [lineageFor_succ hi, List.map_cons, List.mem_cons, id_of_find? hi]
    constructor
    · rintro (rfl | h)
      · exact ⟨0, Nat.succ_pos n, rfl⟩
      · rcases hp : f.parentId? x with _ | p
        · simp [hp] at h
        · rw [hp, Option.elim_some] at h
          obtain ⟨k, hk, hy⟩ := (ih (hf.has_parent hp)).mp h
          exact ⟨k + 1, Nat.succ_lt_succ hk, by rw [ancestor?_succ, hp, Option.bind_some, hy]⟩
    · rintro ⟨k, hk, hy⟩
      cases k with
      | zero =>
        rw [ancestor?_zero, Option.some_inj] at hy
        exact Or.inl hy.symm
      | succ k =>
        obtain ⟨p, hp, hy⟩ := Option.bind_eq_some_iff.mp hy
        rw [hp, Option.elim_some]
        exact Or.inr ((ih (hf.has_parent hp)).mpr ⟨k, Nat.lt_of_succ_lt_succ hk, hy⟩)

/-- The test for being above an item is exact: the bound inside a lineage is never felt. -/
theorem WellFormed.isAtOrAbove_iff (hf : f.WellFormed) (hx : f.has x = true) :
    f.isAtOrAbove y x = true ↔ ∃ n, f.ancestor? n x = some y := by
  have hany : f.isAtOrAbove y x = true ↔ y ∈ (f.lineage x).map Item.id := by
    simp [isAtOrAbove, List.any_eq_true, List.mem_map]
  rw [hany, lineage, mem_map_id_lineageFor hf hx]
  constructor
  · rintro ⟨n, -, hn⟩
    exact ⟨n, hn⟩
  · rintro ⟨n, hn⟩
    exact ⟨n, hf.lt_length_of_ancestor? hx hn, hn⟩

/-- What is above an item depends on nothing but the way up from it. -/
theorem WellFormed.isAtOrAbove_congr (hf : f.WellFormed) (hg : g.WellFormed) (hfx : f.has x = true)
    (hgx : g.has x = true) (h : ∀ n, g.ancestor? n x = f.ancestor? n x) (y : Text) :
    g.isAtOrAbove y x = f.isAtOrAbove y x := by
  rw [Bool.eq_iff_iff, hg.isAtOrAbove_iff hgx, hf.isAtOrAbove_iff hfx]
  simp only [h]

/-- A bound that is large enough is not felt. -/
theorem lineageFor_of_le {m n : Nat} (hm : f.ancestor? m x = none) (hmn : m ≤ n) :
    f.lineageFor n x = f.lineageFor m x := by
  induction m generalizing n x with
  | zero => exact absurd hm (by simp)
  | succ m ih =>
    obtain ⟨n, rfl⟩ := Nat.exists_eq_add_of_le' (Nat.lt_of_lt_of_le (Nat.succ_pos m) hmn)
    rcases hx : f.find? x with _ | i
    · simp [lineageFor, hx]
    · rw [lineageFor_succ hx, lineageFor_succ hx]
      rcases hp : f.parentId? x with _ | p
      · rfl
      · rw [ancestor?_succ, hp, Option.bind_some] at hm
        rw [Option.elim_some, Option.elim_some, ih hm (by omega)]

namespace WellFormed

variable (hf : f.WellFormed)
include hf

theorem lineage_cons {i : Item} (hx : f.find? x = some i) :
    f.lineage x = i :: (f.parentId? x).elim [] f.lineage := by
  have hhas := has_iff.mpr ⟨i, hx⟩
  have hlength := hf.ancestor?_length hhas
  rw [lineage]
  rcases hn : f.items.length with _ | n
  · rw [hn] at hlength
    exact absurd hlength (by simp)
  · rw [lineageFor_succ hx]
    rcases hp : f.parentId? x with _ | p
    · rfl
    · rw [hn, ancestor?_succ, hp, Option.bind_some] at hlength
      rw [Option.elim_some, Option.elim_some, lineage, hn, lineageFor_of_le hlength (Nat.le_succ n)]

/-- What is in a lineage is what is reached by going up. -/
theorem getElem?_lineage (x : Text) (j : Nat) :
    (f.lineage x)[j]? = (f.ancestor? j x).bind f.find? := by
  induction j generalizing x with
  | zero =>
    rw [ancestor?_zero, Option.bind_some]
    rcases hx : f.find? x with _ | i
    · rw [lineage]
      cases f.items.length <;> simp [lineageFor, hx]
    · rw [hf.lineage_cons hx, List.getElem?_cons_zero]
  | succ j ih =>
    rw [ancestor?_succ]
    rcases hx : f.find? x with _ | i
    · rw [lineage, parentId?, hx]
      cases f.items.length <;> simp [lineageFor, hx]
    · rw [hf.lineage_cons hx, List.getElem?_cons_succ]
      rcases hp : f.parentId? x with _ | p
      · rfl
      · rw [Option.elim_some, Option.bind_some, ih p]

/-- The upper part of a lineage is the lineage of what is reached. -/
theorem drop_lineage {n : Nat} (hy : f.ancestor? n x = some y) :
    (f.lineage x).drop n = f.lineage y := by
  refine List.ext_getElem? fun j => ?_
  rw [List.getElem?_drop, hf.getElem?_lineage, hf.getElem?_lineage, ancestor?_add, hy,
    Option.bind_some]

/-- What is reached by going up is fewer levels up than the depth. -/
theorem lt_depth_of_ancestor? {n : Nat} (hx : f.has x = true) (hy : f.ancestor? n x = some y) :
    n < f.depth x := by
  obtain ⟨i, hi⟩ := has_iff.mp (hf.has_ancestor hx hy)
  have hget : (f.lineage x)[n]? = some i := by
    rw [hf.getElem?_lineage, hy, Option.bind_some, hi]
  exact (List.getElem?_eq_some_iff.mp hget).1

end WellFormed

end Forest
end Debundle
