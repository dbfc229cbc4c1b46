import Debundle.Proofs.Forest.Layout

/-!
# Merging keeps what is known

While branches are merged, items move from one directory to another, and what an earlier require
path has said about directories seems to be lost.  It is not.  There is one map from discarded
directories to survivors such that whatever was in a directory is in its image afterwards, and a
discarded directory ends up beside the survivor.  So going up at least one level from an item
leads to the image of what it led to before: what was shared is shared, and what was settled is
settled.

* `Forest.Folds`: the forest after a merge, seen through such a map.
* `Forest.Folds.ancestor?`: going up leads to the image of what it led to.
* `Forest.Extends`: nothing is merged, links and settled names are kept.
* `Forest.Refines`: what is common to both.
* `Forest.merge_folds`: merging in a faithful forest.
-/

namespace Debundle
namespace Forest

open Debundle.Action

variable {R : Layout} {K : Text → Prop} {f g h : Forest} {x y z : Text} {σ τ : Text → Text}

/-! ## Refinement -/

/-- What was reached by going up is still reached, up to a change of directories that treats all
items alike and keeps settled names. -/
def Refines (f g : Forest) : Prop :=
  ∃ σ : Text → Text,
    (∀ n x z, f.ancestor? (n + 1) x = some z → g.ancestor? (n + 1) x = some (σ z)) ∧
      ∀ z, f.IsSettled z → g.IsSettled z ∧ g.IsSettled (σ z)

theorem Refines.trans (hfg : Refines f g) (hgh : Refines g h) : Refines f h := by
  obtain ⟨σ, hσ, hσs⟩ := hfg
  obtain ⟨τ, hτ, hτs⟩ := hgh
  refine ⟨τ ∘ σ, fun n x z hz => hτ n x _ (hσ n x z hz), fun z hz => ?_⟩
  exact ⟨(hτs z (hσs z hz).1).1, (hτs _ (hσs z hz).2).2⟩

/-- What two items share above them they still share. -/
theorem Refines.shared (hfg : Refines f g) {m n : Nat}
    (h : ∃ w, f.ancestor? (m + 1) x = some w ∧ f.ancestor? (n + 1) y = some w) :
    ∃ w, g.ancestor? (m + 1) x = some w ∧ g.ancestor? (n + 1) y = some w := by
  obtain ⟨σ, hσ, -⟩ := hfg
  obtain ⟨w, hx, hy⟩ := h
  exact ⟨σ w, hσ m x w hx, hσ n y w hy⟩

/-- What is above an item with a settled name still has one. -/
theorem Refines.isSettled (hfg : Refines f g) {n : Nat}
    (h : ∃ z, f.ancestor? n x = some z ∧ f.IsSettled z) :
    ∃ z, g.ancestor? n x = some z ∧ g.IsSettled z := by
  obtain ⟨σ, hσ, hs⟩ := hfg
  obtain ⟨z, hx, hz⟩ := h
  cases n with
  | zero => exact ⟨z, hx, (hs z hz).1⟩
  | succ n => exact ⟨σ z, hσ n x z hx, (hs z hz).2⟩

/-! ## Extension -/

/-- Links and settled names are kept, and items may come. -/
structure Extends (f g : Forest) : Prop where
  parent : ∀ x y, f.parentId? x = some y → g.parentId? x = some y
  settled : ∀ x, f.IsSettled x → g.IsSettled x
  has : ∀ x, f.has x = true → g.has x = true

theorem Extends.refl (f : Forest) : Extends f f := ⟨fun _ _ h => h, fun _ h => h, fun _ h => h⟩

theorem Extends.trans (hfg : Extends f g) (hgh : Extends g h) : Extends f h where
  parent x y hx := hgh.parent x y (hfg.parent x y hx)
  settled x hx := hgh.settled x (hfg.settled x hx)
  has x hx := hgh.has x (hfg.has x hx)

theorem Extends.ancestor? (hfg : Extends f g) {n : Nat} (hx : f.ancestor? n x = some y) :
    g.ancestor? n x = some y := by
  induction n generalizing x with
  | zero => exact hx
  | succ n ih =>
    obtain ⟨p, hp, hy⟩ := Option.bind_eq_some_iff.mp hx
    rw [ancestor?_succ, hfg.parent x p hp, Option.bind_some, ih hy]

theorem Extends.refines (hfg : Extends f g) : Refines f g :=
  ⟨id, fun _ _ _ hz => hfg.ancestor? hz, fun z hz => ⟨hfg.settled z hz, hfg.settled z hz⟩⟩

theorem extends_of_bare (hbare : ∀ x i, f.bare? x = some i → g.bare? x = some i)
    (hparent : ∀ x y, f.parentId? x = some y → g.parentId? x = some y) : Extends f g where
  parent := hparent
  settled x hx := by
    obtain ⟨i, hi, hs⟩ := hx
    exact ⟨i, hbare x i hi, hs⟩
  has x hx := by
    rw [has_eq_isSome_bare?, Option.isSome_iff_exists] at hx ⊢
    obtain ⟨i, hi⟩ := hx
    exact ⟨i, hbare x i hi⟩

theorem extends_settle (f : Forest) (id name : Text) : Extends f (f.settle id name) where
  parent x y hx := by rw [parentId?_settle, hx]
  settled x hx := by
    obtain ⟨i, hi, hs⟩ := hx
    rw [IsSettled, bare?_settle]
    split
    · exact ⟨i.settled name, by rw [hi, Option.map_some], rfl⟩
    · exact ⟨i, hi, hs⟩
  has x hx := by rw [has_settle, hx]

theorem isSettled_settle {i : Item} (hi : f.bare? x = some i) (name : Text) :
    (f.settle x name).IsSettled x :=
  ⟨i.settled name, by rw [bare?_settle, if_pos rfl, hi, Option.map_some], rfl⟩

theorem extends_insert {item : Item} (hitem : item.parent = none) (hfresh : f.has item.id = false) :
    Extends f (f.insert item) := by
  refine extends_of_bare (fun x i hi => ?_) fun x y hx => ?_
  · rw [bare?_insert, hi, Option.some_or]
  · rw [parentId?_insert f item hitem hfresh, hx]

/-- A root that goes into a directory. -/
theorem extends_move {child : Text} (hchild : f.has child = true) (hroot : f.parentId? child = none)
    (parent : Text) : Extends f (f.move child parent) := by
  refine extends_of_bare (fun x i hi => by rw [bare?_move, hi]) fun x y hx => ?_
  rw [parentId?_move hchild, if_neg, hx]
  rintro rfl
  rw [hroot] at hx
  exact absurd hx (by simp)

/-- A root that gets a directory of its own. -/
theorem Roofed.extends {name : Option Text} (hg : Roofed x name f g)
    (hfresh : f.has (parentIdOf x) = false) (hroot : f.parentId? x = none) : Extends f g := by
  refine extends_of_bare (fun y i hi => ?_) fun y p hp => ?_
  · rw [hg.bare, if_neg, hi]
    rintro rfl
    rw [has_eq_isSome_bare?, hi] at hfresh
    exact absurd hfresh (by simp)
  · rw [hg.parent, if_neg, hp]
    rintro rfl
    rw [hroot] at hp
    exact absurd hp (by simp)

/-! ## Folding -/

/-- A forest after directories have been folded into others: what was in a directory is in its
image, a directory and its image are in the same place, and settled names are kept. -/
structure Folds (σ : Text → Text) (f g : Forest) : Prop where
  parent : ∀ x y, f.parentId? x = some y → g.parentId? x = some (σ y)
  beside : ∀ x, g.parentId? (σ x) = g.parentId? x
  settled : ∀ x, f.IsSettled x → g.IsSettled x ∧ g.IsSettled (σ x)

/-- Going up leads to the image of what it led to. -/
theorem Folds.ancestor? (hfg : Folds σ f g) {n : Nat} (hx : f.ancestor? (n + 1) x = some z) :
    g.ancestor? (n + 1) x = some (σ z) := by
  induction n generalizing z with
  | zero =>
    rw [Nat.zero_add, ancestor?_one] at hx ⊢
    exact hfg.parent x z hx
  | succ n ih =>
    rw [ancestor?_succ_last] at hx
    obtain ⟨y, hy, hz⟩ := Option.bind_eq_some_iff.mp hx
    rw [ancestor?_succ_last, ih hy, Option.bind_some, hfg.beside, hfg.parent y z hz]

theorem Folds.refines (hfg : Folds σ f g) : Refines f g :=
  ⟨σ, fun _ _ _ hz => hfg.ancestor? hz, hfg.settled⟩

/-- One level above what was reached. -/
theorem Folds.ancestor?_succ (hfg : Folds σ f g) {n : Nat} (hx : f.ancestor? n x = some z) :
    g.ancestor? (n + 1) x = g.parentId? z := by
  cases n with
  | zero =>
    rw [Nat.zero_add, ancestor?_one, Option.some_inj.mp hx]
  | succ n =>
    rw [ancestor?_succ_last, hfg.ancestor? hx, Option.bind_some, hfg.beside]

theorem Extends.folds (hfg : Extends f g) : Folds id f g :=
  ⟨hfg.parent, fun _ => rfl, fun x hx => ⟨hfg.settled x hx, hfg.settled x hx⟩⟩

/-- Folding one directory into another one that has the same directory in the end. -/
theorem Folds.comp {s d : Text} (hfg : ∀ x y, f.parentId? x = some y →
      g.parentId? x = some (if y = d then s else y))
    (hsettled : ∀ x, f.IsSettled x → g.IsSettled x ∧ g.IsSettled (if x = d then s else x))
    (hgh : Folds τ g h) (hsd : h.parentId? s = h.parentId? d) :
    Folds (fun x => τ (if x = d then s else x)) f h where
  parent x y hx := hgh.parent x _ (hfg x y hx)
  beside x := by
    rw [hgh.beside]
    split
    · rename_i heq
      rw [heq, hsd]
    · rfl
  settled x hx := ⟨(hgh.settled x (hsettled x hx).1).1, (hgh.settled _ (hsettled x hx).2).2⟩

/-! ## Merging in a faithful forest -/

theorem WellFormed.parent?_eq_some (hf : f.WellFormed) (hx : f.parentId? x = some y) :
    ∃ p, f.parent? x = some p ∧ p.id = y := by
  obtain ⟨p, hp⟩ := has_iff.mp (hf.has_parent hx)
  exact ⟨p, by rw [parent?, hx, Option.bind_some, hp], id_of_find? hp⟩

theorem parent?_eq_none (hx : f.parentId? x = none) : f.parent? x = none := by
  rw [parent?, hx, Option.bind_none]

/-- Settled names at one place are the same. -/
theorem Faithful.clash_eq_false (hf : Faithful R K f) {p q : Item} (hp : f.find? p.id = some p)
    (hq : f.find? q.id = some q) (hpq : R.place p.id = R.place q.id) : clash p q = false := by
  rw [← Bool.not_eq_true]
  intro h
  simp only [clash, Bool.and_eq_true, Bool.not_eq_true', bne_iff_ne] at h
  obtain ⟨⟨hps, hqs⟩, hne⟩ := h
  obtain ⟨names, n, hpn⟩ := hf.settled p.id p.bare (bare?_of_find? hp) hps
  obtain ⟨names', n', hqn⟩ := hf.settled q.id q.bare (bare?_of_find? hq) hqs
  rw [hpn, hqn] at hpq
  injection hpq with hnames
  injection hnames with hname
  exact hne hname

/-- What merging two directories at one place leaves: one of them survives, all that was in the
other one is in it, and the rest is as it was. -/
structure Merged (s d : Text) (f g : Forest) : Prop where
  parent : ∀ x, g.parentId? x = (f.parentId? x).map fun y => if y = d then s else y
  bare : ∀ x, g.bare? x = f.bare? x
  settled : f.IsSettled d → f.IsSettled s

theorem mergeDirectories_merged (hf : Faithful R K f) {p q : Item} (hp : f.find? p.id = some p)
    (hq : f.find? q.id = some q) (hpq : R.place p.id = R.place q.id) :
    (mergeDirectories p q).Leaves f fun r g => r = .ok () ∧ Faithful R K g ∧
      ∃ s d, ((s = p.id ∧ d = q.id) ∨ (s = q.id ∧ d = p.id)) ∧ Merged s d f g := by
  refine (mergeDirectories_absorbed hf.wellFormed hp hq).mono ?_
  rintro r g ⟨hr, hconflicts, -, -, s, d, hids, hg⟩
  obtain ⟨hhas, hplace⟩ : f.has s = true ∧ R.place s = R.place d := by
    rcases hids with ⟨rfl, rfl⟩ | ⟨rfl, rfl⟩
    · exact ⟨has_iff.mpr ⟨p, hp⟩, hpq⟩
    · exact ⟨has_iff.mpr ⟨q, hq⟩, hpq.symm⟩
  have hparent : ∀ x, g.parentId? x = (f.parentId? x).map fun y => if y = d then s else y := by
    intro x
    rw [hg.parentId? hf.wellFormed]
    rcases hx : f.parentId? x with _ | y
    · simp
    · by_cases hy : y = d
      · -- a child of the discarded directory is one level below the survivor
        have hlevel : R.level s < R.level x := by
          have hxd := hf.level_parent hx
          rw [hy, Layout.level, ← hplace, ← Layout.level] at hxd
          omega
        simp [hy, hf.isAtOrAbove_eq_false hhas hlevel]
      · simp [hy]
  refine ⟨hr, hf.of_links hg.wellFormed hg.bare (hconflicts (hf.clash_eq_false hp hq hpq)) ?_ ?_,
    s, d, hids, hparent, hg.bare, hg.settled⟩
  · intro x p hp
    rw [hparent] at hp
    obtain ⟨y, hy, rfl⟩ := Option.map_eq_some_iff.mp hp
    rw [← hf.place_parent x y hy]
    split
    · rename_i heq
      rw [heq, hplace]
    · rfl
  · intro x hx
    rw [hparent]
    simpa using hx

/-- Above the directories that are merged nothing changes. -/
theorem Merged.ancestor? {s d : Text} (hg : Merged s d f g) (hf : Faithful R K f)
    (hx : R.level x ≤ R.level d) (n : Nat) : g.ancestor? n x = f.ancestor? n x := by
  induction n generalizing x with
  | zero => rfl
  | succ n ih =>
    rw [ancestor?_succ, ancestor?_succ, hg.parent]
    rcases hp : f.parentId? x with _ | p
    · rfl
    · have hlevel := hf.level_parent hp
      have hne : p ≠ d := by
        rintro rfl
        omega
      simp only [Option.map_some, if_neg hne, Option.bind_some]
      exact ih (by omega)

/-- A root that goes into a directory at the place above it. -/
theorem attach_extends {w : Text} (hf : Faithful R K f) (hx : f.has x = true)
    (hroot : f.parentId? x = none) (hw : f.has w = true) (hplace : R.place w = (R.place x).up) :
    (attach x w).Leaves f fun r g => r = .ok true ∧ Faithful R K g ∧ Extends f g ∧
      g.parentId? x = some w := by
  have hbelow : f.isAtOrAbove x w = false := by
    refine hf.isAtOrAbove_eq_false hw ?_
    rw [Layout.level, hplace, Layout.Place.level_up, ← Layout.level]
    omega
  refine attach_leaves x w _ (fun h => ?_) (fun h => ?_) fun _ _ => ?_
  · rw [hroot] at h
    exact absurd h (by simp)
  · rw [hbelow] at h
    exact absurd h (by simp)
  · exact ⟨rfl, hf.move hx hw hplace, extends_move hx hroot w, by rw [parentId?_move hx, if_pos rfl]⟩

/-- Two items below one place come into one directory, if they are not in two different ones. -/
theorem joinRoots_extends (hK : ∀ x, K x → K (parentIdOf x)) (hf : Faithful R K f)
    (hx : f.has x = true) (hy : f.has y = true) (hplace : (R.place x).up = (R.place y).up)
    (hparents : ∀ p q, f.parentId? x = some p → f.parentId? y = some q → p = q) :
    (joinRoots x y).Leaves f fun r g => r = .ok () ∧ Faithful R K g ∧ Extends f g ∧
      ∃ w, g.parentId? x = some w ∧ g.parentId? y = some w := by
  unfold joinRoots
  rw [leaves_get_bind]
  rcases hpx : f.parentId? x with _ | p <;> rcases hpy : f.parentId? y with _ | q
  · have hfresh := hf.has_parentIdOf_eq_false hpy
    have hnone : ∀ n, (none : Option Text) = some n → n ≠ [] := by simp
    refine (addParent_leaves hf.wellFormed hy hfresh hnone).bind_ok fun g hg => ?_
    have hextends := hg.extends hfresh hpy
    have hfaithful := hf.roofed hK hg hy (by simp)
    have hgy : g.parentId? y = some (parentIdOf y) := by rw [hg.parent, if_pos rfl]
    by_cases hxy : x = y
    · subst hxy
      rw [leaves_bind]
      refine attach_leaves x (parentIdOf x) _ (fun _ => ?_) (fun h => ?_) fun h _ => absurd hgy h
      · exact ⟨rfl, hfaithful, hextends, parentIdOf x, hgy, hgy⟩
      · have hlevel := hfaithful.level_parent hgy
        rw [hfaithful.isAtOrAbove_eq_false (hg.wellFormed.has_parent hgy) (by omega)] at h
        exact absurd h (by simp)
    · have hgx : g.parentId? x = none := by rw [hg.parent, if_neg hxy, hpx]
      refine (attach_extends hfaithful (hextends.has x hx) hgx (hg.wellFormed.has_parent hgy)
        (by rw [R.place_parentIdOf, hplace])).bind_ok ?_
      rintro k ⟨hk, hgk, hkx⟩
      exact ⟨rfl, hk, hextends.trans hgk, parentIdOf y, hkx, hgk.parent y _ hgy⟩
  · refine (attach_extends hf hx hpx (hf.wellFormed.has_parent hpy)
      (by rw [hf.place_parent y q hpy, hplace])).bind_ok ?_
    rintro g ⟨hg, hfg, hgx⟩
    exact ⟨rfl, hg, hfg, q, hgx, hfg.parent y q hpy⟩
  · refine (attach_extends hf hy hpy (hf.wellFormed.has_parent hpx)
      (by rw [hf.place_parent x p hpx, hplace])).bind_ok ?_
    rintro g ⟨hg, hfg, hgy⟩
    exact ⟨rfl, hg, hfg, p, hfg.parent x p hpx, hgy⟩
  · have hpq := hparents p q hpx hpy
    exact ⟨rfl, hf, .refl f, p, hpx, hpq ▸ hpy⟩

/-- Merging level by level and then joining the roots folds one branch into the other. -/
theorem mergeUp_folds (hK : ∀ x, K x → K (parentIdOf x)) (fuel : Nat) (hf : Faithful R K f)
    (hx : f.has x = true) (hy : f.has y = true) (hplace : (R.place x).up = (R.place y).up)
    (hfuel : f.ancestor? fuel x = none) :
    (mergeUp fuel x y >>= fun p => joinRoots p.1 p.2).Leaves f fun r g =>
      r = .ok () ∧ Faithful R K g ∧ (∃ σ, Folds σ f g) ∧
        ∃ w, g.parentId? x = some w ∧ g.parentId? y = some w := by
  induction fuel generalizing f x y with
  | zero => exact absurd hfuel (by simp)
  | succ fuel ih =>
    -- where the loop stops, the roots are joined
    have hstop : (∀ p q, f.parentId? x = some p → f.parentId? y = some q → p = q) →
        (joinRoots x y).Leaves f fun r g => r = .ok () ∧ Faithful R K g ∧ (∃ σ, Folds σ f g) ∧
          ∃ w, g.parentId? x = some w ∧ g.parentId? y = some w := by
      intro hparents
      refine (joinRoots_extends hK hf hx hy hplace hparents).mono ?_
      rintro r g ⟨hr, hg, hfg, hw⟩
      exact ⟨hr, hg, ⟨id, hfg.folds⟩, hw⟩
    unfold mergeUp
    simp only [bind_assoc]
    rw [leaves_get_bind]
    rcases hpx : f.parentId? x with _ | p
    · rw [parent?_eq_none hpx]
      exact hstop (by simp [hpx])
    rcases hpy : f.parentId? y with _ | q
    · rw [parent?_eq_none hpy]
      rcases f.parent? x with _ | i <;> exact hstop (by simp [hpy])
    obtain ⟨i, hi, rfl⟩ := hf.wellFormed.parent?_eq_some hpx
    obtain ⟨j, hj, rfl⟩ := hf.wellFormed.parent?_eq_some hpy
    rw [hi, hj]
    simp only
    split
    · rename_i heq
      exact hstop (by simpa [hpx, hpy] using heq)
    · have hij : R.place i.id = R.place j.id := by
        rw [hf.place_parent x _ hpx, hf.place_parent y _ hpy, hplace]
      rw [bind_assoc]
      refine (mergeDirectories_merged hf (find?_of_parent? hi) (find?_of_parent? hj) hij).bind_ok ?_
      rintro g ⟨hg, s, d, hsd, hm⟩
      have hhas : ∀ z, f.has z = true → g.has z = true := by
        intro z hz
        rwa [has_eq_isSome_bare?, hm.bare, ← has_eq_isSome_bare?]
      have hlevel : R.level i.id ≤ R.level d := by
        rcases hsd with ⟨-, rfl⟩ | ⟨-, rfl⟩
        · exact Int.le_of_eq (congrArg Layout.Place.level hij)
        · exact Int.le_refl _
      have hfuel' : g.ancestor? fuel i.id = none := by
        rw [hm.ancestor? hf hlevel]
        rwa [ancestor?_succ, hpx, Option.bind_some] at hfuel
      refine (ih hg (hhas _ (hf.wellFormed.has_parent hpx)) (hhas _ (hf.wellFormed.has_parent hpy))
        (by rw [hij]) hfuel').mono ?_
      rintro r k ⟨hr, hk, ⟨τ, hτ⟩, w, hki, hkj⟩
      have hsettled : ∀ z, f.IsSettled z → g.IsSettled z ∧ g.IsSettled (if z = d then s else z) := by
        have hkeep : ∀ z, f.IsSettled z → g.IsSettled z := by
          rintro z ⟨l, hl, hs⟩
          exact ⟨l, by rw [hm.bare, hl], hs⟩
        intro z hz
        refine ⟨hkeep z hz, ?_⟩
        split
        · rename_i heq
          exact hkeep s (hm.settled (heq ▸ hz))
        · exact hkeep z hz
      have hbeside : k.parentId? s = k.parentId? d := by
        rcases hsd with ⟨rfl, rfl⟩ | ⟨rfl, rfl⟩
        · rw [hki, hkj]
        · rw [hki, hkj]
      have hfolds := Folds.comp (f := f) (fun a b hab => by rw [hm.parent, hab, Option.map_some])
        hsettled hτ hbeside
      refine ⟨hr, hk, ⟨_, hfolds⟩, ?_⟩
      have himage : (if i.id = d then s else i.id) = if j.id = d then s else j.id := by
        rcases hsd with ⟨rfl, rfl⟩ | ⟨rfl, rfl⟩
        · rw [if_pos rfl]
          split <;> simp_all
        · rw [if_pos rfl]
          split <;> simp_all
      exact ⟨_, hfolds.parent x _ hpx, by rw [himage]; exact hfolds.parent y _ hpy⟩

/-- Merging in a faithful forest: two items below one place come into one directory, and whatever
is known is kept. -/
theorem merge_folds (hK : ∀ x, K x → K (parentIdOf x)) (hf : Faithful R K f)
    (hx : f.has x = true) (hy : f.has y = true) (hplace : (R.place x).up = (R.place y).up) :
    (merge x y).Leaves f fun r g => r = .ok () ∧ Faithful R K g ∧ (∃ σ, Folds σ f g) ∧
      ∃ w, g.parentId? x = some w ∧ g.parentId? y = some w := by
  unfold merge
  rw [leaves_get_bind]
  exact mergeUp_folds hK _ hf hx hy hplace (hf.wellFormed.ancestor?_length hx)

end Forest
end Debundle
