import Debundle.Proofs.Forest.Climbing
import Debundle.Proofs.Forest.Folding

/-!
# Joining two items

A merge makes two items share their directory, and then goes on and merges the directories above it.
While it does so, it may move the two items again, and what they share may become part of another
directory.  But whatever happens to the one of them happens to the other one.

## Why they stay together

In the first round both come into the directory that survives.  From then on the merge works on
directories above them, and they are not at or above any of these.  So when their directory is
discarded neither of them is refused by the survivor, and when it is not, neither of them is moved.

* `Forest.IsAbove`: one item is above another one.
* `Forest.Round`: what one round of a merge does to the links.
* `Forest.mergeUp_leaves`: what each round keeps is kept by all of them.
* `Forest.merge_keeps_parent`: what is in a directory that the merge does not come to stays there.
* `Forest.Together`: two items share their directory while a merge goes on above them.
* `Forest.merge_joined`: two items come into one directory, and what is known of it is kept.
-/

namespace Debundle
namespace Forest

open Debundle.Action

variable {f g : Forest} {a b x y p q s d w z : Text}

/-! ## Above and below -/

/-- One item is above another one. -/
def IsAbove (f : Forest) (x y : Text) : Prop := ∃ n, f.ancestor? (n + 1) y = some x

theorem not_isAbove_of_root (hy : f.parentId? y = none) : ¬f.IsAbove x y := by
  rintro ⟨n, hn⟩
  rw [ancestor?_succ, hy] at hn
  exact absurd hn (by simp)

theorem isAbove_of_ancestor? {n : Nat} (hp : f.parentId? y = some p)
    (hx : f.ancestor? n p = some x) : f.IsAbove x y :=
  ⟨n, by rw [ancestor?_succ, hp, Option.bind_some, hx]⟩

theorem WellFormed.not_isAbove (hf : f.WellFormed) (hy : f.has y = true)
    (h : f.isAtOrAbove x y = false) : ¬f.IsAbove x y := by
  rintro ⟨n, hn⟩
  rw [(hf.isAtOrAbove_iff hy).mpr ⟨n + 1, hn⟩] at h
  exact absurd h (by simp)

/-- An item is at or above neither of two others. -/
def Aside (f : Forest) (z x y : Text) : Prop :=
  ∀ n, f.ancestor? n x ≠ some z ∧ f.ancestor? n y ≠ some z

theorem isSettled_congr (h : g.bare? x = f.bare? x) : g.IsSettled x ↔ f.IsSettled x := by
  rw [IsSettled, IsSettled, h]

/-! ## One round -/

/-- What one round does to the links: of the directories of two items one absorbs the other. -/
structure Round (x y p q s d : Text) (f g : Forest) : Prop where
  first : f.parentId? x = some p
  second : f.parentId? y = some q
  ids : (s = p ∧ d = q) ∨ (s = q ∧ d = p)
  absorbed : Absorbed s d f g
  firstLine : ∀ n, g.ancestor? n p = f.ancestor? n p
  secondLine : ∀ n, g.ancestor? n q = f.ancestor? n q

namespace Round

variable (hr : Round x y p q s d f g)
include hr

theorem has (z : Text) : g.has z = f.has z := by
  rw [has_eq_isSome_bare?, hr.absorbed.bare, ← has_eq_isSome_bare?]

/-- Both directories end up as well known as the better known of them. -/
theorem settled_survivor (h : f.IsSettled p ∨ f.IsSettled q) : g.IsSettled s := by
  rw [isSettled_congr (hr.absorbed.bare s)]
  have hd := hr.absorbed.settled
  rcases hr.ids with ⟨rfl, rfl⟩ | ⟨rfl, rfl⟩
  · exact h.elim id hd
  · exact h.elim hd id

/-- What is aside goes where the survivor is if its directory is discarded, and else stays. -/
theorem parentId?_of_aside (hf : f.WellFormed) (hz : f.Aside z p q) (hw : f.parentId? z = some w) :
    g.parentId? z = some (if w = d then s else w) := by
  rw [hr.absorbed.parentId? hf, hw]
  have hs : f.has s = true := by
    rcases hr.ids with ⟨rfl, -⟩ | ⟨rfl, -⟩
    · exact hf.has_parent hr.first
    · exact hf.has_parent hr.second
  have hbelow : f.isAtOrAbove z s = false := by
    rw [← Bool.not_eq_true, hf.isAtOrAbove_iff hs]
    rintro ⟨n, hn⟩
    rcases hr.ids with ⟨rfl, -⟩ | ⟨rfl, -⟩
    · exact (hz n).1 hn
    · exact (hz n).2 hn
  by_cases hwd : w = d <;> simp [hwd, hbelow]

theorem aside (hz : f.Aside z p q) : g.Aside z p q := fun n => by
  rw [hr.firstLine, hr.secondLine]
  exact hz n

/-- What is aside of two items is aside of their directories. -/
theorem aside_above (hz : f.Aside z x y) : f.Aside z p q := fun n => by
  have h := hz (n + 1)
  rwa [ancestor?_succ, ancestor?_succ, hr.first, hr.second, Option.bind_some, Option.bind_some] at h

end Round

/-- Merging two directories is a round. -/
theorem mergeDirectories_round {p q : Item} (hf : f.WellFormed) (hp : f.parent? x = some p)
    (hq : f.parent? y = some q) :
    (mergeDirectories p q).Leaves f fun r g => r = .ok () ∧ g.WellFormed ∧ g.has p.id = true ∧
      g.has q.id = true ∧ ∃ s d, Round x y p.id q.id s d f g := by
  refine (mergeDirectories_absorbed hf (find?_of_parent? hp) (find?_of_parent? hq)).mono ?_
  rintro r g ⟨hok, -, hfirst, hsecond, s, d, hids, hg⟩
  have hr : Round x y p.id q.id s d f g :=
    ⟨parentId?_of_parent? hp, parentId?_of_parent? hq, hids, hg, hfirst, hsecond⟩
  refine ⟨hok, hg.wellFormed, ?_, ?_, s, d, hr⟩
  · rw [hr.has, hf.has_parent hr.first]
  · rw [hr.has, hf.has_parent hr.second]

/-- What each round keeps is kept by merging levels. -/
theorem mergeUp_leaves {P : Forest → Text → Text → Prop}
    (hround : ∀ {f g x y p q s d}, f.WellFormed → Round x y p q s d f g → P f x y → P g p q)
    (fuel : Nat) (hf : f.WellFormed) (hx : f.has x = true) (hy : f.has y = true) (hP : P f x y) :
    (mergeUp fuel x y).Leaves f fun r g =>
      ∃ v, r = .ok v ∧ g.WellFormed ∧ g.has v.1 = true ∧ g.has v.2 = true ∧ P g v.1 v.2 := by
  induction fuel generalizing f x y with
  | zero => exact ⟨(x, y), rfl, hf, hx, hy, hP⟩
  | succ fuel ih =>
    by_cases hne : ∃ p q, f.parent? x = some p ∧ f.parent? y = some q ∧ p.id ≠ q.id
    · obtain ⟨p, q, hp, hq, hpq⟩ := hne
      rw [mergeUp_of_ne hp hq hpq]
      refine (mergeDirectories_round hf hp hq).bind_ok ?_
      rintro g ⟨hg, hgp, hgq, s, d, hr⟩
      exact ih hg hgp hgq (hround hf hr hP)
    · refine (mergeUp_of_not hne (fuel + 1)).mono ?_
      rintro r g ⟨rfl, rfl⟩
      exact ⟨(x, y), rfl, hf, hx, hy, hP⟩

/-! ## Joining roots -/

theorem extends_attach (hx : f.has x = true) (hroot : f.parentId? x = none) (w : Text) :
    (attach x w).Leaves f fun _ g => Extends f g :=
  attach_leaves x w _ (fun _ => .refl f) (fun _ => .refl f) fun _ _ => extends_move hx hroot w

/-- The forest in which there is the directory that is made for an item. -/
def housed (f : Forest) (x : Text) : Forest :=
  if f.has (parentIdOf x) then f else f.insert (roof x none)

theorem has_housed (f : Forest) (x : Text) : (f.housed x).has (parentIdOf x) = true := by
  unfold housed
  split
  · assumption
  · simp [has_insert]

theorem parentId?_housed (f : Forest) (x z : Text) : (f.housed x).parentId? z = f.parentId? z := by
  unfold housed
  split
  · rfl
  · rename_i hfresh
    exact parentId?_insert f _ (roof_parent x none) (by simpa using hfresh) z

theorem extends_housed (f : Forest) (x : Text) : Extends f (f.housed x) := by
  unfold housed
  split
  · exact .refl f
  · rename_i hfresh
    exact extends_insert (roof_parent x none) (by simpa using hfresh)

theorem WellFormed.housed (hf : f.WellFormed) (x : Text) : (f.housed x).WellFormed := by
  unfold Forest.housed
  split
  · exact hf
  · rename_i hfresh
    exact hf.insert _ _ _ (parentIdOf_ne_nil x) (by simpa using hfresh)

/-- What is at or above the directory that is made for an item, if it was there already or not. -/
theorem WellFormed.isAtOrAbove_housed (hf : f.WellFormed) :
    (f.housed x).isAtOrAbove z (parentIdOf x) = true ↔
      z = parentIdOf x ∨ f.IsAbove z (parentIdOf x) := by
  rw [(hf.housed x).isAtOrAbove_iff (has_housed f x)]
  simp only [ancestor?_congr (parentId?_housed f x)]
  constructor
  · rintro ⟨n, hn⟩
    cases n with
    | zero => exact Or.inl (Option.some_inj.mp hn).symm
    | succ n => exact Or.inr ⟨n, hn⟩
  · rintro (rfl | ⟨n, hn⟩)
    · exact ⟨0, rfl⟩
    · exact ⟨n + 1, hn⟩

/-- A root goes into the directory that is made for it, unless it is above that directory. -/
theorem addParent_none_leaves (hf : f.WellFormed) (hroot : f.parentId? x = none) :
    (addParent x none).Leaves f fun r g =>
      (r = .ok (parentIdOf x) ∧ (f.housed x).isAtOrAbove x (parentIdOf x) = false ∧
        g = (f.housed x).move x (parentIdOf x)) ∨
      ((∃ e, r = .error e) ∧ f.IsAbove x (parentIdOf x) ∧ g = f.housed x) := by
  have hensure : (ensureParent (parentIdOf x) none).Leaves f fun r g =>
      r = .ok () ∧ g = f.housed x := by
    unfold ensureParent addDirectory addItem housed
    rw [leaves_get_bind]
    rcases h : f.find? (parentIdOf x) with _ | i
    · have hfresh := find?_eq_none_iff.mp h
      simp [hfresh, parentIdOf_ne_nil, roof]
    · rw [if_pos (has_iff.mpr ⟨i, h⟩)]
      exact ⟨rfl, rfl⟩
  unfold addParent
  refine hensure.bind_ok ?_
  rintro g rfl
  rw [leaves_bind]
  refine attach_leaves x (parentIdOf x) _ (fun hin => ?_) (fun habove => ?_) fun _ hbelow => ?_
  · rw [parentId?_housed, hroot] at hin
    exact absurd hin (by simp)
  · have hx := (hf.isAtOrAbove_housed.mp habove).resolve_left (parentIdOf_ne_self x).symm
    exact Or.inr ⟨⟨_, rfl⟩, hx, rfl⟩
  · exact Or.inl ⟨rfl, hbelow, rfl⟩

/-- Joining roots keeps the links that there are. -/
theorem extends_joinRoots (hf : f.WellFormed) (hx : f.has x = true) (hy : f.has y = true) :
    (joinRoots x y).Leaves f fun _ g => Extends f g := by
  unfold joinRoots
  rw [leaves_get_bind]
  rcases hpx : f.parentId? x with _ | p <;> rcases hpy : f.parentId? y with _ | q
  · have hhouse := extends_housed f y
    refine (addParent_none_leaves hf hpy).bind ?_ ?_
    · rintro e g (⟨hok, -⟩ | ⟨-, -, rfl⟩)
      · exact absurd hok (by simp)
      · exact hhouse
    · rintro w g (⟨hok, -, rfl⟩ | ⟨⟨e, he⟩, -⟩)
      · obtain rfl : w = parentIdOf y := by simpa using hok
        have hin := parentId?_move (hhouse.has y hy) (parentIdOf y)
        have hmove := hhouse.trans (extends_move (hhouse.has y hy)
          (by rw [parentId?_housed, hpy]) (parentIdOf y))
        by_cases hxy : x = y
        · -- the item that has just been put into the directory is not moved again
          subst hxy
          rw [leaves_bind]
          refine attach_leaves _ _ _ (fun _ => hmove) (fun _ => hmove) fun hne => absurd ?_ hne
          rw [hin, if_pos rfl]
        · refine (extends_attach (hmove.has x hx) ?_ _).bind (fun e k hk => hmove.trans hk)
            fun _ k hk => hmove.trans hk
          rw [hin, if_neg hxy, parentId?_housed, hpx]
      · exact absurd he (by simp)
  · exact (extends_attach hx hpx q).bind (fun _ _ h => h) fun _ _ h => h
  · exact (extends_attach hy hpy p).bind (fun _ _ h => h) fun _ _ h => h
  · exact .refl f

/-- An item goes into a directory that it is not at or above. -/
theorem attach_joins (hx : f.has x = true) (hbelow : f.isAtOrAbove x w = false) :
    (attach x w).Leaves f fun r g =>
      r = .ok true ∧ ∀ z, g.parentId? z = if z = x then some w else f.parentId? z := by
  refine attach_leaves x w _ (fun hin => ⟨rfl, fun z => ?_⟩) (fun h => ?_) fun _ _ => ?_
  · split
    · rename_i hz
      rw [hz, hin]
    · rfl
  · rw [hbelow] at h
    exact absurd h (by simp)
  · exact ⟨rfl, parentId?_move hx w⟩

/-- Two items that are not in different directories come into one: the directory of one of them if
there is one, and else the one that is made for the second. -/
theorem joinRoots_joins (hf : f.WellFormed) (ha : f.has a = true) (hb : f.has b = true)
    (hab : ¬f.IsAbove a b) (hba : ¬f.IsAbove b a)
    (hroots : f.parentId? a = none → f.parentId? b = none →
      a ≠ parentIdOf b ∧ ¬f.IsAbove a (parentIdOf b))
    (hsame : ∀ p q, f.parentId? a = some p → f.parentId? b = some q → p = q) :
    (joinRoots a b).Leaves f fun r g => r = .ok () →
      ∃ w, g.parentId? a = some w ∧ g.parentId? b = some w ∧
        ∀ p, f.parentId? a = some p ∨ f.parentId? b = some p → p = w := by
  -- an item is not at or above the directory of another one that it is not above
  have hbelow : ∀ {x y w}, f.parentId? y = some w → ¬f.IsAbove x y → f.isAtOrAbove x w = false := by
    intro x y w hw hxy
    rw [← Bool.not_eq_true, hf.isAtOrAbove_iff (hf.has_parent hw)]
    exact fun ⟨n, hn⟩ => hxy (isAbove_of_ancestor? hw hn)
  unfold joinRoots
  rw [leaves_get_bind]
  rcases hpa : f.parentId? a with _ | p <;> rcases hpb : f.parentId? b with _ | q
  · obtain ⟨hne, habove⟩ := hroots hpa hpb
    refine (addParent_none_leaves hf hpb).bind (fun e g _ h => absurd h (by simp)) ?_
    rintro w g (⟨hok, hbw, rfl⟩ | ⟨⟨e, he⟩, -⟩)
    · obtain rfl : w = parentIdOf b := by simpa using hok
      have hhouse := extends_housed f b
      have haw : ((f.housed b).move b (parentIdOf b)).isAtOrAbove a (parentIdOf b) = false := by
        rw [(hf.housed b).isAtOrAbove_move (hhouse.has b hb) (has_housed f b) hbw,
          ← Bool.not_eq_true, hf.isAtOrAbove_housed]
        exact fun h => h.elim hne habove
      refine (attach_joins (by rw [has_move, hhouse.has a ha]) haw).bind_ok fun k hk => ?_
      rw [leaves_pure]
      refine fun _ => ⟨parentIdOf b, by rw [hk, if_pos rfl], ?_, by simp⟩
      rw [hk, parentId?_move (hhouse.has b hb)]
      simp
    · exact absurd he (by simp)
  · refine (attach_joins ha (hbelow hpb hab)).bind_ok fun g hg => ?_
    rw [leaves_pure]
    have hne : b ≠ a := by
      rintro rfl
      rw [hpa] at hpb
      exact absurd hpb (by simp)
    exact fun _ => ⟨q, by rw [hg, if_pos rfl], by rw [hg, if_neg hne, hpb], by simp⟩
  · refine (attach_joins hb (hbelow hpa hba)).bind_ok fun g hg => ?_
    rw [leaves_pure]
    have hne : a ≠ b := by
      rintro rfl
      rw [hpa] at hpb
      exact absurd hpb (by simp)
    exact fun _ => ⟨p, by rw [hg, if_neg hne, hpa], by rw [hg, if_pos rfl], by simp⟩
  · obtain rfl := hsame p q hpa hpb
    exact fun _ => ⟨p, hpa, hpb, by simp⟩

/-! ## Merging -/

/-- What is in a directory that is above neither of the items that are merged stays in it. -/
theorem merge_keeps_parent (hf : f.WellFormed) (ha : f.has a = true) (hb : f.has b = true)
    (hz : f.parentId? z = some w) (hwa : ¬f.IsAbove w a) (hwb : ¬f.IsAbove w b) :
    (merge a b).Leaves f fun _ g => g.parentId? z = some w := by
  unfold merge
  rw [leaves_get_bind]
  refine (mergeUp_leaves (P := fun g x y => g.parentId? z = some w ∧
    ¬g.IsAbove w x ∧ ¬g.IsAbove w y) ?_ _ hf ha hb ⟨hz, hwa, hwb⟩).bind_exists_ok ?_
  · rintro g h x y p q s d hg hr ⟨hz, hwx, hwy⟩
    have hne : w ≠ d := by
      rintro rfl
      rcases hr.ids with ⟨-, rfl⟩ | ⟨-, rfl⟩
      · exact hwy (isAbove_of_ancestor? hr.second (ancestor?_zero g w))
      · exact hwx (isAbove_of_ancestor? hr.first (ancestor?_zero g w))
    refine ⟨?_, ?_, ?_⟩
    · rw [hr.absorbed.parentId? hg, if_neg (by simp [hz, hne]), hz]
    · rintro ⟨n, hn⟩
      rw [hr.firstLine] at hn
      exact hwx (isAbove_of_ancestor? hr.first hn)
    · rintro ⟨n, hn⟩
      rw [hr.secondLine] at hn
      exact hwy (isAbove_of_ancestor? hr.second hn)
  · rintro ⟨x, y⟩ g ⟨hg, hx, hy, hz, -⟩
    exact (extends_joinRoots hg hx hy).mono fun r h hgh => hgh.parent z w hz

/-- Two items are in one directory, which has a settled name if so much was known, and a merge has
come to two other items that they are aside of. -/
structure Together (a b : Text) (known : Prop) (f : Forest) (x y : Text) : Prop where
  shared : ∃ w, f.parentId? a = some w ∧ f.parentId? b = some w ∧ (known → f.IsSettled w)
  first : f.Aside a x y
  second : f.Aside b x y

/-- A round does the same to both. -/
theorem Round.together {known : Prop} (hf : f.WellFormed) (hr : Round x y p q s d f g)
    (h : Together a b known f x y) : Together a b known g p q := by
  obtain ⟨w, haw, hbw, hw⟩ := h.shared
  have ha := hr.aside_above h.first
  have hb := hr.aside_above h.second
  refine ⟨⟨_, hr.parentId?_of_aside hf ha haw, hr.parentId?_of_aside hf hb hbw, fun hk => ?_⟩,
    hr.aside ha, hr.aside hb⟩
  split
  · rename_i hwd
    refine hr.settled_survivor ?_
    rcases hr.ids with ⟨-, rfl⟩ | ⟨-, rfl⟩
    · exact Or.inr (hwd ▸ hw hk)
    · exact Or.inl (hwd ▸ hw hk)
  · exact (isSettled_congr (hr.absorbed.bare w)).mpr (hw hk)

/-- The first round brings both items into the directory that survives. -/
theorem Round.together_first (hf : f.WellFormed) (hr : Round a b p q s d f g)
    (hab : ¬f.IsAbove a b) (hba : ¬f.IsAbove b a) :
    Together a b (f.IsSettled p ∨ f.IsSettled q) g p q := by
  have ha : f.Aside a p q := by
    refine fun n => ⟨fun hn => ?_, fun hn => hab (isAbove_of_ancestor? hr.second hn)⟩
    obtain ⟨m, hm⟩ := isAbove_of_ancestor? hr.first hn
    exact hf.ancestor?_succ_ne_self m a hm
  have hb : f.Aside b p q := by
    refine fun n => ⟨fun hn => hba (isAbove_of_ancestor? hr.first hn), fun hn => ?_⟩
    obtain ⟨m, hm⟩ := isAbove_of_ancestor? hr.second hn
    exact hf.ancestor?_succ_ne_self m b hm
  have hin : ∀ {z r}, f.Aside z p q → f.parentId? z = some r → r = p ∨ r = q →
      g.parentId? z = some s := by
    intro z r hz hzr hr'
    rw [hr.parentId?_of_aside hf hz hzr]
    rcases hr.ids with ⟨rfl, rfl⟩ | ⟨rfl, rfl⟩ <;> rcases hr' with rfl | rfl <;> simp
  exact ⟨⟨s, hin ha hr.first (Or.inl rfl), hin hb hr.second (Or.inr rfl), hr.settled_survivor⟩,
    hr.aside ha, hr.aside hb⟩

/-- Two items in different directories are together when all levels are merged. -/
theorem mergeUp_together {p q : Item} (hf : f.WellFormed) (hp : f.parent? a = some p)
    (hq : f.parent? b = some q) (hpq : p.id ≠ q.id) (hab : ¬f.IsAbove a b) (hba : ¬f.IsAbove b a)
    (fuel : Nat) :
    (mergeUp (fuel + 1) a b).Leaves f fun r g => ∃ v, r = .ok v ∧ g.WellFormed ∧ g.has v.1 = true ∧
      g.has v.2 = true ∧ Together a b (f.IsSettled p.id ∨ f.IsSettled q.id) g v.1 v.2 := by
  rw [mergeUp_of_ne hp hq hpq]
  refine (mergeDirectories_round hf hp hq).bind_ok ?_
  rintro g ⟨hg, hgp, hgq, s, d, hr⟩
  exact mergeUp_leaves (fun hf hr h => hr.together hf h) fuel hg hgp hgq
    (hr.together_first hf hab hba)

/-- Two items, neither above the other, come into one directory.  If both were roots, the first must
not be the directory that is made for the second, or above it. -/
theorem merge_together (hf : f.WellFormed) (ha : f.has a = true) (hb : f.has b = true)
    (hab : ¬f.IsAbove a b) (hba : ¬f.IsAbove b a)
    (hroots : f.parentId? a = none → f.parentId? b = none →
      a ≠ parentIdOf b ∧ ¬f.IsAbove a (parentIdOf b)) :
    (merge a b).Leaves f fun r g => r = .ok () →
      ∃ w, g.parentId? a = some w ∧ g.parentId? b = some w ∧
        ∀ p, f.parentId? a = some p ∨ f.parentId? b = some p → f.IsSettled p → g.IsSettled w := by
  unfold merge
  rw [leaves_get_bind]
  by_cases hne : ∃ p q, f.parent? a = some p ∧ f.parent? b = some q ∧ p.id ≠ q.id
  · obtain ⟨p, q, hp, hq, hpq⟩ := hne
    obtain ⟨fuel, hfuel⟩ := Nat.exists_eq_succ_of_ne_zero
      (Nat.ne_of_gt (hf.lt_length_of_ancestor? ha (ancestor?_zero f a)))
    rw [hfuel]
    refine (mergeUp_together hf hp hq hpq hab hba fuel).bind_exists_ok ?_
    rintro ⟨x, y⟩ g ⟨hg, hx, hy, ⟨w, haw, hbw, hw⟩, -, -⟩
    refine (extends_joinRoots hg hx hy).mono fun r h hgh _ => ?_
    refine ⟨w, hgh.parent a w haw, hgh.parent b w hbw, fun v hv hvs => hgh.settled w (hw ?_)⟩
    rw [parentId?_of_parent? hp, parentId?_of_parent? hq, Option.some_inj, Option.some_inj] at hv
    rcases hv with rfl | rfl
    · exact Or.inl hvs
    · exact Or.inr hvs
  · refine Leaves.bind_ok (mergeUp_of_not hne _) ?_
    rintro g rfl
    have hsame : ∀ p q, g.parentId? a = some p → g.parentId? b = some q → p = q := by
      intro p q hp hq
      obtain ⟨i, hi, rfl⟩ := hf.parent?_eq_some hp
      obtain ⟨j, hj, rfl⟩ := hf.parent?_eq_some hq
      exact not_not.mp fun hij => hne ⟨i, j, hi, hj, hij⟩
    have hextends : (joinRoots a b).Leaves g fun _ k => Extends g k := extends_joinRoots hf ha hb
    refine (hextends.and (joinRoots_joins hf ha hb hab hba hroots hsame)).mono ?_
    rintro r k ⟨hgk, hjoined⟩ hr
    obtain ⟨w, haw, hbw, hw⟩ := hjoined hr
    refine ⟨w, haw, hbw, fun p hp hps => ?_⟩
    rw [← hw p hp]
    exact hgk.settled p hps

/-- Whatever two items are merged, neither above the other: if the merge succeeds, both are in one
directory afterwards, and its name is settled if that of the directory of one of them was.  If both
were roots, the first must be neither the directory that is made for the second nor above it. -/
theorem merge_joined (hf : f.WellFormed) (ha : f.has a = true) (hb : f.has b = true)
    (hab : ¬f.IsAbove a b) (hba : ¬f.IsAbove b a)
    (hroots : f.parentId? a = none → f.parentId? b = none →
      a ≠ parentIdOf b ∧ ¬f.IsAbove a (parentIdOf b)) :
    (merge a b).Leaves f fun r g => r = .ok () →
      ∃ w, g.parent? a = some w ∧ g.parent? b = some w ∧
        ∀ p, f.parent? a = some p ∨ f.parent? b = some p → p.isPlaceholder = false →
          w.isPlaceholder = false := by
  have hevolves := merge_evolves ⟨fun _ => False, (· = .parentDirectory)⟩ rfl hf ha hb
  refine (hevolves.and (merge_together hf ha hb hab hba hroots)).mono ?_
  rintro r g ⟨hfg, htogether⟩ hr
  obtain ⟨w, haw, hbw, hw⟩ := htogether hr
  obtain ⟨i, hi, rfl⟩ := (hfg.wellFormed hf).parent?_eq_some haw
  obtain ⟨j, hj, hij⟩ := (hfg.wellFormed hf).parent?_eq_some hbw
  have hi' := find?_of_parent? hi
  obtain rfl : j = i := by
    have hj' := find?_of_parent? hj
    rw [hij] at hj'
    exact Option.some_inj.mp (hj'.symm.trans hi')
  refine ⟨j, hi, hj, fun p hp hsettled => ?_⟩
  have hpf : f.find? p.id = some p := hp.elim find?_of_parent? find?_of_parent?
  obtain ⟨k, hk, hks⟩ := hw p.id (hp.imp parentId?_of_parent? parentId?_of_parent?)
    ⟨p.bare, bare?_of_find? hpf, hsettled⟩
  rw [bare?_of_find? hi', Option.some_inj] at hk
  rw [← hk] at hks
  exact hks

theorem nestedFiles_joined : nestedFiles.WellFormed ∧ nestedFiles.has "1" = true ∧
    nestedFiles.has "2" = true ∧ ¬nestedFiles.IsAbove "1" "2" ∧ ¬nestedFiles.IsAbove "2" "1" ∧
    (merge "1" "2").Leaves nestedFiles fun r g => r = .ok () ∧
      ∃ w, g.parent? "1" = some w ∧ g.parent? "2" = some w ∧ w.isPlaceholder = false := by
  have hf : nestedFiles.WellFormed := wellFormed_afterAll_empty _
  have hfirst : nestedFiles.has "1" = true := by decide
  have hsecond : nestedFiles.has "2" = true := by decide
  have hab := hf.not_isAbove hsecond (x := "1") (by decide +kernel)
  have hba := hf.not_isAbove hfirst (x := "2") (by decide +kernel)
  have hdirectory : ∃ p, nestedFiles.parent? "1" = some p ∧ p.isPlaceholder = false :=
    ⟨⟨"parent-1", "a", false, false, some "parent-parent-1", ["1", "parent-2"]⟩, by decide +kernel⟩
  obtain ⟨p, hp, hsettled⟩ := hdirectory
  have hroots : nestedFiles.parentId? "1" = none → nestedFiles.parentId? "2" = none →
      ("1" : Text) ≠ parentIdOf "2" ∧ ¬nestedFiles.IsAbove "1" (parentIdOf "2") := by
    rw [parentId?_of_parent? hp]
    exact fun h => absurd h (by simp)
  have hok : (merge "1" "2").Leaves nestedFiles fun r _ => r = .ok () := rfl
  refine ⟨hf, hfirst, hsecond, hab, hba, ?_⟩
  refine (hok.and (merge_joined hf hfirst hsecond hab hba hroots)).mono fun r g ⟨hr, hg⟩ => ?_
  obtain ⟨w, haw, hbw, hw⟩ := hg hr
  exact ⟨hr, w, haw, hbw, hw p (Or.inl hp) hsettled⟩

/-- A root that happens to have the id of the directory that is made for another root. -/
def namesakes : Forest :=
  empty.afterAll [.addDirectory "parent-1" "d" false, .addFile "1" "a" false]

/-- Then the second root goes into the first one, which is refused its own directory. -/
theorem namesakes_not_joined : namesakes.WellFormed ∧ namesakes.has "parent-1" = true ∧
    namesakes.has "1" = true ∧ ¬namesakes.IsAbove "parent-1" "1" ∧
    ¬namesakes.IsAbove "1" "parent-1" ∧ ¬namesakes.IsAbove "parent-1" (parentIdOf "1") ∧
    (merge "parent-1" "1").Leaves namesakes fun r g =>
      r = .ok () ∧ g.parentId? "parent-1" = none ∧ g.parentId? "1" = some "parent-1" :=
  ⟨wellFormed_afterAll_empty _, by decide, by decide, not_isAbove_of_root (by decide),
    not_isAbove_of_root (by decide), not_isAbove_of_root (by decide), rfl, by decide +kernel⟩

end Forest
end Debundle
