import Debundle.Proofs.Forest.Adoption

/-!
# Climbing while links change

A merge goes up from two items at once, and on each level it moves items from one directory to the
other.  All the same it goes up the two lines that were there when it began, and so it merges fewer
levels than there are up to the nearer root.

An item that is moved was in the directory that is discarded, so it is not at or above that one.  It
may be above the survivor, where one line runs through the other; but then moving it would make a
cycle, and is refused.  Hence nothing moves that is at or above either of the two directories.

* `Forest.MergePoint`: a point in a merge, between two things that it does.
* `Forest.MergePoint.Next`: what a merge does next.
* `Forest.MergePoint.OnLines`: the merge is on the lines that were there when it began.
* `Forest.mergeUp_ends`: the merge of levels comes to an end that does not depend on its bound.
* `Forest.merge_climbs`: what a merge climbs, and how far.
-/

namespace Debundle
namespace Forest

open Debundle.Action

variable {f g : Forest} {a b x y : Text}

/-! ## Points of a merge -/

/-- The forest in which the conflict between two directories is recorded, if there is one. -/
def noted (f : Forest) (p q s d : Item) : Forest :=
  if clash p q then f.record ⟨.parentDirectory, s.id, s.name, d.name⟩ else f

theorem parentId?_noted (f : Forest) (p q s d : Item) (x : Text) :
    (f.noted p q s d).parentId? x = f.parentId? x := by
  unfold noted
  split <;> rfl

theorem has_noted (f : Forest) (p q s d : Item) (x : Text) :
    (f.noted p q s d).has x = f.has x := by
  unfold noted
  split <;> rfl

theorem WellFormed.noted (hf : f.WellFormed) (p q s d : Item) : (f.noted p q s d).WellFormed := by
  unfold Forest.noted
  split
  · exact hf.record _
  · exact hf

/-- A point in a merge. -/
inductive MergePoint where
  /-- So many levels have been merged, and a round begins with two items. -/
  | round (levels : Nat) (first second : Text) (f : Forest)
  /-- So many levels have been merged, and of the directories with which the next round begins one
  has still to take over some items from the other. -/
  | adopting (levels : Nat) (first second survivor discarded : Text) (rest : List Text) (f : Forest)

namespace MergePoint

/-- How many levels have been merged. -/
def levels : MergePoint → Nat
  | round n .. => n
  | adopting n .. => n

/-- What a merge does next: it finds two different directories above its items and which of them
survives, it moves one item or leaves it where it is, and it goes up. -/
inductive Next : MergePoint → MergePoint → Prop
  | meet {n : Nat} {x y : Text} {f : Forest} {p q s d : Item} (hp : f.parent? x = some p)
      (hq : f.parent? y = some q) (hpq : p.id ≠ q.id)
      (hsd : prefer (fun a b => (mergeRank f a).above (mergeRank f b)) p q = (s, d)) :
      Next (round n x y f) (adopting n p.id q.id s.id d.id ((f.noted p q s d).childrenOf d.id)
        (f.noted p q s d))
  | adopt {n : Nat} {p q s d c : Text} {rest : List Text} {f : Forest} :
      Next (adopting n p q s d (c :: rest) f)
        (adopting n p q s d rest ((Forest.adopt s [c]).run f).state)
  | climb {n : Nat} {p q s d : Text} {f : Forest} :
      Next (adopting n p q s d [] f) (round (n + 1) p q f)

/-- What a merge comes to. -/
def Reaches : MergePoint → MergePoint → Prop := Relation.ReflTransGen Next

/-! ## The lines -/

/-- A point at which a forest is well formed and, while a directory takes over items, these are in
the other one. -/
def Sound : MergePoint → Prop
  | round _ _ _ f => f.WellFormed
  | adopting _ p q s d rest f => f.WellFormed ∧ ((s = p ∧ d = q) ∨ (s = q ∧ d = p)) ∧
      f.has s = true ∧ rest.Nodup ∧ ∀ c ∈ rest, f.parentId? c = some d

/-- The two items of a point are as many levels above the items that are merged as there were when
the merge began, and whatever is above them is what was above them then. -/
def OnLines (f : Forest) (a b : Text) : MergePoint → Prop
  | round n x y g => f.ancestor? n a = some x ∧ f.ancestor? n b = some y ∧
      (∀ k, g.ancestor? k x = f.ancestor? k x) ∧ ∀ k, g.ancestor? k y = f.ancestor? k y
  | adopting n p q _ _ _ g => f.ancestor? (n + 1) a = some p ∧ f.ancestor? (n + 1) b = some q ∧
      (∀ k, g.ancestor? k p = f.ancestor? k p) ∧ ∀ k, g.ancestor? k q = f.ancestor? k q

theorem adopt_adopted {s d c : Text} {rest : List Text} (hf : f.WellFormed) (hs : f.has s = true)
    (hrest : ∀ e ∈ c :: rest, f.parentId? e = some d) :
    (Forest.adopt s [c]).Leaves f fun r g => r = .ok () ∧ Adopted s [c] f g := by
  have hc : f.has c = true := has_of_parentId? (hrest c List.mem_cons_self)
  refine (adopt_leaves [c] hf hs fun e he => ?_).mono fun r g hg => ⟨hg.1, hg.2.2⟩
  rwa [List.mem_singleton.mp he]

theorem Next.sound {P Q : MergePoint} (h : Next P Q) (hP : P.Sound) : Q.Sound := by
  cases h with
  | @meet n x y f p q s d hp hq hpq hsd =>
    have hf : f.WellFormed := hP
    have hnoted := hf.noted p q s d
    have hcases : (s = p ∧ d = q) ∨ (s = q ∧ d = p) := by
      obtain ⟨s', d', hsd', hcases⟩ := prefer_cases
        (fun a b => (mergeRank f a).above (mergeRank f b)) p q
      obtain ⟨rfl, rfl⟩ := Prod.mk.inj (hsd.symm.trans hsd')
      exact hcases
    refine ⟨hnoted, ?_, ?_, hnoted.nodup_childrenOf _, fun c => hnoted.mem_childrenOf_iff.mp⟩
    · rcases hcases with ⟨rfl, rfl⟩ | ⟨rfl, rfl⟩
      · exact Or.inl ⟨rfl, rfl⟩
      · exact Or.inr ⟨rfl, rfl⟩
    · rw [has_noted]
      rcases hcases with ⟨rfl, -⟩ | ⟨rfl, -⟩
      · exact has_iff.mpr ⟨_, find?_of_parent? hp⟩
      · exact has_iff.mpr ⟨_, find?_of_parent? hq⟩
  | @adopt n p q s d c rest f =>
    obtain ⟨hf, hids, hs, hnodup, hrest⟩ := hP
    obtain ⟨-, hg⟩ := adopt_adopted hf hs hrest
    refine ⟨hg.wellFormed, hids, ?_, hnodup.of_cons, fun e he => ?_⟩
    · rwa [has_eq_isSome_bare?, hg.bare, ← has_eq_isSome_bare?]
    · have hne : e ≠ c := by
        rintro rfl
        exact (List.nodup_cons.mp hnodup).1 he
      rw [hg.parent, if_neg (by simp [hne])]
      exact hrest e (List.mem_cons_of_mem c he)
  | climb => exact hP.1

/-- Whatever a merge does next, it stays on the lines. -/
theorem Next.onLines {P Q : MergePoint} (h : Next P Q) (hP : P.Sound) (hlines : P.OnLines f a b) :
    Q.OnLines f a b := by
  cases h with
  | @meet n x y g p q s d hp hq hpq hsd =>
    obtain ⟨hx, hy, hxup, hyup⟩ := hlines
    have hup : ∀ {z : Text} {r : Item}, g.parent? z = some r →
        (∀ k, g.ancestor? k z = f.ancestor? k z) →
        f.parentId? z = some r.id ∧ ∀ k, (g.noted p q s d).ancestor? k r.id = f.ancestor? k r.id := by
      intro z r hr hz
      have hgz := parentId?_of_parent? hr
      have hfz : f.parentId? z = some r.id := by
        rw [← ancestor?_one, ← hz, ancestor?_one, hgz]
      refine ⟨hfz, fun k => ?_⟩
      have hk := hz (k + 1)
      rw [ancestor?_succ, ancestor?_succ, hgz, hfz, Option.bind_some, Option.bind_some] at hk
      rw [ancestor?_congr (parentId?_noted g p q s d), hk]
    obtain ⟨hxp, hpup⟩ := hup hp hxup
    obtain ⟨hyq, hqup⟩ := hup hq hyup
    refine ⟨?_, ?_, hpup, hqup⟩
    · rw [ancestor?_succ_last, hx, Option.bind_some, hxp]
    · rw [ancestor?_succ_last, hy, Option.bind_some, hyq]
  | @adopt n p q s d c rest g =>
    obtain ⟨hp, hq, hpup, hqup⟩ := hlines
    obtain ⟨hg, hids, hs, -, hrest⟩ := hP
    obtain ⟨-, hh⟩ := adopt_adopted hg hs hrest
    have hc : ∀ e ∈ [c], g.parentId? e = some d := fun e he =>
      hrest e (List.mem_singleton.mp he ▸ List.mem_cons_self)
    have hsup := hh.ancestor?_survivor hg hs
    have hdup := hh.ancestor?_discarded hg hc
    rcases hids with ⟨rfl, rfl⟩ | ⟨rfl, rfl⟩
    · exact ⟨hp, hq, fun k => (hsup k).trans (hpup k), fun k => (hdup k).trans (hqup k)⟩
    · exact ⟨hp, hq, fun k => (hdup k).trans (hpup k), fun k => (hsup k).trans (hqup k)⟩
  | climb => exact hlines

/-- Wherever a merge comes to, it is on the lines that were there when it began. -/
theorem Reaches.onLines {P : MergePoint} (hf : f.WellFormed) (h : Reaches (round 0 a b f) P) :
    P.Sound ∧ P.OnLines f a b := by
  induction h with
  | refl => exact ⟨hf, rfl, rfl, fun _ => rfl, fun _ => rfl⟩
  | tail _ hPQ ih => exact ⟨hPQ.sound ih.1, hPQ.onLines ih.1 ih.2⟩

/-- On the lines, fewer levels have been merged than there are up to the nearer root. -/
theorem OnLines.levels_lt {P : MergePoint} (h : P.OnLines f a b) (hf : f.WellFormed)
    (ha : f.has a = true) (hb : f.has b = true) : P.levels < min (f.depth a) (f.depth b) := by
  rw [Nat.lt_min]
  cases P with
  | round n x y g => exact ⟨hf.lt_depth_of_ancestor? ha h.1, hf.lt_depth_of_ancestor? hb h.2.1⟩
  | adopting n p q s d rest g =>
    have hlta := hf.lt_depth_of_ancestor? ha h.1
    have hltb := hf.lt_depth_of_ancestor? hb h.2.1
    exact ⟨Nat.lt_of_succ_lt hlta, Nat.lt_of_succ_lt hltb⟩

end MergePoint

/-! ## What a merge does, point by point -/

open MergePoint

theorem adopt_cons (s c : Text) (rest : List Text) :
    adopt s (c :: rest) = adopt s [c] >>= fun _ => adopt s rest := by
  simp only [adopt, bind_assoc]
  refine bind_congr fun f => ?_
  split <;> simp

theorem adopt_reaches {n : Nat} {p q s d : Text} {rest : List Text}
    (hP : (adopting n p q s d rest f).Sound) :
    (adopt s rest).Leaves f fun r g => r = .ok () ∧
      Reaches (adopting n p q s d rest f) (adopting n p q s d [] g) := by
  induction rest generalizing f with
  | nil => exact ⟨rfl, .refl⟩
  | cons c rest ih =>
    have hnext : Next (adopting n p q s d (c :: rest) f) _ := .adopt
    have hok : ((adopt s [c]).run f).result = .ok () := (adopt_adopted hP.1 hP.2.2.1 hP.2.2.2.2).1
    rw [adopt_cons]
    refine Leaves.bind_ok (P := (· = ((adopt s [c]).run f).state)) ⟨hok, rfl⟩ ?_
    rintro g rfl
    exact (ih (hnext.sound hP)).mono fun r g hg => ⟨hg.1, .head hnext hg.2⟩

/-- Merging two directories is one round. -/
theorem mergeDirectories_reaches {p q : Item} (hf : f.WellFormed) (hp : f.parent? x = some p)
    (hq : f.parent? y = some q) (hpq : p.id ≠ q.id) (n : Nat) :
    (mergeDirectories p q).Leaves f fun r g => r = .ok () ∧
      Reaches (round n x y f) (round (n + 1) p.id q.id g) := by
  obtain ⟨s, d, hsd, -⟩ := prefer_cases (fun a b => (mergeRank f a).above (mergeRank f b)) p q
  have hnext := Next.meet (n := n) hp hq hpq hsd
  have hsound : (round n x y f).Sound := hf
  rw [mergeDirectories_leaves hsd, adoptChildren, leaves_get_bind, ← noted]
  exact (adopt_reaches (hnext.sound hsound)).mono fun r g hg =>
    ⟨hg.1, .head hnext (hg.2.tail .climb)⟩

/-- Where there are no two different directories, merging levels does nothing. -/
theorem mergeUp_of_not (hstop : ¬∃ p q, f.parent? x = some p ∧ f.parent? y = some q ∧ p.id ≠ q.id)
    (fuel : Nat) : (mergeUp fuel x y).Leaves f fun r g => r = .ok (x, y) ∧ g = f := by
  cases fuel with
  | zero => exact ⟨rfl, rfl⟩
  | succ fuel =>
    rw [mergeUp, leaves_get_bind]
    split
    · rename_i p q hp hq
      rw [if_pos]
      · exact ⟨rfl, rfl⟩
      · rw [beq_iff_eq]
        exact not_not.mp fun hpq => hstop ⟨p, q, hp, hq, hpq⟩
    · exact ⟨rfl, rfl⟩

/-- Where there are two different directories, they are merged first. -/
theorem mergeUp_of_ne {p q : Item} (hp : f.parent? x = some p) (hq : f.parent? y = some q)
    (hpq : p.id ≠ q.id) (fuel : Nat) (Q : Except Error (Text × Text) → Forest → Prop) :
    (mergeUp (fuel + 1) x y).Leaves f Q ↔
      (mergeDirectories p q >>= fun _ => mergeUp fuel p.id q.id).Leaves f Q := by
  rw [mergeUp, leaves_get_bind]
  simp only [hp, hq]
  rw [if_neg (by simpa using hpq)]

/-- Merging levels comes to a point where there is nothing to do, however many levels more it might
have merged. -/
theorem mergeUp_ends {k : Nat} (hf : f.WellFormed) (hk : f.ancestor? k x = none) (n : Nat) :
    ∃ m x' y' g, Reaches (round n x y f) (round (n + m) x' y' g) ∧
      (∀ P, ¬Next (round (n + m) x' y' g) P) ∧
      ∀ fuel, m ≤ fuel → (mergeUp fuel x y).Leaves f fun r h => r = .ok (x', y') ∧ h = g := by
  induction k generalizing f x y n with
  | zero => exact absurd hk (by simp)
  | succ k ih =>
    by_cases hround : ∃ p q, f.parent? x = some p ∧ f.parent? y = some q ∧ p.id ≠ q.id
    · obtain ⟨p, q, hp, hq, hpq⟩ := hround
      obtain ⟨hok, hreach⟩ := mergeDirectories_reaches hf hp hq hpq n
      obtain ⟨-, -, hup, -, s, d, -, habsorbed⟩ :=
        mergeDirectories_absorbed hf (find?_of_parent? hp) (find?_of_parent? hq)
      -- the way up from the first item is one level shorter than before the round
      rw [ancestor?_succ, parentId?_of_parent? hp, Option.bind_some, ← hup] at hk
      obtain ⟨m, x', y', g, hreach', hend, hrun⟩ := ih (y := q.id) habsorbed.wellFormed hk (n + 1)
      rw [Nat.add_right_comm] at hreach' hend
      refine ⟨m + 1, x', y', g, hreach.trans hreach', hend, fun fuel hfuel => ?_⟩
      obtain ⟨fuel, rfl⟩ := Nat.exists_eq_add_of_le' (Nat.lt_of_lt_of_le (Nat.succ_pos m) hfuel)
      rw [mergeUp_of_ne hp hq hpq]
      refine Leaves.bind_ok (P := (· = ((mergeDirectories p q).run f).state)) ⟨hok, rfl⟩ ?_
      rintro h rfl
      exact hrun fuel (by omega)
    · refine ⟨0, x, y, f, .refl, ?_, fun fuel _ => mergeUp_of_not hround fuel⟩
      rintro P ⟨hp, hq, hpq, -⟩
      exact hround ⟨_, _, hp, hq, hpq⟩

/-- Whatever two items are merged, equal or not, one above the other or not: wherever the merge comes
to, before, after and between the single moves of items, it is on the two lines that were there when
it began, so far as it has come and from there on up.  It ends, where the two lines meet or one of
them does, and until then it has merged fewer levels than there are up to the nearer root. -/
theorem merge_climbs (hf : f.WellFormed) (ha : f.has a = true) (hb : f.has b = true) :
    (∀ P, Reaches (round 0 a b f) P →
      P.OnLines f a b ∧ P.levels < min (f.depth a) (f.depth b)) ∧
    ∃ n x y g, Reaches (round 0 a b f) (round n x y g) ∧ (∀ P, ¬Next (round n x y g) P) ∧
      n < min (f.depth a) (f.depth b) ∧
      ∀ Q, (merge a b).Leaves f Q ↔ (joinRoots x y).Leaves g Q := by
  have hlines : ∀ P, Reaches (round 0 a b f) P →
      P.OnLines f a b ∧ P.levels < min (f.depth a) (f.depth b) := by
    intro P hP
    have hline := (hP.onLines hf).2
    exact ⟨hline, hline.levels_lt hf ha hb⟩
  obtain ⟨n, x, y, g, hreach, hend, hrun⟩ := mergeUp_ends (y := b) hf (hf.ancestor?_length ha) 0
  rw [Nat.zero_add] at hreach hend
  have hlt := (hlines _ hreach).2
  refine ⟨hlines, n, x, y, g, hreach, hend, hlt, fun Q => ?_⟩
  obtain ⟨hx, -⟩ : f.ancestor? n a = some x ∧ _ := (hlines _ hreach).1
  have hfuel : n ≤ f.items.length := Nat.le_of_lt (hf.lt_length_of_ancestor? ha hx)
  rw [merge, leaves_get_bind, leaves_bind, (hrun _ hfuel).iff]

/-- A file `x` in `b/a`, and a file `y` in `b/a/c`: the way up from the one runs through the way up
from the other. -/
def nestedFiles : Forest :=
  empty.afterAll [.addFile "1" "x" false, .addParent "1" (some "a"),
    .addParent "parent-1" (some "b"), .addFile "2" "y" false, .addParent "2" (some "c"),
    .merge "1" "parent-2"]

theorem nestedFiles_climbed : nestedFiles.WellFormed ∧ nestedFiles.has "1" = true ∧
    nestedFiles.has "2" = true ∧
    (∀ P, Reaches (round 0 "1" "2" nestedFiles) P → P.OnLines nestedFiles "1" "2" ∧ P.levels < 3) ∧
    ∃ n x y g, Reaches (round 0 "1" "2" nestedFiles) (round n x y g) ∧
      (∀ P, ¬Next (round n x y g) P) ∧ n < 3 ∧
      ∀ Q, (merge "1" "2").Leaves nestedFiles Q ↔ (joinRoots x y).Leaves g Q := by
  have hf : nestedFiles.WellFormed := wellFormed_afterAll_empty _
  have hfirst : nestedFiles.has "1" = true := by decide
  have hsecond : nestedFiles.has "2" = true := by decide
  have hdepth : min (nestedFiles.depth "1") (nestedFiles.depth "2") = 3 := by decide +kernel
  rw [← hdepth]
  exact ⟨hf, hfirst, hsecond, merge_climbs hf hfirst hsecond⟩

end Forest
end Debundle
