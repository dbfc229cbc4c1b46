import Debundle.Proofs.Forest.Operation

/-!
# What the steps do to the links

`Forest.Evolves` says what an operation can do at most.  Here it is said exactly: which items are
in another directory after one directory has taken over the children of another, and what the
directory that is made for a root looks like.

* `Forest.attach_leaves`: an item is moved, or is where it should be, or is above its new place.
* `Forest.adoptChildren_leaves`: every child is taken over, except one that is above the survivor.
* `Forest.Adopted.ancestor?_survivor`, `Forest.Adopted.ancestor?_discarded`: nothing at or above the
  two directories is moved.
* `Forest.mergeDirectories_absorbed`: merging two directories.
* `Forest.addParent_leaves`: a root gets a directory of its own.
* `Forest.isPlaceholder_of_prefer`: a placeholder survives only where both are placeholders.
-/

namespace Debundle
namespace Forest

open Debundle.Action

variable {f g : Forest} {x y : Text}

/-! ## Attaching -/

theorem attach_leaves (child parent : Text) (Q : Except Error Bool → Forest → Prop)
    (hsame : f.parentId? child = some parent → Q (.ok true) f)
    (habove : f.isAtOrAbove child parent = true → Q (.ok false) f)
    (hmove : f.parentId? child ≠ some parent → f.isAtOrAbove child parent = false →
      Q (.ok true) (f.move child parent)) : (attach child parent).Leaves f Q := by
  unfold attach
  rw [leaves_get_bind]
  split
  · rename_i h
    exact hsame (by simpa using h)
  · rename_i h
    split
    · rename_i h'
      exact habove h'
    · rename_i h'
      exact hmove (by simpa using h) (by simpa using h')

@[simp] theorem conflicts_move (f : Forest) (child parent : Text) :
    (f.move child parent).conflicts = f.conflicts := by
  rw [move_eq]
  unfold detach
  rcases f.parentId? child with _ | old <;> rfl

/-- Moving something into a directory does not change what is above the directory. -/
theorem WellFormed.isAtOrAbove_move (hf : f.WellFormed) {child parent : Text}
    (hchild : f.has child = true) (hparent : f.has parent = true)
    (habove : f.isAtOrAbove child parent = false) (x : Text) :
    (f.move child parent).isAtOrAbove x parent = f.isAtOrAbove x parent := by
  have hnever : ∀ k, f.ancestor? k parent ≠ some child := by
    intro k hk
    rw [(hf.isAtOrAbove_iff hparent).mpr ⟨k, hk⟩] at habove
    exact absurd habove (by simp)
  exact hf.isAtOrAbove_congr (hf.move hchild hparent habove) hparent (by rw [has_move, hparent])
    (ancestor?_move_of_forall_ne hchild hnever) x

/-! ## Adopting -/

/-- What has changed when a directory has taken over some items: those are in it that were not
above it, and everything else is where it was. -/
structure Adopted (survivor : Text) (children : List Text) (f g : Forest) : Prop where
  wellFormed : g.WellFormed
  bare : ∀ x, g.bare? x = f.bare? x
  parent : ∀ x, g.parentId? x =
    if x ∈ children ∧ f.isAtOrAbove x survivor = false then some survivor else f.parentId? x

theorem adopt_leaves (children : List Text) {survivor : Text} (hf : f.WellFormed)
    (hsurvivor : f.has survivor = true) (hchildren : ∀ c ∈ children, f.has c = true) :
    (adopt survivor children).Leaves f fun r g =>
      r = .ok () ∧ g.conflicts = f.conflicts ∧ Adopted survivor children f g := by
  induction children generalizing f with
  | nil =>
    rw [adopt, leaves_pure]
    exact ⟨rfl, rfl, hf, fun _ => rfl, fun x => by simp⟩
  | cons child rest ih =>
    have hchild := hchildren child List.mem_cons_self
    have hrest : ∀ c ∈ rest, f.has c = true := fun c hc => hchildren c (List.mem_cons_of_mem _ hc)
    -- nothing is done for an item that is in the directory already, or above it
    have hskip : f.parentId? child = some survivor ∨ f.isAtOrAbove child survivor = true →
        (adopt survivor rest).Leaves f fun r g =>
          r = .ok () ∧ g.conflicts = f.conflicts ∧ Adopted survivor (child :: rest) f g := by
      intro hwhy
      refine (ih hf hsurvivor hrest).mono fun r g ⟨hr, hconflicts, hg⟩ =>
        ⟨hr, hconflicts, hg.wellFormed, hg.bare, fun x => ?_⟩
      rw [hg.parent x]
      by_cases hx : x = child
      · subst hx
        rcases hwhy with hwhy | hwhy <;> simp [hwhy]
      · simp [hx]
    unfold adopt
    rw [leaves_get_bind]
    split
    · rw [leaves_bind]
      refine attach_leaves child survivor _ (fun h => hskip (Or.inl h)) (fun h => hskip (Or.inr h)) ?_
      intro _ habove
      have hmoved := hf.move hchild hsurvivor habove
      refine (ih hmoved (by rw [has_move, hsurvivor])
        fun c hc => by rw [has_move, hrest c hc]).mono fun r g ⟨hr, hconflicts, hg⟩ =>
          ⟨hr, ?_, hg.wellFormed, ?_, ?_⟩
      · rw [hconflicts, conflicts_move]
      · intro x
        rw [hg.bare, bare?_move]
      · intro x
        rw [hg.parent x, hf.isAtOrAbove_move hchild hsurvivor habove, parentId?_move hchild]
        by_cases hx : x = child
        · subst hx
          simp [habove]
        · simp [hx]
    · rename_i hin
      refine hskip (Or.inl (hf.mem_childrenOf_iff.mp ?_))
      simpa using hin

/-- Nothing at or above the survivor is moved: it would be refused. -/
theorem Adopted.ancestor?_survivor {survivor : Text} {children : List Text}
    (hg : Adopted survivor children f g) (hf : f.WellFormed) (hsurvivor : f.has survivor = true)
    (n : Nat) : g.ancestor? n survivor = f.ancestor? n survivor := by
  refine ancestor?_congr_of_passed (fun k y hy => ?_) n
  have habove : f.isAtOrAbove y survivor = true := (hf.isAtOrAbove_iff hsurvivor).mpr ⟨k, hy⟩
  rw [hg.parent, if_neg (by simp [habove])]

/-- Nothing at or above the directory that the items were in is moved: it is not below itself. -/
theorem Adopted.ancestor?_discarded {survivor discarded : Text} {children : List Text}
    (hg : Adopted survivor children f g) (hf : f.WellFormed)
    (hchildren : ∀ c ∈ children, f.parentId? c = some discarded) (n : Nat) :
    g.ancestor? n discarded = f.ancestor? n discarded := by
  refine ancestor?_congr_of_passed (fun k y hy => ?_) n
  rw [hg.parent, if_neg]
  rintro ⟨hchild, -⟩
  refine hf.ancestor?_succ_ne_self k discarded ?_
  rw [ancestor?_succ_last, hy, Option.bind_some, hchildren y hchild]

/-- A directory takes over all children of another one, except one that is above it. -/
theorem adoptChildren_leaves {survivor discarded : Text} (hf : f.WellFormed)
    (hsurvivor : f.has survivor = true) :
    (adoptChildren survivor discarded).Leaves f fun r g =>
      r = .ok () ∧ g.conflicts = f.conflicts ∧ Adopted survivor (f.childrenOf discarded) f g :=
  adopt_leaves _ hf hsurvivor fun _ hc => has_of_parentId? (hf.mem_childrenOf_iff.mp hc)

/-! ## Merging two directories -/

/-- Of two directories a placeholder survives only if the other one is a placeholder as well. -/
theorem isPlaceholder_of_prefer {p q s d : Item}
    (hsd : prefer (fun a b => (mergeRank f a).above (mergeRank f b)) p q = (s, d))
    (hs : s.isPlaceholder = true) : d.isPlaceholder = true := by
  unfold prefer at hsd
  split at hsd
  · rename_i habove
    obtain ⟨rfl, rfl⟩ := Prod.mk.inj hsd
    by_contra hd
    simp [mergeRank, MergeRank.above, hs, hd] at habove
  · rename_i habove
    obtain ⟨rfl, rfl⟩ := Prod.mk.inj hsd
    by_contra hd
    simp [mergeRank, MergeRank.above, hs, hd] at habove

/-- What has changed when one directory has been merged into another one: the survivor has taken
over what was in it, and is as well known. -/
structure Absorbed (survivor discarded : Text) (f g : Forest) : Prop
    extends Adopted survivor (f.childrenOf discarded) f g where
  settled : f.IsSettled discarded → f.IsSettled survivor

namespace Absorbed

variable {s d : Text} (hg : Absorbed s d f g) (hf : f.WellFormed)
include hg hf

theorem parentId? (x : Text) : g.parentId? x =
    if f.parentId? x = some d ∧ f.isAtOrAbove x s = false then some s else f.parentId? x := by
  rw [hg.parent]
  simp only [hf.mem_childrenOf_iff]

/-- Nothing at or above either of the two directories is moved. -/
theorem ancestor? (hs : f.has s = true) {z : Text} (hz : z = s ∨ z = d) (n : Nat) :
    g.ancestor? n z = f.ancestor? n z := by
  rcases hz with rfl | rfl
  · exact hg.toAdopted.ancestor?_survivor hf hs n
  · exact hg.toAdopted.ancestor?_discarded hf (fun _ hc => hf.mem_childrenOf_iff.mp hc) n

end Absorbed

/-- Of two directories one absorbs the other, nothing at or above either of them is moved, and a
conflict is recorded only if their names clash. -/
theorem mergeDirectories_absorbed (hf : f.WellFormed) {p q : Item} (hp : f.find? p.id = some p)
    (hq : f.find? q.id = some q) :
    (mergeDirectories p q).Leaves f fun r g => r = .ok () ∧
      (clash p q = false → g.conflicts = f.conflicts) ∧
      (∀ n, g.ancestor? n p.id = f.ancestor? n p.id) ∧
      (∀ n, g.ancestor? n q.id = f.ancestor? n q.id) ∧
      ∃ s d, ((s = p.id ∧ d = q.id) ∨ (s = q.id ∧ d = p.id)) ∧ Absorbed s d f g := by
  obtain ⟨s, d, hsd, hcases⟩ :=
    prefer_cases (fun a b => (mergeRank f a).above (mergeRank f b)) p q
  obtain ⟨hs, hd⟩ : f.find? s.id = some s ∧ f.find? d.id = some d := by
    rcases hcases with ⟨rfl, rfl⟩ | ⟨rfl, rfl⟩
    · exact ⟨hp, hq⟩
    · exact ⟨hq, hp⟩
  have hhas : f.has s.id = true := has_iff.mpr ⟨s, hs⟩
  have hsettled : f.IsSettled d.id → f.IsSettled s.id := by
    rintro ⟨i, hi, hi'⟩
    refine ⟨s.bare, bare?_of_find? hs, ?_⟩
    obtain rfl : d.bare = i := Option.some_inj.mp ((bare?_of_find? hd).symm.trans hi)
    change d.isPlaceholder = false at hi'
    change s.isPlaceholder = false
    rw [← Bool.not_eq_true] at hi' ⊢
    exact fun hplaceholder => hi' (isPlaceholder_of_prefer hsd hplaceholder)
  have hleft : ∀ g, Absorbed s.id d.id f g → (∀ n, g.ancestor? n p.id = f.ancestor? n p.id) ∧
      (∀ n, g.ancestor? n q.id = f.ancestor? n q.id) ∧
      ∃ s d, ((s = p.id ∧ d = q.id) ∨ (s = q.id ∧ d = p.id)) ∧ Absorbed s d f g := by
    intro g hg
    rcases hcases with ⟨rfl, rfl⟩ | ⟨rfl, rfl⟩
    · exact ⟨hg.ancestor? hf hhas (Or.inl rfl), hg.ancestor? hf hhas (Or.inr rfl), s.id, d.id,
        Or.inl ⟨rfl, rfl⟩, hg⟩
    · exact ⟨hg.ancestor? hf hhas (Or.inr rfl), hg.ancestor? hf hhas (Or.inl rfl), s.id, d.id,
        Or.inr ⟨rfl, rfl⟩, hg⟩
  rw [mergeDirectories_leaves hsd]
  split
  · rename_i hclash
    refine (adoptChildren_leaves (hf.record _) hhas).mono fun r g ⟨hr, _, hg⟩ => ⟨hr, ?_, hleft g ?_⟩
    · intro hno
      rw [hno] at hclash
      exact absurd hclash (by simp)
    · -- what is recorded changes no links
      refine ⟨⟨hg.wellFormed, hg.bare, fun x => ?_⟩, hsettled⟩
      rw [hg.parent, hf.isAtOrAbove_record hhas]
      rfl
  · exact (adoptChildren_leaves hf hhas).mono fun r g ⟨hr, hconflicts, hg⟩ =>
      ⟨hr, fun _ => hconflicts, hleft g ⟨hg, hsettled⟩⟩

/-! ## A directory for a root -/

/-- The directory that is made for a root. -/
def roof (child : Text) (name : Option Text) : Item :=
  match name with
  | some n => ⟨parentIdOf child, n, false, false, none, []⟩
  | none => ⟨parentIdOf child, parentIdOf child, false, true, none, []⟩

@[simp] theorem roof_id (child : Text) (name : Option Text) :
    (roof child name).id = parentIdOf child := by
  cases name <;> rfl

@[simp] theorem roof_parent (child : Text) (name : Option Text) :
    (roof child name).parent = none := by
  cases name <;> rfl

@[simp] theorem roof_bare (child : Text) (name : Option Text) :
    (roof child name).bare = roof child name := by
  cases name <;> rfl

theorem parentIdOf_ne_nil (x : Text) : parentIdOf x ≠ [] := by
  simp [parentIdOf, parentWord, Text.ofString]

theorem parentIdOf_ne_self (x : Text) : parentIdOf x ≠ x := by
  intro h
  have hlen := congrArg List.length h
  simp only [parentIdOf, parentWord, Text.ofString, List.length_append] at hlen
  simp at hlen

/-- What has changed when a root has got a directory of its own. -/
structure Roofed (child : Text) (name : Option Text) (f g : Forest) : Prop where
  wellFormed : g.WellFormed
  bare : ∀ x, g.bare? x = if x = parentIdOf child then some (roof child name) else f.bare? x
  conflicts : g.conflicts = f.conflicts
  parent : ∀ x, g.parentId? x = if x = child then some (parentIdOf child) else f.parentId? x

/-- A root for which no directory has been made yet gets one. -/
theorem addParent_leaves (hf : f.WellFormed) {child : Text} (hchild : f.has child = true)
    (hfresh : f.has (parentIdOf child) = false) {name : Option Text}
    (hname : ∀ n, name = some n → n ≠ []) :
    (addParent child name).Leaves f fun r g =>
      r = .ok (parentIdOf child) ∧ Roofed child name f g := by
  have hfilter : name.filter (fun n => !n.isEmpty) = name := by
    cases name with
    | none => rfl
    | some n => simp [Option.filter, hname n rfl]
  have hensure : (ensureParent (parentIdOf child) (name.filter fun n => !n.isEmpty)).Leaves f
      fun r g => r = .ok () ∧ g = f.insert (roof child name) := by
    unfold ensureParent addDirectory addItem
    rw [leaves_get_bind, find?_eq_none_iff.mpr hfresh, hfilter]
    cases name <;> simp [roof, hfresh, parentIdOf_ne_nil]
  unfold addParent
  refine hensure.bind_ok ?_
  rintro g rfl
  rw [leaves_bind]
  have hroof : (f.insert (roof child name)).WellFormed := by
    cases name <;> exact hf.insert _ _ _ (parentIdOf_ne_nil child) hfresh
  have hparent := parentId?_insert f (roof child name) (roof_parent child name)
    (by rw [roof_id, hfresh])
  have hhas : (f.insert (roof child name)).has child = true := by
    rw [has_insert, hchild, Bool.true_or]
  have hhasRoof : (f.insert (roof child name)).has (parentIdOf child) = true := by
    rw [has_insert, roof_id]
    simp
  have hfreshParent : f.parentId? (parentIdOf child) = none := by
    rw [parentId?, find?_eq_none_iff.mpr hfresh, Option.bind_none]
  have hbelow : (f.insert (roof child name)).isAtOrAbove child (parentIdOf child) = false := by
    rw [← Bool.not_eq_true, hroof.isAtOrAbove_iff hhasRoof]
    rintro ⟨n, hn⟩
    cases n with
    | zero => exact parentIdOf_ne_self child (Option.some_inj.mp hn)
    | succ n =>
      rw [ancestor?_succ, hparent, hfreshParent] at hn
      exact absurd hn (by simp)
  have hnew : f.parentId? child ≠ some (parentIdOf child) := by
    intro h
    rw [hf.has_parent h] at hfresh
    exact absurd hfresh (by simp)
  refine attach_leaves child (parentIdOf child) _ ?_ ?_ ?_
  · intro h
    rw [hparent] at h
    exact absurd h hnew
  · intro h
    rw [hbelow] at h
    exact absurd h (by simp)
  · intro _ _
    simp only [if_true, leaves_pure, true_and]
    refine ⟨hroof.move hhas hhasRoof hbelow, fun x => ?_, ?_, fun x => ?_⟩
    · rw [bare?_move, bare?_insert, roof_id, roof_bare]
      by_cases hx : x = parentIdOf child
      · subst hx
        rw [bare?, find?_eq_none_iff.mpr hfresh]
        simp
      · simp [hx, Ne.symm hx]
    · rw [conflicts_move, Forest.insert]
    · rw [parentId?_move hhas, hparent]

end Forest
end Debundle
