import Debundle.Data.Sorting
import Mathlib.Data.List.Chain

/-!
# What sorting gives

Sorting only rearranges the items, whatever the answers.  If the answers are those of an order, the
items are in order in the end: the items at the front are, and another one is put in behind those
that it does not come before and in front of those that do not come before it.

* `Sorting.sort_perm`: the items stay the same.
* `Sorting.Ranks`: answers that are those of an order, ties allowed.
* `Sorting.InOrder`: no item comes before one in front of it.
* `Sorting.Ranks.sort_inOrder`: in the end the items are in order.
-/

namespace Debundle.Sorting

variable {α : Type} {before : α → α → Bool} {S : α → Prop} {x : α} {items : List α} {fuel : Nat}

/-! ## The items stay the same -/

theorem spanNext_append (goesOn : α → α → Bool) (last : α) (items : List α) :
    (spanNext goesOn last items).1 ++ (spanNext goesOn last items).2 = items := by
  induction items generalizing last with
  | nil => rfl
  | cons x xs ih =>
    unfold spanNext
    split
    · exact congrArg (x :: ·) (ih x)
    · rfl

theorem takeRun_perm (before : α → α → Bool) (items : List α) :
    ((takeRun before items).1 ++ (takeRun before items).2).Perm items := by
  unfold takeRun
  split
  · split
    · refine ((List.reverse_perm _).append_right _).trans (List.Perm.of_eq ?_)
      simp only [List.cons_append, spanNext_append]
    · refine List.Perm.of_eq ?_
      simp only [List.cons_append, spanNext_append]
  · rw [List.append_nil]

/-- A list that is empty from its middle on is empty. -/
theorem eq_nil_of_drop_half (h : items.drop (items.length / 2) = []) : items = [] := by
  rw [List.drop_eq_nil_iff] at h
  exact List.eq_nil_of_length_eq_zero (by omega)

theorem insert_perm (before : α → α → Bool) (x : α) (fuel : Nat) (items : List α) :
    (insert before x fuel items).Perm (x :: items) := by
  induction fuel generalizing items with
  | zero => exact List.Perm.refl _
  | succ fuel ih =>
    unfold insert
    split
    · rename_i hupper
      rw [eq_nil_of_drop_half hupper]
    · rename_i middle upper hupper
      have hitems := List.take_append_drop (items.length / 2) items
      rw [hupper] at hitems
      refine List.Perm.trans ?_ (List.Perm.of_eq (congrArg (x :: ·) hitems))
      simp only
      split
      · exact (ih _).append_right _
      · exact (((ih upper).cons middle).trans (List.Perm.swap x middle upper)).append_left _
          |>.trans List.perm_middle

theorem foldl_insert_perm (before : α → α → Bool) (items sorted : List α) :
    (items.foldl (fun sorted x => insert before x sorted.length sorted) sorted).Perm
      (sorted ++ items) := by
  induction items generalizing sorted with
  | nil => rw [List.append_nil, List.foldl_nil]
  | cons x items ih =>
    exact (ih _).trans (((insert_perm before x _ sorted).append_right items).trans
      List.perm_middle.symm)

/-- The items stay the same. -/
theorem sort_perm (before : α → α → Bool) (items : List α) : (sort before items).Perm items :=
  (foldl_insert_perm before _ _).trans (takeRun_perm before items)

/-! ## The items are in order -/

/-- The answers about some items are those of an order, in which items may rank alike. -/
structure Ranks (before : α → α → Bool) (S : α → Prop) : Prop where
  /-- Of two items not both come before the other one. -/
  asymm : ∀ {a b}, S a → S b → before a b = true → before b a = false
  /-- An item does not come before what an item comes behind that it does not come before. -/
  trans : ∀ {a b c}, S a → S b → S c → before b a = false → before c b = false →
    before c a = false

/-- No item comes before one in front of it. -/
def InOrder (before : α → α → Bool) (items : List α) : Prop :=
  items.Pairwise fun a b => before b a = false

/-- Each item that was split off goes on from the one in front of it. -/
theorem spanNext_isChain (goesOn : α → α → Bool) (last : α) (items : List α) :
    (last :: (spanNext goesOn last items).1).IsChain fun a b => goesOn a b = true := by
  induction items generalizing last with
  | nil => exact List.isChain_singleton _
  | cons x xs ih =>
    unfold spanNext
    split
    · rename_i hgoes
      exact List.isChain_cons_cons.mpr ⟨hgoes, ih x⟩
    · exact List.isChain_singleton _

namespace Ranks

/-- Items are ordered by what is read off them. -/
theorem comap {β : Type} (hr : Ranks before S) (f : β → α) :
    Ranks (fun a b => before (f a) (f b)) fun a => S (f a) :=
  ⟨hr.asymm, hr.trans⟩

/-- Items are in order if each is with the next one. -/
theorem inOrder_of_isChain (hr : Ranks before S) (hS : ∀ a ∈ items, S a)
    (h : items.IsChain fun a b => before b a = false) : InOrder before items := by
  induction items with
  | nil => exact List.Pairwise.nil
  | cons a items ih =>
    obtain ⟨ha, hS⟩ := List.forall_mem_cons.mp hS
    have horder := ih hS h.tail
    refine List.pairwise_cons.mpr ⟨fun c hc => ?_, horder⟩
    cases items with
    | nil => exact absurd hc List.not_mem_nil
    | cons b items =>
      have hab := (List.isChain_cons_cons.mp h).1
      rcases List.mem_cons.mp hc with rfl | hmem
      · exact hab
      · exact hr.trans ha (hS b List.mem_cons_self) (hS c hc) hab
          ((List.pairwise_cons.mp horder).1 c hmem)

/-- The items at the front are in order, also if they were turned round. -/
theorem takeRun_inOrder (hr : Ranks before S) (hS : ∀ a ∈ items, S a) :
    InOrder before (takeRun before items).1 := by
  have hrun : ∀ a ∈ (takeRun before items).1, S a := fun a ha =>
    hS a ((takeRun_perm before items).mem_iff.mp (List.mem_append_left _ ha))
  refine hr.inOrder_of_isChain hrun ?_
  revert hrun
  unfold takeRun
  split
  · rename_i x y rest
    split
    · rename_i hdown
      intro hrun
      have hchain : (x :: y :: (spanNext (fun last next => before next last) y rest).1).IsChain
          fun a b => before b a = true :=
        List.isChain_cons_cons.mpr ⟨hdown, spanNext_isChain _ y rest⟩
      refine List.isChain_reverse.mpr (hchain.imp_of_mem_imp fun a b ha hb hba => ?_)
      exact hr.asymm (hrun b (List.mem_reverse.mpr hb)) (hrun a (List.mem_reverse.mpr ha)) hba
    · rename_i hup
      intro _
      refine List.isChain_cons_cons.mpr ⟨(Bool.not_eq_true _).mp hup, ?_⟩
      exact (spanNext_isChain _ y rest).imp fun a b h => by simpa using h
  · rename_i hshort
    intro _
    -- there is at most one item
    match items, hshort with
    | [], _ => exact List.IsChain.nil
    | [a], _ => exact List.isChain_singleton a
    | x :: y :: rest, hshort => exact absurd rfl (hshort x y rest)

/-- An item that is put in leaves the items in order. -/
theorem insert_inOrder (hr : Ranks before S) (hx : S x) (hS : ∀ a ∈ items, S a)
    (h : InOrder before items) (hfuel : items.length ≤ fuel) :
    InOrder before (insert before x fuel items) := by
  induction fuel generalizing items with
  | zero =>
    rw [List.eq_nil_of_length_eq_zero (Nat.le_zero.mp hfuel)]
    exact List.pairwise_singleton _ _
  | succ fuel ih =>
    unfold insert
    split
    · exact List.pairwise_singleton _ _
    · rename_i middle upper hupper
      have hlower : (items.take (items.length / 2)).length ≤ items.length / 2 :=
        List.length_take_le _ _
      have hlength := congrArg List.length hupper
      rw [List.length_drop, List.length_cons] at hlength
      have hitems := List.take_append_drop (items.length / 2) items
      rw [hupper] at hitems
      simp only
      generalize items.take (items.length / 2) = lower at hitems hlower
      rw [← hitems] at hS h
      obtain ⟨hSlower, hS⟩ := List.forall_mem_append.mp hS
      obtain ⟨hSmiddle, hSupper⟩ := List.forall_mem_cons.mp hS
      obtain ⟨hlowerOrder, hrest, hacross⟩ := List.pairwise_append.mp h
      obtain ⟨hmiddle, hupperOrder⟩ := List.pairwise_cons.mp hrest
      split
      · rename_i hbefore
        have hxmiddle := hr.asymm hx hSmiddle hbefore
        refine List.pairwise_append.mpr ⟨ih hSlower hlowerOrder (by omega), hrest,
          fun a ha b hb => ?_⟩
        rcases List.mem_cons.mp ((insert_perm before x fuel lower).mem_iff.mp ha) with rfl | ha
        · rcases List.mem_cons.mp hb with rfl | hb
          · exact hxmiddle
          · exact hr.trans hx hSmiddle (hSupper b hb) hxmiddle (hmiddle b hb)
        · exact hacross a ha b hb
      · rename_i hbefore
        have hmiddlex := (Bool.not_eq_true _).mp hbefore
        have hinserted : ∀ b ∈ insert before x fuel upper, b = x ∨ b ∈ upper := fun b hb =>
          List.mem_cons.mp ((insert_perm before x fuel upper).mem_iff.mp hb)
        refine List.pairwise_append.mpr ⟨hlowerOrder, List.pairwise_cons.mpr ⟨fun b hb => ?_,
          ih hSupper hupperOrder (by omega)⟩, fun a ha b hb => ?_⟩
        · rcases hinserted b hb with rfl | hb
          · exact hmiddlex
          · exact hmiddle b hb
        · have hamiddle := hacross a ha middle List.mem_cons_self
          rcases List.mem_cons.mp hb with rfl | hb
          · exact hamiddle
          · rcases hinserted b hb with rfl | hb
            · exact hr.trans (hSlower a ha) hSmiddle hx hamiddle hmiddlex
            · exact hacross a ha b (List.mem_cons_of_mem _ hb)

theorem foldl_insert_inOrder (hr : Ranks before S) {sorted : List α} (hS : ∀ a ∈ items, S a)
    (hsorted : ∀ a ∈ sorted, S a) (h : InOrder before sorted) :
    InOrder before (items.foldl (fun sorted x => insert before x sorted.length sorted) sorted) := by
  induction items generalizing sorted with
  | nil => exact h
  | cons x items ih =>
    obtain ⟨hx, hS⟩ := List.forall_mem_cons.mp hS
    refine ih hS (fun a ha => ?_) (hr.insert_inOrder hx hsorted h le_rfl)
    rcases List.mem_cons.mp ((insert_perm before x _ sorted).mem_iff.mp ha) with rfl | ha
    · exact hx
    · exact hsorted a ha

/-- In the end the items are in order. -/
theorem sort_inOrder (hr : Ranks before S) (hS : ∀ a ∈ items, S a) :
    InOrder before (sort before items) := by
  have hparts : ∀ a ∈ (takeRun before items).1 ++ (takeRun before items).2, S a := fun a ha =>
    hS a ((takeRun_perm before items).mem_iff.mp ha)
  obtain ⟨hrun, hrest⟩ := List.forall_mem_append.mp hparts
  exact hr.foldl_insert_inOrder hrest hrun (hr.takeRun_inOrder hS)

end Ranks

end Debundle.Sorting
