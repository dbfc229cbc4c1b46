import Debundle.Proofs.Forest.Placing
import Debundle.Proofs.Path.Normal

/-!
# Taking in a require path again

What a relative path says of directories and of a file is there once the path has been taken in: the
names are given, as many levels as the path goes up are there, and one directory is above both sides.
So if the path is taken in again, every step finds what it would do already done, and nothing changes,
not even the order of the items or of what is in a directory.

This needs that the forest did not contradict the path the first time.  That two directories with
different names were merged is no contradiction of this kind: the conflict is recorded once, and after
that there is one directory.

* `Forest.nameUpwards_again`, `Forest.climb_again`, `Forest.merge_again`: steps that find all done.
* `Forest.require_settled`: where all is as the path says, the path changes nothing.
* `Forest.require_replayed`: taking in a path twice is taking it in once.
-/

namespace Debundle
namespace Forest

open Debundle.Action

variable {f g : Forest} {e : Edge} {current target path : Text} {w x y : Text}

/-! ## Steps with nothing to do -/

theorem named_eq_self {name : Text} (h : f.IsNamed target name) : f.named target name = f := by
  obtain ⟨i, hi, hsettled, rfl⟩ := h
  simp [named, hi, hsettled]

/-- An item that has the name that is claimed for it. -/
theorem claimName_again {i : Item} (hsettled : i.isPlaceholder = false) (kind : ConflictKind) :
    (claimName i i.name kind).Leaves f fun r g => r = .ok true ∧ g = f := by
  rw [leaves_claimName, hsettled, if_neg Bool.false_ne_true, if_pos rfl]
  exact ⟨rfl, rfl⟩

/-- Directories that have the names that are claimed for them. -/
theorem nameUpwards_again {names rest : List Text}
    (hnames : ∀ c ∈ names, c ≠ Path.here ∧ c ≠ Path.up)
    (hrest : ∀ c, rest.head? = some c → c = Path.here ∨ c = Path.up)
    (hchain : ∀ j name, names[j]? = some name →
      ∃ z, f.ancestor? (j + 1) x = some z ∧ f.IsNamed z name)
    (hy : f.ancestor? names.length x = some y) :
    (nameUpwards x (names ++ rest)).Leaves f fun r g => r = .ok (y, rest) ∧ g = f := by
  induction names generalizing x with
  | nil =>
    obtain rfl : x = y := Option.some_inj.mp hy
    rw [List.nil_append]
    cases rest with
    | nil => exact ⟨rfl, rfl⟩
    | cons c rest =>
      unfold nameUpwards
      rw [if_pos (by simpa using hrest c rfl)]
      exact ⟨rfl, rfl⟩
  | cons c names ih =>
    obtain ⟨hc, htail⟩ := List.forall_mem_cons.mp hnames
    obtain ⟨p, hp, above, habove, hsettled, rfl⟩ := hchain 0 c rfl
    rw [Nat.zero_add, ancestor?_one] at hp
    obtain rfl := id_of_find? habove
    have hsucc : ∀ j, f.ancestor? (j + 1) x = f.ancestor? j above.id := fun j => by
      rw [ancestor?_succ, hp, Option.bind_some]
    have hparent : f.parent? x = some above := by rw [parent?, hp, Option.bind_some, habove]
    rw [List.cons_append]
    unfold nameUpwards
    rw [if_neg (by simpa using hc), leaves_get_bind, hparent]
    refine (claimName_again hsettled .directory).bind_ok ?_
    rintro g rfl
    refine ih htail (fun j name hj => ?_) (by rwa [List.length_cons, hsucc] at hy)
    rw [← hsucc]
    exact hchain (j + 1) name hj

/-- Levels that are there. -/
theorem climb_again {k : Nat} (hy : f.ancestor? k x = some y) :
    (climb path x (List.replicate k Path.up)).Leaves f fun r g => r = .ok y ∧ g = f := by
  induction k generalizing x with
  | zero =>
    obtain rfl : x = y := Option.some_inj.mp hy
    exact ⟨rfl, rfl⟩
  | succ k ih =>
    obtain ⟨p, hp, hpy⟩ := Option.bind_eq_some_iff.mp hy
    rw [List.replicate_succ]
    unfold climb
    rw [if_neg (by decide), if_neg (by decide), leaves_get_bind, hp]
    exact ih hpy

theorem ensureFile_again (hx : x ≠ []) (hhas : f.has x = true) (name : Text)
    (isPlaceholder : Bool) :
    (ensureFile x name isPlaceholder).Leaves f fun r g => r = .ok () ∧ g = f := by
  rw [leaves_ensureFile hx, if_pos hhas]
  exact ⟨rfl, rfl⟩

/-- Two items that are in one directory. -/
theorem merge_again (hx : f.parentId? x = some w) (hy : f.parentId? y = some w) :
    (merge x y).Leaves f fun r g => r = .ok () ∧ g = f := by
  have hstop : ¬∃ p q, f.parent? x = some p ∧ f.parent? y = some q ∧ p.id ≠ q.id := by
    rintro ⟨p, q, hp, hq, hne⟩
    rw [parentId?_of_parent? hp] at hx
    rw [parentId?_of_parent? hq] at hy
    exact hne (Option.some_inj.mp (hx.trans hy.symm))
  unfold merge
  rw [leaves_get_bind]
  refine Leaves.bind_ok (mergeUp_of_not hstop _) ?_
  rintro g rfl
  simp only
  unfold joinRoots
  rw [leaves_get_bind, hx, hy]
  exact ⟨rfl, rfl⟩

/-! ## The same path twice -/

/-- Where all is as the path says, the path changes nothing. -/
theorem require_settled (hsettled : e.Settled path f) (hcurrent : e.current ≠ [])
    (hlead : CanLead e.target path)
    (hcomponents : componentsOf path = List.replicate e.ups Path.up ++ e.dirs ++ [e.base])
    (hnames : ∀ c ∈ e.dirs, IsName c) :
    (require e.current e.target path).Leaves f fun r g => r = .ok () ∧ g = f := by
  have hbaseOf : baseOf path = e.base := by rw [baseOf, hcomponents, List.getLastD_concat]
  have hdirs : ∀ c ∈ e.dirs.reverse, c ≠ Path.here ∧ c ≠ Path.up := fun c hc =>
    have hname := hnames c (List.mem_reverse.mp hc)
    ⟨hname.2.1, hname.2.2.1⟩
  have hrest : ∀ c, (List.replicate e.ups Path.up).head? = some c → c = Path.here ∨ c = Path.up :=
    fun c hc => Or.inr (List.eq_of_mem_replicate (List.mem_of_mem_head? hc))
  have hfile : f.IsNamed e.target e.base := by
    obtain ⟨z, hz, hnamed⟩ := hsettled.named 0 e.base rfl
    obtain rfl : e.target = z := Option.some_inj.mp hz
    exact hnamed
  have hchain : ∀ j name, e.dirs.reverse[j]? = some name →
      ∃ z, f.ancestor? (j + 1) e.target = some z ∧ f.IsNamed z name := fun j name hj =>
    hsettled.named (j + 1) name hj
  obtain ⟨x, hx⟩ : ∃ x, f.ancestor? e.dirs.reverse.length e.target = some x := by
    obtain ⟨z, hz, -⟩ := hsettled.named e.dirs.reverse.length
      ((e.base :: e.dirs.reverse)[e.dirs.reverse.length]) (List.getElem?_eq_getElem (by simp))
    exact ⟨z, hz⟩
  rw [require_leaves hlead, hbaseOf, named_eq_self hfile, place,
    reverse_dropLast_componentsOf hcomponents]
  refine (nameUpwards_again hdirs hrest hchain hx).bind_ok ?_
  rintro g rfl
  simp only
  split
  · exact ⟨rfl, rfl⟩
  · rename_i hmerges
    have hbare : ¬e.IsBare path := fun h => hmerges (by simp [h.1, h.2])
    obtain ⟨w, -, hown, hbranch⟩ := hsettled.shared hbare
    rw [ancestor?_succ_last] at hown hbranch
    obtain ⟨y, hy, hyw⟩ := Option.bind_eq_some_iff.mp hown
    rw [← List.length_reverse, hx, Option.bind_some] at hbranch
    have hhas : g.has e.current = true := by
      rw [← ancestor?_succ_last, ancestor?_succ] at hown
      obtain ⟨p, hp, -⟩ := Option.bind_eq_some_iff.mp hown
      exact has_of_parentId? hp
    refine (ensureFile_again hcurrent hhas e.current true).bind_ok ?_
    rintro g rfl
    rw [List.reverse_replicate]
    refine (climb_again hy).bind_ok ?_
    rintro g rfl
    exact merge_again hbranch hyw

/-- One require path, relative or bare, in whatever well-formed forest in which no root has a
directory that was made for it.  If it is taken in, no conflict between names of files or of
directories comes up, and neither of two items that are merged is above the other, then the same path
is taken in again and leaves the forest as it is. -/
theorem require_replayed (hf : f.WellFormed) (hm : f.Made) (hcurrent : IsModuleId current)
    (htarget : IsModuleId target) (hroot : Text.startsWith path "/" = false)
    (hquiet : (require current target path).Leaves f fun r g => r = .ok () ∧
      g.conflictsAbout .file = f.conflictsAbout .file ∧
        g.conflictsAbout .directory = f.conflictsAbout .directory)
    (hsides : (sides current target path).Leaves (f.named target (baseOf path)) fun r g =>
      ∀ x y, r = .ok (some (x, y)) → ¬g.IsAbove x y ∧ ¬g.IsAbove y x) :
    (require current target path).Leaves f fun _ g =>
      (require current target path).Leaves g fun r h => r = .ok () ∧ h = g := by
  have hlead : CanLead target path := by
    by_contra hlead
    have hrefused := (require_refused hlead current).and hquiet
    exact absurd (hrefused.1.1.symm.trans hrefused.2.1) (by simp)
  obtain ⟨ups, dirs, base, hcomponents, hdirs⟩ :=
    Path.exists_split_relative hlead.2.1 hroot
  have hbaseOf : baseOf path = base := by
    rw [baseOf, componentsOf, hcomponents, List.getLastD_concat]
  rw [hbaseOf] at hsides
  let e : Edge := ⟨current, target, ups, dirs, base⟩
  exact (require_settles (e := e) hf hm hcurrent htarget hlead hcomponents hdirs hquiet.2
    hsides).mono fun r g hg => require_settled hg.2 hcurrent.1 hlead hcomponents hdirs

/-- Two files in directories with different names. -/
def forestOfTwo : Forest := empty.afterAll [.require "1" "2" "lib/b", .require "3" "4" "src/d"]

/-- The second file is said to be beside the first one; so the directories are merged, with a conflict
between their names that is not found again. -/
theorem forestOfTwo_replayed : forestOfTwo.WellFormed ∧ forestOfTwo.Made ∧
    (require "2" "4" "./d").Leaves forestOfTwo fun _ g => g.conflictsAbout .parentDirectory ≠ [] ∧
      (require "2" "4" "./d").Leaves g fun r h => r = .ok () ∧ h = g := by
  have hf : forestOfTwo.WellFormed := wellFormed_afterAll_empty _
  have hm : forestOfTwo.Made := made_afterAll (by
    simp only [List.forall_mem_cons, List.not_mem_nil, false_implies, implies_true, and_true]
    exact ⟨⟨by decide, by decide⟩, by decide, by decide⟩)
  have hcurrent : IsModuleId "2" := by decide
  have htarget : IsModuleId "4" := by decide
  have hquiet : (require "2" "4" "./d").Leaves forestOfTwo fun r g => r = .ok () ∧
      g.conflictsAbout .file = forestOfTwo.conflictsAbout .file ∧
        g.conflictsAbout .directory = forestOfTwo.conflictsAbout .directory :=
    ⟨rfl, by decide +kernel, by decide +kernel⟩
  have hrecorded : (require "2" "4" "./d").Leaves forestOfTwo fun _ g =>
      g.conflictsAbout .parentDirectory ≠ [] := by
    unfold Leaves
    decide +kernel
  have hsides : (sides "2" "4" "./d").Leaves (forestOfTwo.named "4" (baseOf "./d")) fun r g =>
      ∀ x y, r = .ok (some (x, y)) → ¬g.IsAbove x y ∧ ¬g.IsAbove y x := by
    have hunnamed : forestOfTwo.named "4" (baseOf "./d") = forestOfTwo := by decide +kernel
    have hitems : (sides "2" "4" "./d").Leaves forestOfTwo fun r g =>
        r = .ok (some ("4", "2")) ∧ g = forestOfTwo := ⟨rfl, by decide +kernel⟩
    rw [hunnamed]
    refine hitems.mono ?_
    rintro r g ⟨rfl, rfl⟩ x y hxy
    obtain ⟨rfl, rfl⟩ : "4" = x ∧ "2" = y := by simpa using hxy
    exact ⟨hf.not_isAbove (by decide +kernel) (by decide +kernel),
      hf.not_isAbove (by decide +kernel) (by decide +kernel)⟩
  exact ⟨hf, hm, hrecorded.and (require_replayed hf hm hcurrent htarget (by decide) hquiet hsides)⟩

end Forest
end Debundle
