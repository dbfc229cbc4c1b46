import Debundle.Proofs.Forest.Operation
import Debundle.Proofs.Journal.Failures

/-!
# Growing a forest never misses an item

Only looking up an item by its id can fail for want of the item, and a require path is taken into
the forest by looking up a file that has just been made sure of.  And a file can be made for every
id that is not empty.

* `Forest.Error.IsFound`: a failure other than for want of an item.
* `Forest.require_isFound`: a require path never fails for want of an item.
* `Forest.ensureFile_ok`: a file can be made for every id that is not empty.
-/

namespace Debundle
namespace Forest

open Debundle.Action

/-- A failure other than for want of an item. -/
def Error.IsFound (e : Error) : Prop := ∀ id, e ≠ .missing id

theorem addItem_isFound (id name : Text) (isFile isPlaceholder : Bool) :
    FailsOnly Error.IsFound (addItem id name isFile isPlaceholder) := by
  refine FailsOnly.get.bind fun f => .ite (.fail fun _ h => by cases h) ?_
  exact .ite (.fail fun _ h => by cases h) ((FailsOnly.set _).bind fun _ => .pure _)

theorem attach_isFound (child parent : Text) : FailsOnly Error.IsFound (attach child parent) := by
  refine FailsOnly.get.bind fun f => .ite (.pure _) ?_
  exact .ite ((FailsOnly.say _ _ _).bind fun _ => .pure _) ((FailsOnly.set _).bind fun _ => .pure _)

theorem ensureParent_isFound (parent : Text) (name : Option Text) :
    FailsOnly Error.IsFound (ensureParent parent name) := by
  refine FailsOnly.get.bind fun f => ?_
  split
  · exact (addItem_isFound _ _ _ _).bind fun _ => .pure _
  · exact (addItem_isFound _ _ _ _).bind fun _ => .pure _
  · exact .ite (.set _) (.pure _)
  · exact .pure _

theorem addParent_isFound (child : Text) (name : Option Text) :
    FailsOnly Error.IsFound (addParent child name) := by
  refine (ensureParent_isFound _ _).bind fun _ => (attach_isFound _ _).bind fun attached => ?_
  exact .ite (.pure _) (.fail fun _ h => by cases h)

theorem claimName_isFound (item : Item) (name : Text) (kind : ConflictKind) :
    FailsOnly Error.IsFound (claimName item name kind) := by
  unfold claimName
  refine .ite ((FailsOnly.modify _).bind fun _ => .pure _) (.ite ?_ (.pure _))
  exact (FailsOnly.modify _).bind fun _ => (FailsOnly.say _ _ _).bind fun _ => .pure _

theorem ensureFile_isFound (id name : Text) (isPlaceholder : Bool) :
    FailsOnly Error.IsFound (ensureFile id name isPlaceholder) := by
  refine FailsOnly.get.bind fun f => .ite ?_ (.pure _)
  exact (addItem_isFound _ _ _ _).bind fun _ => .pure _

theorem nameUpwards_isFound (branch : Text) (components : List Text) :
    FailsOnly Error.IsFound (nameUpwards branch components) := by
  induction components generalizing branch with
  | nil => exact .pure _
  | cons component rest ih =>
    unfold nameUpwards
    refine .ite (.pure _) (FailsOnly.get.bind fun f => ?_)
    split
    · exact (addParent_isFound _ _).bind fun above => ih above
    · exact (claimName_isFound _ _ _).bind fun claimed => .ite (ih _) (.pure _)

theorem climb_isFound (path branch : Text) (components : List Text) :
    FailsOnly Error.IsFound (climb path branch components) := by
  induction components generalizing branch with
  | nil => exact .pure _
  | cons component rest ih =>
    unfold climb
    refine .ite (ih _) (.ite (.fail fun _ h => by cases h) (FailsOnly.get.bind fun f => ?_))
    split
    · exact ih _
    · exact (addParent_isFound _ _).bind fun above => ih above

/-! ## Merging -/

theorem adopt_isFound (survivor : Text) (children : List Text) :
    FailsOnly Error.IsFound (adopt survivor children) := by
  induction children with
  | nil => exact .pure _
  | cons child rest ih =>
    unfold adopt
    refine FailsOnly.get.bind fun f => .ite ?_ ih
    exact (attach_isFound _ _).bind fun _ => ih

theorem mergeDirectories_isFound (p q : Item) :
    FailsOnly Error.IsFound (mergeDirectories p q) := by
  have hadopt (survivor discarded : Text) :
      FailsOnly Error.IsFound (adoptChildren survivor discarded) :=
    FailsOnly.get.bind fun f => adopt_isFound _ _
  unfold mergeDirectories
  refine FailsOnly.get.bind fun f => ?_
  simp only
  refine .ite ?_ (hadopt _ _)
  exact (FailsOnly.modify _).bind fun _ => (FailsOnly.say _ _ _).bind fun _ => hadopt _ _

theorem mergeUp_isFound (fuel : Nat) (first second : Text) :
    FailsOnly Error.IsFound (mergeUp fuel first second) := by
  induction fuel generalizing first second with
  | zero => exact .pure _
  | succ fuel ih =>
    unfold mergeUp
    refine FailsOnly.get.bind fun f => ?_
    split
    · exact .ite (.pure _) ((mergeDirectories_isFound _ _).bind fun _ => ih _ _)
    · exact .pure _

theorem joinRoots_isFound (first second : Text) :
    FailsOnly Error.IsFound (joinRoots first second) := by
  refine FailsOnly.get.bind fun f => ?_
  split
  · exact .pure _
  · exact (attach_isFound _ _).bind fun _ => .pure _
  · exact (attach_isFound _ _).bind fun _ => .pure _
  · refine (addParent_isFound _ _).bind fun shared => ?_
    exact (attach_isFound _ _).bind fun _ => .pure _

theorem merge_isFound (first second : Text) : FailsOnly Error.IsFound (merge first second) :=
  FailsOnly.get.bind fun _ => (mergeUp_isFound _ _ _).bind fun _ => joinRoots_isFound _ _

/-! ## Require paths -/

/-- A require path never fails for want of an item. -/
theorem require_isFound (current target path : Text) :
    FailsOnly Error.IsFound (require current target path) := by
  unfold require
  refine .ite (.fail fun _ h => by cases h) (.ite (.fail fun _ h => by cases h) ?_)
  refine (FailsOnly.say _ _ _).bind fun _ => fun f => ?_
  have hfile := (ensureFile_isFound target (((Path.normalKeepingSlash path).split
    Path.slash).getLastD []) false f).and
    (ensureFile_evolves ⟨(· = target), fun _ => True⟩ rfl _ false)
  refine hfile.bind (fun e g he e' he' => ?_) fun _ g hg => ?_
  · exact he.1 e' (by rw [Except.error.inj he'])
  · have hhas : g.has target = true := hg.2.2 rfl
    rw [leaves_bind]
    refine get_leaves target _ (fun file _ => ?_) fun hnone => ?_
    · -- from here on nothing is looked up
      refine ((claimName_isFound file _ .file).bind fun claimed => ?_ : FailsOnly _ _) g
      have hrest : ∀ place : Text × List Text, FailsOnly Error.IsFound (do
          if place.2.isEmpty && !Text.startsWith path "." then return ()
          else
            ensureFile current current true
            let own ← climb path current place.2.reverse
            merge place.1 own) := by
        intro place
        refine .ite (.pure _) ((ensureFile_isFound _ _ _).bind fun _ => ?_)
        exact (climb_isFound _ _ _).bind fun own => merge_isFound _ _
      refine .ite ((FailsOnly.say _ _ _).bind fun _ => ?_) ?_
      · exact (nameUpwards_isFound _ _).bind hrest
      · exact (nameUpwards_isFound _ _).bind hrest
    · rw [has, hnone] at hhas
      cases hhas

theorem ensureFile_ok {id : Text} (hid : id ≠ []) (name : Text) (isPlaceholder : Bool)
    (f : Forest) :
    (ensureFile id name isPlaceholder).Leaves f fun r _ => r = .ok () := by
  unfold ensureFile addFile addItem
  rw [leaves_get_bind]
  split
  · rename_i hhas
    have hempty : id.isEmpty = false := by simpa using hid
    have hfresh : f.has id = false := by simpa using hhas
    rw [leaves_bind, leaves_get_bind, hempty, hfresh]
    rfl
  · rfl

end Forest
end Debundle
