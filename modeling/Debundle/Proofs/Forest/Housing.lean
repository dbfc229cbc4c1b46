import Debundle.Proofs.Forest.Permanence
import Debundle.Proofs.Path.Components
import Mathlib.Logic.Function.Iterate

/-!
# What items are in

The directory that is made for the item `x` has the id `parent-x`, and such ids are ids like all
others.  A file that goes by one of them is taken for the directory, and then something is in a
file.  Nothing else can bring this about: whatever has something in it goes by the id of a directory
that was made for an item, and every item goes by an id that was asked for, or by one that is made
from such an id.

* `Forest.Housed`: where the ids in a forest come from.
* `Forest.Change.housed`, `Forest.Evolves.housed`: one change keeps this, and any number of them.
* `Forest.Housed.of_isFile`: a file with something in it goes by an id made from one that was asked
  for.
* `Forest.require_onto`: a file that goes by such an id, and that names the directories up to itself,
  is taken for one of them.
-/

namespace Debundle
namespace Forest

open Debundle.Action

variable {S : Scope} {K L : Text → Prop} {f g : Forest} {x : Text}

/-! ## Where ids come from -/

/-- Items go by ids that were asked for, or that are made from one; files go by ids that were asked
for; and what has something in it goes by the id of a directory that is made for an item. -/
structure Housed (K : Text → Prop) (f : Forest) : Prop where
  origin : ∀ x, f.has x = true → ∃ y n, K y ∧ x = parentIdOf^[n] y
  file : ∀ x i, f.find? x = some i → i.isFile = true → K x
  house : ∀ x, f.IsUsed x → ∃ child, f.has child = true ∧ x = parentIdOf child

theorem Housed.empty (K : Text → Prop) : Housed K Forest.empty where
  origin x hx := by simp [Forest.empty, has, find?] at hx
  file x i hi := by simp [Forest.empty, find?] at hi
  house x hx := by
    obtain ⟨child, hchild⟩ := hx
    simp [Forest.empty, parentId?, find?] at hchild

theorem Housed.mono (hf : Housed K f) (hKL : ∀ id, K id → L id) : Housed L f where
  origin x hx := by
    obtain ⟨y, n, hy, hxy⟩ := hf.origin x hx
    exact ⟨y, n, hKL y hy, hxy⟩
  file x i hi hfile := hKL x (hf.file x i hi hfile)
  house := hf.house

theorem Housed.insert (hf : Housed K f) {id : Text} (name : Text) (isFile isPlaceholder : Bool)
    (hfresh : f.has id = false)
    (horigin : K id ∨ isFile = false ∧ ∃ child, f.has child = true ∧ id = parentIdOf child) :
    Housed K (f.insert ⟨id, name, isFile, isPlaceholder, none, []⟩) where
  origin x hx := by
    rw [has_insert, Bool.or_eq_true, decide_eq_true_iff] at hx
    rcases hx with hx | rfl
    · exact hf.origin x hx
    · rcases horigin with hid | ⟨-, child, hchild, hid⟩
      · exact ⟨_, 0, hid, rfl⟩
      · obtain ⟨y, n, hy, hn⟩ := hf.origin child hchild
        exact ⟨y, n + 1, hy, by rw [Function.iterate_succ_apply', ← hn]; exact hid⟩
  file x i hi hfile := by
    rw [find?_insert] at hi
    rcases Option.or_eq_some_iff.mp hi with hold | ⟨-, hnew⟩
    · exact hf.file x i hold hfile
    · split at hnew
      · rename_i hid
        rw [← Option.some_inj.mp hnew] at hfile
        rcases horigin with horigin | ⟨hdirectory, -⟩
        · exact hid ▸ horigin
        · exact absurd (hfile.symm.trans hdirectory) (by simp)
      · cases hnew
  house x hx := by
    obtain ⟨child, hchild⟩ := hx
    rw [parentId?_insert _ _ rfl hfresh] at hchild
    obtain ⟨y, hy, hxy⟩ := hf.house x ⟨child, hchild⟩
    exact ⟨y, by rw [has_insert, hy, Bool.true_or], hxy⟩

theorem Housed.settle (hf : Housed K f) (id name : Text) : Housed K (f.settle id name) where
  origin x hx := hf.origin x (by rwa [has_settle] at hx)
  file x i hi hfile := by
    rw [find?_settle] at hi
    split at hi
    · obtain ⟨j, hj, rfl⟩ := Option.map_eq_some_iff.mp hi
      exact hf.file x j hj hfile
    · exact hf.file x i hi hfile
  house x hx := by
    obtain ⟨child, hchild⟩ := hx
    rw [parentId?_settle] at hchild
    obtain ⟨y, hy, hxy⟩ := hf.house x ⟨child, hchild⟩
    exact ⟨y, by rw [has_settle, hy], hxy⟩

theorem Housed.move (hf : Housed K f) {child parent : Text} (hchild : f.has child = true)
    (hplace : parent = parentIdOf child ∨ f.IsUsed parent) : Housed K (f.move child parent) where
  origin x hx := hf.origin x (by rwa [has_move] at hx)
  file x i hi hfile := by
    have hbare : f.bare? x = some i.bare := by rw [← bare?_move f child parent, bare?_of_find? hi]
    obtain ⟨j, hj, hij⟩ := Option.map_eq_some_iff.mp hbare
    refine hf.file x j hj ?_
    have hsame := congrArg Item.isFile hij
    exact hsame.trans hfile
  house x hx := by
    -- the directory that the item is moved into was in use, or was made for the item
    have hhouse : ∃ y, f.has y = true ∧ x = parentIdOf y := by
      obtain ⟨y, hy⟩ := hx
      rw [parentId?_move hchild] at hy
      split at hy
      · obtain rfl : parent = x := Option.some_inj.mp hy
        rcases hplace with hparent | hused
        · exact ⟨child, hchild, hparent⟩
        · exact hf.house parent hused
      · exact hf.house x ⟨y, hy⟩
    obtain ⟨y, hy, hxy⟩ := hhouse
    exact ⟨y, by rw [has_move, hy], hxy⟩

/-- Each single change keeps where ids come from. -/
theorem Change.housed (hfg : Change S f g) (hf : Housed S.ids f) : Housed S.ids g := by
  cases hfg with
  | insert name isFile isPlaceholder hid hfresh horigin =>
    exact hf.insert name isFile isPlaceholder hfresh horigin
  | settle name hi hplaceholder => exact hf.settle _ name
  | record hkind hi hsettled hne => exact ⟨hf.origin, hf.file, hf.house⟩
  | move hchild hparent habove hplace => exact hf.move hchild hplace

/-- Any number of changes keep where ids come from. -/
theorem Evolves.housed (hfg : Evolves S f g) (hf : Housed S.ids f) : Housed S.ids g := by
  induction hfg with
  | refl => exact hf
  | tail _ hgh ih => exact hgh.housed ih

/-- A file with something in it goes by an id that was asked for, and that is made from another one
that was asked for. -/
theorem Housed.of_isFile (hf : Housed K f) {i : Item} (hi : f.find? x = some i)
    (hfile : i.isFile = true) (hused : f.IsUsed x) :
    K x ∧ ∃ y n, K y ∧ x = parentIdOf^[n + 1] y := by
  obtain ⟨child, hchild, hx⟩ := hf.house x hused
  obtain ⟨y, n, hy, hn⟩ := hf.origin child hchild
  exact ⟨hf.file x i hi hfile, y, n, hy, by rw [Function.iterate_succ_apply', ← hn, hx]⟩

/-! ## A file that is taken for a directory -/

theorem length_iterate_parentIdOf (n : Nat) (x : Text) :
    (parentIdOf^[n] x).length = x.length + 7 * n := by
  induction n with
  | zero => rfl
  | succ n ih =>
    have hlength (y : Text) : (parentIdOf y).length = y.length + 7 := by
      rw [parentIdOf, List.length_append, Nat.add_comm]
      rfl
    rw [Function.iterate_succ_apply', hlength, ih, Nat.mul_succ, Nat.add_assoc]

theorem iterate_parentIdOf_ne_self (n : Nat) (x : Text) : parentIdOf^[n + 1] x ≠ x := by
  intro h
  have hlength := congrArg List.length h
  rw [length_iterate_parentIdOf] at hlength
  omega

/-- An item that already goes by the id of the directory for an item is taken for it. -/
theorem addParent_onto (hf : f.WellFormed) (hx : f.has x = true)
    (hparent : f.has (parentIdOf x) = true) (hroot : f.parentId? (parentIdOf x) = none)
    (name : Option Text) : (addParent x name).Leaves f fun r g =>
      r = .ok (parentIdOf x) ∧ g.IsUsed (parentIdOf x) := by
  have hensure : ∀ given, (ensureParent (parentIdOf x) given).Leaves f fun r g =>
      r = .ok () ∧ g.WellFormed ∧ g.has x = true ∧ g.has (parentIdOf x) = true ∧
        g.parentId? (parentIdOf x) = none := by
    intro given
    obtain ⟨existing, hexisting⟩ := has_iff.mp hparent
    unfold ensureParent
    rw [leaves_get_bind, hexisting]
    cases given with
    | none => exact ⟨rfl, hf, hx, hparent, hroot⟩
    | some n =>
      simp only
      split
      · simp only [leaves_set, has_settle, parentId?_settle]
        exact ⟨trivial, hf.settle _ n, hx, hparent, hroot⟩
      · exact ⟨rfl, hf, hx, hparent, hroot⟩
  unfold addParent
  refine (hensure _).bind_ok ?_
  rintro g ⟨hg, hx, hparent, hroot⟩
  rw [leaves_bind]
  refine attach_leaves x (parentIdOf x) _ ?_ ?_ ?_
  · exact fun hinside => ⟨rfl, x, hinside⟩
  · intro habove
    obtain ⟨n, hn⟩ := (hg.isAtOrAbove_iff hparent).mp habove
    cases n with
    | zero => exact absurd (Option.some_inj.mp hn) (parentIdOf_ne_self x)
    | succ n =>
      rw [ancestor?_succ, hroot] at hn
      cases hn
  · intro _ _
    have hinside : (g.move x (parentIdOf x)).parentId? x = some (parentIdOf x) := by
      rw [parentId?_move hx, if_pos rfl]
    exact ⟨rfl, x, hinside⟩

/-- Naming the directories above an item, where a root goes by the id of one of them and the ones
below it are new. -/
theorem nameUpwards_onto {n : Nat} (hf : f.WellFormed) (hx : f.has x = true)
    (hroot : f.parentId? x = none) (hfresh : ∀ m < n, f.has (parentIdOf^[m + 1] x) = false)
    (hfile : f.has (parentIdOf^[n + 1] x) = true)
    (hfileRoot : f.parentId? (parentIdOf^[n + 1] x) = none) {names : List Text}
    (hnames : ∀ c ∈ names, IsName c) (hlength : names.length = n + 1) :
    (nameUpwards x names).Leaves f fun r g =>
      ∃ p, r = .ok p ∧ p.2 = [] ∧ g.IsUsed (parentIdOf^[n + 1] x) := by
  induction n generalizing f x names with
  | zero =>
    obtain ⟨c, rfl⟩ := List.length_eq_one_iff.mp hlength
    have hc := hnames c List.mem_cons_self
    unfold nameUpwards
    rw [if_neg (by simp [hc.2.1, hc.2.2.1]), leaves_get_bind, parent?, hroot, Option.bind_none]
    refine (addParent_onto hf hx hfile hfileRoot _).bind_ok fun g hg => ?_
    exact ⟨_, rfl, rfl, hg⟩
  | succ n ih =>
    obtain ⟨c, names, rfl⟩ := List.exists_cons_of_length_eq_add_one hlength
    have hc := hnames c List.mem_cons_self
    have hnew : f.has (parentIdOf x) = false := hfresh 0 n.succ_pos
    unfold nameUpwards
    rw [if_neg (by simp [hc.2.1, hc.2.2.1]), leaves_get_bind, parent?, hroot, Option.bind_none]
    refine (addParent_leaves hf hx hnew fun d hd => Option.some_inj.mp hd ▸ hc.1).bind_ok
      fun g hg => ?_
    -- all else is as it was, one level further up
    have hhas : ∀ m, g.has (parentIdOf^[m + 1] (parentIdOf x)) =
        f.has (parentIdOf^[m + 2] x) := by
      intro m
      rw [has_eq_isSome_bare?, has_eq_isSome_bare?, hg.bare,
        if_neg (iterate_parentIdOf_ne_self m _), ← Function.iterate_succ_apply]
    refine ih hg.wellFormed ?_ ?_ (fun m hm => ?_) ?_ ?_
      (fun d hd => hnames d (List.mem_cons_of_mem _ hd)) (by simpa using hlength)
    · rw [has_eq_isSome_bare?, hg.bare, if_pos rfl]
      rfl
    · rw [hg.parent, if_neg (parentIdOf_ne_self x), parentId?, find?_eq_none_iff.mpr hnew,
        Option.bind_none]
    · rw [hhas, hfresh (m + 1) (Nat.succ_lt_succ hm)]
    · rw [hhas, hfile]
    · rw [← Function.iterate_succ_apply, hg.parent, if_neg (iterate_parentIdOf_ne_self _ x),
        hfileRoot]

/-- A path that is made of names is in normal form. -/
theorem normalKeepingSlash_names {names : List Text} (hne : names ≠ [])
    (hnames : ∀ c ∈ names, IsName c) :
    Path.normalKeepingSlash (Text.join [Path.slash] names) = Text.join [Path.slash] names := by
  have hpieces : ∀ c ∈ names, Path.IsPiece c := fun c hc => (hnames c hc).isPiece
  refine Path.normalKeepingSlash_join hne hpieces hne hpieces ?_
  rw [Path.resolve, Path.foldl_push_names hnames, List.append_nil, List.reverse_reverse]

/-- A module that goes by the id of a directory above a file, and that names the directories above
the file up to itself, is taken for that directory. -/
theorem require_onto {n : Nat} (hf : f.WellFormed) (hid : x ≠ []) (hx : f.has x = false)
    (hfresh : ∀ m < n, f.has (parentIdOf^[m + 1] x) = false)
    (hfile : f.has (parentIdOf^[n + 1] x) = true)
    (hroot : f.parentId? (parentIdOf^[n + 1] x) = none) {names : List Text} {base : Text}
    (hnames : ∀ c ∈ names ++ [base], IsName c) (hlength : names.length = n + 1)
    (hbare : Text.startsWith (Text.join [Path.slash] (names ++ [base])) "." = false)
    (current : Text) :
    (require current x (Text.join [Path.slash] (names ++ [base]))).Leaves f fun _ g =>
      g.IsUsed (parentIdOf^[n + 1] x) := by
  have hne : names ++ [base] ≠ [] := by simp
  have hpieces : ∀ c ∈ names ++ [base], Path.IsPiece c := fun c hc => (hnames c hc).isPiece
  have hcomponents : componentsOf (Text.join [Path.slash] (names ++ [base])) = names ++ [base] := by
    rw [componentsOf, normalKeepingSlash_names hne hnames,
      Text.split_join hne fun c hc => (hpieces c hc).2]
  have hlead : CanLead x (Text.join [Path.slash] (names ++ [base])) := by
    obtain ⟨a, u, -, -, hjoin, -⟩ := Path.join_pieces hne hpieces
    exact ⟨by rw [hjoin]; simp, Path.endsWith_join hne hpieces, hid⟩
  rw [require_leaves hlead, named, find?_eq_none_iff.mpr hx, baseOf, hcomponents,
    List.getLastD_concat]
  generalize hg : f.insert ⟨x, base, true, false, none, []⟩ = g
  have hhas : ∀ y, g.has y = (f.has y || decide (x = y)) := fun y => hg ▸ has_insert f _ y
  have hparent : ∀ y, g.parentId? y = f.parentId? y := fun y => hg ▸ parentId?_insert f _ rfl hx y
  have hup : (nameUpwards x names.reverse).Leaves g fun r h =>
      ∃ p, r = .ok p ∧ p.2 = [] ∧ h.IsUsed (parentIdOf^[n + 1] x) := by
    refine nameUpwards_onto (hg ▸ hf.insert base true false hid hx) ?_ ?_ (fun m hm => ?_) ?_ ?_
      (fun c hc => hnames c (List.mem_append_left _ (List.mem_reverse.mp hc))) (by simpa using hlength)
    · rw [hhas, decide_eq_true rfl, Bool.or_true]
    · rw [hparent, parentId?, find?_eq_none_iff.mpr hx, Option.bind_none]
    · rw [hhas, hfresh m hm, Bool.false_or, decide_eq_false_iff_not]
      exact (iterate_parentIdOf_ne_self m x).symm
    · rw [hhas, hfile, Bool.true_or]
    · rw [hparent, hroot]
  unfold place
  rw [hcomponents, List.dropLast_concat]
  refine hup.bind_exists_ok ?_
  rintro ⟨branch, left⟩ h ⟨rfl, hused⟩
  simp only [hbare, List.isEmpty_nil, Bool.not_false, Bool.and_self, if_true, leaves_pure]
  exact hused

/-- A path through some directories to a file. -/
def pathThrough (n : Nat) : Text :=
  Text.join [Path.slash] (List.replicate n (Text.ofString "a") ++ [Text.ofString "b"])

theorem isName_of_mem_pathThrough {n : Nat} :
    ∀ c ∈ List.replicate n (Text.ofString "a") ++ [Text.ofString "b"], IsName c := by
  refine List.forall_mem_append.mpr ⟨fun c hc => ?_, List.forall_mem_singleton.mpr (by decide)⟩
  rw [List.eq_of_mem_replicate hc]
  decide

/-- The path says nothing about where the module is that asks. -/
theorem startsWith_pathThrough (n : Nat) (t : Text) :
    Text.startsWith (pathThrough (n + 1)) ('.' :: t) = false := by
  rw [pathThrough, List.replicate_succ, List.cons_append, Text.join_cons _ (by simp)]
  rfl

/-- A file that is all there is, and that asks for another one by a path through the directories up
to itself. -/
theorem file_used_alone (hx : x ≠ []) (n : Nat) :
    ∃ i ∈ (empty.afterAll [.addFile (parentIdOf^[n + 1] x) (parentIdOf^[n + 1] x) true,
        .require (parentIdOf^[n + 1] x) x (pathThrough (n + 1))]).items,
      i.id = parentIdOf^[n + 1] x ∧ i.isFile = true ∧ i.children ≠ [] := by
  generalize hy : parentIdOf^[n + 1] x = y
  have hid : y ≠ [] := by
    rw [← hy, Function.iterate_succ_apply']
    exact parentIdOf_ne_nil _
  change ∃ i ∈ ((empty.after (.addFile y y true)).after
    (.require y x (pathThrough (n + 1)))).items, i.id = y ∧ i.isFile = true ∧ i.children ≠ []
  have hf := (evolves_after wellFormed_empty (.addFile y y true)).wellFormed wellFormed_empty
  have hitems : empty.after (.addFile y y true) = ⟨[⟨y, y, true, true, none, []⟩], []⟩ := by
    obtain ⟨c, cs, rfl⟩ := List.exists_cons_of_ne_nil hid
    rfl
  rw [hitems] at hf ⊢
  generalize hg : (⟨[⟨y, y, true, true, none, []⟩], []⟩ : Forest) = f at hf ⊢
  have hfind : ∀ z, f.find? z = if y = z then some ⟨y, y, true, true, none, []⟩ else none := by
    intro z
    by_cases hz : y = z <;> simp [← hg, find?, hz]
  have hfile : f.find? y = some ⟨y, y, true, true, none, []⟩ := by rw [hfind, if_pos rfl]
  have hother : ∀ z, y ≠ z → f.has z = false := by
    intro z hz
    rw [← find?_eq_none_iff, hfind, if_neg hz]
  have hused : (f.after (.require y x (pathThrough (n + 1)))).IsUsed y := by
    subst hy
    refine require_onto hf hx (hother x (iterate_parentIdOf_ne_self n x)) (fun m hm => hother _ ?_)
      (has_iff.mpr ⟨_, hfile⟩) (by rw [parentId?_of_find? hfile]) isName_of_mem_pathThrough
      List.length_replicate (startsWith_pathThrough n []) _
    intro heq
    have hlength := congrArg List.length heq
    rw [length_iterate_parentIdOf, length_iterate_parentIdOf] at hlength
    omega
  have hevolves := evolves_after hf (.require y x (pathThrough (n + 1)))
  obtain ⟨i, hi, hkept⟩ := hevolves.keeps.item y _ hfile
  obtain ⟨child, hchild⟩ := hused
  have hmem := (hevolves.wellFormed hf).mem_childrenOf_iff.mpr hchild
  rw [childrenOf_of_find? hi] at hmem
  exact ⟨i, mem_items_of_find? hi, id_of_find? hi, hkept.isFile, List.ne_nil_of_mem hmem⟩

end Forest
end Debundle
