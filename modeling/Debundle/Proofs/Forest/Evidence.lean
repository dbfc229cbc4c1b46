import Debundle.Proofs.Forest.Folding

/-!
# Taking in one require path

A require path that is true of a layout is taken into a forest that is faithful to it: nothing is
refused, the forest stays faithful, what was known before is still known, and what the path says is
known as well.

* `Edge`: that one module asks for another by a relative path.
* `Edge.Fits`: the path is true of a layout.
* `Edge.Known`: the forest has what the path says.
* `Forest.nameUpwards_extends`, `Forest.climb_extends`: naming directories and going up.
* `Forest.require_refines`: one require path.
-/

namespace Debundle

/-- That one module asks for another by a relative path. -/
structure Edge where
  /-- The id of the module that asks. -/
  current : Text
  /-- The id of the module that it asks for. -/
  target : Text
  /-- How many levels the path goes up. -/
  ups : Nat
  /-- The directories that the path then goes down. -/
  dirs : List Text
  /-- The last component of the path. -/
  base : Text
deriving DecidableEq

namespace Edge

variable {R : Layout} {e : Edge}

/-- The components of the path: it begins with `.` or with some `..`. -/
def components (e : Edge) : List Text :=
  (if e.ups = 0 then [Path.here] else List.replicate e.ups Path.up) ++ e.dirs ++ [e.base]

/-- The path. -/
def path (e : Edge) : Text := Text.join [Path.slash] e.components

/-- The path begins with a dot. -/
theorem startsWith_path (e : Edge) : Text.startsWith e.path "." = true := by
  have hdot : Text.ofString "." = Path.here := rfl
  have hhead : ∃ t ts, e.components = (Path.here ++ t) :: ts := by
    unfold components
    cases e.ups with
    | zero => exact ⟨[], _, rfl⟩
    | succ k => exact ⟨Path.here, _, rfl⟩
  obtain ⟨t, ts, hts⟩ := hhead
  rw [path, hts, Text.startsWith, hdot, List.isPrefixOf_iff_prefix]
  cases ts with
  | nil => exact List.prefix_append _ _
  | cons u us =>
    rw [Text.join_cons _ (by simp), List.append_assoc]
    exact List.prefix_append _ _

/-- The path leads, in a layout, from the directory of the one module to the other. -/
structure Fits (R : Layout) (e : Edge) : Prop where
  current : IsModuleId e.current
  target : IsModuleId e.target
  /-- The path does not go up beyond the root. -/
  ups_le : e.ups ≤ (R.locate e.current).dropLast.length
  locate_target :
    R.locate e.target = (R.locate e.current).dropLast.rdrop e.ups ++ e.dirs ++ [e.base]

/-- What the path says is known: some directory is above both modules at the right levels, and the
names of the module and of the directories that the path goes down are settled. -/
structure Known (e : Edge) (f : Forest) : Prop where
  shared : ∃ w, f.ancestor? (e.ups + 1) e.current = some w ∧
    f.ancestor? (e.dirs.length + 1) e.target = some w
  settled : ∀ j ≤ e.dirs.length, ∃ z, f.ancestor? j e.target = some z ∧ f.IsSettled z

/-- What is known stays known. -/
theorem Known.refines {f g : Forest} (hf : e.Known f) (hfg : f.Refines g) : e.Known g where
  shared := hfg.shared hf.shared
  settled j hj := hfg.isSettled (hf.settled j hj)

namespace Fits

variable (he : e.Fits R)
include he

theorem isName_of_mem {c : Text} (hc : c ∈ e.dirs ++ [e.base]) : IsName c := by
  refine R.isName e.target c ?_
  rw [he.locate_target, List.append_assoc]
  exact List.mem_append_right _ hc

theorem isName_dirs {c : Text} (hc : c ∈ e.dirs) : IsName c := he.isName_of_mem (by simp [hc])

/-- The place of the target: its name, the directories that the path goes down, and the place where
it turned. -/
theorem place_target : R.place e.target =
    ⟨e.base :: (e.dirs.reverse ++ (R.locate e.current).dropLast.reverse.drop e.ups), 0⟩ := by
  rw [R.place_of_isModuleId he.target, he.locate_target, List.append_assoc, List.reverse_append,
    List.reverse_append, List.rdrop_eq_reverse_drop_reverse, List.reverse_reverse]
  rfl

theorem place_current : R.place e.current =
    ⟨(R.locate e.current).getLast (R.locate_ne_nil _) :: (R.locate e.current).dropLast.reverse, 0⟩ := by
  rw [R.place_of_isModuleId he.current]
  congr
  conv_lhs => rw [← List.dropLast_append_getLast (R.locate_ne_nil e.current)]
  rw [List.reverse_append]
  rfl

/-- Where the path turns, seen from both ends. -/
theorem place_shared :
    Layout.Place.up^[e.ups + 1] (R.place e.current) =
      Layout.Place.up^[e.dirs.length + 1] (R.place e.target) := by
  rw [he.place_current, he.place_target, Layout.Place.up_iterate, Layout.Place.up_iterate]
  · simp
  · simp
  · simpa using he.ups_le

theorem isPiece_components : ∀ c ∈ e.components, Path.IsPiece c := by
  intro c hc
  rw [components, List.append_assoc, List.mem_append] at hc
  rcases hc with hc | hc
  · split at hc
    · rw [List.mem_singleton.mp hc]
      exact Path.isPiece_here
    · rw [List.eq_of_mem_replicate hc]
      exact Path.isPiece_up
  · exact (he.isName_of_mem hc).isPiece

theorem path_ne_nil : e.path ≠ [] := by
  obtain ⟨a, u, -, -, hau, -⟩ := Path.join_pieces (by simp [components]) he.isPiece_components
  simp [path, hau]

theorem endsWith_path : Text.endsWith e.path "/" = false :=
  Path.endsWith_join (by simp [components]) he.isPiece_components

/-- The components that remain in the normal form of the path. -/
theorem split_normal : Text.split Path.slash (Path.normalKeepingSlash e.path) =
    List.replicate e.ups Path.up ++ e.dirs ++ [e.base] := by
  have hpieces : ∀ c ∈ List.replicate e.ups Path.up ++ e.dirs ++ [e.base], Path.IsPiece c := by
    intro c hc
    rw [List.append_assoc, List.mem_append] at hc
    rcases hc with hc | hc
    · rw [List.eq_of_mem_replicate hc]
      exact Path.isPiece_up
    · exact (he.isName_of_mem hc).isPiece
  have hmarks : (if e.ups = 0 then [Path.here] else List.replicate e.ups Path.up).foldl
      (Path.push false) [] = List.replicate e.ups Path.up := by
    split
    · rename_i hzero
      rw [hzero]
      rfl
    · rw [← List.replicate_zero, Path.foldl_push_ups_start, Nat.zero_add]
  have hresolve : Path.resolve false e.components =
      List.replicate e.ups Path.up ++ e.dirs ++ [e.base] := by
    rw [Path.resolve, components, List.append_assoc, List.foldl_append, hmarks,
      Path.foldl_push_names fun c hc => he.isName_of_mem hc, List.reverse_append,
      List.reverse_reverse, List.reverse_replicate, List.append_assoc]
  have hne : e.components ≠ [] := by simp [components]
  rw [path, Path.normalKeepingSlash_join hne he.isPiece_components (by simp) hpieces hresolve,
    Text.split_join (by simp) fun c hc => (hpieces c hc).2]

end Fits
end Edge

namespace Forest

open Debundle.Action

variable {R : Layout} {K : Text → Prop} {f g : Forest} {x y : Text}

/-! ## Names -/

/-- The name that the layout has at the place of an item is never refused. -/
theorem claimName_extends (hf : Faithful R K f) {item : Item} (hitem : f.find? item.id = some item)
    {name : Text} {names : List Text} {n : Nat} (hplace : R.place item.id = ⟨name :: names, n⟩)
    (kind : ConflictKind) :
    (claimName item name kind).Leaves f fun r g =>
      r = .ok true ∧ Faithful R K g ∧ Extends f g ∧ g.IsSettled item.id := by
  have hbare := bare?_of_find? hitem
  unfold claimName
  split
  · rw [leaves_bind, leaves_modify]
    exact ⟨rfl, hf.settle hbare hplace, extends_settle f item.id name, isSettled_settle hbare name⟩
  · rename_i hsettled
    have hsettled : item.bare.isPlaceholder = false := by simpa [Item.bare] using hsettled
    obtain ⟨names', n', hplace'⟩ := hf.settled item.id item.bare hbare hsettled
    have hname : item.name = name := by
      rw [hplace] at hplace'
      injection hplace' with hnames
      injection hnames with hname
      exact hname.symm
    rw [if_neg (by simp [hname]), leaves_pure]
    exact ⟨rfl, hf, .refl f, item.bare, hbare, hsettled⟩

theorem ensureFile_extends (hf : Faithful R K f) {id name : Text} {isPlaceholder : Bool}
    (hid : IsModuleId id) (hkind : K id)
    (hsettled : isPlaceholder = false → ∃ names n, R.place id = ⟨name :: names, n⟩)
    (hplaceholder : isPlaceholder = true → name = id) :
    (ensureFile id name isPlaceholder).Leaves f fun r g =>
      r = .ok () ∧ Faithful R K g ∧ Extends f g ∧ g.has id = true := by
  unfold ensureFile
  rw [leaves_get_bind]
  split
  · rename_i hfresh
    have hfresh : f.has id = false := by simpa using hfresh
    unfold addFile addItem
    simp only [bind_assoc, leaves_get_bind]
    rw [if_neg (by simpa using hid.1), if_neg (by simp [hfresh])]
    have hhas : (f.insert ⟨id, name, true, isPlaceholder, none, []⟩).has id = true := by
      simp [has_insert]
    exact ⟨rfl, hf.insertFile hid hkind hfresh hsettled hplaceholder, extends_insert rfl hfresh, hhas⟩
  · rename_i hhas
    exact ⟨rfl, hf, .refl f, by simpa using hhas⟩

/-! ## Going up -/

/-- Naming the directories above an item as the layout has them. -/
theorem nameUpwards_extends (hK : ∀ x, K x → K (parentIdOf x)) {names rest : List Text}
    (hrest : ∀ c, rest.head? = some c → c = Path.here ∨ c = Path.up) (hf : Faithful R K f)
    (hx : f.has x = true) {more : List Text} {n : Nat}
    (hplace : (R.place x).up = ⟨names ++ more, n⟩) (hnames : ∀ c ∈ names, IsName c) :
    (nameUpwards x (names ++ rest)).Leaves f fun r g => ∃ p, r = .ok p ∧ p.2 = rest ∧
      Faithful R K g ∧ Extends f g ∧ g.ancestor? names.length x = some p.1 ∧
      ∀ j < names.length, ∃ z, g.ancestor? (j + 1) x = some z ∧ g.IsSettled z := by
  induction names generalizing f x with
  | nil =>
    rw [List.nil_append]
    cases rest with
    | nil => exact ⟨(x, []), rfl, rfl, hf, .refl f, rfl, by simp⟩
    | cons c rest =>
      unfold nameUpwards
      rw [if_pos (by simpa using hrest c rfl)]
      exact ⟨(x, c :: rest), rfl, rfl, hf, .refl f, rfl, by simp⟩
  | cons c names ih =>
    have hc := hnames c List.mem_cons_self
    -- one level has been named, and the rest is done from there
    have hstep : ∀ {g : Forest} {p : Text}, Faithful R K g → Extends f g → g.parentId? x = some p →
        g.IsSettled p → (nameUpwards p (names ++ rest)).Leaves g fun r h => ∃ q,
          r = .ok q ∧ q.2 = rest ∧ Faithful R K h ∧ Extends f h ∧
          h.ancestor? (c :: names).length x = some q.1 ∧
          ∀ j < (c :: names).length, ∃ z, h.ancestor? (j + 1) x = some z ∧ h.IsSettled z := by
      intro g p hg hfg hp hs
      have hup : (R.place p).up = ⟨names ++ more, n⟩ := by
        rw [hg.place_parent x p hp, hplace, List.cons_append, Layout.Place.up_cons]
      refine (ih hg (hg.wellFormed.has_parent hp) hup
        fun d hd => hnames d (List.mem_cons_of_mem _ hd)).mono ?_
      rintro r h ⟨q, hr, hq, hh, hgh, hy, hsettled⟩
      have hsucc : ∀ j, h.ancestor? (j + 1) x = h.ancestor? j p := by
        intro j
        rw [ancestor?_succ, hgh.parent x p hp, Option.bind_some]
      refine ⟨q, hr, hq, hh, hfg.trans hgh, by rw [List.length_cons, hsucc, hy], fun j hj => ?_⟩
      rw [hsucc]
      cases j with
      | zero => exact ⟨p, rfl, hgh.settled p hs⟩
      | succ j => exact hsettled j (by simpa using hj)
    rw [List.cons_append]
    unfold nameUpwards
    rw [if_neg (by simp [hc.2.1, hc.2.2.1]), leaves_get_bind]
    rcases hp : f.parentId? x with _ | p
    · rw [parent?_eq_none hp]
      have hfresh := hf.has_parentIdOf_eq_false hp
      have hne : ∀ d, some c = some d → d ≠ [] := fun d hd => Option.some_inj.mp hd ▸ hc.1
      refine (addParent_leaves hf.wellFormed hx hfresh hne).bind_ok fun g hg => ?_
      refine hstep (hf.roofed hK hg hx fun d hd => ?_) (hg.extends hfresh hp)
        (by rw [hg.parent, if_pos rfl]) ⟨roof x (some c), by rw [hg.bare, if_pos rfl], rfl⟩
      exact ⟨names ++ more, n, by rw [hplace, ← Option.some_inj.mp hd]; rfl⟩
    · obtain ⟨above, habove, rfl⟩ := hf.wellFormed.parent?_eq_some hp
      rw [habove]
      have hc : R.place above.id = ⟨c :: (names ++ more), n⟩ := by
        rw [hf.place_parent x _ hp, hplace, List.cons_append]
      refine (claimName_extends hf (find?_of_parent? habove) hc .directory).bind_ok ?_
      rintro g ⟨hg, hfg, hs⟩
      rw [if_pos rfl]
      exact hstep hg hfg (hfg.parent x _ hp) hs

/-- Going up, with new directories where there are none. -/
theorem climb_extends (hK : ∀ x, K x → K (parentIdOf x)) (path : Text) (k : Nat)
    (hf : Faithful R K f) (hx : f.has x = true) :
    (climb path x (List.replicate k Path.up)).Leaves f fun r g =>
      ∃ y, r = .ok y ∧ Faithful R K g ∧ Extends f g ∧ g.ancestor? k x = some y := by
  induction k generalizing f x with
  | zero => exact ⟨x, rfl, hf, .refl f, rfl⟩
  | succ k ih =>
    have hstep : ∀ {g : Forest} {p : Text}, Faithful R K g → Extends f g → g.parentId? x = some p →
        (climb path p (List.replicate k Path.up)).Leaves g fun r h =>
          ∃ y, r = .ok y ∧ Faithful R K h ∧ Extends f h ∧ h.ancestor? (k + 1) x = some y := by
      intro g p hg hfg hp
      refine (ih hg (hg.wellFormed.has_parent hp)).mono ?_
      rintro r h ⟨y, hr, hh, hgh, hy⟩
      refine ⟨y, hr, hh, hfg.trans hgh, ?_⟩
      rw [ancestor?_succ, hgh.parent x p hp, Option.bind_some, hy]
    rw [List.replicate_succ]
    unfold climb
    rw [if_neg (by decide), if_neg (by decide), leaves_get_bind]
    rcases hp : f.parentId? x with _ | p
    · have hfresh := hf.has_parentIdOf_eq_false hp
      have hnone : ∀ n, (none : Option Text) = some n → n ≠ [] := by simp
      refine (addParent_leaves hf.wellFormed hx hfresh hnone).bind_ok fun g hg => ?_
      exact hstep (hf.roofed hK hg hx (by simp)) (hg.extends hfresh hp)
        (by rw [hg.parent, if_pos rfl])
    · exact hstep hf (.refl f) hp

/-! ## One require path -/

variable {e : Edge}

/-- The last of the pieces of the path: one directory is above both modules. -/
theorem merge_known (hK : ∀ x, K x → K (parentIdOf x)) (he : e.Fits R) (hf : Faithful R K f)
    (hx : f.ancestor? e.dirs.length e.target = some x) (hy : f.ancestor? e.ups e.current = some y)
    (htarget : f.has e.target = true) (hcurrent : f.has e.current = true)
    (hsettled : ∀ j ≤ e.dirs.length, ∃ z, f.ancestor? j e.target = some z ∧ f.IsSettled z) :
    (merge x y).Leaves f fun r g => r = .ok () ∧ Faithful R K g ∧ Refines f g ∧ e.Known g := by
  have hplace : (R.place x).up = (R.place y).up := by
    have hshared := he.place_shared
    rw [Function.iterate_succ_apply', Function.iterate_succ_apply', ← hf.place_ancestor hx,
      ← hf.place_ancestor hy] at hshared
    exact hshared.symm
  refine (merge_folds hK hf (hf.wellFormed.has_ancestor htarget hx)
    (hf.wellFormed.has_ancestor hcurrent hy) hplace).mono ?_
  rintro r g ⟨hr, hg, ⟨σ, hσ⟩, w, hxw, hyw⟩
  refine ⟨hr, hg, hσ.refines, ⟨w, ?_, ?_⟩, fun j hj => hσ.refines.isSettled (hsettled j hj)⟩
  · rw [hσ.ancestor?_succ hy, hyw]
  · rw [hσ.ancestor?_succ hx, hxw]

/-- A require path that is true of the layout is taken in, and all that was known is kept. -/
theorem require_refines (hK : ∀ x, K x → K (parentIdOf x)) (he : e.Fits R)
    (hcurrent : K e.current) (htarget : K e.target) (hf : Faithful R K f) :
    (require e.current e.target e.path).Leaves f fun r g =>
      r = .ok () ∧ Faithful R K g ∧ Refines f g ∧ e.Known g := by
  have hplace := he.place_target
  have hrest : ∀ c, (List.replicate e.ups Path.up).head? = some c → c = Path.here ∨ c = Path.up :=
    fun c hc => Or.inr (List.eq_of_mem_replicate (List.mem_of_mem_head? hc))
  unfold require
  rw [if_neg (by simp [he.path_ne_nil, he.endsWith_path]), if_neg (by simpa using he.target.1)]
  simp only [he.split_normal, List.getLastD_concat, List.dropLast_concat, List.reverse_append,
    List.reverse_replicate]
  rw [leaves_bind, leaves_say]
  refine (ensureFile_extends hf he.target htarget (fun _ => ⟨_, _, hplace⟩) (by simp)).bind_ok ?_
  rintro f₁ ⟨hf₁, hff₁, hhas₁⟩
  rw [leaves_bind]
  refine get_leaves e.target _ (fun file hfile => ?_) fun hnone => ?_
  rotate_left
  · rw [find?_eq_none_iff.mp hnone] at hhas₁
    exact absurd hhas₁ (by simp)
  have hid := id_of_find? hfile
  rw [← hid] at hplace hfile
  refine (claimName_extends hf₁ hfile hplace .file).bind_ok ?_
  rintro f₂ ⟨hf₂, hff₂, hsettled⟩
  rw [hid] at hplace hsettled
  simp only [Bool.not_true, Bool.false_eq_true, if_false]
  refine (nameUpwards_extends hK hrest hf₂ (hff₂.has _ hhas₁) (by rw [hplace]; rfl)
    fun c hc => he.isName_dirs (List.mem_reverse.mp hc)).bind_exists_ok ?_
  rintro ⟨branch, left⟩ f₃ ⟨rfl, hf₃, hff₃, hbranch, hnamed⟩
  rw [List.length_reverse] at hbranch hnamed
  rw [if_neg (by simp [e.startsWith_path])]
  refine (ensureFile_extends hf₃ he.current hcurrent (by simp) (by simp)).bind_ok ?_
  rintro f₄ ⟨hf₄, hff₄, hhas₄⟩
  rw [List.reverse_replicate]
  refine (climb_extends hK e.path e.ups hf₄ hhas₄).bind_exists_ok ?_
  rintro own f₅ ⟨hf₅, hff₅, hown⟩
  -- up to here nothing has been merged
  have hkeep : Extends f f₅ := hff₁.trans (hff₂.trans (hff₃.trans (hff₄.trans hff₅)))
  have hlast : Extends f₃ f₅ := hff₄.trans hff₅
  refine (merge_known hK he hf₅ (hlast.ancestor? hbranch) hown
    (hlast.has _ (hff₃.has _ (hff₂.has _ hhas₁))) (hff₅.has _ hhas₄) fun j hj => ?_).mono ?_
  · cases j with
    | zero => exact ⟨e.target, rfl, hlast.settled _ (hff₃.settled _ hsettled)⟩
    | succ j =>
      obtain ⟨z, hz, hs⟩ := hnamed j hj
      exact ⟨z, hlast.ancestor? hz, hlast.settled z hs⟩
  · rintro r g ⟨hr, hg, hrefines, hknown⟩
    exact ⟨hr, hg, hkeep.refines.trans hrefines, hknown⟩

end Forest
end Debundle
