import Debundle.Proofs.Forest.Joining
import Debundle.Proofs.Forest.Contradictions
import Debundle.Proofs.Path.Normal

/-!
# Where directories are made

A directory is made for an item only when the item goes into it.  So a root never has a directory
that was made for it, and making one can never fail: this is kept by all that require paths do, as
long as modules do not go by the ids of directories.

Going up from an item then only adds to a forest.  Items come, roots get directories and
placeholders get names, but no link that there was is lost.

* `Forest.Made`: no root has a directory that was made for it.
* `Forest.IsNamed`: an item has a settled name.
* `Forest.Grows`: something was added to a forest, and no link is lost.
* `Forest.nameUpwards_grows`, `Forest.climb_grows`: naming directories and going up.
* `Forest.merge_made`: merging never fails.
* `Forest.place_made`: nothing is refused on the way.
* `Forest.made_afterAll`: forests that are grown from modules.
* `Forest.require_error_iff`: which require paths are refused.
-/

namespace Debundle
namespace Forest

open Debundle.Action

variable {f g h : Forest} {x y : Text}

/-! ## Made directories -/

/-- A directory is made for an item only when the item goes into it. -/
def Made (f : Forest) : Prop := ∀ x, f.has (parentIdOf x) = true → f.parentId? x ≠ none

theorem Made.empty : Forest.empty.Made := fun _ h => by simp [has, find?, Forest.empty] at h

theorem Made.has_eq_false (hf : f.Made) (hx : f.parentId? x = none) :
    f.has (parentIdOf x) = false := by
  rw [← Bool.not_eq_true]
  exact fun hhas => hf x hhas hx

/-- What is there and in no directory stays so. -/
theorem Made.of_roots (hf : f.Made) (hhas : ∀ x, g.has x = f.has x)
    (hroot : ∀ x, g.parentId? x = none → f.parentId? x = none) : g.Made := by
  intro x hx hgx
  rw [hhas] at hx
  exact hf x hx (hroot x hgx)

theorem Made.settle (hf : f.Made) (id name : Text) : (f.settle id name).Made :=
  hf.of_roots (has_settle f id name) fun x hx => by rwa [parentId?_settle] at hx

theorem Made.record (hf : f.Made) (c : NameConflict) : (f.record c).Made := hf

theorem Made.move (hf : f.Made) (hx : f.has x = true) (w : Text) : (f.move x w).Made := by
  refine hf.of_roots (has_move f x w) fun y hy => ?_
  rw [parentId?_move hx] at hy
  split at hy
  · exact absurd hy (by simp)
  · exact hy

theorem Made.insert (hf : f.Made) {i : Item} (hid : IsModuleId i.id) (hitem : i.parent = none)
    (hfresh : f.has i.id = false) : (f.insert i).Made := by
  intro x hx
  rw [has_insert, Bool.or_eq_true, decide_eq_true_iff] at hx
  rw [parentId?_insert f i hitem hfresh]
  exact hf x (hx.resolve_right fun heq => isModuleId_parentIdOf_ne hid heq.symm)

theorem Made.roofed (hf : f.Made) {name : Option Text} (hg : Roofed x name f g) : g.Made := by
  intro y hy
  rw [hg.parent]
  split
  · simp
  · rename_i hne
    refine hf y ?_
    rw [has_eq_isSome_bare?, hg.bare, if_neg] at hy
    · rwa [has_eq_isSome_bare?]
    · simpa [parentIdOf_eq] using hne

/-! ## Settled names -/

/-- An item has a settled name. -/
def IsNamed (f : Forest) (x name : Text) : Prop :=
  ∃ i, f.find? x = some i ∧ i.isPlaceholder = false ∧ i.name = name

theorem IsNamed.keeps {name : Text} (hx : f.IsNamed x name) (hfg : f.Keeps g) :
    g.IsNamed x name := by
  obtain ⟨i, hi, hsettled, hname⟩ := hx
  obtain ⟨j, hj, hij⟩ := hfg.item x i hi
  exact ⟨j, hj, hij.settled hsettled, (hij.name hsettled).trans hname⟩

/-- Conflicts that are not there at the end were not there in between. -/
theorem Keeps.conflictsAbout_eq {kind : ConflictKind} (hfg : f.Keeps g) (hgh : g.Keeps h)
    (heq : h.conflictsAbout kind = f.conflictsAbout kind) :
    g.conflictsAbout kind = f.conflictsAbout kind ∧
      h.conflictsAbout kind = g.conflictsAbout kind := by
  have hstart : f.conflictsAbout kind <+: g.conflictsAbout kind := hfg.conflicts.filter _
  have hrest : g.conflictsAbout kind <+: h.conflictsAbout kind := hgh.conflicts.filter _
  rw [heq] at hrest ⊢
  have hsame := hstart.eq_of_length (Nat.le_antisymm hstart.length_le hrest.length_le)
  exact ⟨hsame.symm, hsame⟩

/-! ## Growth -/

/-- Something was added to a forest, and no link is lost. -/
structure Grows (f g : Forest) : Prop extends Extends f g where
  wellFormed : g.WellFormed
  made : g.Made
  keeps : f.Keeps g

theorem Grows.refl (hf : f.WellFormed) (hm : f.Made) : Grows f f :=
  ⟨.refl f, hf, hm, .refl f⟩

theorem Grows.trans (hfg : Grows f g) (hgh : Grows g h) : Grows f h :=
  ⟨hfg.toExtends.trans hgh.toExtends, hgh.wellFormed, hgh.made, hfg.keeps.trans hgh.keeps⟩

/-- Whatever name is claimed for an item, it is settled unless a conflict is recorded. -/
theorem claimName_grows (hf : f.WellFormed) (hm : f.Made) {i : Item} (hi : f.find? i.id = some i)
    (name : Text) (kind : ConflictKind) :
    (claimName i name kind).Leaves f fun r g => Grows f g ∧ ∃ b, r = .ok b ∧
      (b = false → g.conflictsAbout kind ≠ f.conflictsAbout kind) ∧
      (b = true → g.IsNamed i.id name) := by
  rw [leaves_claimName]
  split
  · rename_i hplaceholder
    refine ⟨⟨extends_settle f _ _, hf.settle _ _, hm.settle _ _, keeps_settle hi hplaceholder name⟩,
      true, rfl, by simp, fun _ => ?_⟩
    exact ⟨i.settled name, by rw [find?_settle, if_pos rfl, hi, Option.map_some], rfl, rfl⟩
  · rename_i hsettled
    split
    · rename_i hname
      exact ⟨.refl hf hm, true, rfl, by simp, fun _ => ⟨i, hi, by simpa using hsettled, hname⟩⟩
    · refine ⟨⟨extends_of_bare (fun _ _ h => h) fun _ _ h => h, hf.record _, hm.record _,
        keeps_record f _⟩, false, rfl, fun _ => ?_, by simp⟩
      simp [conflictsAbout_record]

/-- A root gets a directory, and the directory gets its name if one is given. -/
theorem addParent_grows (hf : f.WellFormed) (hm : f.Made) (hx : f.has x = true)
    (hroot : f.parentId? x = none) (name : Option Text) :
    (addParent x name).Leaves f fun r g => r = .ok (parentIdOf x) ∧ Grows f g ∧
      g.parentId? x = some (parentIdOf x) ∧
      ∀ n, name = some n → n ≠ [] → g.IsNamed (parentIdOf x) n := by
  have hfresh := hm.has_eq_false hroot
  have hfilter : addParent x name = addParent x (name.filter fun n => !n.isEmpty) := by
    cases name with
    | none => rfl
    | some n => cases n <;> rfl
  have hne : ∀ n, name.filter (fun n => !n.isEmpty) = some n → n ≠ [] := by
    intro n hn
    simpa using (Option.filter_eq_some_iff.mp hn).2
  have hkeeps := addParent_evolves ⟨fun _ => False, fun _ => False⟩ hx name
  refine (hkeeps.and (hfilter ▸ addParent_leaves hf hx hfresh hne)).mono ?_
  rintro r g ⟨⟨hevolves, -⟩, hr, hg⟩
  refine ⟨hr, ⟨hg.extends hfresh hroot, hg.wellFormed, hm.roofed hg, hevolves.keeps⟩,
    by rw [hg.parent, if_pos rfl], ?_⟩
  rintro n rfl hn
  have hbare : g.bare? (parentIdOf x) = some (roof x (some n)) := by
    rw [hg.bare, if_pos rfl]
    simp [Option.filter, hn]
  obtain ⟨i, hi, hbare⟩ := Option.map_eq_some_iff.mp hbare
  refine ⟨i, hi, ?_, ?_⟩
  · simpa [Item.bare, roof] using congrArg Item.isPlaceholder hbare
  · simpa [Item.bare, roof] using congrArg Item.name hbare

theorem ensureFile_grows (hf : f.WellFormed) (hm : f.Made) {id : Text} (hid : IsModuleId id)
    (name : Text) (isPlaceholder : Bool) :
    (ensureFile id name isPlaceholder).Leaves f fun r g =>
      r = .ok () ∧ Grows f g ∧ g.has id = true := by
  rw [leaves_ensureFile hid.1]
  split
  · rename_i hhas
    exact ⟨rfl, .refl hf hm, hhas⟩
  · rename_i hfresh
    have hfresh : f.has id = false := by simpa using hfresh
    exact ⟨rfl, ⟨extends_insert rfl hfresh, hf.insert _ _ _ hid.1 hfresh, hm.insert hid rfl hfresh,
      keeps_insert f _⟩, by simp [has_insert]⟩

/-- No file has the empty id. -/
theorem ensureFile_nil (hf : f.WellFormed) (name : Text) (isPlaceholder : Bool) :
    (ensureFile [] name isPlaceholder).Leaves f fun r g => r = .error .emptyId ∧ g = f := by
  have hfresh : f.has [] = false := by
    rw [← Bool.not_eq_true]
    exact fun h => hf.ne_nil h rfl
  unfold ensureFile addFile addItem
  rw [leaves_get_bind, hfresh]
  exact ⟨rfl, rfl⟩

/-- A file has the name that was claimed for it, unless a conflict is recorded. -/
theorem named_grows (hf : f.WellFormed) (hm : f.Made) {target : Text} (htarget : IsModuleId target)
    (name : Text) : Grows f (f.named target name) ∧ (f.named target name).has target = true ∧
      ((f.named target name).conflictsAbout .file = f.conflictsAbout .file →
        (f.named target name).IsNamed target name) := by
  obtain ⟨hevolves, hhas⟩ := named_evolves ⟨(· = target), fun _ => True⟩ (f := f) trivial
    htarget.1 rfl name
  refine ⟨⟨?_, hevolves.wellFormed hf, ?_, hevolves.keeps⟩, hhas, fun hconflicts => ?_⟩
  · unfold named
    rcases hfile : f.find? target with _ | i
    · exact extends_insert rfl (find?_eq_none_iff.mp hfile)
    · simp only
      split
      · exact extends_settle f _ _
      · split
        · exact .refl f
        · exact extends_of_bare (fun _ _ h => h) fun _ _ h => h
  · unfold named
    rcases hfile : f.find? target with _ | i
    · exact hm.insert htarget rfl (find?_eq_none_iff.mp hfile)
    · simp only
      split
      · exact hm.settle _ _
      · split
        · exact hm
        · exact hm.record _
  · obtain ⟨i, hi, hsettled, hfound⟩ := named_settled f target name
    rw [hfound] at hconflicts
    refine ⟨i, hi, hsettled, not_not.mp fun hne => ?_⟩
    rw [if_neg hne] at hconflicts
    simp at hconflicts

/-! ## Going up -/

/-- Naming the directories above an item only adds to a forest.  Unless a conflict is recorded, all
the names are given, and what is left begins where they end; otherwise nothing may be left. -/
theorem nameUpwards_grows {names rest : List Text}
    (hnames : ∀ c ∈ names, c ≠ Path.here ∧ c ≠ Path.up)
    (hrest : ∀ c, rest.head? = some c → c = Path.here ∨ c = Path.up) (hf : f.WellFormed)
    (hm : f.Made) (hx : f.has x = true) :
    (nameUpwards x (names ++ rest)).Leaves f fun r g => Grows f g ∧ ∃ p, r = .ok p ∧
      g.has p.1 = true ∧ (p.2 = rest ∨ p.2 = []) ∧
      (g.conflictsAbout .directory = f.conflictsAbout .directory →
        p.2 = rest ∧ g.ancestor? names.length x = some p.1 ∧
          ∀ j name, names[j]? = some name → name ≠ [] →
            ∃ z, g.ancestor? (j + 1) x = some z ∧ g.IsNamed z name) := by
  induction names generalizing f x with
  | nil =>
    rw [List.nil_append]
    cases rest with
    | nil => exact ⟨.refl hf hm, (x, []), rfl, hx, Or.inl rfl, fun _ => ⟨rfl, rfl, by simp⟩⟩
    | cons c rest =>
      unfold nameUpwards
      rw [if_pos (by simpa using hrest c rfl)]
      exact ⟨.refl hf hm, (x, c :: rest), rfl, hx, Or.inl rfl, fun _ => ⟨rfl, rfl, by simp⟩⟩
  | cons c names ih =>
    obtain ⟨hc, hnames⟩ := List.forall_mem_cons.mp hnames
    -- one level has been named, and the rest is done from there
    have hstep : ∀ {g : Forest} {p : Text}, Grows f g → g.parentId? x = some p →
        (c ≠ [] → g.IsNamed p c) → (nameUpwards p (names ++ rest)).Leaves g fun r h =>
          Grows f h ∧ ∃ q, r = .ok q ∧ h.has q.1 = true ∧ (q.2 = rest ∨ q.2 = []) ∧
            (h.conflictsAbout .directory = f.conflictsAbout .directory →
              q.2 = rest ∧ h.ancestor? (c :: names).length x = some q.1 ∧
                ∀ j name, (c :: names)[j]? = some name → name ≠ [] →
                  ∃ z, h.ancestor? (j + 1) x = some z ∧ h.IsNamed z name) := by
      intro g p hfg hp hnamed
      refine (ih hnames hfg.wellFormed hfg.made (hfg.wellFormed.has_parent hp)).mono ?_
      rintro r h ⟨hgh, q, hr, hq, hleft, hrun⟩
      refine ⟨hfg.trans hgh, q, hr, hq, hleft, fun hconflicts => ?_⟩
      have hsucc : ∀ j, h.ancestor? (j + 1) x = h.ancestor? j p := by
        intro j
        rw [ancestor?_succ, hgh.parent x p hp, Option.bind_some]
      obtain ⟨hleft, hup, hall⟩ := hrun (hfg.keeps.conflictsAbout_eq hgh.keeps hconflicts).2
      refine ⟨hleft, by rw [List.length_cons, hsucc, hup], fun j name hj hne => ?_⟩
      rw [hsucc]
      cases j with
      | zero =>
        obtain rfl : c = name := by simpa using hj
        exact ⟨p, rfl, (hnamed hne).keeps hgh.keeps⟩
      | succ j => exact hall j name (by simpa using hj) hne
    rw [List.cons_append]
    unfold nameUpwards
    rw [if_neg (by simpa using hc), leaves_get_bind]
    rcases hp : f.parentId? x with _ | p
    · rw [parent?_eq_none hp]
      refine (addParent_grows hf hm hx hp (some c)).bind_ok ?_
      rintro g ⟨hfg, hgx, hnamed⟩
      exact hstep hfg hgx (hnamed c rfl)
    · obtain ⟨above, habove, rfl⟩ := hf.parent?_eq_some hp
      rw [habove]
      refine (claimName_grows hf hm (find?_of_parent? habove) c .directory).bind ?_ ?_
      · rintro e g ⟨-, b, hb, -⟩
        exact absurd hb (by simp)
      · rintro b g ⟨hfg, b', hb, hrefused, hnamed⟩
        obtain rfl : b = b' := by simpa using hb
        cases b with
        | false =>
          exact ⟨hfg, (x, []), rfl, hfg.has x hx, Or.inr rfl,
            fun hconflicts => absurd hconflicts (hrefused rfl)⟩
        | true => exact hstep hfg (hfg.parent x _ hp) fun _ => hnamed rfl

/-- Going up only adds to a forest, and it fails only at a component that is a name. -/
theorem climb_grows (path : Text) (components : List Text) (hf : f.WellFormed) (hm : f.Made)
    (hx : f.has x = true) :
    (climb path x components).Leaves f fun r g => Grows f g ∧
      (∀ y, r = .ok y → g.ancestor? (components.count Path.up) x = some y) ∧
      ((∀ c ∈ components, c = Path.here ∨ c = Path.up) → ∃ y, r = .ok y) := by
  induction components generalizing f x with
  | nil => exact ⟨.refl hf hm, fun y hy => by cases hy; rfl, fun _ => ⟨x, rfl⟩⟩
  | cons c rest ih =>
    unfold climb
    split
    · rename_i hc
      obtain rfl : c = Path.here := by simpa using hc
      refine (ih hf hm hx).mono ?_
      rintro r g ⟨hfg, hy, hok⟩
      refine ⟨hfg, ?_, fun h => ?_⟩
      · rwa [List.count_cons_of_ne (by decide)]
      · exact hok fun d hd => h d (List.mem_cons_of_mem _ hd)
    · rename_i hhere
      split
      · rename_i hup
        rw [leaves_fail]
        refine ⟨.refl hf hm, fun y hy => absurd hy (by simp), fun h => ?_⟩
        rcases h c List.mem_cons_self with rfl | rfl
        · exact absurd hhere (by simp)
        · exact absurd hup (by simp)
      · rename_i hup
        obtain rfl : c = Path.up := by simpa using hup
        have hstep : ∀ {g : Forest} {p : Text}, Grows f g → g.parentId? x = some p →
            (climb path p rest).Leaves g fun r h => Grows f h ∧
              (∀ y, r = .ok y → h.ancestor? ((Path.up :: rest).count Path.up) x = some y) ∧
              ((∀ c ∈ Path.up :: rest, c = Path.here ∨ c = Path.up) → ∃ y, r = .ok y) := by
          intro g p hfg hp
          refine (ih hfg.wellFormed hfg.made (hfg.wellFormed.has_parent hp)).mono ?_
          rintro r h ⟨hgh, hy, hok⟩
          refine ⟨hfg.trans hgh, fun y hr => ?_, fun h => ?_⟩
          · rw [List.count_cons_self, ancestor?_succ, hgh.parent x p hp, Option.bind_some, hy y hr]
          · exact hok fun d hd => h d (List.mem_cons_of_mem _ hd)
        rw [leaves_get_bind]
        rcases hp : f.parentId? x with _ | p
        · refine (addParent_grows hf hm hx hp none).bind_ok ?_
          rintro g ⟨hfg, hgx, -⟩
          exact hstep hfg hgx
        · exact hstep (.refl hf hm) hp

/-! ## Merging -/

theorem attach_made (hm : f.Made) (hx : f.has x = true) (w : Text) :
    (attach x w).Leaves f fun r g => (∃ b, r = .ok b) ∧ g.Made :=
  attach_leaves x w _ (fun _ => ⟨⟨true, rfl⟩, hm⟩) (fun _ => ⟨⟨false, rfl⟩, hm⟩)
    fun _ _ => ⟨⟨true, rfl⟩, hm.move hx w⟩

theorem joinRoots_made (hf : f.WellFormed) (hm : f.Made) (hx : f.has x = true)
    (hy : f.has y = true) : (joinRoots x y).Leaves f fun r g => r = .ok () ∧ g.Made := by
  have hattach : ∀ {g : Forest} {z w : Text}, g.Made → g.has z = true →
      (attach z w >>= fun _ => pure ()).Leaves g fun r h => r = .ok () ∧ h.Made := by
    intro g z w hg hz
    refine (attach_made hg hz w).bind ?_ fun _ h ⟨_, hh⟩ => ⟨rfl, hh⟩
    rintro e h ⟨⟨b, hb⟩, -⟩
    exact absurd hb (by simp)
  unfold joinRoots
  rw [leaves_get_bind]
  rcases hpx : f.parentId? x with _ | p <;> rcases hpy : f.parentId? y with _ | q
  · refine (addParent_grows hf hm hy hpy none).bind_ok ?_
    rintro g ⟨hfg, -⟩
    exact hattach hfg.made (hfg.has x hx)
  · exact hattach hm hx
  · exact hattach hm hy
  · exact ⟨rfl, hm⟩

/-- Merging never fails: no root has a directory that was made for it. -/
theorem merge_made (hf : f.WellFormed) (hm : f.Made) (hx : f.has x = true) (hy : f.has y = true) :
    (merge x y).Leaves f fun r g => r = .ok () ∧ g.Made := by
  unfold merge
  rw [leaves_get_bind]
  refine (mergeUp_leaves (P := fun g _ _ => g.Made) ?_ _ hf hx hy hm).bind_exists_ok ?_
  · intro g h x y p q s d hg hr hm
    refine hm.of_roots hr.has fun z hz => ?_
    rw [hr.absorbed.parentId? hg] at hz
    split at hz
    · exact absurd hz (by simp)
    · exact hz
  · rintro v g ⟨hg, hx, hy, hm⟩
    exact joinRoots_made hg hm hx hy

/-! ## Any sequence of operations -/

/-- Placing a file never fails, if only the module that asks has an id: nothing but `..` is left when
the directories above the file are named, and every directory can be made.  If that module has none,
there is still no root with a directory that was made for it. -/
theorem place_made (hf : f.WellFormed) (hm : f.Made) {current target path : Text}
    (hlead : CanLead target path) (hcurrent : Text.startsWith current parentMark = false)
    (htarget : f.has target = true) :
    (place current target path).Leaves f fun r g => g.Made ∧ (current ≠ [] → r = .ok ()) := by
  obtain ⟨ups, dirs, hsplit, hdirs⟩ := Path.exists_split_dropLast hlead.2.1
  have hcs : (componentsOf path).dropLast.reverse = dirs.reverse ++ List.replicate ups Path.up := by
    rw [componentsOf, hsplit, List.reverse_append, List.reverse_replicate]
  have hups : ∀ c ∈ List.replicate ups Path.up, c = Path.here ∨ c = Path.up :=
    fun c hc => Or.inr (List.eq_of_mem_replicate hc)
  rw [place, hcs]
  refine (nameUpwards_grows (fun c hc => hdirs c (List.mem_reverse.mp hc))
    (fun c hc => hups c (List.mem_of_mem_head? hc)) hf hm htarget).bind ?_ ?_
  · rintro e g ⟨-, p, hp, -⟩
    exact absurd hp (by simp)
  rintro ⟨branch, left⟩ g ⟨hfg, p, hp, hbranch, hleft, -⟩
  obtain rfl : (branch, left) = p := by simpa using hp
  have hclimbs : ∀ c ∈ left.reverse, c = Path.here ∨ c = Path.up := by
    intro c hc
    rw [List.mem_reverse] at hc
    obtain rfl | rfl : left = List.replicate ups Path.up ∨ left = [] := hleft
    · exact hups c hc
    · exact absurd hc List.not_mem_nil
  simp only
  split
  · exact ⟨hfg.made, fun _ => rfl⟩
  · by_cases hempty : current = []
    · rw [hempty]
      refine (ensureFile_nil hfg.wellFormed [] true).bind ?_ ?_
      · rintro e k ⟨-, rfl⟩
        exact ⟨hfg.made, fun h => absurd rfl h⟩
      · rintro _ k ⟨hk, -⟩
        exact absurd hk (by simp)
    · refine (ensureFile_grows hfg.wellFormed hfg.made ⟨hempty, hcurrent⟩ current true).bind_ok ?_
      rintro k ⟨hgk, hcur⟩
      refine (climb_grows path left.reverse hgk.wellFormed hgk.made hcur).bind ?_ ?_
      · rintro e l ⟨-, -, hok⟩
        obtain ⟨y, hy⟩ := hok hclimbs
        exact absurd hy (by simp)
      · rintro own l ⟨hkl, hown, -⟩
        exact (merge_made hkl.wellFormed hkl.made (hkl.has _ (hgk.has _ hbranch))
          (hkl.wellFormed.has_ancestor (hkl.has _ hcur) (hown own rfl))).mono
            fun r m hm => ⟨hm.2, fun _ => hm.1⟩

/-- Whatever modules ask for one another by whatever path, no root has a directory that was made for
it, also if the path is refused; and a path that can lead to a file is never refused. -/
theorem require_made (hf : f.WellFormed) (hm : f.Made) {current target : Text}
    (hcurrent : Text.startsWith current parentMark = false)
    (htarget : Text.startsWith target parentMark = false) (path : Text) :
    (require current target path).Leaves f fun r g =>
      g.Made ∧ (CanLead target path → current ≠ [] → r = .ok ()) := by
  by_cases hlead : CanLead target path
  · obtain ⟨hfg, hhas, -⟩ := named_grows hf hm ⟨hlead.2.2, htarget⟩ (baseOf path)
    rw [require_leaves hlead]
    exact (place_made hfg.wellFormed hfg.made hlead hcurrent hhas).mono
      fun r g hg => ⟨hg.1, fun _ => hg.2⟩
  · refine (require_leaves_of_not hlead current).mono fun r g hg => ?_
    rw [hg]
    exact ⟨hm, fun h => absurd h hlead⟩

/-- An operation on modules: directories are made by require paths and merges only, and no module
goes by the id of a directory.  The empty id may be asked for; it is refused. -/
def Operation.IsOfModules : Operation → Prop
  | .addFile id _ _ => Text.startsWith id parentMark = false
  | .require current target _ =>
    Text.startsWith current parentMark = false ∧ Text.startsWith target parentMark = false
  | .merge _ _ => True
  | .addDirectory _ _ _ => False
  | .addParent _ _ => False

instance : (op : Operation) → Decidable op.IsOfModules
  | .addFile _ _ _ => inferInstanceAs (Decidable (_ = false))
  | .require _ _ _ => inferInstanceAs (Decidable (_ ∧ _))
  | .merge _ _ => .isTrue trivial
  | .addDirectory _ _ _ => .isFalse id
  | .addParent _ _ => .isFalse id

theorem made_after (hf : f.WellFormed) (hm : f.Made) {op : Operation} (hop : op.IsOfModules) :
    (f.after op).Made := by
  change op.step.Leaves f fun _ g => g.Made
  cases op with
  | addFile id name isPlaceholder =>
    rw [Operation.step, addFile, addItem, bind_assoc, leaves_get_bind]
    split
    · exact hm
    · rename_i hid
      split
      · exact hm
      · rename_i hfresh
        exact hm.insert (i := ⟨id, name, true, isPlaceholder, none, []⟩) ⟨by simpa using hid, hop⟩ rfl
          (by simpa using hfresh)
  | require current target path =>
    exact (require_made hf hm hop.1 hop.2 path).mono fun r g hg => hg.1
  | merge first second =>
    rw [Operation.step, leaves_bind]
    refine get_leaves first _ (fun a ha => ?_) fun _ => hm
    simp only [leaves_bind]
    refine get_leaves second _ (fun b hb => ?_) fun _ => hm
    exact (merge_made hf hm (has_id_of_find? ha) (has_id_of_find? hb)).mono fun r g hg => hg.2
  | addDirectory id name isPlaceholder => exact hop.elim
  | addParent child name => exact hop.elim

/-- In a forest that is grown from modules no root has a directory that was made for it. -/
theorem made_afterAll {ops : List Operation} (hops : ∀ op ∈ ops, op.IsOfModules) :
    (empty.afterAll ops).Made := by
  induction ops using List.reverseRecOn with
  | nil => exact .empty
  | append_singleton ops op ih =>
    obtain ⟨hops, hop⟩ := List.forall_mem_append.mp hops
    have hrun : empty.afterAll (ops ++ [op]) = (empty.afterAll ops).after op := by
      rw [afterAll, List.foldl_append]
      rfl
    rw [hrun]
    exact made_after (wellFormed_afterAll_empty ops) (ih hops) (hop op (List.mem_singleton_self op))

/-! ## Refusals -/

/-- Whatever was asked of a forest that is grown from modules, failing or not, and whatever module
asks by whatever path: the path is refused exactly if it is empty, ends with a slash, or leads to the
empty id.  Then it is refused for the path if that is at fault and else for the id, and the forest
stays as it is.  So no path is refused on the way, at a component that does not go up or at a directory
that would be below itself. -/
theorem require_error_iff {ops : List Operation} (hops : ∀ op ∈ ops, op.IsOfModules)
    {current target : Text} (hcurrent : IsModuleId current)
    (htarget : Text.startsWith target parentMark = false) (path : Text) :
    (require current target path).Leaves (empty.afterAll ops) fun r g =>
      ((∃ e, r = .error e) ↔ path = [] ∨ Text.endsWith path "/" = true ∨ target = []) ∧
        ∀ e, r = .error e →
          e = (if path = [] ∨ Text.endsWith path "/" = true then .badPath path else .badTarget) ∧
            g = empty.afterAll ops := by
  have hlead : ¬CanLead target path ↔
      path = [] ∨ Text.endsWith path "/" = true ∨ target = [] := by
    simp only [CanLead, not_and_or, not_not, Bool.not_eq_false]
  rw [← hlead]
  by_cases hrefused : CanLead target path
  · refine (require_made (wellFormed_afterAll_empty ops) (made_afterAll hops) hcurrent.2 htarget
      path).mono fun r g hg => ?_
    rw [hg.2 hrefused hcurrent.1]
    exact ⟨iff_of_false (by simp) (not_not_intro hrefused), by simp⟩
  · refine (require_refused hrefused current).mono ?_
    rintro r g ⟨rfl, rfl⟩
    exact ⟨iff_of_true ⟨_, rfl⟩ hrefused, fun e he => ⟨(Except.error.inj he).symm, rfl⟩⟩

/-- Operations some of which fail, the second one only after it has changed the forest. -/
def someOfModules : List Operation :=
  [.addFile "" "a" false, .require "" "1" "./lib/b", .require "2" "1" "../src/b", .merge "1" "2"]

theorem someOfModules_error_iff : (∀ op ∈ someOfModules, op.IsOfModules) ∧
    ((require "2" "3" "../../c/").Leaves (empty.afterAll someOfModules) fun r g =>
      r = .error (.badPath "../../c/") ∧ g = empty.afterAll someOfModules) ∧
    (require "2" "3" "../../c").Leaves (empty.afterAll someOfModules) fun r _ =>
      ∀ e, r ≠ .error e := by
  have hops : ∀ op ∈ someOfModules, op.IsOfModules := by decide
  have hcurrent : IsModuleId "2" := by decide
  have htarget : Text.startsWith "3" parentMark = false := by decide
  refine ⟨hops, (require_error_iff hops hcurrent htarget "../../c/").mono ?_,
    (require_error_iff hops hcurrent htarget "../../c").mono ?_⟩
  · rintro r g ⟨hiff, herror⟩
    obtain ⟨e, he⟩ := hiff.mpr (Or.inr (Or.inl (by decide)))
    obtain ⟨rfl, hg⟩ := herror e he
    exact ⟨he.trans (by rw [if_pos (Or.inr (by decide))]), hg⟩
  · rintro r g ⟨hiff, -⟩ e he
    exact absurd (hiff.mp ⟨e, he⟩) (by decide)

end Forest
end Debundle
