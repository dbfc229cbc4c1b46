import Debundle.Proofs.Forest.Making
import Debundle.Proofs.Forest.Reconstruction

/-!
# One require path in any forest

A relative path names a file and the directories right above it, and says which directory above them
is one with which directory above the module that asks.  It may be taken into a forest that knows
nothing of these directories yet, or has some of them as placeholders, or has them all by these
names: unless the forest contradicts a name, it has afterwards what the path says.

The chains of directories on both sides are made first, and then they are merged from where they end
on up.  What is merged is above the chains, so they stay as they are.

* `Forest.sides`: what is done before the merge, and the two items that are then merged.
* `Forest.merge_keeps_chain`: a merge leaves the ways up to what is merged as they are.
* `Edge.Settled`: the forest has what a path says, which may be nothing of the module that asks.
* `Forest.sides_grows`: both chains, as the path has them.
* `Forest.place_settles`, `Forest.require_settles`: what one require path leaves.
* `Forest.require_holds`: the same for a path that begins with a dot.
-/

namespace Debundle

/-! ## What a path says -/

namespace Edge

variable {e : Edge} {path : Text} {f : Forest}

/-- A path that says nothing about the module that asks: it does not begin with a dot, and it does
not go up. -/
def IsBare (e : Edge) (path : Text) : Prop :=
  e.ups = 0 ∧ Text.startsWith path "." = false

theorem not_isBare (hdot : Text.startsWith path "." = true) : ¬e.IsBare path := fun h => by
  rw [h.2] at hdot
  exact absurd hdot (by simp)

/-- The forest has what the path says of directories and of the file; and if the path says something
of the module that asks, one directory is above both. -/
structure Settled (e : Edge) (path : Text) (f : Forest) : Prop where
  shared : ¬e.IsBare path → ∃ w, f.has w = true ∧ f.ancestor? (e.ups + 1) e.current = some w ∧
    f.ancestor? (e.dirs.length + 1) e.target = some w
  named : ∀ j name, (e.base :: e.dirs.reverse)[j]? = some name →
    ∃ z, f.ancestor? j e.target = some z ∧ f.IsNamed z name

theorem Settled.holds (h : e.Settled path f) (hbare : ¬e.IsBare path) : e.Holds f where
  shared := h.shared hbare
  named j name hj := by
    obtain ⟨z, hz, i, hi, hname⟩ := h.named j name hj
    exact ⟨i, by rw [hz, Option.bind_some, hi], hname⟩

end Edge

namespace Forest

open Debundle.Action

variable {f g : Forest} {a b x y z : Text}

/-! ## The two sides of a path -/

/-- The items that a require path says are in one directory, if it says so: where the names above the
file that it leads to end, and what is as far above the module that asks as the path goes up. -/
def sides (current target path : Text) : Step (Option (Text × Text)) := do
  let (branch, left) ← nameUpwards target (componentsOf path).dropLast.reverse
  if left.isEmpty && !Text.startsWith path "." then return none
  else
    ensureFile current current true
    let own ← climb path current left.reverse
    return some (branch, own)

/-- Placing a file is merging the two sides. -/
theorem place_eq (current target path : Text) : place current target path =
    sides current target path >>= fun v =>
      match v with
      | none => pure ()
      | some (x, y) => merge x y := by
  unfold place sides
  simp only [bind_assoc]
  refine bind_congr fun v => ?_
  split <;> simp

/-- A path that begins with a point always says so. -/
theorem sides_relative {path : Text} (hdot : Text.startsWith path "." = true)
    (current target : Text) (f : Forest) :
    (sides current target path).Leaves f fun r _ => r ≠ .ok none := by
  have hany : ∀ {α : Type} (a : Step α) (g : Forest), a.Leaves g fun _ _ => True :=
    fun _ _ => trivial
  refine (hany _ f).bind (fun _ _ _ => nofun) fun v g _ => ?_
  simp only [hdot, Bool.not_true, Bool.and_false, Bool.false_eq_true, if_false]
  refine (hany _ g).bind (fun _ _ _ => nofun) fun _ g' _ => ?_
  exact (hany _ g').bind (fun _ _ _ => nofun) fun _ _ _ => nofun

/-! ## Chains -/

theorem IsAbove.trans_ancestor? {n : Nat} (hxy : f.IsAbove x y) (hz : f.ancestor? n x = some z) :
    f.IsAbove z y := by
  obtain ⟨m, hm⟩ := hxy
  exact ⟨m + n, by rw [Nat.add_right_comm, ancestor?_add, hm, Option.bind_some, hz]⟩

theorem WellFormed.not_isAbove_self (hf : f.WellFormed) : ¬f.IsAbove x x :=
  fun ⟨n, hn⟩ => hf.ancestor?_succ_ne_self n x hn

/-- The way up to an item that is above neither of those that are merged stays as it is. -/
theorem merge_keeps_chain (hf : f.WellFormed) (ha : f.has a = true) (hb : f.has b = true) {n : Nat}
    (hx : f.ancestor? n z = some x) (hxa : ¬f.IsAbove x a) (hxb : ¬f.IsAbove x b) :
    (merge a b).Leaves f fun _ g => ∀ j ≤ n, g.ancestor? j z = f.ancestor? j z := by
  intro j hj
  induction n generalizing z j with
  | zero => rw [Nat.le_zero.mp hj, ancestor?_zero, ancestor?_zero]
  | succ n ih =>
    obtain ⟨p, hp, hpx⟩ := Option.bind_eq_some_iff.mp hx
    have hkept : (merge a b).Leaves f fun _ g => g.parentId? z = some p :=
      merge_keeps_parent hf ha hb hp (fun h => hxa (h.trans_ancestor? hpx))
        fun h => hxb (h.trans_ancestor? hpx)
    cases j with
    | zero => rfl
    | succ j =>
      rw [ancestor?_succ, ancestor?_succ, show _ = some p from hkept, hp, Option.bind_some,
        Option.bind_some]
      exact ih hpx j (Nat.le_of_succ_le_succ hj)

/-! ## One require path -/

variable {e : Edge} {path : Text}

/-- What is left of the components of a path when the directories that it goes down are named. -/
theorem reverse_dropLast_componentsOf
    (hcomponents : componentsOf path = List.replicate e.ups Path.up ++ e.dirs ++ [e.base]) :
    (componentsOf path).dropLast.reverse = e.dirs.reverse ++ List.replicate e.ups Path.up := by
  rw [hcomponents, List.dropLast_concat, List.reverse_append, List.reverse_replicate]

/-- Before anything is merged, the directories that the path goes down are there with their names,
and as many directories above the module that asks as the path goes up. -/
theorem sides_grows
    (hcomponents : componentsOf path = List.replicate e.ups Path.up ++ e.dirs ++ [e.base])
    (hnames : ∀ c ∈ e.dirs, IsName c) (hcurrent : IsModuleId e.current) (hf : f.WellFormed)
    (hm : f.Made) (htarget : f.has e.target = true) :
    (sides e.current e.target path).Leaves f fun r g => Grows f g ∧
      (∀ x y, r = .ok (some (x, y)) → g.has x = true ∧ g.has y = true) ∧
      (g.conflictsAbout .directory = f.conflictsAbout .directory →
        ∃ x, g.ancestor? e.dirs.length e.target = some x ∧
          (∀ j name, e.dirs.reverse[j]? = some name →
            ∃ z, g.ancestor? (j + 1) e.target = some z ∧ g.IsNamed z name) ∧
          (e.IsBare path → r = .ok none) ∧
          (¬e.IsBare path → ∃ y, r = .ok (some (x, y)) ∧ g.ancestor? e.ups e.current = some y)) := by
  have hdirs : ∀ c ∈ e.dirs.reverse, c ≠ Path.here ∧ c ≠ Path.up := fun c hc =>
    have hname := hnames c (List.mem_reverse.mp hc)
    ⟨hname.2.1, hname.2.2.1⟩
  have hrest : ∀ c, (List.replicate e.ups Path.up).head? = some c → c = Path.here ∨ c = Path.up :=
    fun c hc => Or.inr (List.eq_of_mem_replicate (List.mem_of_mem_head? hc))
  unfold sides
  rw [reverse_dropLast_componentsOf hcomponents]
  refine (nameUpwards_grows hdirs hrest hf hm htarget).bind ?_ ?_
  · rintro e g ⟨-, p, hp, -⟩
    exact absurd hp (by simp)
  rintro ⟨branch, left⟩ g ⟨hfg, p, hp, hbranch, -, hnamed⟩
  obtain rfl : (branch, left) = p := by simpa using hp
  -- the directories have their names, and this is not changed by what follows
  have hchain : ∀ {h : Forest}, Grows g h →
      h.conflictsAbout .directory = f.conflictsAbout .directory →
        left = List.replicate e.ups Path.up ∧ h.ancestor? e.dirs.length e.target = some branch ∧
          ∀ j name, e.dirs.reverse[j]? = some name →
            ∃ z, h.ancestor? (j + 1) e.target = some z ∧ h.IsNamed z name := by
    intro h hgh hconflicts
    obtain ⟨hleft, hup, hall⟩ := hnamed (hfg.keeps.conflictsAbout_eq hgh.keeps hconflicts).1
    refine ⟨hleft, hgh.ancestor? (by simpa using hup), fun j name hj => ?_⟩
    have hname := hnames name (List.mem_reverse.mp (List.mem_of_getElem? hj))
    obtain ⟨z, hz, hzn⟩ := hall j name hj hname.1
    exact ⟨z, hgh.ancestor? hz, hzn.keeps hgh.keeps⟩
  simp only
  split
  · rename_i hbare
    rw [Bool.and_eq_true, List.isEmpty_iff, Bool.not_eq_true'] at hbare
    rw [leaves_pure]
    refine ⟨hfg, by simp, fun hconflicts => ?_⟩
    obtain ⟨hleft, hup, hall⟩ := hchain (.refl hfg.wellFormed hfg.made) hconflicts
    have hups : e.ups = 0 := by
      rw [hbare.1] at hleft
      simpa using congrArg List.length hleft.symm
    exact ⟨branch, hup, hall, fun _ => rfl, fun h => absurd ⟨hups, hbare.2⟩ h⟩
  · rename_i hmerges
    -- a path with nothing left to go up begins with a dot
    have hnot : left = List.replicate e.ups Path.up → ¬e.IsBare path := by
      rintro rfl ⟨hups, hdot⟩
      exact hmerges (by simp [hups, hdot])
    refine (ensureFile_grows hfg.wellFormed hfg.made hcurrent e.current true).bind_ok ?_
    rintro k ⟨hgk, hcur⟩
    refine (climb_grows path left.reverse hgk.wellFormed hgk.made hcur).bind ?_ ?_
    · rintro e' l ⟨hkl, -, hok⟩
      refine ⟨(hfg.trans hgk).trans hkl, by simp, fun hconflicts => ?_⟩
      -- nothing else than `..` is left, unless a name was refused
      obtain ⟨rfl, -⟩ := hchain (hgk.trans hkl) hconflicts
      obtain ⟨y, hy⟩ := hok fun c hc => by
        rw [List.reverse_replicate] at hc
        exact Or.inr (List.eq_of_mem_replicate hc)
      exact absurd hy (by simp)
    · rintro own l ⟨hkl, hown, -⟩
      have hgl := hgk.trans hkl
      have hup := hown own rfl
      refine ⟨hfg.trans hgl, fun x y hxy => ?_, fun hconflicts => ?_⟩
      · obtain ⟨rfl, rfl⟩ : branch = x ∧ own = y := by simpa using hxy
        exact ⟨hgl.has _ hbranch, hkl.wellFormed.has_ancestor (hkl.has _ hcur) hup⟩
      · obtain ⟨rfl, hbranchUp, hall⟩ := hchain hgl hconflicts
        rw [List.reverse_replicate, List.count_replicate_self] at hup
        exact ⟨branch, hbranchUp, hall, fun h => absurd h (hnot rfl), fun _ => ⟨own, rfl, hup⟩⟩

/-- Placing a file that has its name. -/
theorem place_settles
    (hcomponents : componentsOf path = List.replicate e.ups Path.up ++ e.dirs ++ [e.base])
    (hnames : ∀ c ∈ e.dirs, IsName c) (hcurrent : IsModuleId e.current) (hf : f.WellFormed)
    (hm : f.Made) (hnamed : f.IsNamed e.target e.base)
    (hsides : (sides e.current e.target path).Leaves f fun r g =>
      ∀ x y, r = .ok (some (x, y)) → ¬g.IsAbove x y ∧ ¬g.IsAbove y x) :
    (place e.current e.target path).Leaves f fun r h =>
      h.conflictsAbout .directory = f.conflictsAbout .directory →
        r = .ok () ∧ e.Settled path h := by
  have htarget : f.has e.target = true := by
    obtain ⟨i, hi, -⟩ := hnamed
    exact has_iff.mpr ⟨i, hi⟩
  rw [place_eq]
  refine ((sides_grows hcomponents hnames hcurrent hf hm htarget).and hsides).bind ?_ ?_
  · rintro e' g ⟨⟨-, -, hrun⟩, -⟩ hconflicts
    obtain ⟨x, -, -, hbare, hmerges⟩ := hrun hconflicts
    by_cases h : e.IsBare path
    · exact absurd (hbare h) (by simp)
    · obtain ⟨y, hy, -⟩ := hmerges h
      exact absurd hy (by simp)
  rintro v g ⟨⟨hfg, hhas, hrun⟩, hside⟩
  -- the names of the file and of the directories above it, as far as the ways up are the same
  have hnames : ∀ {h : Forest}, g.Keeps h → (∀ j ≤ e.dirs.length,
      h.ancestor? j e.target = g.ancestor? j e.target) →
      (∀ j name, e.dirs.reverse[j]? = some name →
        ∃ z, g.ancestor? (j + 1) e.target = some z ∧ g.IsNamed z name) →
      ∀ j name, (e.base :: e.dirs.reverse)[j]? = some name →
        ∃ z, h.ancestor? j e.target = some z ∧ h.IsNamed z name := by
    intro h hgh hchain hdirs j name hj
    have hlt : j < (e.base :: e.dirs.reverse).length := (List.getElem?_eq_some_iff.mp hj).1
    rw [hchain j (by simpa [Nat.lt_succ_iff] using hlt)]
    cases j with
    | zero =>
      obtain rfl : e.base = name := by simpa using hj
      exact ⟨e.target, rfl, hnamed.keeps (hfg.keeps.trans hgh)⟩
    | succ j =>
      obtain ⟨z, hz, hzn⟩ := hdirs j name (by simpa using hj)
      exact ⟨z, hz, hzn.keeps hgh⟩
  rcases v with _ | ⟨x, y⟩
  · rw [leaves_pure]
    intro hconflicts
    obtain ⟨x, -, hdirs, -, hmerges⟩ := hrun hconflicts
    refine ⟨rfl, fun h => ?_, hnames (.refl g) (fun _ _ => rfl) hdirs⟩
    obtain ⟨y, hy, -⟩ := hmerges h
    exact absurd hy (by simp)
  obtain ⟨hx, hy⟩ := hhas x y rfl
  obtain ⟨hxy, hyx⟩ := hside x y rfl
  have hg := hfg.wellFormed
  -- the directory that would be made for the second item is not there if that is a root
  have hroots : g.parentId? x = none → g.parentId? y = none →
      x ≠ parentIdOf y ∧ ¬g.IsAbove x (parentIdOf y) := by
    intro _ hyroot
    have hfresh := hfg.made.has_eq_false hyroot
    refine ⟨?_, not_isAbove_of_root ?_⟩
    · rintro rfl
      rw [hfresh] at hx
      exact absurd hx (by simp)
    · rw [parentId?, find?_eq_none_iff.mpr hfresh, Option.bind_none]
  have hevolves := merge_evolves ⟨fun _ => False, (· = .parentDirectory)⟩ rfl hg hx hy
  have hmerge := (hevolves.and (merge_made hg hfg.made hx hy)).and
    (merge_together hg hx hy hxy hyx hroots)
  by_cases hbefore : g.conflictsAbout .directory = f.conflictsAbout .directory
  · obtain ⟨x', hxup, hdirs, hbare, hmerges⟩ := hrun hbefore
    obtain ⟨y', hv, hyup⟩ := hmerges fun h => absurd (hbare h) (by simp)
    obtain ⟨rfl, rfl⟩ : x = x' ∧ y = y' := by simpa using hv
    refine ((hmerge.and (merge_keeps_chain hg hx hy hxup hg.not_isAbove_self hxy)).and
      (merge_keeps_chain hg hx hy hyup hyx hg.not_isAbove_self)).mono ?_
    rintro r h ⟨⟨⟨⟨hgh, hr, -⟩, hjoined⟩, htargetChain⟩, hcurrentChain⟩ -
    obtain ⟨w, hxw, hyw, -⟩ := hjoined hr
    refine ⟨hr, fun _ => ⟨w, (hgh.wellFormed hg).has_parent hxw, ?_, ?_⟩,
      hnames hgh.keeps htargetChain hdirs⟩
    · rw [ancestor?_succ_last, hcurrentChain _ le_rfl, hyup, Option.bind_some, hyw]
    · rw [ancestor?_succ_last, htargetChain _ le_rfl, hxup, Option.bind_some, hxw]
  · refine hmerge.mono ?_
    rintro r h ⟨⟨hgh, -⟩, -⟩ hconflicts
    exact absurd (hfg.keeps.conflictsAbout_eq hgh.keeps hconflicts).1 hbefore

/-- A path that comes to components with a name at the end can lead to a file. -/
theorem canLead_of_componentsOf {target : Text} (htarget : target ≠ [])
    (hdot : Text.startsWith path "." = true) {front : List Text} {base : Text}
    (hcomponents : componentsOf path = front ++ [base]) (hbase : base ≠ []) :
    CanLead target path := by
  refine ⟨?_, ?_, htarget⟩
  · rintro rfl
    exact absurd hdot (by decide)
  · rw [← Bool.not_eq_true]
    intro hends
    have hslash := Path.endsWith_normalKeepingSlash hends
    rw [Text.endsWith, List.isSuffixOf_iff_suffix] at hslash
    obtain ⟨t, ht⟩ := hslash
    have hsplit : componentsOf path = Text.split Path.slash t ++ [[]] := by
      rw [componentsOf, ← ht]
      exact Text.split_concat t
    rw [hcomponents] at hsplit
    exact hbase (by simpa using (List.append_inj_right' hsplit rfl))

/-- One require path that the forest does not contradict, with a dot in front or without. -/
theorem require_settles (hf : f.WellFormed) (hm : f.Made) (hcurrent : IsModuleId e.current)
    (htarget : IsModuleId e.target) (hlead : CanLead e.target path)
    (hcomponents : componentsOf path = List.replicate e.ups Path.up ++ e.dirs ++ [e.base])
    (hnames : ∀ c ∈ e.dirs, IsName c)
    (hconflicts : (require e.current e.target path).Leaves f fun _ g =>
      g.conflictsAbout .file = f.conflictsAbout .file ∧
        g.conflictsAbout .directory = f.conflictsAbout .directory)
    (hsides : (sides e.current e.target path).Leaves (f.named e.target e.base) fun r g =>
      ∀ x y, r = .ok (some (x, y)) → ¬g.IsAbove x y ∧ ¬g.IsAbove y x) :
    (require e.current e.target path).Leaves f fun r g => r = .ok () ∧ e.Settled path g := by
  have hbaseOf : baseOf path = e.base := by rw [baseOf, hcomponents, List.getLastD_concat]
  rw [require_leaves hlead, hbaseOf] at hconflicts ⊢
  obtain ⟨hfg, hhas, hnamed⟩ := named_grows hf hm htarget e.base
  have hkeeps := place_evolves ⟨(· = e.current), fun _ => True⟩ trivial trivial hfg.wellFormed rfl
    hhas path
  have hfile := (hfg.keeps.conflictsAbout_eq hkeeps.keeps hconflicts.1).1
  have hdirectory := (hfg.keeps.conflictsAbout_eq hkeeps.keeps hconflicts.2).2
  exact place_settles hcomponents hnames hcurrent hfg.wellFormed hfg.made (hnamed hfile) hsides
    hdirectory

/-- One require path, relative and in normal form going up and then down to a file, in whatever
well-formed forest in which no root has a directory that was made for it.  If no conflict between
names of files or of directories comes up, and neither of the two items that are merged is above the
other, the forest has afterwards what the path says: as many levels above the module that asks as the
path goes up, and above the module that it asks for as the path goes down, is one directory, and
below it are the directories and the file that the path names. -/
theorem require_holds (hf : f.WellFormed) (hm : f.Made) (hcurrent : IsModuleId e.current)
    (htarget : IsModuleId e.target) (hdot : Text.startsWith path "." = true)
    (hcomponents : componentsOf path = List.replicate e.ups Path.up ++ e.dirs ++ [e.base])
    (hnames : ∀ c ∈ e.dirs ++ [e.base], IsName c)
    (hconflicts : (require e.current e.target path).Leaves f fun _ g =>
      g.conflictsAbout .file = f.conflictsAbout .file ∧
        g.conflictsAbout .directory = f.conflictsAbout .directory)
    (hsides : (sides e.current e.target path).Leaves (f.named e.target e.base) fun r g =>
      ∀ x y, r = .ok (some (x, y)) → ¬g.IsAbove x y ∧ ¬g.IsAbove y x) :
    (require e.current e.target path).Leaves f fun r g => r = .ok () ∧ e.Holds g := by
  obtain ⟨hdirs, hbase⟩ := List.forall_mem_append.mp hnames
  have hlead : CanLead e.target path := canLead_of_componentsOf htarget.1 hdot hcomponents
    (hbase e.base (List.mem_singleton_self e.base)).1
  refine (require_settles hf hm hcurrent htarget hlead hcomponents hdirs hconflicts hsides).mono ?_
  rintro r g ⟨hr, hsettled⟩
  exact ⟨hr, hsettled.holds (Edge.not_isBare hdot)⟩

/-- A forest that knows a directory and what is in it, but not what is above. -/
def forestOfEdge : Forest := empty.afterAll [.require "1" "2" "./lib/b"]

/-- In it, that `2` asks for `../src/c`. -/
def edgeBeside : Edge := ⟨"2", "3", 1, ["src"], "c"⟩

theorem edgeBeside_holds : forestOfEdge.WellFormed ∧ forestOfEdge.Made ∧
    (require "2" "3" "../src/c").Leaves forestOfEdge fun r g => r = .ok () ∧ edgeBeside.Holds g := by
  have hf : forestOfEdge.WellFormed := wellFormed_afterAll_empty _
  have hm : forestOfEdge.Made :=
    made_afterAll (List.forall_mem_singleton.mpr ⟨by decide, by decide⟩)
  have hcurrent : IsModuleId "2" := by decide
  have hdot : Text.startsWith "../src/c" "." = true := by decide
  have hcomponents : componentsOf "../src/c" =
      List.replicate edgeBeside.ups Path.up ++ edgeBeside.dirs ++ [edgeBeside.base] := by decide
  have hnames : ∀ c ∈ edgeBeside.dirs ++ [edgeBeside.base], IsName c := by decide
  have hconflicts : (require "2" "3" "../src/c").Leaves forestOfEdge fun _ g =>
      g.conflictsAbout .file = forestOfEdge.conflictsAbout .file ∧
        g.conflictsAbout .directory = forestOfEdge.conflictsAbout .directory :=
    ⟨by decide +kernel, by decide +kernel⟩
  have hsides : (sides "2" "3" "../src/c").Leaves (forestOfEdge.named "3" "c") fun r g =>
      ∀ x y, r = .ok (some (x, y)) → ¬g.IsAbove x y ∧ ¬g.IsAbove y x := by
    have htarget : IsModuleId "3" := by decide
    obtain ⟨hgrows, hhas, -⟩ := named_grows hf hm htarget "c"
    have hwf := (sides_grows (e := edgeBeside) hcomponents
      (fun c hc => hnames c (List.mem_append_left _ hc)) hcurrent hgrows.wellFormed hgrows.made
      hhas).1.wellFormed
    have hitems : ((sides "2" "3" "../src/c").run (forestOfEdge.named "3" "c")).result =
        .ok (some ("parent-3", "parent-2")) := by rfl
    intro x y hxy
    obtain ⟨rfl, rfl⟩ : "parent-3" = x ∧ "parent-2" = y := by simpa [hitems] using hxy
    exact ⟨hwf.not_isAbove (by decide +kernel) (by decide +kernel),
      hwf.not_isAbove (by decide +kernel) (by decide +kernel)⟩
  exact ⟨hf, hm, require_holds (e := edgeBeside) hf hm hcurrent (by decide) hdot hcomponents hnames
    hconflicts hsides⟩

end Forest
end Debundle
