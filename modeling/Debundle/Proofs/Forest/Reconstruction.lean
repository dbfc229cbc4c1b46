import Debundle.Proofs.Forest.Evidence

/-!
# Reconstruction

Require paths that are all true of one layout are taken in one after the other, in any order and
however many.  In the end the forest has what every one of them says: later paths merge, rename and
move the directories that earlier ones relied on, and nothing is lost.  So every require path leads,
from the path of the module that asks, to the path of the module that it asks for.

* `Forest.Faithful.pathOf_eq`: a path in terms of the names in a lineage.
* `Edge.Holds`: the forest has what a require path says.
* `Edge.Holds.normalKeepingSlash_path`: the path leads from the one module to the other.
* `Forest.requireAll_refines`: any number of require paths.
* `Forest.requireAll_empty_holds`: any number of require paths, from the forest without items.
-/

namespace Debundle

/-! ## Paths in terms of names -/

namespace Forest

variable {R : Layout} {K : Text → Prop} {f g : Forest} {x y : Text}

theorem isName_parentWord_append {t : Text} (ht : Path.slash ∉ t) : IsName (parentWord ++ t) := by
  refine ⟨by simp [parentWord, Text.ofString], ?_, ?_, ?_⟩
  · exact fun h => absurd (congrArg List.head? h) (by simp [parentWord, Text.ofString]; decide)
  · exact fun h => absurd (congrArg List.head? h) (by simp [parentWord, Text.ofString]; decide)
  · rw [List.mem_append, not_or]
    exact ⟨by decide, ht⟩

theorem isName_parentIdOf (hx : IsName x) : IsName (parentIdOf x) := by
  rw [parentIdOf, List.append_assoc]
  refine isName_parentWord_append ?_
  rw [List.mem_append, not_or]
  exact ⟨by decide, hx.2.2.2⟩

theorem isName_compressParents (hx : IsName x) : IsName (compressParents x) := by
  unfold compressParents
  simp only
  split
  · have hdigits : ∀ n, Path.slash ∉ Text.ofNat n := by
      intro n hn
      obtain ⟨c, hc, hslash⟩ := List.mem_map.mp hn
      have hdigit := Nat.isDigit_of_mem_toDigits (by decide) (by decide) hc
      have heq : c = '/' := Char.toNat_inj.mp (congrArg CodePoint.val hslash)
      rw [heq] at hdigit
      exact absurd hdigit (by decide)
    have hlast : Path.slash ∉ (Text.split '-' x).getLastD [] := by
      rw [List.getLastD_eq_getLast?, List.getLast?_eq_some_getLast (Text.split_ne_nil _ _)]
      exact fun h => hx.2.2.2 (Text.mem_of_mem_split (List.getLast_mem _) h)
    rw [List.append_assoc, List.append_assoc]
    refine isName_parentWord_append ?_
    simp only [List.mem_append, not_or]
    exact ⟨hdigits _, by decide, hlast⟩
  · exact hx

/-- The path that some names make. -/
theorem pathOfNames_eq {names : List Text} (hne : names ≠ []) (hnames : ∀ c ∈ names, IsName c) :
    pathOfNames names = Text.join [Path.slash] names.reverse := by
  have hfilter : names.reverse.filter (fun c => !c.isEmpty) = names.reverse := by
    refine List.filter_eq_self.mpr fun c hc => ?_
    simpa using (hnames c (List.mem_reverse.mp hc)).1
  have hreverse : ∀ c ∈ names.reverse, IsName c := fun c hc => hnames c (List.mem_reverse.mp hc)
  have hpieces : ∀ c ∈ names.reverse, Path.IsPiece c := fun c hc => (hreverse c hc).isPiece
  have hresolve : Path.resolve false names.reverse = names.reverse := by
    rw [Path.resolve, Path.foldl_push_names hreverse, List.append_nil, List.reverse_reverse]
  have hreverseNe : names.reverse ≠ [] := by simpa using hne
  obtain ⟨a, u, -, -, hau, -⟩ := Path.join_pieces hreverseNe hpieces
  unfold pathOfNames
  split
  · rfl
  · simp only [hfilter]
    rw [if_neg (by simp [hau]),
      Path.normalKeepingSlash_join hreverseNe hpieces hreverseNe hpieces hresolve]

/-- The names in the lineage of an item, its own one first. -/
def displayNames (f : Forest) (x : Text) : List Text := (f.lineage x).map Item.displayName

theorem WellFormed.drop_displayNames (hf : f.WellFormed) {n : Nat} (hy : f.ancestor? n x = some y) :
    (f.displayNames x).drop n = f.displayNames y := by
  rw [displayNames, ← List.map_drop, hf.drop_lineage hy, displayNames]

namespace Faithful

variable (hf : Faithful R K f)
include hf

theorem isName_displayName (hK : ∀ x, K x → IsName x) {i : Item} (hi : f.find? x = some i) :
    IsName i.displayName := by
  have hbare := bare?_of_find? hi
  unfold Item.displayName
  split
  · rename_i hplaceholder
    have hname : i.name = x := hf.placeholder x i.bare hbare hplaceholder
    rw [hname]
    exact isName_compressParents (hK x (hf.kind x (has_iff.mpr ⟨i, hi⟩)))
  · rename_i hsettled
    obtain ⟨names, n, hplace⟩ := hf.settled x i.bare hbare (by simpa [Item.bare] using hsettled)
    exact R.isName_place x i.name (by rw [hplace]; exact List.mem_cons_self)

theorem isName_displayNames (hK : ∀ x, K x → IsName x) (x : Text) :
    ∀ c ∈ f.displayNames x, IsName c := by
  intro c hc
  obtain ⟨i, hi, rfl⟩ := List.mem_map.mp hc
  obtain ⟨j, hj⟩ := List.mem_iff_getElem?.mp hi
  rw [hf.wellFormed.getElem?_lineage] at hj
  obtain ⟨z, -, hz⟩ := Option.bind_eq_some_iff.mp hj
  exact hf.isName_displayName hK hz

/-- The path of an item is written out of the names in its lineage. -/
theorem pathOf_eq (hK : ∀ x, K x → IsName x) (hx : f.has x = true) :
    f.pathOf x = Text.join [Path.slash] (f.displayNames x).reverse := by
  obtain ⟨i, hi⟩ := has_iff.mp hx
  have hne : f.displayNames x ≠ [] := by
    rw [displayNames, hf.wellFormed.lineage_cons hi]
    simp
  exact pathOfNames_eq hne (hf.isName_displayNames hK x)

end Faithful
end Forest

/-! ## What a require path says -/

namespace Edge

variable {R : Layout} {K : Text → Prop} {f : Forest} {e : Edge}

/-- The forest has what the path says: as many levels above the module that asks as the path goes
up, and above the module that it asks for as the path goes down, is one directory, and below it
are the directories and the module that the path names. -/
structure Holds (e : Edge) (f : Forest) : Prop where
  shared : ∃ w, f.has w = true ∧ f.ancestor? (e.ups + 1) e.current = some w ∧
    f.ancestor? (e.dirs.length + 1) e.target = some w
  named : ∀ j name, (e.base :: e.dirs.reverse)[j]? = some name →
    ∃ i, (f.ancestor? j e.target).bind f.find? = some i ∧ i.isPlaceholder = false ∧ i.name = name

/-- In a faithful forest the names that are settled are those of the path. -/
theorem Known.holds (hknown : e.Known f) (he : e.Fits R) (hf : f.Faithful R K) : e.Holds f where
  shared := by
    obtain ⟨w, hcurrent, htarget⟩ := hknown.shared
    have hhas : f.has e.target = true := by
      obtain ⟨p, hp, -⟩ := Option.bind_eq_some_iff.mp htarget
      exact Forest.has_of_parentId? hp
    exact ⟨w, hf.wellFormed.has_ancestor hhas htarget, hcurrent, htarget⟩
  named j name hname := by
    have hj : j < (e.base :: e.dirs.reverse).length := (List.getElem?_eq_some_iff.mp hname).1
    obtain ⟨z, hz, bare, hbare, hsettled⟩ := hknown.settled j (by simpa [Nat.lt_succ_iff] using hj)
    obtain ⟨i, hi, rfl⟩ := Option.map_eq_some_iff.mp hbare
    obtain ⟨names, n, hplace⟩ := hf.settled z _ hbare hsettled
    refine ⟨i, by rw [hz, Option.bind_some, hi], hsettled, ?_⟩
    rw [hf.place_ancestor hz, he.place_target, ← List.cons_append,
      Layout.Place.up_iterate 0 (by simp at hj ⊢; omega), Layout.Place.mk.injEq] at hplace
    have hhead := congrArg List.head? hplace.1
    rw [List.head?_drop, List.getElem?_append_left hj, hname] at hhead
    exact (Option.some_inj.mp hhead).symm

/-- The names in the lineage of the module that is asked for. -/
theorem Holds.displayNames_target (hholds : e.Holds f) (hf : f.WellFormed) :
    ∃ w, f.ancestor? (e.ups + 1) e.current = some w ∧ f.has w = true ∧
      f.displayNames e.target = e.base :: e.dirs.reverse ++ f.displayNames w := by
  obtain ⟨w, hw, hcurrent, htarget⟩ := hholds.shared
  refine ⟨w, hcurrent, hw, ?_⟩
  have htake : (f.displayNames e.target).take (e.dirs.length + 1) = e.base :: e.dirs.reverse := by
    refine List.ext_getElem? fun j => ?_
    rw [List.getElem?_take]
    split
    · rename_i hj
      have hlt : j < (e.base :: e.dirs.reverse).length := by simpa using hj
      have hname := List.getElem?_eq_getElem hlt
      obtain ⟨i, hi, hsettled, heq⟩ := hholds.named j _ hname
      rw [hname, Forest.displayNames, List.getElem?_map, hf.getElem?_lineage, hi, Option.map_some,
        Forest.Item.displayName, hsettled, if_neg (by simp), heq]
    · rename_i hj
      exact (List.getElem?_eq_none (by simpa using hj)).symm
  rw [← List.take_append_drop (e.dirs.length + 1) (f.displayNames e.target), htake,
    hf.drop_displayNames htarget]

/-- From the directory of the module that asks, the path leads to the module that it asks for. -/
theorem Holds.normalKeepingSlash_path (hholds : e.Holds f) (he : e.Fits R) (hf : f.Faithful R K)
    (hK : ∀ x, K x → IsName x) :
    Path.normalKeepingSlash (Path.directoryOf (f.pathOf e.current) ++ "/" ++ e.path) =
      f.pathOf e.target := by
  obtain ⟨w, hw, hhas, htarget⟩ := hholds.displayNames_target hf.wellFormed
  obtain ⟨p, hp, hpw⟩ := Option.bind_eq_some_iff.mp hw
  obtain ⟨i, hi⟩ := Forest.has_iff.mp (Forest.has_of_parentId? hp)
  have hcurrent : f.displayNames e.current = i.displayName :: f.displayNames p := by
    rw [Forest.displayNames, hf.wellFormed.lineage_cons hi, hp]
    rfl
  have hnames := hf.isName_displayNames hK p
  have hdrop := hf.wellFormed.drop_displayNames hpw
  -- at least one directory is left where the path turns
  have hleft : f.displayNames w ≠ [] := by
    obtain ⟨j, hj⟩ := Forest.has_iff.mp hhas
    rw [Forest.displayNames, hf.wellFormed.lineage_cons hj]
    simp
  have hlength : e.ups < (f.displayNames p).length := by
    rw [← hdrop] at hleft
    simpa using hleft
  have hne : f.displayNames p ≠ [] := List.ne_nil_of_length_pos (Nat.zero_lt_of_lt hlength)
  have hreverse : ∀ c ∈ (f.displayNames p).reverse, IsName c :=
    fun c hc => hnames c (List.mem_reverse.mp hc)
  have htargetHas : f.has e.target = true := by
    obtain ⟨v, -, -, hv⟩ := hholds.shared
    obtain ⟨q, hq, -⟩ := Option.bind_eq_some_iff.mp hv
    exact Forest.has_of_parentId? hq
  have hdirectory : Path.directoryOf (f.pathOf e.current) =
      Text.join [Path.slash] (f.displayNames p).reverse := by
    rw [hf.pathOf_eq hK (Forest.has_of_parentId? hp), hcurrent, List.reverse_cons]
    exact Path.directoryOf_join (by simpa using hne) (fun c hc => (hreverse c hc).isPiece)
      (hf.isName_displayName hK hi).isPiece
  have hmarks : (if e.ups = 0 then [Path.here] else List.replicate e.ups Path.up).foldl
      (Path.push false) (f.displayNames p) = f.displayNames w := by
    rw [← hdrop]
    split
    · rename_i hzero
      rw [hzero, List.drop_zero, List.foldl_cons, List.foldl_nil, Path.push_here]
    · exact Path.foldl_push_ups e.ups hnames (Nat.le_of_lt hlength)
  have hresolve : Path.resolve false ((f.displayNames p).reverse ++ e.components) =
      (f.displayNames e.target).reverse := by
    rw [Path.resolve, List.foldl_append, Path.foldl_push_names hreverse, List.reverse_reverse,
      List.append_nil, components, List.append_assoc, List.foldl_append, hmarks,
      Path.foldl_push_names fun c hc => he.isName_of_mem hc, htarget]
    simp
  rw [hdirectory, hf.pathOf_eq hK htargetHas, path, List.append_assoc,
    show (Text.ofString "/" : Text) = [Path.slash] from rfl, List.singleton_append,
    ← Text.join_append (by simpa using hne) (by simp [components])]
  refine Path.normalKeepingSlash_join (by simp [components]) (fun c hc => ?_) (by simp [htarget])
    (fun c hc => ?_) hresolve
  · rcases List.mem_append.mp hc with hc | hc
    · exact (hreverse c hc).isPiece
    · exact he.isPiece_components c hc
  · exact (hf.isName_displayNames hK _ c (List.mem_reverse.mp hc)).isPiece

end Edge

/-! ## Any number of require paths -/

namespace Forest

open Debundle.Action

variable {R : Layout} {K : Text → Prop} {f : Forest}

/-- Takes require paths in, one after the other. -/
def requireAll (edges : List Edge) : Step Unit :=
  Action.each (fun e => require e.current e.target e.path) edges

/-- Require paths that are true of a layout: each of them is known in the end. -/
theorem requireAll_refines (hK : ∀ x, K x → K (parentIdOf x)) {edges : List Edge}
    (hfits : ∀ e ∈ edges, e.Fits R) (hids : ∀ e ∈ edges, K e.current ∧ K e.target)
    (hf : Faithful R K f) :
    (requireAll edges).Leaves f fun r g =>
      r = .ok () ∧ Faithful R K g ∧ Refines f g ∧ ∀ e ∈ edges, e.Known g := by
  induction edges generalizing f with
  | nil => exact ⟨rfl, hf, (Extends.refl f).refines, by simp⟩
  | cons e edges ih =>
    have he := List.mem_cons_self (a := e) (l := edges)
    refine (require_refines hK (hfits e he) (hids e he).1 (hids e he).2 hf).bind_ok ?_
    rintro g ⟨hg, hfg, hknown⟩
    refine (ih (fun d hd => hfits d (List.mem_cons_of_mem _ hd))
      (fun d hd => hids d (List.mem_cons_of_mem _ hd)) hg).mono ?_
    rintro r h ⟨hr, hh, hgh, hrest⟩
    refine ⟨hr, hh, hfg.trans hgh, fun d hd => ?_⟩
    rcases List.mem_cons.mp hd with rfl | hd
    · exact hknown.refines hgh
    · exact hrest d hd

/-- Any number of require paths that are all true of one layout: none is refused, no names
disagree, and in the end the forest has what every one of them says.  If the ids can be names as
well, every path leads from the directory of the module that asks to the module that it asks for. -/
theorem requireAll_empty_holds (R : Layout) (edges : List Edge) (hfits : ∀ e ∈ edges, e.Fits R) :
    (requireAll edges).Leaves empty fun r f =>
      r = .ok () ∧ f.conflicts = [] ∧ (∀ e ∈ edges, e.Holds f) ∧
        ((∀ e ∈ edges, IsName e.current ∧ IsName e.target) → ∀ e ∈ edges,
          Path.normalKeepingSlash (Path.directoryOf (f.pathOf e.current) ++ "/" ++ e.path) =
            f.pathOf e.target) := by
  let named : Prop := ∀ e ∈ edges, IsName e.current ∧ IsName e.target
  have hK : ∀ x, (named → IsName x) → named → IsName (parentIdOf x) :=
    fun x hx h => isName_parentIdOf (hx h)
  refine (requireAll_refines hK hfits (fun e he => ⟨fun h => (h e he).1, fun h => (h e he).2⟩)
    (.empty R fun x => named → IsName x)).mono ?_
  rintro r f ⟨hr, hf, -, hknown⟩
  have hholds : ∀ e ∈ edges, e.Holds f := fun e he => (hknown e he).holds (hfits e he) hf
  exact ⟨hr, hf.conflicts, hholds,
    fun h e he => (hholds e he).normalKeepingSlash_path (hfits e he) hf fun x hx => hx h⟩

/-- A module `2` that is one directory below all the other modules. -/
def layoutOfTwo : Layout where
  locate id := if id = Text.ofString "2" then ["src", "lib", "b"] else ["src", "a"]
  locate_ne_nil id := by split <;> simp
  isName id := by split <;> decide

/-- Two modules that ask for each other. -/
def edgesOfTwo : List Edge := [⟨"1", "2", 0, ["lib"], "b"⟩, ⟨"2", "1", 1, [], "a"⟩]

theorem requireAll_two_holds : (∀ e ∈ edgesOfTwo, e.Fits layoutOfTwo) ∧
    (requireAll edgesOfTwo).Leaves empty fun r f =>
      r = .ok () ∧ f.conflicts = [] ∧ (∀ e ∈ edgesOfTwo, e.Holds f) ∧
        ((∀ e ∈ edgesOfTwo, IsName e.current ∧ IsName e.target) → ∀ e ∈ edgesOfTwo,
          Path.normalKeepingSlash (Path.directoryOf (f.pathOf e.current) ++ "/" ++ e.path) =
            f.pathOf e.target) := by
  have hfits : ∀ e ∈ edgesOfTwo, e.Fits layoutOfTwo := by
    intro e he
    simp only [edgesOfTwo, List.mem_cons, List.not_mem_nil, or_false] at he
    rcases he with rfl | rfl <;> exact ⟨by decide, by decide, by decide, by decide⟩
  exact ⟨hfits, requireAll_empty_holds layoutOfTwo edgesOfTwo hfits⟩

end Forest
end Debundle
