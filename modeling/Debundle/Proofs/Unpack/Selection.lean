import Debundle.Proofs.Data.Tables
import Debundle.Proofs.Unpack.Seen
import Mathlib.Data.List.Induction

/-!
# One module for every id

A module may be found several times, by one id and under different paths.  Of all leaves with an id
the first one whose path is as good as any is kept, in the place where the id first came; the leaves
without an id follow.  As the leaves of all inputs have different paths, leaving out modules whose
path was there before leaves out nothing.

* `IsFirstBest`: the first module of a list with the best path for its id.
* `namedModules`: the modules that are kept for the ids.
* `keys_bestById`, `isFirstBest_of_get?`: for which ids, and which ones.
* `dedupe_eq_self`: modules with different paths are kept.
* `OneEach`: what is given out of some leaves.
* `unpackBundles_oneEach`: this is what is given out of all bundles.
-/

namespace Debundle

open Debundle.Action Script

variable {ms : List SourceModule} {m x : SourceModule} {id : Text}

/-! ## The best module for every id -/

/-- A module is the first one of a list that has the best path among those with its id: those before
it have worse paths, and those behind it have no better ones. -/
def IsFirstBest (ms : List SourceModule) (m : SourceModule) : Prop :=
  ∃ before after, ms = before ++ m :: after ∧
    (∀ x ∈ before, x.id = m.id → x.score < m.score) ∧ ∀ x ∈ after, x.id = m.id → x.score ≤ m.score

theorem IsFirstBest.mem (h : IsFirstBest ms m) : m ∈ ms := by
  obtain ⟨before, after, rfl, -⟩ := h
  simp

theorem IsFirstBest.score_le (h : IsFirstBest ms m) (hx : x ∈ ms) (hid : x.id = m.id) :
    x.score ≤ m.score := by
  obtain ⟨before, after, rfl, hbefore, hafter⟩ := h
  rcases List.mem_append.mp hx with hx | hx
  · exact Int.le_of_lt (hbefore x hx hid)
  · rcases List.mem_cons.mp hx with rfl | hx
    · exact Int.le_refl _
    · exact hafter x hx hid

/-- A module that comes later and is not better changes nothing. -/
theorem IsFirstBest.append (h : IsFirstBest ms m) (hx : x.id = m.id → x.score ≤ m.score) :
    IsFirstBest (ms ++ [x]) m := by
  obtain ⟨before, after, rfl, hbefore, hafter⟩ := h
  refine ⟨before, after ++ [x], by simp, hbefore, fun y hy => ?_⟩
  rcases List.mem_append.mp hy with hy | hy
  · exact hafter y hy
  · rw [List.mem_singleton.mp hy]
    exact hx

/-- A module that comes later and is better than all before it. -/
theorem isFirstBest_append_self (h : ∀ y ∈ ms, y.id = x.id → y.score < x.score) :
    IsFirstBest (ms ++ [x]) x :=
  ⟨ms, [], rfl, h, fun _ hy => absurd hy (by simp)⟩

theorem bestById_append (ms : List SourceModule) (x : SourceModule) :
    bestById (ms ++ [x]) = keepBest (bestById ms) x := by
  simp [bestById]

theorem keys_keepBest (best : Table SourceModule) (x : SourceModule) :
    (keepBest best x).keys =
      match x.id with
      | none => best.keys
      | some id => if id ∈ best.keys then best.keys else best.keys ++ [id] := by
  unfold keepBest
  cases x.id with
  | none => rfl
  | some id =>
    simp only
    by_cases hid : id ∈ best.keys
    · rw [if_pos hid]
      cases best.get? id with
      | none => exact Table.keys_insert_of_mem x hid
      | some incumbent => exact Table.keys_insert_of_mem _ hid
    · rw [if_neg hid, (Table.get?_eq_none_iff best id).mpr hid]
      exact Table.keys_insert_of_not_mem x hid

theorem get?_keepBest (best : Table SourceModule) (x : SourceModule) (id : Text) :
    (keepBest best x).get? id =
      if x.id = some id then some ((best.get? id).elim x fun incumbent => betterModule incumbent x)
      else best.get? id := by
  unfold keepBest
  cases x.id with
  | none => rfl
  | some j =>
    simp only [Option.some_inj]
    by_cases hj : j = id
    · subst hj
      rw [if_pos rfl]
      cases best.get? j with
      | none => exact Table.get?_insert_self best j x
      | some incumbent => exact Table.get?_insert_self best j _
    · rw [if_neg hj]
      cases best.get? j with
      | none => exact Table.get?_insert_of_ne best x (Ne.symm hj)
      | some incumbent => exact Table.get?_insert_of_ne best _ (Ne.symm hj)

theorem eraseDups_append_singleton (ids : List Text) (id : Text) :
    (ids ++ [id]).eraseDups =
      if id ∈ ids.eraseDups then ids.eraseDups else ids.eraseDups ++ [id] := by
  rw [List.eraseDups_append]
  by_cases hid : id ∈ ids
  · simp [hid, List.removeAll]
  · simp [hid, List.removeAll, List.eraseDups_cons]

/-- There is a module for every id, in the order in which the ids first came. -/
theorem keys_bestById (ms : List SourceModule) :
    (bestById ms).keys = (ms.filterMap SourceModule.id).eraseDups := by
  induction ms using List.reverseRecOn with
  | nil => rfl
  | append_singleton ms x ih =>
    rw [bestById_append, keys_keepBest, List.filterMap_append, ih]
    cases hid : x.id with
    | none => rw [List.filterMap_cons_none hid, List.filterMap_nil, List.append_nil]
    | some id =>
      rw [List.filterMap_cons_some hid, List.filterMap_nil, eraseDups_append_singleton]

theorem nodup_keys_bestById (ms : List SourceModule) : (bestById ms).keys.Nodup := by
  induction ms using List.reverseRecOn with
  | nil => exact List.nodup_nil
  | append_singleton ms x ih =>
    rw [bestById_append, keepBest]
    cases x.id with
    | none => exact ih
    | some id =>
      simp only
      cases (bestById ms).get? id with
      | none => exact Table.nodup_keys_insert ih id x
      | some incumbent => exact Table.nodup_keys_insert ih id _

/-- The module that is kept for an id has it, and is the first one with the best path. -/
theorem isFirstBest_of_get? (h : (bestById ms).get? id = some m) :
    m.id = some id ∧ IsFirstBest ms m := by
  induction ms using List.reverseRecOn generalizing m with
  | nil => cases h
  | append_singleton ms x ih =>
    rw [bestById_append, get?_keepBest] at h
    split at h
    · rename_i hx
      rw [Option.some_inj] at h
      cases hget : (bestById ms).get? id with
      | none =>
        -- no module before has the id
        have hkey : id ∉ (bestById ms).keys := (Table.get?_eq_none_iff _ id).mp hget
        rw [keys_bestById, List.mem_eraseDups, List.mem_filterMap] at hkey
        rw [hget, Option.elim_none] at h
        subst h
        exact ⟨hx, isFirstBest_append_self fun y hy hid => absurd ⟨y, hy, hid.trans hx⟩ hkey⟩
      | some incumbent =>
        obtain ⟨hincumbent, hbest⟩ := ih hget
        rw [hget, Option.elim_some, betterModule, prefer] at h
        split at h
        · rename_i hbetter
          subst h
          refine ⟨hx, isFirstBest_append_self fun y hy hid => ?_⟩
          have hle := hbest.score_le hy (hid.trans (hx.trans hincumbent.symm))
          exact Int.lt_of_le_of_lt hle (by simpa using hbetter)
        · rename_i hbetter
          subst h
          exact ⟨hincumbent, hbest.append fun _ => by simpa using hbetter⟩
    · rename_i hx
      obtain ⟨hm, hbest⟩ := ih h
      exact ⟨hm, hbest.append fun hid => absurd (hid.trans hm) hx⟩

/-! ## What is given out -/

/-- The modules that are kept for the ids. -/
def namedModules (ms : List SourceModule) : List SourceModule := (bestById ms).map Prod.snd

theorem isFirstBest_of_mem (h : m ∈ namedModules ms) : m.id.isSome ∧ IsFirstBest ms m := by
  obtain ⟨⟨id, kept⟩, he, rfl⟩ := List.mem_map.mp h
  have hget := (Table.mem_iff_get? (nodup_keys_bestById ms)).mp he
  obtain ⟨hid, hbest⟩ := isFirstBest_of_get? hget
  exact ⟨by rw [hid, Option.isSome_some], hbest⟩

theorem ids_namedModules (ms : List SourceModule) :
    (namedModules ms).map SourceModule.id = (ms.filterMap SourceModule.id).eraseDups.map some := by
  rw [← keys_bestById, namedModules, Table.keys, List.map_map, List.map_map]
  refine List.map_congr_left fun e he => ?_
  exact (isFirstBest_of_get? ((Table.mem_iff_get? (nodup_keys_bestById ms)).mp he)).1

/-- No module is kept twice. -/
theorem nodup_namedModules (ms : List SourceModule) : (namedModules ms).Nodup := by
  refine List.Nodup.of_map SourceModule.id ?_
  rw [ids_namedModules, ← keys_bestById]
  exact (nodup_keys_bestById ms).map fun _ _ => Option.some.inj

/-- Modules with different paths are kept, if none of the paths was there before. -/
theorem dedupe_eq_self (paths : List Scalar) (hms : (pathKeys ms).Nodup)
    (hnew : (pathKeys ms).Disjoint (paths.map Scalar.filed)) : dedupe paths ms = ms := by
  induction ms generalizing paths with
  | nil => rfl
  | cons m ms ih =>
    obtain ⟨hm, hrest⟩ := List.nodup_cons.mp hms
    have hother : ¬paths.any (·.sameKey m.path) = true := by
      rw [any_sameKey_iff]
      exact hnew List.mem_cons_self
    rw [dedupe, if_neg hother, ih (m.path :: paths) hrest]
    intro k hk hk'
    rcases List.mem_cons.mp hk' with rfl | hk'
    · exact hm hk
    · exact hnew (List.mem_cons_of_mem _ hk) hk'

/-- What is given out of some leaves: their paths are different; there is one module for every id,
in the order in which the ids first came, and it is the first one with the best path; the leaves
without an id follow; and all modules have different paths, and no path and no source is empty. -/
structure OneEach (leaves modules : List SourceModule) : Prop where
  leafPaths : (pathKeys leaves).Nodup
  undropped : modules = namedModules leaves ++ leaves.filter (·.id.isNone)
  ids : (namedModules leaves).map SourceModule.id =
    (leaves.filterMap SourceModule.id).eraseDups.map some
  best : ∀ m ∈ namedModules leaves, IsFirstBest leaves m
  paths : (pathKeys modules).Nodup
  nonempty : ∀ m ∈ modules, m.path ≠ .text [] ∧ m.source ≠ []

theorem mem_of_mem_selected (h : m ∈ namedModules ms ++ ms.filter (·.id.isNone)) : m ∈ ms := by
  rcases List.mem_append.mp h with h | h
  · exact (isFirstBest_of_mem h).2.mem
  · exact List.mem_of_mem_filter h

/-- If modules have different paths, so have those that are selected, as none is selected twice. -/
theorem nodup_pathKeys_selected (h : (pathKeys ms).Nodup) :
    (pathKeys (namedModules ms ++ ms.filter (·.id.isNone))).Nodup := by
  have hselected : (namedModules ms ++ ms.filter (·.id.isNone)).Nodup := by
    refine List.nodup_append'.mpr ⟨nodup_namedModules ms, h.of_map.filter _, fun m hm hm' => ?_⟩
    have hsome := (isFirstBest_of_mem hm).1
    have hnone := (List.mem_filter.mp hm').2
    rw [Option.isNone_iff_eq_none.mp hnone] at hsome
    exact Bool.false_ne_true hsome
  refine hselected.map_on fun m hm m' hm' hpath => ?_
  exact List.inj_on_of_nodup_map h (mem_of_mem_selected hm) (mem_of_mem_selected hm') hpath

/-- Of leaves with different paths, all that are selected are given out. -/
theorem aggregate_oneEach {leaves : List SourceModule} (hleaves : (pathKeys leaves).Nodup) :
    OneEach (leaves.filter SourceModule.isPresent) (aggregate leaves) := by
  have hpresent : (pathKeys (leaves.filter SourceModule.isPresent)).Nodup :=
    hleaves.sublist (List.filter_sublist.map _)
  have hselected := nodup_pathKeys_selected hpresent
  have hundropped : aggregate leaves = namedModules (leaves.filter SourceModule.isPresent) ++
      (leaves.filter SourceModule.isPresent).filter (·.id.isNone) :=
    dedupe_eq_self [] hselected (List.disjoint_nil_right _)
  refine ⟨hpresent, hundropped, ids_namedModules _, fun m hm => (isFirstBest_of_mem hm).2,
    hundropped ▸ hselected, fun m hm => ?_⟩
  have hm := List.mem_filter.mp (mem_of_mem_selected (hundropped ▸ hm))
  have hm : m.path.isTruthy = true ∧ m.source.isEmpty = false := by
    simpa [SourceModule.isPresent] using hm.2
  constructor
  · intro hpath
    rw [hpath] at hm
    exact Bool.false_ne_true hm.1
  · intro hsource
    rw [hsource] at hm
    exact Bool.false_ne_true hm.2.symm

/-- Leaves with different paths and without ids are all given out. -/
theorem aggregate_eq_self {leaves : List SourceModule} (hleaves : (pathKeys leaves).Nodup)
    (hpresent : ∀ m ∈ leaves, m.isPresent = true) (hids : ∀ m ∈ leaves, m.id = none) :
    aggregate leaves = leaves := by
  have hundropped := (aggregate_oneEach hleaves).undropped
  rw [List.filter_eq_self.mpr hpresent] at hundropped
  have hnamed : namedModules leaves = [] := by
    rw [← List.map_eq_nil_iff (f := SourceModule.id), ids_namedModules,
      List.filterMap_eq_nil_iff.mpr hids]
    rfl
  rw [hundropped, hnamed, List.nil_append, List.filter_eq_self]
  exact fun m hm => by rw [hids m hm, Option.isNone_none]

/-- Out of all bundles that can be unpacked, one module is given out for every id, and every module
without one. -/
theorem unpackBundles_oneEach (fuel : Nat) (bundles : List Value) (modules : List SourceModule)
    (h : (unpackBundles fuel bundles).result = .ok modules) :
    ∃ leaves, ((unpackAll fuel bundles).run Progress.start).result = .ok leaves ∧
      OneEach (leaves.filter SourceModule.isPresent) modules := by
  cases hleaves : ((unpackAll fuel bundles).run Progress.start).result with
  | error e => simp [unpackBundles, hleaves, Except.map] at h
  | ok leaves =>
    have hmodules : aggregate leaves = modules := by
      simpa [unpackBundles, hleaves, Except.map] using h
    rw [← hmodules]
    exact ⟨leaves, rfl, aggregate_oneEach (nodup_pathKeys_leaves hleaves)⟩

/-- A module under two paths, and one without an id. -/
def inputsOfOneId : List Value :=
  [.mapping [(.text "path", .scalar (.text "lib/a.js")), (.text "source", .scalar (.text "a")),
      (.text "id", .scalar (.text "1"))],
    .mapping [(.text "path", .scalar (.text "a.js")), (.text "source", .scalar (.text "b")),
      (.text "id", .scalar (.text "1"))],
    .mapping [(.text "path", .scalar (.text "c.js")), (.text "source", .scalar (.text "c"))]]

set_option maxRecDepth 100000 in
/-- The shorter path is better, though it comes later. -/
theorem inputsOfOneId_oneEach :
    ∃ leaves modules, (unpackBundles 1 inputsOfOneId).result = .ok modules ∧
      modules.map SourceModule.source = ["b", "c"] ∧
      ((unpackAll 1 inputsOfOneId).run Progress.start).result = .ok leaves ∧
      OneEach (leaves.filter SourceModule.isPresent) modules := by
  have h : ((unpackBundles 1 inputsOfOneId).result.toOption.map
      (·.map SourceModule.source)) = some (["b", "c"] : List Text) := by
    decide +kernel
  cases hmodules : (unpackBundles 1 inputsOfOneId).result with
  | error e =>
    rw [hmodules] at h
    cases h
  | ok modules =>
    rw [hmodules] at h
    obtain ⟨leaves, hleaves, hone⟩ := unpackBundles_oneEach 1 inputsOfOneId modules hmodules
    exact ⟨leaves, modules, rfl, Option.some.inj h, hleaves, hone⟩

end Debundle
