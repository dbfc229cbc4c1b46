import Debundle.Proofs.Unpack.Leaf
import Debundle.Proofs.Unpack.Selection

/-!
# A bundle and the modules it defines

The paths of bundles and of modules are remembered together.  So a module that an AMD bundle defines
under the path of the bundle itself is passed over as if it had been given out, and it never is.
All other modules are given out, in the order of their definitions, and of several with one path the
first one.

* `firstOfEach`: the first module for every path.
* `dedupe_eq`: modules with new and different paths.
* `workOff_of_isLeaf`: a stack of leaves.
* `definedModules`: the modules that an AMD bundle defines.
* `unpackBundles_container`: what an AMD bundle of leaves gives out, and when this is all that it
  defines.
-/

namespace Debundle

open Debundle.Action Script

variable {m : SourceModule} {path : Scalar}

/-! ## The first module for every path -/

/-- The first module for every path. -/
def firstOfEach (ms : List SourceModule) : List SourceModule :=
  ms.eraseDupsBy fun a b => a.path.sameKey b.path

theorem sameKey_comm (a b : Scalar) : a.sameKey b = b.sameKey a := by
  rw [Scalar.sameKey, Scalar.sameKey, Bool.beq_comm]

/-- No other scalar is the same key as a text. -/
theorem sameKey_text_iff {a : Scalar} {t : Text} : a.sameKey (.text t) = true ↔ a = .text t := by
  rw [Scalar.sameKey, beq_iff_eq]
  cases a with
  | float x =>
    unfold Scalar.filed
    cases hx : x.integer? <;> simp [hx]
  | _ => simp [Scalar.filed]

/-- Of the modules whose paths are not among those given, the first one for every path. -/
theorem dedupe_eq (paths : List Scalar) (ms : List SourceModule) :
    dedupe paths ms = firstOfEach (ms.filter fun m => !paths.any (·.sameKey m.path)) := by
  -- the accumulator of the loop holds the modules that were kept, the last one first
  suffices h : ∀ kept, List.eraseDupsBy.loop (fun a b : SourceModule => a.path.sameKey b.path)
      (ms.filter fun m => !paths.any (·.sameKey m.path)) kept =
        kept.reverse ++ dedupe (kept.map SourceModule.path ++ paths) ms from (h []).symm
  induction ms with
  | nil =>
    intro kept
    rw [List.filter_nil, List.eraseDupsBy.loop, dedupe, List.append_nil]
  | cons m ms ih =>
    intro kept
    have hkept : kept.any (fun x => m.path.sameKey x.path) =
        (kept.map SourceModule.path).any (·.sameKey m.path) := by
      rw [List.any_map]
      exact congrArg kept.any (funext fun x => sameKey_comm _ _)
    rw [dedupe, List.any_append, ← hkept]
    by_cases hm : paths.any (·.sameKey m.path) = true
    · rw [List.filter_cons_of_neg (by simp [hm]), hm, Bool.or_true, if_pos rfl, ih]
    · rw [List.filter_cons_of_pos (by simp [hm]), List.eraseDupsBy.loop]
      rw [Bool.not_eq_true] at hm
      rw [hm, Bool.or_false]
      cases kept.any (fun x => m.path.sameKey x.path) with
      | true => rw [if_pos rfl, ih]
      | false => simp [ih]

theorem firstOfEach_eq (ms : List SourceModule) : firstOfEach ms = dedupe [] ms := by
  rw [dedupe_eq, List.filter_eq_self.mpr fun m _ => by rw [List.any_nil, Bool.not_false]]

theorem dedupe_sublist (paths : List Scalar) (ms : List SourceModule) :
    (dedupe paths ms).Sublist ms := by
  induction ms generalizing paths with
  | nil => exact .slnil
  | cons m ms ih =>
    rw [dedupe]
    split
    · exact (ih paths).cons m
    · exact (ih (m.path :: paths)).cons_cons m

/-- The paths of the modules that are kept are all those that are not among the ones given. -/
theorem mem_pathKeys_dedupe (paths : List Scalar) (ms : List SourceModule) (k : Scalar) :
    k ∈ pathKeys (dedupe paths ms) ↔ k ∈ pathKeys ms ∧ k ∉ paths.map Scalar.filed := by
  induction ms generalizing paths with
  | nil => simp [dedupe, pathKeys]
  | cons m ms ih =>
    have hcons : ∀ ns, pathKeys (m :: ns) = m.path.filed :: pathKeys ns := fun _ => rfl
    rw [dedupe]
    split
    · rename_i hm
      rw [any_sameKey_iff] at hm
      rw [ih, hcons, List.mem_cons]
      exact ⟨fun h => ⟨Or.inr h.1, h.2⟩, fun h => ⟨h.1.resolve_left fun hk => h.2 (hk ▸ hm), h.2⟩⟩
    · rename_i hm
      rw [any_sameKey_iff] at hm
      rw [hcons, hcons, List.mem_cons, List.mem_cons, ih, List.map_cons, List.mem_cons, not_or]
      by_cases hk : k = m.path.filed
      · subst hk
        simp [hm]
      · simp [hk]

/-! ## A stack of leaves -/

/-- Of a stack of leaves, those with new and different paths are given out. -/
theorem workOff_of_isLeaf {fuel : Nat} {stack : List SourceModule} {p : Progress}
    (hfuel : stack.length ≤ fuel) (hleaves : ∀ m ∈ stack, IsLeaf m) (hp : p.IsQuiet)
    {paths : List Scalar} (hpaths : ∀ path, p.hasSeen path = paths.any (·.sameKey path)) :
    (workOff fuel stack).Leaves p fun r _ => r = .ok (dedupe paths stack) := by
  induction stack generalizing fuel p paths with
  | nil => cases fuel <;> rfl
  | cons m stack ih =>
    obtain ⟨fuel, rfl⟩ : ∃ k, fuel = k + 1 := ⟨fuel - 1, by simp at hfuel; omega⟩
    have hfuel : stack.length ≤ fuel := by simpa using hfuel
    have hstack : ∀ m ∈ stack, IsLeaf m := fun m hm => hleaves m (List.mem_cons_of_mem _ hm)
    unfold workOff dedupe
    rw [leaves_get_bind, hpaths]
    split
    · exact ih hfuel hstack hp hpaths
    · rw [leaves_bind, leaves_modify]
      have hm : IsLeaf m := hleaves m List.mem_cons_self
      have hmarked : (p.mark m.path).IsQuiet := hp
      refine (expand_of_isLeaf hm hmarked).bind (fun e q h => absurd h.1 (by simp)) ?_
      rintro found q ⟨hfound, hkeys, hq⟩
      rw [Except.ok.inj hfound]
      have hseen : ∀ path, q.hasSeen path = (m.path :: paths).any (·.sameKey path) := by
        intro path
        rw [Progress.hasSeen_eq hkeys, Progress.hasSeen_mark, hpaths, List.any_cons]
      refine (ih hfuel hstack hq hseen).bind (fun e t h => absurd h (by simp)) fun rest t h => ?_
      rw [Except.ok.inj h]
      rfl

/-! ## A bundle of leaves -/

/-- The modules that definitions give. -/
def definedModules (source : Source) (ds : List Definition) : List SourceModule :=
  ds.filterMap (moduleOf? source)

/-- A text is an AMD bundle, and all factories can be restored to leaves that are not empty. -/
structure DefinesLeaves (text : Text) (source : Source) (ds : List Definition) : Prop where
  parse : Source.parse text = .ok source
  kind : BundleKind.ofStatements source.statements = .ok .amd
  definitions : definitions source.statements = .ok ds
  leaves : ∀ d ∈ ds, ∃ m ∈ moduleOf? source d, m.source ≠ [] ∧ IsLeaf m

namespace DefinesLeaves

variable {text : Text} {source : Source} {ds : List Definition}

theorem modulesIn_statements (h : DefinesLeaves text source ds) :
    modulesIn source source.statements = .ok (definedModules source ds) := by
  refine modulesIn_eq h.definitions fun d hd => ?_
  obtain ⟨m, hm, -⟩ := h.leaves d hd
  rw [Option.mem_def.mp hm, Option.isSome_some]

/-- A module that is defined has a path, and is a leaf without an id. -/
theorem of_mem (h : DefinesLeaves text source ds) (hm : m ∈ definedModules source ds) :
    (∃ d ∈ ds, m.path = .text d.path) ∧ m.isPresent = true ∧ m.id = none ∧ IsLeaf m := by
  obtain ⟨d, hd, hmodule⟩ := List.mem_filterMap.mp hm
  obtain ⟨m', hm', hsource, hleaf⟩ := h.leaves d hd
  obtain rfl : m' = m := Option.some.inj (Option.mem_def.mp hm' ▸ hmodule)
  obtain ⟨restored, -, rfl⟩ := Option.map_eq_some_iff.mp hmodule
  have hpath := path_ne_nil_of_definitions h.definitions d hd
  refine ⟨⟨d, hd, rfl⟩, ?_, rfl, hleaf⟩
  simp only [SourceModule.isPresent, Scalar.isTruthy, Bool.and_eq_true, Bool.not_eq_true',
    List.isEmpty_eq_false_iff]
  exact ⟨hpath, hsource⟩

theorem exists_mem (h : DefinesLeaves text source ds) {d : Definition} (hd : d ∈ ds) :
    ∃ m ∈ definedModules source ds, m.path = .text d.path := by
  obtain ⟨m, hm, -⟩ := h.leaves d hd
  obtain ⟨restored, -, rfl⟩ := Option.map_eq_some_iff.mp (Option.mem_def.mp hm)
  exact ⟨_, List.mem_filterMap.mpr ⟨d, hd, hm⟩, rfl⟩

theorem ne_nil (h : DefinesLeaves text source ds) : ds ≠ [] := by
  rintro rfl
  have hkind := h.kind
  unfold BundleKind.ofStatements at hkind
  rw [hasDefinition_iff h.definitions] at hkind
  cases hpacked : packedArguments? source.statements with
  | none =>
    rw [hpacked] at hkind
    cases hkind
  | some arguments =>
    rw [hpacked] at hkind
    cases hkind

theorem definedModules_ne_nil (h : DefinesLeaves text source ds) :
    definedModules source ds ≠ [] := by
  obtain ⟨d, hd⟩ := List.exists_mem_of_ne_nil ds h.ne_nil
  obtain ⟨m, hm, -⟩ := h.exists_mem hd
  exact List.ne_nil_of_mem hm

theorem text_ne_nil (h : DefinesLeaves text source ds) : text ≠ [] := by
  rintro rfl
  have hempty : ((Source.parse []).toOption.all fun s => s.statements.isEmpty) = true := by
    decide +kernel
  have hstatements : source.statements = [] := by
    simpa [h.parse, Except.toOption] using hempty
  have hds := h.definitions
  rw [hstatements] at hds
  exact h.ne_nil (Except.ok.inj hds).symm

/-- The bundle is replaced by its modules on the stack, and these are worked off. -/
theorem workOff_container (h : DefinesLeaves text source ds) {fuel : Nat} (hfuel : ds.length < fuel)
    (path : Scalar) (id : Option Text) :
    (workOff fuel [⟨path, text, id⟩]).Leaves Progress.start fun r _ =>
      r = .ok (dedupe [path] (definedModules source ds)) := by
  obtain ⟨fuel, rfl⟩ : ∃ k, fuel = k + 1 := ⟨fuel - 1, by omega⟩
  unfold workOff
  rw [leaves_get_bind, if_neg (by simp [Progress.hasSeen, Progress.start]), leaves_bind,
    leaves_modify, leaves_bind, expand_leaves h.parse h.kind]
  refine (unpackStatements_leaves source source.statements _).mpr ?_
  rw [h.modulesIn_statements]
  cases hms : definedModules source ds with
  | nil => exact absurd hms h.definedModules_ne_nil
  | cons first rest =>
    simp only
    rw [List.append_nil, ← hms]
    have hlength : (definedModules source ds).length ≤ fuel :=
      Nat.le_trans (List.length_filterMap_le _ _) (Nat.le_of_lt_succ hfuel)
    have hquiet : (Progress.start.mark path).IsQuiet := Progress.isQuiet_start
    refine workOff_of_isLeaf hlength (fun m hm => (h.of_mem hm).2.2.2) hquiet fun other => ?_
    rw [Progress.hasSeen_mark, List.any_cons]
    rfl

theorem filter_path (h : DefinesLeaves text source ds) (path : Scalar) :
    (definedModules source ds).filter (fun m => !([path].any (·.sameKey m.path))) =
      (definedModules source ds).filter fun m => m.path ≠ path := by
  refine List.filter_congr fun m hm => ?_
  obtain ⟨⟨d, -, hpath⟩, -⟩ := h.of_mem hm
  have hsame : path.sameKey (.text d.path) = true ↔ Scalar.text d.path = path :=
    sameKey_text_iff.trans eq_comm
  rw [hpath, List.any_cons, List.any_nil, Bool.or_false, Bool.eq_iff_iff, Bool.not_eq_true',
    ← Bool.not_eq_true, hsame, decide_eq_true_eq]

end DefinesLeaves

/-- An input has a path and a source. -/
structure Describes (bundle : Mapping) (path : Scalar) (text : Text) : Prop where
  path : bundle.get? (.text "path") = some (.scalar path)
  source : bundle.get? (.text "source") = some (.scalar (.text text))

/-- The leaves of a bundle that has a path. -/
theorem unpackAll_container {fuel : Nat} {bundle : Mapping} {text : Text} {source : Source}
    {ds : List Definition} (h : DefinesLeaves text source ds) (hfuel : ds.length < fuel)
    (hbundle : Describes bundle path text) (hpath : path.isTruthy = true) :
    ((unpackAll fuel [.mapping bundle]).run Progress.start).result =
      .ok (dedupe [path] (definedModules source ds)) := by
  suffices hleaves : (unpackAll fuel [.mapping bundle]).Leaves Progress.start fun r _ =>
    r = .ok (dedupe [path] (definedModules source ds)) from hleaves
  have htext : (Value.scalar (.text text)).isTruthy = true := by
    simpa [Value.isTruthy, Scalar.isTruthy] using h.text_ne_nil
  have hgiven :
      (!(Value.scalar path).isTruthy || !(Value.scalar (.text text)).isTruthy) = false := by
    rw [htext, Value.isTruthy, hpath]
    rfl
  have hcpath : (Candidate.ofMapping bundle).path = .scalar path := by
    rw [Candidate.ofMapping, hbundle.path]
    exact if_pos hpath
  have hcsource : (Candidate.ofMapping bundle).source = .scalar (.text text) := by
    rw [Candidate.ofMapping, hbundle.source]
    exact if_pos htext
  have hcandidate : (unpackCandidate fuel (.ofMapping bundle)).Leaves Progress.start fun r _ =>
      r = .ok (dedupe [path] (definedModules source ds)) := by
    unfold unpackCandidate
    rw [hcpath, hcsource]
    simp only
    rw [leaves_get_bind, if_neg (by simp [Progress.hasSeen, Progress.start])]
    exact h.workOff_container hfuel path _
  rw [unpackAll, leaves_bind, leaves_ofExcept]
  · simp only [Candidate.ofValue, hcpath, hcsource]
    rw [hgiven, if_neg Bool.false_ne_true, leaves_bind, leaves_mapError]
    refine hcandidate.mono fun r _ hr => ?_
    rw [hr]
    simp [Except.mapError, unpackAll]
  · simp

/-- An input without a path is passed over. -/
theorem unpackAll_pathless {fuel : Nat} {bundle : Mapping} {text : Text}
    (hbundle : Describes bundle path text) (hpath : ¬path.isTruthy = true) :
    ((unpackAll fuel [.mapping bundle]).run Progress.start).result = .ok [] := by
  suffices hleaves : (unpackAll fuel [.mapping bundle]).Leaves Progress.start fun r _ =>
    r = .ok [] from hleaves
  have hcpath : (Candidate.ofMapping bundle).path = .scalar (.text []) := by
    rw [Candidate.ofMapping, hbundle.path]
    exact if_neg hpath
  rw [unpackAll, leaves_bind, leaves_ofExcept]
  · simp only [Candidate.ofValue, hcpath]
    rfl
  · simp

/-- Out of a bundle that has a path, all of its leaves are given out. -/
theorem unpackBundles_of_path {fuel : Nat} {bundle : Mapping} {text : Text} {source : Source}
    {ds : List Definition} (h : DefinesLeaves text source ds) (hfuel : ds.length < fuel)
    (hbundle : Describes bundle path text) (hpath : path.isTruthy = true) :
    (unpackBundles fuel [.mapping bundle]).result =
      .ok (dedupe [path] (definedModules source ds)) := by
  have hleaves := unpackAll_container h hfuel hbundle hpath
  have hmem := (dedupe_sublist [path] (definedModules source ds)).subset
  rw [unpackBundles, hleaves, Except.map, aggregate_eq_self (nodup_pathKeys_leaves hleaves)]
  · exact fun m hm => (h.of_mem (hmem hm)).2.1
  · exact fun m hm => (h.of_mem (hmem hm)).2.2.1

/-- An AMD bundle of leaves gives out, in order, the first module for every path other than its own,
and none if it has no path.  So it gives out all modules that it defines if and only if it has a
path, and defines no module under it. -/
theorem unpackBundles_container (fuel : Nat) (bundle : Mapping) (path : Scalar) (text : Text)
    (source : Source) (ds : List Definition) (h : DefinesLeaves text source ds)
    (hbundle : Describes bundle path text) (hfuel : ds.length < fuel) :
    (unpackBundles fuel [.mapping bundle]).result =
      .ok (if path.isTruthy then firstOfEach ((definedModules source ds).filter (·.path ≠ path))
        else []) ∧
    ((unpackBundles fuel [.mapping bundle]).result = .ok (firstOfEach (definedModules source ds)) ↔
      path.isTruthy = true ∧ ∀ d ∈ ds, path ≠ .text d.path) := by
  have hkeys (d : Definition) (hd : d ∈ ds) :
      Scalar.text d.path ∈ pathKeys (firstOfEach (definedModules source ds)) := by
    obtain ⟨m, hm, hname⟩ := h.exists_mem hd
    rw [firstOfEach_eq, mem_pathKeys_dedupe]
    exact ⟨List.mem_map.mpr ⟨m, hm, by rw [hname]; rfl⟩, by simp⟩
  by_cases hpath : path.isTruthy = true
  · have hresult := unpackBundles_of_path h hfuel hbundle hpath
    have hothers := dedupe_eq [path] (definedModules source ds)
    rw [h.filter_path] at hothers
    refine ⟨by rw [hresult, if_pos hpath, hothers], fun heq => ⟨hpath, fun d hd hname => ?_⟩,
      fun hother => ?_⟩
    · -- the module under the path of the bundle is missing
      rw [hresult] at heq
      have hkey := hkeys d hd
      rw [← Except.ok.inj heq, mem_pathKeys_dedupe, hname] at hkey
      exact hkey.2 List.mem_cons_self
    · have hall : (definedModules source ds).filter (·.path ≠ path) = definedModules source ds := by
        refine List.filter_eq_self.mpr fun m hm => decide_eq_true ?_
        obtain ⟨⟨d, hd, hname⟩, -⟩ := h.of_mem hm
        rw [hname]
        exact (hother.2 d hd).symm
      rw [hresult, hothers, hall]
  · have hresult : (unpackBundles fuel [.mapping bundle]).result = .ok [] := by
      rw [unpackBundles, unpackAll_pathless hbundle hpath]
      rfl
    refine ⟨by rw [hresult, if_neg hpath], fun heq => ?_, fun hother => absurd hother.1 hpath⟩
    obtain ⟨d, hd⟩ := List.exists_mem_of_ne_nil ds h.ne_nil
    rw [hresult] at heq
    have hkey := hkeys d hd
    rw [← Except.ok.inj heq] at hkey
    exact absurd hkey (by simp [pathKeys])

/-- A bundle with one definition. -/
def bundleOfOne : Text := "define('a.js',function()\x7bx\x7d)"

/-- The bundle as an input with a path. -/
def inputOfOne (path : Text) : Mapping :=
  [(.text "path", .scalar (.text path)), (.text "source", .scalar (.text bundleOfOne))]

theorem inputOfOne_describes (path : Text) : Describes (inputOfOne path) (.text path) bundleOfOne :=
  ⟨rfl, rfl⟩

set_option maxRecDepth 100000 in
theorem bundleOfOne_definesLeaves :
    ∃ source ds, DefinesLeaves bundleOfOne source ds ∧
      ds.length < 2 ∧ (∀ d ∈ ds, d.path = Text.ofString "a.js") ∧
      definedModules source ds = [⟨.text "a.js", "x", none⟩] := by
  have h : ((Source.parse bundleOfOne).toOption.any fun source =>
      decide (BundleKind.ofStatements source.statements = .ok .amd) &&
        (definitions source.statements).toOption.any fun ds =>
          decide ((∀ d ∈ ds, ∃ m ∈ moduleOf? source d, m.source ≠ [] ∧ IsLeaf m) ∧
            ds.length < 2 ∧ (∀ d ∈ ds, d.path = Text.ofString "a.js") ∧
            definedModules source ds = [⟨.text "a.js", "x", none⟩])) = true := by
    decide +kernel
  cases hparse : Source.parse bundleOfOne with
  | error e =>
    rw [hparse] at h
    cases h
  | ok source =>
    cases hds : definitions source.statements with
    | error e => simp [hparse, hds, Except.toOption] at h
    | ok ds =>
      obtain ⟨hkind, hleaves, hmodules⟩ : BundleKind.ofStatements source.statements = .ok .amd ∧
          (∀ d ∈ ds, ∃ m ∈ moduleOf? source d, m.source ≠ [] ∧ IsLeaf m) ∧
            ds.length < 2 ∧ (∀ d ∈ ds, d.path = Text.ofString "a.js") ∧
            definedModules source ds = [⟨.text "a.js", "x", none⟩] := by
        simpa [hparse, hds, Except.toOption] using h
      exact ⟨source, ds, ⟨hparse, hkind, hds, hleaves⟩, hmodules⟩

/-- Under another path, the bundle gives out its module. -/
theorem otherPath_gives_all :
    ∃ source ds, DefinesLeaves bundleOfOne source ds ∧ ds.length < 2 ∧
      Describes (inputOfOne "b.js") (.text "b.js") bundleOfOne ∧
      (unpackBundles 2 [.mapping (inputOfOne "b.js")]).result =
        .ok (firstOfEach (definedModules source ds)) := by
  obtain ⟨source, ds, h, hlength, hpaths, -⟩ := bundleOfOne_definesLeaves
  have hother : ∀ d ∈ ds, Scalar.text "b.js" ≠ .text d.path := by
    intro d hd
    rw [hpaths d hd]
    decide
  obtain ⟨-, hiff⟩ := unpackBundles_container 2 (inputOfOne "b.js") (.text "b.js") bundleOfOne
    source ds h (inputOfOne_describes "b.js") hlength
  exact ⟨source, ds, h, hlength, inputOfOne_describes "b.js", hiff.mpr ⟨by decide, hother⟩⟩

set_option maxRecDepth 100000 in
/-- Under the path of its module, the bundle gives out nothing. -/
theorem ownPath_not_gives_all :
    ∃ source ds, DefinesLeaves bundleOfOne source ds ∧ ds.length < 2 ∧
      Describes (inputOfOne "a.js") (.text "a.js") bundleOfOne ∧
      (unpackBundles 2 [.mapping (inputOfOne "a.js")]).result ≠
        .ok (firstOfEach (definedModules source ds)) := by
  obtain ⟨source, ds, h, hlength, -, hmodules⟩ := bundleOfOne_definesLeaves
  have hnothing : (unpackBundles 2 [.mapping (inputOfOne "a.js")]).result.toOption = some [] := by
    decide +kernel
  refine ⟨source, ds, h, hlength, inputOfOne_describes "a.js", fun heq => ?_⟩
  rw [heq, hmodules] at hnothing
  exact absurd hnothing (by decide)

end Debundle
