import Debundle.Command.Output
import Debundle.Proofs.Storage.Writing
import Mathlib.Data.List.Pairwise

/-!
# Files that modules share

Every module has a file below the output directory.  Its place is found from the path of the module,
and paths that are spelled differently may come to the same components; so a module may take the
place of the file of another one, and only the last module with a place is found there in the end.

Among modules that have all been written, every one is found in its file if and only if those that
have the same place have the same content.

* `targetFor`, `componentsFor`, `filePlace`, `writtenSource`: the file of a module.
* `Stored`: at the place of every module that was written is the content of one of them.
* `leadsTo_writeFrom`: writing keeps this.
* `writeModules_stored_iff`: when the files of all modules have their contents.
-/

namespace Debundle.Command

open World (placeFor)

variable {s : Surroundings} {setup : Setup} {o : Options} {root : Text} {w w' : World}
  {r : Report} {m : SourceModule} {written : List SourceModule}

/-! ## The file of a module -/

/-- The path of a module below the output directory, if it is accepted. -/
def targetFor (o : Options) (root : Text) (m : SourceModule) : Except Path.Refusal Text :=
  Path.safeJoin root (Path.withSuffix m.path.display o.outputSuffix)

/-- The components of the path of a module below the output directory. -/
def componentsFor (o : Options) (m : SourceModule) : Option (List Text) :=
  Path.safeComponents? (Path.withSuffix m.path.display o.outputSuffix)

/-- The place of the file of a module. -/
def filePlace (s : Surroundings) (o : Options) (root : Text) (m : SourceModule) : Option Place :=
  (componentsFor o m).map fun cs => placeFor s root ++ cs.map Text.nameUnits

/-- The source of a module as it is written. -/
def writtenSource (o : Options) (m : SourceModule) : Text :=
  if o.renameExports.isTruthy then
    match renameExports m.source (some m.path.display) with
    | .error _ => m.source
    | .ok changed => changed.source
  else m.source

/-- The path of a module leads to a file with its content. -/
def IsStored (s : Surroundings) (o : Options) (root : Text) (w : World) (m : SourceModule) : Prop :=
  ∃ target, targetFor o root m = .ok target ∧
    w.disk.item? (placeFor s target) = some (.file (writtenSource o m).bytes)

/-- Modules whose files have the same place have the same content. -/
def Agree (s : Surroundings) (o : Options) (root : Text) (m m' : SourceModule) : Prop :=
  filePlace s o root m = filePlace s o root m' →
    (writtenSource o m).bytes = (writtenSource o m').bytes

instance (m m' : SourceModule) : Decidable (Agree s o root m m') :=
  inferInstanceAs (Decidable (_ → _))

instance : Std.Symm (Agree s o root) := ⟨fun _ _ h heq => (h heq.symm).symm⟩

/-- Modules that are both accepted have different paths below the output directory. -/
def Apart (o : Options) (root : Text) (m m' : SourceModule) : Prop :=
  ∀ target target', targetFor o root m = .ok target → targetFor o root m' = .ok target' →
    target ≠ target'

/-- The paths are different if they come to different components. -/
theorem apart_iff {m m' : SourceModule} :
    Apart o root m m' ↔ ∀ cs, componentsFor o m = some cs → componentsFor o m' ≠ some cs := by
  constructor
  · intro hapart cs hcs hcs'
    exact hapart _ _ (Path.safeJoin_eq_ok_iff.mpr ⟨cs, hcs, rfl⟩)
      (Path.safeJoin_eq_ok_iff.mpr ⟨cs, hcs', rfl⟩) rfl
  · intro hdiffer target target' h h' heq
    obtain ⟨cs, hcs, -⟩ := Path.safeJoin_eq_ok_iff.mp h
    exact hdiffer cs hcs (((Path.safeJoin_eq_iff h h').mp heq).symm.trans hcs)

/-- A path that the system knows leads to the place of the file. -/
theorem filePlace_eq {target : Text} (h : targetFor o root m = .ok target)
    (hnameable : target.IsNameable) : filePlace s o root m = some (placeFor s target) := by
  obtain ⟨cs, hcs, rfl⟩ := Path.safeJoin_eq_ok_iff.mp h
  obtain ⟨hne, hnames⟩ := Path.isName_of_safeComponents? hcs
  rw [filePlace, componentsFor, hcs, Option.map_some, placeFor, placeFor,
    Disk.placeAt_lead hne hnames hnameable]

/-! ## What is stored -/

/-- At the place of every module that was written is the content of one of them, and the journal is
elsewhere. -/
def Stored (s : Surroundings) (o : Options) (root : Text) (written : List SourceModule)
    (w : World) : Prop :=
  ∀ m ∈ written, ∃ target, targetFor o root m = .ok target ∧
    filePlace s o root m = some (placeFor s target) ∧ w.journal ≠ some (placeFor s target) ∧
    ∃ m' ∈ written, filePlace s o root m' = some (placeFor s target) ∧
      w.disk.item? (placeFor s target) = some (.file (writtenSource o m').bytes)

/-- Whatever leaves the files and the journal where they are keeps this. -/
theorem Stored.of_frame (h : Stored s o root written w)
    (hitems : ∀ place item, w.journal ≠ some place → w.disk.item? place = some item →
      w'.disk.item? place = some item)
    (hjournal : w'.journal = w.journal) : Stored s o root written w' := by
  intro m hm
  obtain ⟨target, htarget, hplace, hj, m', hm', hplace', hitem⟩ := h m hm
  exact ⟨target, htarget, hplace, hjournal.symm ▸ hj, m', hm', hplace', hitems _ _ hj hitem⟩

theorem Stored.keeps (h : Stored s o root written w) (hkeeps : w.Keeps w') :
    Stored s o root written w' :=
  h.of_frame (fun place item _ => hkeeps.items place item) hkeeps.journal

/-- A module that is written takes the place of those with the same one. -/
theorem Stored.stores (h : Stored s o root written w) {target : Text}
    (htarget : targetFor o root m = .ok target) (hnameable : target.IsNameable)
    (hstores : w.Stores w' (placeFor s target) (writtenSource o m).bytes) :
    Stored s o root (written ++ [m]) w' := by
  have hplace : filePlace s o root m = some (placeFor s target) := filePlace_eq htarget hnameable
  have hjournal : ∀ other, w.journal ≠ some other ∨ other = placeFor s target →
      w'.journal ≠ some other := by
    intro other hother
    rw [hstores.journal]
    split
    · exact fun h => by cases h
    · rename_i hne
      rcases hother with hother | rfl
      · exact hother
      · exact hne
  have hnew : m ∈ written ++ [m] := List.mem_append_right _ (List.mem_singleton_self m)
  refine List.forall_mem_append.mpr ⟨fun m₀ hm₀ => ?_, fun m₀ hm₀ => ?_⟩
  · obtain ⟨target₀, htarget₀, hplace₀, hj, m', hm', hplace', hitem⟩ := h m₀ hm₀
    by_cases hsame : placeFor s target₀ = placeFor s target
    · exact ⟨target₀, htarget₀, hplace₀, hjournal _ (Or.inr hsame), m, hnew, hsame ▸ hplace,
        hsame ▸ hstores.stored⟩
    · exact ⟨target₀, htarget₀, hplace₀, hjournal _ (Or.inl hj), m', List.mem_append_left _ hm',
        hplace', hstores.items _ _ hsame hitem⟩
  · rw [List.mem_singleton.mp hm₀]
    exact ⟨target, htarget, hplace, hjournal _ (Or.inr rfl), m, hnew, hplace, hstores.stored⟩

/-- All modules are found in their files if those with the same place have the same content. -/
theorem Stored.forall_isStored_iff (h : Stored s o root written w) :
    (∀ m ∈ written, IsStored s o root w m) ↔ written.Pairwise (Agree s o root) := by
  constructor
  · intro hall
    have hplaces : ∀ m ∈ written, ∃ place, filePlace s o root m = some place ∧
        w.disk.item? place = some (.file (writtenSource o m).bytes) := by
      intro m hm
      obtain ⟨target, htarget, hitem⟩ := hall m hm
      obtain ⟨target', htarget', hplace, -⟩ := h m hm
      obtain rfl := Except.ok.inj (htarget.symm.trans htarget')
      exact ⟨placeFor s target, hplace, hitem⟩
    refine List.pairwise_of_forall_mem_list fun m hm m' hm' hsame => ?_
    obtain ⟨place, hplace, hitem⟩ := hplaces m hm
    obtain ⟨place', hplace', hitem'⟩ := hplaces m' hm'
    rw [hplace, hplace', Option.some_inj] at hsame
    subst hsame
    rw [hitem] at hitem'
    exact Item.file.inj (Option.some.inj hitem')
  · intro hpairs m hm
    obtain ⟨target, htarget, hplace, -, m', hm', hplace', hitem⟩ := h m hm
    have hsame : (writtenSource o m).bytes = (writtenSource o m').bytes :=
      hpairs.forall_of_forall (fun _ _ _ => rfl) hm hm' (hplace.trans hplace'.symm)
    exact ⟨target, htarget, hsame ▸ hitem⟩

/-! ## Entries and lines -/

/-- The journal is in none of the files. -/
theorem leadsTo_note (h : Stored s o root written w) (entries : List Entry) :
    LeadsTo (note (World.host s) setup entries).run w fun _ w' => Stored s o root written w' := by
  refine (leadsTo_part_lift _ _ _).mpr ((World.leadsTo_note setup entries).mono fun _ w' hw' => ?_)
  exact h.of_frame (fun place item hj hitem => (hw'.1 place hj).trans hitem) hw'.2

theorem leadsTo_printLine (line : Text) :
    LeadsTo (printLine (World.host s) line).run w fun _ w' => w.Keeps w' := by
  refine (World.leadsTo_print _).bind_lift fun res t ht => ?_
  cases res <;> exact ht

theorem leadsTo_printLines (lines : List Text) :
    LeadsTo (lines.forM (printLine (World.host s))).run w fun _ w' => w.Keeps w' := by
  induction lines generalizing w with
  | nil => exact World.Keeps.refl w
  | cons line lines ih =>
    refine (leadsTo_printLine line).bind_part (fun _ _ ht => ht) fun _ t ht => ?_
    exact ih.mono fun _ _ hu => ht.trans hu

theorem leadsTo_announce (total number detailed : Nat) (path source : Text) :
    LeadsTo (announce (World.host s) o total number detailed path source).run w fun _ w' =>
      w.Keeps w' := by
  unfold announce
  split
  · refine ((leadsTo_part_mk _ _ fun _ w' => w' = w).mpr rfl).bind_part ?_ ?_
    · rintro _ _ rfl
      exact World.Keeps.refl _
    · rintro lines _ rfl
      exact (leadsTo_printLines lines).bind_part (fun _ _ ht => ht) fun _ _ ht => ht
  · exact (leadsTo_printLine _).bind_part (fun _ _ ht => ht) fun _ _ ht => ht
  · exact World.Keeps.refl w

/-! ## Modules one after the other -/

theorem leadsTo_prepare (h : Stored s o root written w) :
    LeadsTo (prepare (World.host s) setup o m.path.display m.source r).run w fun res w' =>
      match res with
      | .error _ => True
      | .ok (content, r') =>
        Stored s o root written w' ∧ content = writtenSource o m ∧ r'.paths = r.paths := by
  unfold prepare writtenSource
  split
  · cases renameExports m.source (some m.path.display) with
    | error e => exact trivial
    | ok changed =>
      exact (leadsTo_note h changed.entries).bind_part (fun _ _ _ => trivial)
        fun _ _ ht => ⟨ht, rfl, rfl⟩
  · exact ⟨h, rfl, rfl⟩

/-- A module that is written is stored, and one that is not changes nothing. -/
theorem leadsTo_writeModule (h : Stored s o root written w) :
    LeadsTo (writeModule (World.host s) setup o root m.path.display m.source r).run w fun res w' =>
      match res with
      | .error _ => True
      | .ok (.error _, r') => Stored s o root written w' ∧ r'.paths = r.paths
      | .ok (.ok (), r') => Stored s o root (written ++ [m]) w' ∧ r'.paths = r.paths := by
  unfold writeModule
  split
  · exact ⟨h, rfl⟩
  · rename_i target htarget
    refine (leadsTo_prepare h).bind_part (fun _ _ _ => trivial) fun prepared t ht => ?_
    obtain ⟨content, r₁⟩ := prepared
    obtain ⟨hstored, rfl, hpaths⟩ := ht
    refine (World.leadsTo_writeText target _).bind_lift fun res u hu => ?_
    cases res with
    | ok done =>
      obtain ⟨hnameable, hstores⟩ := hu
      exact ⟨hstored.stores htarget hnameable hstores, hpaths⟩
    | error e =>
      simp only
      split
      · exact ⟨hstored.keeps hu, hpaths⟩
      · exact trivial

/-- Along all modules those that are written are stored, and the report has their paths. -/
theorem leadsTo_writeFrom (total number detailed : Nat) (ms : List SourceModule)
    (h : Stored s o root written w) :
    LeadsTo (writeFrom (World.host s) setup o root total number detailed r ms).run w fun res w' =>
      match res with
      | .error _ => True
      | .ok (r', _) => ∃ more : List SourceModule, more.Sublist ms ∧
        r'.paths = r.paths ++ more.map (fun m => m.path.display) ∧
        Stored s o root (written ++ more) w' := by
  induction ms generalizing number detailed r written w with
  | nil =>
    refine ⟨[], List.Sublist.refl [], (List.append_nil _).symm, ?_⟩
    show Stored s o root (written ++ []) w
    rw [List.append_nil]
    exact h
  | cons m ms ih =>
    refine (leadsTo_writeModule h).bind_part (fun _ _ _ => trivial) fun res t ht => ?_
    obtain ⟨_ | done, r₁⟩ := res
    · obtain ⟨hstored, hpaths⟩ := ht
      refine (leadsTo_note hstored _).bind_part (fun _ _ _ => trivial) fun _ u hu => ?_
      refine (ih _ _ hu).mono fun res v hv => ?_
      cases res with
      | error e => exact trivial
      | ok result =>
        obtain ⟨more, hmore, hpaths', hall⟩ := hv
        exact ⟨more, hmore.cons m, hpaths'.trans (by rw [← hpaths]; rfl), hall⟩
    · obtain ⟨hstored, hpaths⟩ := ht
      refine (leadsTo_announce _ _ _ _ _).bind_part (fun _ _ _ => trivial) fun _ u hu => ?_
      refine (ih _ _ (hstored.keeps hu)).mono fun res v hv => ?_
      cases res with
      | error e => exact trivial
      | ok result =>
        obtain ⟨more, hmore, hpaths', hall⟩ := hv
        refine ⟨m :: more, hmore.cons_cons m, ?_, by simpa using hall⟩
        rw [hpaths', Report.withPath, hpaths]
        simp

theorem leadsTo_writeModules (ms : List SourceModule) :
    LeadsTo (writeModules (World.host s) setup o root ms r).run w fun res w' =>
      match res with
      | .error _ => True
      | .ok r' => ∃ written : List SourceModule, written.Sublist ms ∧
        r'.paths = r.paths ++ written.map (fun m => m.path.display) ∧
        Stored s o root written w' := by
  have hstart : Stored s o root [] w := fun m hm => absurd hm List.not_mem_nil
  refine (leadsTo_writeFrom _ _ _ ms hstart).bind_part (fun _ _ _ => trivial) fun result t ht => ?_
  obtain ⟨written, hsublist, hpaths, hstored⟩ := ht
  have hskipped : LeadsTo (announceSkipped (World.host s) o ms.length result.2).run t
      fun _ u => t.Keeps u := by
    unfold announceSkipped
    split
    · exact leadsTo_printLine _
    · exact World.Keeps.refl t
  exact hskipped.bind_part (fun _ _ _ => trivial) fun _ u hu =>
    ⟨written, hsublist, hpaths, hstored.keeps hu⟩

/-- The paths of modules are different if they come to different components; and after a run every
module whose path is in the report is found in its file if and only if no other one of them has the
same place and another content. -/
theorem writeModules_stored_iff (s : Surroundings) (setup : Setup) (o : Options) (root : Text)
    (ms : List SourceModule) :
    (ms.Pairwise (Apart o root) ↔
      ms.Pairwise fun m m' => ∀ cs, componentsFor o m = some cs → componentsFor o m' ≠ some cs) ∧
    ∀ r r' w w', (writeModules (World.host s) setup o root ms r).run w = (.ok r', w') →
      ∃ written : List SourceModule, written.Sublist ms ∧
        r'.paths = r.paths ++ written.map (fun m => m.path.display) ∧
        ((∀ m ∈ written, IsStored s o root w' m) ↔ written.Pairwise (Agree s o root)) := by
  refine ⟨List.Pairwise.iff fun _ _ => apart_iff, fun r r' w w' hrun => ?_⟩
  have hleads := @leadsTo_writeModules s setup o root w r ms
  rw [LeadsTo, hrun] at hleads
  obtain ⟨written, hsublist, hpaths, hstored⟩ := hleads
  exact ⟨written, hsublist, hpaths, hstored.forall_isStored_iff⟩

/-! ## Two runs -/

/-- A machine that never refuses a step. -/
def willing : Surroundings :=
  ⟨"/", fun n => List.replicate (n + 1) 't', fun _ => none, false, "now", .utf8⟩

/-- Nothing is shown and nothing is renamed. -/
def plainOptions : Options := ⟨.quiet, .scalar (.bool false), ".js", 0, 0, 1, none⟩

/-- Modules with a source each, written below a directory of an empty disk. -/
def plainRun (ms : List SourceModule) : Except Breakdown Report × World :=
  (writeModules (World.host willing) ⟨.quiet, false, false⟩ plainOptions "out" ms Report.empty).run
    (World.ofDisk .empty)

theorem exists_plainRun {ms : List SourceModule} {paths : List Text}
    (h : (plainRun ms).1.toOption.map Report.paths = some paths) :
    ∃ r', plainRun ms = (.ok r', (plainRun ms).2) ∧ r'.paths = paths := by
  rcases hrun : plainRun ms with ⟨_ | r', w'⟩
  · rw [hrun] at h
    cases h
  · rw [hrun] at h
    exact ⟨r', rfl, Option.some.inj h⟩

/-- Two modules that have the same name in different directories. -/
def twoDirectories : List SourceModule :=
  [⟨.text "a.js", "x()", none⟩, ⟨.text "lib\\a", "y()", none⟩]

set_option maxRecDepth 100000 in
/-- Both are found in their files. -/
theorem twoDirectories_stored :
    ∃ r' w', plainRun twoDirectories = (.ok r', w') ∧
      r'.paths = ["a.js", "lib\\a"] ∧
      ∀ m ∈ twoDirectories, IsStored willing plainOptions "out" w' m := by
  obtain ⟨r', hrun, hpaths⟩ :=
    @exists_plainRun twoDirectories ["a.js", "lib\\a"] (by decide +kernel)
  obtain ⟨written, hsublist, hreport, hiff⟩ :=
    (writeModules_stored_iff willing ⟨.quiet, false, false⟩ plainOptions "out" twoDirectories).2
      Report.empty r' (World.ofDisk .empty) _ hrun
  have hall : written = twoDirectories := by
    refine hsublist.eq_of_length ?_
    have hlength := congrArg List.length (hpaths.symm.trans hreport)
    simpa [Report.empty, twoDirectories] using hlength.symm
  subst hall
  exact ⟨r', _, hrun, hpaths, hiff.mpr (by decide +kernel)⟩

/-- A bundle that defines two modules under two spellings of one path. -/
def bundleOfSpellings : Value :=
  .mapping [(.text "path", .scalar (.text "b.js")),
    (.text "source", .scalar (.text
      "define('a.js',function()\x7bx()\x7d);define('./a.js',function()\x7by()\x7d)"))]

/-- The modules of the bundle. -/
def twoSpellings : List SourceModule :=
  [⟨.text "a.js", "x()", none⟩, ⟨.text "./a.js", "y()", none⟩]

set_option maxRecDepth 100000 in
/-- The bundle gives out both modules, they have the same path below the output directory, and both
are reported, but the first one is not found in its file. -/
theorem twoSpellings_not_stored :
    (unpackBundles 3 [bundleOfSpellings]).result.toOption = some twoSpellings ∧
      ¬twoSpellings.Pairwise (Apart plainOptions "out") ∧
      ∃ r' w', plainRun twoSpellings = (.ok r', w') ∧ r'.paths = ["a.js", "./a.js"] ∧
        ¬∀ m ∈ twoSpellings, IsStored willing plainOptions "out" w' m := by
  refine ⟨by decide +kernel, fun hapart => ?_, ?_⟩
  · have hpair := List.rel_of_pairwise_cons hapart (List.mem_singleton_self _)
    exact hpair "out/a.js" "out/a.js" (by decide +kernel) (by decide +kernel) rfl
  · obtain ⟨r', hrun, hpaths⟩ :=
      @exists_plainRun twoSpellings ["a.js", "./a.js"] (by decide +kernel)
    refine ⟨r', _, hrun, hpaths, fun hall => ?_⟩
    obtain ⟨target, htarget, hitem⟩ := hall _ List.mem_cons_self
    have hfirst : targetFor plainOptions "out" ⟨.text "a.js", "x()", none⟩ = .ok "out/a.js" := by
      decide +kernel
    obtain rfl := Except.ok.inj (hfirst.symm.trans htarget)
    -- the second module is there
    exact absurd hitem (by decide +kernel)

end Debundle.Command
