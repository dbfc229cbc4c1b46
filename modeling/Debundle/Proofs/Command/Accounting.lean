import Debundle.Proofs.Command.Announcing
import Debundle.Proofs.Exports.Renamings
import Debundle.Proofs.Storage.Hosts

/-!
# Accounting for every module

Modules are written one after the other, and the report says of every one whether it was written
or why not.  A failure that is a refusal of the system, or a path that leads out of the output
directory, is an error in the report.  A path without bytes is neither: it breaks the writing off,
and the modules behind it are not written.  So does a line that the output has no bytes for, which
is printed after the module was written.

So every module is accounted for on every host if and only if every path below the output directory
has bytes, and every path that may have to be shown can be printed.

* `Accounts`: a report that says what became of some modules.
* `HasFile`: the path of a module below the output directory has bytes.
* `succeeds_writeFrom`: on a faithful host all modules that have files and can be shown are
  accounted for.
* `yields_writeFrom_hasFile`, `exists_writeFrom_error`: other modules break the writing off on some
  host.
* `writeModules_accounts_iff`: the equivalence.
-/

namespace Debundle.Command

variable {σ : Type} {h : Host (StateM σ)} {out : Encoding} {setup : Setup} {o : Options}
  {root : Text} {r r' r'' : Report} {m : SourceModule} {ms : List SourceModule}

/-! ## Reports -/

/-- What became of a module: the reason if it was not written. -/
abbrev Fate := SourceModule × Option Text

/-- The path of a module that was written. -/
def Fate.path? (f : Fate) : Option Text :=
  match f.2 with
  | none => some f.1.path.display
  | some _ => none

/-- What is said of a module that was not written. -/
def Fate.error? (f : Fate) : Option Text := f.2.map fun reason => f.1.path.display ++ ": " ++ reason

/-- A report says what became of some modules, in addition to another report. -/
structure Accounts (r r' : Report) (fates : List Fate) : Prop where
  /-- Those that were written, in order. -/
  paths : r'.paths = r.paths ++ fates.filterMap Fate.path?
  /-- Those that were not, in order. -/
  errors : r'.errors = r.errors ++ fates.filterMap Fate.error?
  /-- How many were written. -/
  written : r'.written = r.written + (fates.filterMap Fate.path?).length

theorem accounts_nil (hpaths : r'.paths = r.paths) (herrors : r'.errors = r.errors)
    (hwritten : r'.written = r.written) : Accounts r r' [] :=
  ⟨hpaths.trans (List.append_nil _).symm, herrors.trans (List.append_nil _).symm,
    hwritten.trans (Int.add_zero _).symm⟩

theorem Accounts.trans {fates fates' : List Fate} (hr : Accounts r r' fates)
    (hr' : Accounts r' r'' fates') : Accounts r r'' (fates ++ fates') := by
  refine ⟨?_, ?_, ?_⟩
  · rw [hr'.paths, hr.paths, List.filterMap_append, List.append_assoc]
  · rw [hr'.errors, hr.errors, List.filterMap_append, List.append_assoc]
  · rw [hr'.written, hr.written, List.filterMap_append, List.length_append]
    omega

theorem accounts_withPath (r : Report) (m : SourceModule) :
    Accounts r (r.withPath m.path.display) [(m, none)] :=
  ⟨rfl, (List.append_nil _).symm, rfl⟩

theorem accounts_withError (r : Report) (m : SourceModule) (reason : Text) :
    Accounts r (r.withError m.path.display reason) [(m, some reason)] :=
  ⟨(List.append_nil _).symm, rfl, (Int.add_zero _).symm⟩

/-- Every module is counted once. -/
theorem Accounts.total {fates : List Fate} (hr : Accounts r r' fates) :
    r'.written + r'.errors.length = r.written + r.errors.length + fates.length := by
  have hfates : (fates.filterMap Fate.path?).length + (fates.filterMap Fate.error?).length =
      fates.length := by
    clear hr
    induction fates with
    | nil => rfl
    | cons f fates ih =>
      obtain ⟨m, _ | reason⟩ := f <;>
        simp only [List.filterMap_cons, Fate.path?, Fate.error?, Option.map_none, Option.map_some,
          List.length_cons] <;> omega
  rw [hr.written, hr.errors, List.length_append]
  omega

/-! ## Modules with files -/

/-- The path of a module below the output directory, if it is accepted, has bytes. -/
def HasFile (o : Options) (root : Text) (m : SourceModule) : Prop :=
  ∀ target, targetFor o root m = .ok target → target.IsNameable

instance (o : Options) (root : Text) (m : SourceModule) : Decidable (HasFile o root m) :=
  inferInstanceAs (Decidable (∀ target, targetFor o root m = .ok target → target.IsNameable))

/-! ## Faithful hosts -/

theorem succeeds_prepare (hscalar : m.source.IsScalar) :
    Succeeds (prepare h setup o m.path.display m.source r) fun p =>
      p.1.IsScalar ∧ Accounts r p.2 [] := by
  unfold prepare
  split
  · obtain ⟨changed, hchanged, hscalar'⟩ := exists_renameExports m.source (some m.path.display)
    rw [hchanged]
    refine (succeeds_lift (yields_true _)).bind fun _ _ => ?_
    exact succeeds_pure ⟨hscalar' hscalar, accounts_nil rfl rfl rfl⟩
  · exact succeeds_pure ⟨hscalar, accounts_nil rfl rfl rfl⟩

/-- A module with a file is written or refused. -/
theorem succeeds_writeModule (hh : h.IsFaithful out) (hscalar : m.source.IsScalar)
    (hfile : HasFile o root m) :
    Succeeds (writeModule h setup o root m.path.display m.source r) fun p =>
      Accounts r p.2 [] ∧ (p.1 = .ok () → ∃ target, targetFor o root m = .ok target) := by
  unfold writeModule
  split
  · exact succeeds_pure ⟨accounts_nil rfl rfl rfl, fun hok => by cases hok⟩
  · rename_i target htarget
    refine (succeeds_prepare hscalar).bind fun prepared hprepared => ?_
    obtain ⟨content, r'⟩ := prepared
    obtain ⟨hcontent, hr'⟩ := hprepared
    refine (succeeds_lift (hh.writeText (hfile target htarget) hcontent)).bind fun res hres => ?_
    split
    · exact succeeds_pure ⟨hr', fun _ => ⟨target, htarget⟩⟩
    · rw [if_pos (failsIn_error_iff.mp hres)]
      exact succeeds_pure ⟨hr', fun hok => by cases hok⟩

/-- On a faithful host all modules with files that can be shown are accounted for. -/
theorem succeeds_writeFrom (hh : h.IsFaithful out) (total number detailed : Nat)
    (hscalar : ∀ m ∈ ms, m.source.IsScalar) (hfiles : ∀ m ∈ ms, HasFile o root m)
    (hshown : ∀ m ∈ ms, IsShowable out o root total m) :
    Succeeds (writeFrom h setup o root total number detailed r ms) fun p =>
      ∃ fates : List Fate, fates.map Prod.fst = ms ∧ Accounts r p.1 fates := by
  induction ms generalizing number detailed r with
  | nil => exact succeeds_pure ⟨[], rfl, accounts_nil rfl rfl rfl⟩
  | cons m ms ih =>
    obtain ⟨hm, hscalar⟩ := List.forall_mem_cons.mp hscalar
    obtain ⟨hfile, hfiles⟩ := List.forall_mem_cons.mp hfiles
    obtain ⟨hshow, hshown⟩ := List.forall_mem_cons.mp hshown
    refine (succeeds_writeModule hh hm hfile).bind fun result hresult => ?_
    obtain ⟨reason | done, r₁⟩ := result
    · refine (succeeds_lift (yields_true _)).bind fun _ _ => ?_
      refine (ih _ _ hscalar hfiles hshown).mono fun p hp => ?_
      obtain ⟨fates, hfates, hr'⟩ := hp
      refine ⟨(m, some reason) :: fates, by rw [List.map_cons, hfates], ?_⟩
      exact (hresult.1.trans (accounts_withError r₁ m reason)).trans hr'
    · obtain ⟨target, htarget⟩ := hresult.2 rfl
      have hpath := fun hshows => hshow hshows target htarget
      refine (succeeds_announce hh _ _ hm hpath).bind fun _ _ => ?_
      refine (ih _ _ hscalar hfiles hshown).mono fun p hp => ?_
      obtain ⟨fates, hfates, hr'⟩ := hp
      refine ⟨(m, none) :: fates, by rw [List.map_cons, hfates], ?_⟩
      exact (hresult.1.trans (accounts_withPath r₁ m)).trans hr'

/-! ## Hosts that refuse nothing -/

/-- Where nothing is refused, a module that does not break the writing off has a file. -/
theorem yields_writeModule_hasFile (hh : h.IsFaithful out) (hn : h.NeverRefuses) :
    Yields (writeModule h setup o root m.path.display m.source r).run fun res =>
      ∀ p, res = .ok p → HasFile o root m := by
  unfold writeModule
  split
  · rename_i hrefused
    refine fun _ p _ target htarget => ?_
    rw [targetFor, hrefused] at htarget
    cases htarget
  · rename_i target htarget
    refine (yields_true _).bind_part (fun _ _ _ hok => by cases hok) fun prepared _ => ?_
    refine ((hh.of_writeText target _).and (hn.writeText target _)).bind_lift
      fun res hres => ?_
    cases res with
    | ok done =>
      intro _ p _ target' htarget'
      rw [targetFor, htarget] at htarget'
      cases htarget'
      exact (hres.1 rfl).1
    | error e =>
      simp only [failsIn_error_iff.mp hres.2]
      exact fun _ p hok => by cases hok

theorem yields_writeFrom_hasFile (hh : h.IsFaithful out) (hn : h.NeverRefuses)
    (total number detailed : Nat) :
    Yields (writeFrom h setup o root total number detailed r ms).run fun res =>
      ∀ p, res = .ok p → ∀ m ∈ ms, HasFile o root m := by
  induction ms generalizing number detailed r with
  | nil => exact fun _ _ _ m hm => absurd hm List.not_mem_nil
  | cons m ms ih =>
    refine (yields_writeModule_hasFile hh hn).bind_part (fun _ _ _ hok => by cases hok)
      fun result hfile => ?_
    have hrest : ∀ number detailed r,
        Yields (writeFrom h setup o root total number detailed r ms).run fun res =>
          ∀ p, res = .ok p → ∀ m' ∈ m :: ms, HasFile o root m' :=
      fun number detailed r => (ih number detailed).mono fun res hres p hok =>
        List.forall_mem_cons.mpr ⟨hfile result rfl, hres p hok⟩
    obtain ⟨reason | done, r₁⟩ := result
    · exact (yields_true _).bind_part (fun _ _ _ hok => by cases hok) fun _ _ => hrest _ _ _
    · exact (yields_true _).bind_part (fun _ _ _ hok => by cases hok) fun _ _ => hrest _ _ _

/-! ## Hosts that refuse for a while -/

/-- Entries are shown without another refusal. -/
theorem leadsTo_note_grudging (entries : List Entry) (n : Nat) :
    LeadsTo (note (Host.grudging out) setup entries).run n fun res t => res = .ok () ∧ t = n := by
  refine (leadsTo_part_lift _ _ _).mpr ?_
  unfold Host.note
  split
  · exact ⟨rfl, rfl⟩
  · exact ⟨rfl, rfl⟩

theorem leadsTo_prepare_grudging (hscalar : m.source.IsScalar) (n : Nat) :
    LeadsTo (prepare (Host.grudging out) setup o m.path.display m.source r).run n fun res t =>
      (∃ p, res = .ok p ∧ p.1.IsScalar) ∧ t = n := by
  unfold prepare
  split
  · obtain ⟨changed, hchanged, hscalar'⟩ := exists_renameExports m.source (some m.path.display)
    rw [hchanged]
    refine (leadsTo_note_grudging changed.entries n).bind_part (fun _ _ h => by cases h.1) ?_
    rintro _ t ⟨-, rfl⟩
    exact ⟨⟨_, rfl, hscalar' hscalar⟩, rfl⟩
  · exact ⟨⟨_, rfl, hscalar⟩, rfl⟩

/-- A module with a file is written if nothing is left to be refused, and refused otherwise. -/
theorem leadsTo_writeModule_grudging (hscalar : m.source.IsScalar) {target : Text}
    (htarget : targetFor o root m = .ok target) (hnameable : target.IsNameable) (n : Nat) :
    LeadsTo (writeModule (Host.grudging out) setup o root m.path.display m.source r).run n
      fun res t => ∃ written r', res = .ok (written, r') ∧
        match n with
        | 0 => written = .ok () ∧ t = 0
        | n + 1 => (∃ reason, written = .error reason) ∧ t = n := by
  unfold writeModule
  rw [targetFor] at htarget
  rw [htarget]
  refine (leadsTo_prepare_grudging hscalar n).bind_part
    (fun _ _ h => by obtain ⟨⟨_, he, -⟩, -⟩ := h; cases he) ?_
  rintro ⟨content, r'⟩ t ⟨⟨p, hp, hcontent⟩, rfl⟩
  cases hp
  refine (Host.leadsTo_writeText_grudging hnameable hcontent t).bind_lift fun res u hu => ?_
  cases t with
  | zero =>
    obtain ⟨rfl, rfl⟩ := hu
    exact ⟨_, _, rfl, rfl, rfl⟩
  | succ n =>
    obtain ⟨⟨e, rfl, he⟩, rfl⟩ := hu
    simp only [he, if_true]
    exact ⟨_, _, rfl, ⟨_, rfl⟩, rfl⟩

/-- After a module that is refused the other ones follow. -/
theorem leadsTo_writeFrom_refused {total n k : Nat}
    (hm : ∀ r, LeadsTo
      (writeModule (Host.grudging out) setup o root m.path.display m.source r).run n fun res t =>
        ∃ reason r', res = .ok (.error reason, r') ∧ t = k)
    (hms : ∀ number r, LeadsTo
      (writeFrom (Host.grudging out) setup o root total number 0 r ms).run k
        fun res _ => ∃ e, res = .error e) (number : Nat) (r : Report) :
    LeadsTo (writeFrom (Host.grudging out) setup o root total number 0 r (m :: ms)).run n
      fun res _ => ∃ e, res = .error e := by
  unfold writeFrom
  refine (hm r).bind_part (fun e _ _ => ⟨e, rfl⟩) ?_
  rintro _ t ⟨reason, r', hok, rfl⟩
  cases hok
  refine (leadsTo_note_grudging _ t).bind_part (fun e _ _ => ⟨e, rfl⟩) ?_
  rintro _ _ ⟨-, rfl⟩
  exact hms _ _

/-- If a module cannot be shown, it breaks the writing off on a host that refuses the modules in
front of it. -/
theorem exists_writeFrom_error (total : Nat) (hscalar : ∀ m ∈ ms, m.source.IsScalar)
    (hfiles : ∀ m ∈ ms, HasFile o root m) (hbad : ∃ m ∈ ms, ¬IsShowable out o root total m) :
    ∃ n, ∀ number r, LeadsTo (writeFrom (Host.grudging out) setup o root total number 0 r ms).run n
      fun res _ => ∃ e, res = .error e := by
  induction ms with
  | nil =>
    obtain ⟨m, hm, -⟩ := hbad
    exact absurd hm List.not_mem_nil
  | cons m ms ih =>
    obtain ⟨hm, hscalar⟩ := List.forall_mem_cons.mp hscalar
    obtain ⟨hfile, hfiles⟩ := List.forall_mem_cons.mp hfiles
    by_cases hshow : IsShowable out o root total m
    · obtain ⟨n, hn⟩ := ih hscalar hfiles (by
        obtain ⟨m', hm', hbad⟩ := hbad
        rcases List.mem_cons.mp hm' with rfl | hm'
        · exact absurd hshow hbad
        · exact ⟨m', hm', hbad⟩)
      cases htarget : targetFor o root m with
      | error refusal =>
        refine ⟨n, leadsTo_writeFrom_refused (fun r => ?_) hn⟩
        unfold writeModule
        rw [targetFor] at htarget
        rw [htarget]
        exact ⟨_, _, rfl, rfl⟩
      | ok target =>
        refine ⟨n + 1, leadsTo_writeFrom_refused (fun r => ?_) hn⟩
        refine (leadsTo_writeModule_grudging hm htarget (hfile target htarget) (n + 1)).mono ?_
        rintro _ _ ⟨_, r', rfl, ⟨reason, rfl⟩, rfl⟩
        exact ⟨reason, r', rfl, rfl⟩
    · -- this one is the first that is written
      unfold IsShowable at hshow
      push Not at hshow
      obtain ⟨hshows, target, htarget, hpath⟩ := hshow
      refine ⟨0, fun number r => ?_⟩
      unfold writeFrom
      refine (leadsTo_writeModule_grudging hm htarget (hfile target htarget) 0).bind_part
        (fun e _ _ => ⟨e, rfl⟩) ?_
      rintro _ t ⟨_, r', hok, rfl, rfl⟩
      cases hok
      refine (yields_announce_error Host.grudging_isFaithful number hm hshows hpath 0).bind_part
        (fun e _ _ => ⟨e, rfl⟩) fun _ _ hok => ?_
      obtain ⟨e, he⟩ := hok
      cases he

/-! ## All modules -/

/-- Modules whose sources have bytes are all accounted for on every faithful host, in order and once
each, if and only if every path below the output directory has bytes, and every path of a module
that may be written and shown can be printed. -/
theorem writeModules_accounts_iff (out : Encoding) (setup : Setup) (o : Options) (root : Text)
    (ms : List SourceModule) (hscalar : ∀ m ∈ ms, m.source.IsScalar) :
    (∀ (σ : Type) (h : Host (StateM σ)), h.IsFaithful out → ∀ (r : Report) (s : σ),
      ∃ r' fates, ((writeModules h setup o root ms r).run s).1 = .ok r' ∧
        fates.map Prod.fst = ms ∧ Accounts r r' fates ∧
        r'.written + r'.errors.length = r.written + r.errors.length + ms.length) ↔
      ∀ m ∈ ms, HasFile o root m ∧ IsShowable out o root ms.length m := by
  constructor
  · intro hall
    have hfiles : ∀ m ∈ ms, HasFile o root m := by
      obtain ⟨r', fates, hrun, -⟩ :=
        hall Unit (Host.obliging out) Host.obliging_isFaithful Report.empty ()
      have hyields : Yields (σ := Unit)
          (writeModules (Host.obliging out) setup o root ms Report.empty).run fun res =>
            ∀ p, res = .ok p → ∀ m ∈ ms, HasFile o root m := by
        refine (yields_writeFrom_hasFile Host.obliging_isFaithful Host.obliging_neverRefuses _ _ _
          ).bind_part (fun _ _ _ hok => by cases hok) fun result hfiles => ?_
        exact (yields_true _).bind_part (fun _ _ _ hok => by cases hok)
          fun _ _ _ _ _ => hfiles result rfl
      exact hyields () r' hrun
    refine fun m hm => ⟨hfiles m hm, ?_⟩
    by_contra hbad
    obtain ⟨n, hn⟩ := exists_writeFrom_error ms.length hscalar hfiles ⟨m, hm, hbad⟩
    obtain ⟨r', fates, hrun, -⟩ :=
      hall Nat (Host.grudging out) Host.grudging_isFaithful Report.empty n
    have herror : LeadsTo (writeModules (Host.grudging out) setup o root ms Report.empty).run n
        fun res _ => ∃ e, res = .error e :=
      (hn 1 Report.empty).bind_part (fun e _ _ => ⟨e, rfl⟩) fun _ _ hok => by
        obtain ⟨e, he⟩ := hok
        cases he
    obtain ⟨e, he⟩ := herror
    cases hrun.symm.trans he
  · intro hfiles σ h hh r s
    have hsucceeds : Succeeds (writeModules h setup o root ms r) fun r' =>
        ∃ fates : List Fate, fates.map Prod.fst = ms ∧ Accounts r r' fates := by
      refine (succeeds_writeFrom hh _ _ _ hscalar (fun m hm => (hfiles m hm).1)
        fun m hm => (hfiles m hm).2).bind fun result hresult => ?_
      exact (succeeds_announceSkipped hh _ _).bind fun _ _ => succeeds_pure hresult
    obtain ⟨r', hrun, fates, hfates, hr'⟩ := hsucceeds s
    refine ⟨r', fates, hrun, hfates, hr', ?_⟩
    rw [hr'.total, ← hfates, List.length_map]

/-- A module that is written, one whose path leads out of the output directory, and one whose path
has a surrogate that stands for a byte. -/
def unusualPaths : List SourceModule :=
  [⟨.text "a.js", "x()", none⟩, ⟨.text "../b.js", "y()", none⟩,
    ⟨.text [CodePoint.ofEscapedByte 0x80], "z()", none⟩]

/-- All of them are accounted for on every faithful host that prints UTF-8, as long as they are not
shown. -/
theorem unusualPaths_accounted :
    (∀ m ∈ unusualPaths, m.source.IsScalar) ∧
      ∀ (σ : Type) (h : Host (StateM σ)), h.IsFaithful .utf8 → ∀ (r : Report) (s : σ),
        ∃ r' fates,
          ((writeModules h ⟨.quiet, false, false⟩ plainOptions "out" unusualPaths r).run s).1 =
            .ok r' ∧
          fates.map Prod.fst = unusualPaths ∧ Accounts r r' fates ∧
          r'.written + r'.errors.length = r.written + r.errors.length + 3 :=
  ⟨by decide, (writeModules_accounts_iff .utf8 _ plainOptions "out" unusualPaths (by decide)).mpr
    fun m hm => ⟨(by decide +kernel : ∀ m ∈ unusualPaths, HasFile plainOptions "out" m) m hm,
      fun hshows => absurd hshows (by decide)⟩⟩

/-- If they are shown, the last of them breaks the writing off where UTF-8 is printed. -/
example : ∃ m ∈ unusualPaths,
    ¬IsShowable .utf8 { plainOptions with verbosity := .verbose } "out" 3 m := by
  decide +kernel

/-- A module whose path has a surrogate that stands for nothing, and another one behind it. -/
def loneSurrogate : List SourceModule :=
  [⟨.text (⟨0xD800, by decide⟩ :: ".js"), "a()", none⟩, ⟨.text "ok.js", "b()", none⟩]

set_option maxRecDepth 100000 in
/-- The machine is faithful and refuses nothing, but the first of them breaks the writing off. -/
theorem loneSurrogate_not_accounted :
    (World.host willing).IsFaithful .utf8 ∧ (∀ m ∈ loneSurrogate, m.source.IsScalar) ∧
      (¬∃ r', (plainRun loneSurrogate).1 = .ok r') ∧
      ∀ entry ∈ (plainRun loneSurrogate).2.disk.items, entry.2 = .directory := by
  have hnames : ∀ n, (willing.temporaryName n).IsNameable := fun n c hc => by
    rw [List.eq_of_mem_replicate hc]
    decide
  refine ⟨World.host_isFaithful (s := willing) (by decide) hnames, by decide, ?_,
    by decide +kernel⟩
  rintro ⟨r', hr'⟩
  have hnone : (plainRun loneSurrogate).1.toOption.isNone = true := by decide +kernel
  rw [hr'] at hnone
  cases hnone

end Debundle.Command
