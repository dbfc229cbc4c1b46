import Debundle.Proofs.Storage.Faults

/-!
# Hosts without a disk

To show that something is needed on every host, hosts are wanted on which it is missed.  The ones
here have no disk: nothing is ever there, and every step on paths with bytes is done, whatever it is
about.  One of them refuses nothing.  The other one refuses to put files in their places, but only so
many times, and so lets some module be the first one that is written.

* `Host.obliging`: a host that refuses nothing.
* `Host.grudging`: a host that refuses for a while.
* `Host.leadsTo_writeText_grudging`: what becomes of a file on it.
-/

namespace Debundle

namespace Host

variable {σ α : Type} {out : Encoding}

/-- A host without a disk: every step on paths with bytes is done, and nothing is there. -/
def obliging (out : Encoding) : Host (StateM σ) where
  workingDirectory := return "/"
  readFile path := return (systemPath path).map fun _ => []
  makeDirectory path := return (systemPath path).map fun _ => ()
  isPresent _ := return false
  isDirectory _ := return false
  createTemporary directory := return (systemPath directory).map fun _ => Path.child directory "t"
  fill path _ := return (systemPath path).map fun _ => ()
  replace path target :=
    return (systemPath path).bind fun _ => (systemPath target).map fun _ => ()
  remove path := return (systemPath path).map fun _ => ()
  openJournal path := return (systemPath path).map fun _ => ()
  appendJournal _ := return ()
  print text := return out.check text
  printError _ := return ()
  terminal := return false
  now := return []

theorem failsByForm_map_systemPath {path : Text} (f : Bytes → α) :
    FailsByForm ((systemPath path).map f) ↔ ¬path.IsNameable := by
  rw [← exists_systemPath_iff]
  cases hpath : systemPath path with
  | error e =>
    have hform := systemPath_isRefusal hpath
    exact ⟨fun _ ⟨_, h⟩ => (by cases h), fun _ => failsByForm_error_iff.mpr hform⟩
  | ok bytes =>
    exact ⟨fun h => absurd h (not_failsByForm_ok _), fun h => absurd ⟨bytes, rfl⟩ h⟩

theorem failsIn_map_systemPath {path : Text} (f : Bytes → α) :
    FailsIn (fun e => e.isRefusal = false) ((systemPath path).map f) := by
  cases hpath : systemPath path with
  | error e => exact failsIn_error_iff.mpr (systemPath_isRefusal hpath)
  | ok bytes => exact failsIn_ok _

theorem obliging_neverRefuses : (obliging out : Host (StateM σ)).NeverRefuses where
  makeDirectory _ _ := yields_pure (failsIn_map_systemPath _)
  createTemporary _ _ := yields_pure ⟨failsIn_map_systemPath _, fun _ _ => trivial⟩
  fill _ _ _ := yields_pure (failsIn_map_systemPath _)
  replace path target _ _ := by
    refine yields_pure ?_
    cases hpath : systemPath path with
    | error e => exact failsIn_error_iff.mpr (systemPath_isRefusal hpath)
    | ok bytes => exact failsIn_map_systemPath _
  remove _ _ := yields_pure (failsIn_map_systemPath _)

theorem obliging_isFaithful : (obliging out : Host (StateM σ)).IsFaithful out where
  makeDirectory _ := yields_pure (failsByForm_map_systemPath _)
  createTemporary directory hdirectory := by
    refine yields_pure ⟨fun hform => (failsByForm_map_systemPath _).mp hform hdirectory, ?_⟩
    intro path hpath
    rw [systemPath_eq_ok_iff.mpr ⟨hdirectory, rfl⟩] at hpath
    cases hpath
    exact Path.child_isNameable hdirectory (by decide)
  fill _ _ := yields_pure (failsByForm_map_systemPath _)
  replace path target := by
    refine yields_pure ?_
    cases hpath : systemPath path with
    | error e =>
      have hform := systemPath_isRefusal hpath
      refine ⟨fun _ hboth => ?_, fun _ => failsByForm_error_iff.mpr hform⟩
      rw [systemPath_eq_ok_iff.mpr ⟨hboth.1, rfl⟩] at hpath
      cases hpath
    | ok bytes =>
      have hnameable := (systemPath_eq_ok_iff.mp hpath).1
      refine (failsByForm_map_systemPath _).trans (not_congr ?_)
      exact ⟨fun htarget => ⟨hnameable, htarget⟩, fun hboth => hboth.2⟩
  remove _ := yields_pure (failsByForm_map_systemPath _)
  print _ := yields_pure Encoding.check_eq_ok_iff

/-! ## A host that refuses for a while -/

/-- Putting a file in its place is refused as often as the state says. -/
def grudge (path target : Text) : StateM Nat (Except StorageError Unit) :=
  match (systemPath path).bind fun _ => (systemPath target).map fun _ => () with
  | .error e => return .error e
  | .ok () => fun n =>
    match n with
    | 0 => (.ok (), 0)
    | n + 1 => (.error (.refused .denied path (some target)), n)

/-- A host that does every step but the last one of writing a file, and this one after it has
refused it some times. -/
def grudging (out : Encoding) : Host (StateM Nat) := { obliging out with replace := grudge }

theorem grudging_isFaithful : (grudging out).IsFaithful out :=
  have hobliging : (obliging out : Host (StateM Nat)).IsFaithful out := obliging_isFaithful
  { hobliging with
    replace := fun path target n => by
      have hform : FailsByForm ((systemPath path).bind fun _ => (systemPath target).map fun _ => ())
          ↔ ¬(path.IsNameable ∧ target.IsNameable) := hobliging.replace path target n
      show LeadsTo (grudge path target) n _
      unfold LeadsTo grudge
      cases hpaths : (systemPath path).bind fun _ => (systemPath target).map fun _ => () with
      | error e => rwa [hpaths] at hform
      | ok done =>
        rw [hpaths] at hform
        have hnot := hform.not.mp (not_failsByForm_ok ())
        cases n with
        | zero => exact hform
        | succ n =>
          exact ⟨fun h => absurd h (not_failsByForm_refused _ _ _), fun h => absurd h hnot⟩
  }

/-- What becomes of writing a file: it is written if nothing is left to be refused, and refused
otherwise. -/
def Grudges (n : Nat) (r : Except StorageError Unit) (t : Nat) : Prop :=
  match n with
  | 0 => r = .ok () ∧ t = 0
  | n + 1 => (∃ e, r = .error e ∧ e.isRefusal = true) ∧ t = n

theorem grudging_ensureOne {path : Text} (hpath : path.IsNameable) :
    (grudging out).ensureOne path = pure (.ok ()) := by
  simp only [ensureOne, grudging, obliging, systemPath_eq_ok_iff.mpr ⟨hpath, rfl⟩, Except.map,
    pure_bind]

theorem grudging_ensureAncestors {paths : List Text} (hpaths : ∀ path ∈ paths, path.IsNameable) :
    (grudging out).ensureAncestors paths = pure (.ok ()) := by
  induction paths with
  | nil => rfl
  | cons path above ih =>
    obtain ⟨hpath, habove⟩ := List.forall_mem_cons.mp hpaths
    rw [ensureAncestors, ih habove]
    simp only [grudging_ensureOne hpath, pure_bind]
    rfl

theorem directoryFor_isNameable {path : Text} (hpath : path.IsNameable) :
    (directoryFor path).IsNameable := by
  unfold directoryFor
  simp only
  split
  · decide
  · exact hpath.of_subset (Path.directoryOf_subset path)

theorem grudging_ensureDirectory {path : Text} (hpath : path.IsNameable) :
    (grudging out).ensureDirectory path = pure (.ok ()) := by
  rw [ensureDirectory, grudging_ensureAncestors fun ancestor hmem =>
    hpath.of_subset (Path.ancestors_subset hmem)]
  simp only [grudging_ensureOne hpath, pure_bind]

theorem leadsTo_grudge {path target : Text} (hpath : path.IsNameable)
    (htarget : target.IsNameable) (n : Nat) : LeadsTo (grudge path target) n (Grudges n) := by
  unfold LeadsTo grudge
  simp only [systemPath_eq_ok_iff.mpr ⟨hpath, rfl⟩, systemPath_eq_ok_iff.mpr ⟨htarget, rfl⟩,
    Except.bind, Except.map]
  cases n with
  | zero => exact ⟨rfl, rfl⟩
  | succ n => exact ⟨⟨_, rfl, rfl⟩, rfl⟩

/-- A file at a path with bytes is written, or refused once more. -/
theorem leadsTo_writeText_grudging {path content : Text} (hpath : path.IsNameable)
    (hcontent : content.IsScalar) (n : Nat) :
    LeadsTo ((grudging out).writeText path content) n (Grudges n) := by
  have hdirectory := directoryFor_isNameable hpath
  have htemporary : (Path.child (directoryFor path) "t").IsNameable :=
    Path.child_isNameable hdirectory (by decide)
  have hcreate : (grudging out).createTemporary (directoryFor path) =
      pure (.ok (Path.child (directoryFor path) "t")) := by
    simp only [grudging, obliging, systemPath_eq_ok_iff.mpr ⟨hdirectory, rfl⟩, Except.map]
  have hfill : ∀ bytes, (grudging out).fill (Path.child (directoryFor path) "t") bytes =
      pure (.ok ()) := fun bytes => by
    simp only [grudging, obliging, systemPath_eq_ok_iff.mpr ⟨htemporary, rfl⟩, Except.map]
  have hdiscard : ∀ reason, (grudging out).discard (Path.child (directoryFor path) "t") reason =
      pure reason := fun reason => by
    simp only [discard, grudging, obliging, systemPath_eq_ok_iff.mpr ⟨htemporary, rfl⟩, Except.map,
      pure_bind]
  have hpublish : (grudging out).publish (Path.child (directoryFor path) "t") path content =
      grudge (Path.child (directoryFor path) "t") path := by
    rw [publish, contentBytes_eq_ok_iff.mpr ⟨hcontent, rfl⟩]
    simp only [hfill, pure_bind]
    rfl
  rw [writeText, writeThrough, grudging_ensureDirectory hdirectory]
  simp only [pure_bind, hcreate, hpublish, hdiscard]
  refine (leadsTo_grudge htemporary hpath n).bind fun r t ht => ?_
  cases r <;> exact ht

end Host
end Debundle
