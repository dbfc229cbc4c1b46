import Debundle.Proofs.Bundle.Skipping
import Debundle.Proofs.Session.Identity
import Debundle.Proofs.Unpack.Seen

/-!
# Leaves among leaves

A module is a leaf if nothing is found in it.  For a packed bundle this depends on the session: one
that has no module of its own gives out what other bundles showed.  But bundles that show nothing
but stand-ins show nothing together, either, so what is a leaf by itself is a leaf among leaves.

* `IsLeaf`: nothing is found in a module by itself.
* `Session.StandInsOnly`: all modules that were seen only stand for others.
* `unpackPacked_eq_nil_iff`: when a packed bundle gives no modules.
* `Progress.IsQuiet`: there was nothing but leaves.
* `expand_of_isLeaf`: a leaf among leaves.
-/

namespace Debundle

open Debundle.Action Script

/-- Nothing is found in a module by itself. -/
def IsLeaf (m : SourceModule) : Prop := ((expand m).run Progress.start).result = .ok []

instance (m : SourceModule) : Decidable (IsLeaf m) :=
  inferInstanceAs (Decidable (_ = _))

namespace Session

variable {s : Session} {vs ws : List Sighting}

/-- All modules that were read completely only stand for others. -/
def StandInsOnly (vs : List Sighting) : Prop :=
  ∀ v ∈ vs, v.ending = .complete → v.isStub = true

theorem StandInsOnly.nil : StandInsOnly [] := fun _ hv => absurd hv (by simp)

theorem StandInsOnly.append (hvs : StandInsOnly vs) (hws : StandInsOnly ws) :
    StandInsOnly (vs ++ ws) := by
  intro v hv
  rcases List.mem_append.mp hv with hv | hv
  · exact hvs v hv
  · exact hws v hv

/-- No record is more than a stand-in if and only if no module that was seen is. -/
theorem Traced.liveRecords_eq_nil_iff (hs : Traced vs s) :
    s.liveRecords = [] ↔ StandInsOnly vs := by
  rw [List.eq_nil_iff_forall_not_mem]
  constructor
  · intro hnone v hv hcomplete
    have howner : (owner vs v.digest).isSome = true := by
      rw [owner, Option.isSome_map, List.find?_isSome]
      exact ⟨v, hv, by simp⟩
    obtain ⟨id, hid⟩ := Option.isSome_iff_exists.mp howner
    obtain ⟨kept, hkept, hlive⟩ := hs.exists_kept hv hcomplete hid
    by_contra hstub
    exact hnone kept (hs.mem_liveRecords.mpr ⟨⟨id, hkept⟩, hlive (by simpa using hstub)⟩)
  · intro hvs r hr
    obtain ⟨⟨k, hk⟩, hlive⟩ := hs.mem_liveRecords.mp hr
    have hrecord := hs.record k
    rw [hk, Option.map_some] at hrecord
    obtain ⟨w, -, heq⟩ := Option.map_eq_some_iff.mp hrecord.symm
    have hall : (residents vs k).all Sighting.isStub = true := by
      rw [List.all_eq_true]
      intro u hu
      obtain ⟨hu, hresident⟩ := List.mem_filter.mp hu
      exact hvs u hu (by simpa using hresident : _ ∧ _).1
    rw [← (Prod.mk.inj heq).2, hall] at hlive
    exact Bool.false_ne_true hlive.symm

end Session

section Packed

variable {s : Session} {vs : List Sighting} {source : Source}

theorem reading_eq_of_nil (h : entriesOf source = []) : reading source = ([], false) := by
  unfold entriesOf at h
  unfold reading
  cases htable : (packedArguments? source.statements).bind List.head? with
  | none => rfl
  | some table =>
    rw [htable, Option.elim_some] at h
    simp only
    rw [h]
    rfl

/-- Nothing is given out if and only if the entries are read to the end and no record is more than a
stand-in. -/
theorem unpackEntries_eq_nil_iff {entries : List Node} (hne : entries ≠ []) :
    ((unpackEntries source entries).run s).result = .ok [] ↔
      (sightingsIn source entries).2 = true ∧
        (s.takeAll (sightingsIn source entries).1).liveRecords = [] := by
  suffices h : (unpackEntries source entries).Leaves s fun r _ => r = .ok [] ↔
      (sightingsIn source entries).2 = true ∧
        (s.takeAll (sightingsIn source entries).1).liveRecords = [] from h
  unfold unpackEntries
  rw [if_neg (by simpa using hne), leaves_bind]
  refine (readEntries_leaves source entries).mono fun r t h => ?_
  obtain ⟨rfl, hr⟩ := h
  generalize s.takeAll (sightingsIn source entries).1 = t
  by_cases hend : (sightingsIn source entries).2 = true
  · rw [if_pos hend] at hr
    rw [hr]
    simp only [leaves_get_bind, hend, true_and]
    by_cases hlive : t.liveRecords = []
    · rw [hlive]
      exact ⟨fun _ => rfl, fun _ => congrArg Except.ok (by rw [hlive]; rfl)⟩
    · refine (growForest_sameButForest t.liveRecords).bind (fun e u _ => ?_) fun _ u hu => ?_
      · exact iff_of_false (fun h => nomatch h) hlive
      · have hsame : u.liveRecords = t.liveRecords := by
          rw [hu]
          rfl
        rw [leaves_get_bind, leaves_pure]
        refine iff_of_false (fun h => hlive ?_) hlive
        rw [← hsame]
        exact List.map_eq_nil_iff.mp (Except.ok.inj h)
  · rw [if_neg hend] at hr
    obtain ⟨f, rfl⟩ := hr
    exact iff_of_false (fun h => nomatch h) fun h => hend h.1

/-- Among bundles that showed nothing but stand-ins, a packed bundle gives no modules if and only if
it shows nothing else, either. -/
theorem unpackPacked_eq_nil_iff (hs : Session.Traced vs s) (hvs : Session.StandInsOnly vs) :
    ((unpackPacked source).run s).result = .ok [] ↔
      (entriesOf source = [] ∨ (reading source).2 = true) ∧
        Session.StandInsOnly (reading source).1 := by
  rw [unpackPacked_eq]
  by_cases hnil : entriesOf source = []
  · rw [reading_eq_of_nil hnil, hnil]
    exact iff_of_true rfl ⟨Or.inl rfl, .nil⟩
  · rw [unpackEntries_eq_nil_iff hnil, (hs.takeAll _).liveRecords_eq_nil_iff,
      reading_eq source hnil]
    refine and_congr (by simp [hnil]) ⟨fun h v hv => h v (List.mem_append_right _ hv), hvs.append⟩

end Packed

/-- There was nothing but leaves until now. -/
def Progress.IsQuiet (p : Progress) : Prop :=
  ∃ vs, Session.Traced vs (p.session.getD Session.empty) ∧ Session.StandInsOnly vs

theorem Progress.isQuiet_start : Progress.start.IsQuiet := ⟨[], .empty, .nil⟩

/-- What is a leaf by itself is a leaf among leaves. -/
theorem expand_of_isLeaf {m : SourceModule} {p : Progress} (hm : IsLeaf m) (hp : p.IsQuiet) :
    (expand m).Leaves p fun r q => r = .ok [] ∧ q.keys = p.keys ∧ q.IsQuiet := by
  have hm : (expand m).Leaves Progress.start fun r _ => r = .ok [] := hm
  cases hparse : Source.parse m.source with
  | error e => exact (expand_leaves_unparsable hparse _).mpr ⟨rfl, rfl, hp⟩
  | ok source =>
    cases hkind : BundleKind.ofStatements source.statements with
    | error e => exact nomatch (expand_leaves_error hparse hkind _).mp hm
    | ok kind =>
      rw [expand_leaves hparse hkind] at hm ⊢
      cases kind with
      | leaf => exact ⟨rfl, rfl, hp⟩
      | amd =>
        have hnil := (unpackStatements_leaves source source.statements _).mp hm
        exact (unpackStatements_leaves source source.statements _).mpr ⟨hnil, rfl, hp⟩
      | packed =>
        have hstart : ((unpackPacked source).run Session.empty).result = .ok [] := hm
        have hshown := (unpackPacked_eq_nil_iff Session.Traced.empty .nil).mp hstart
        obtain ⟨vs, hs, hvs⟩ := hp
        exact ⟨(unpackPacked_eq_nil_iff hs hvs).mpr hshown, rfl, vs ++ (reading source).1,
          hs.unpacked source, hvs.append hshown.2⟩

end Debundle
