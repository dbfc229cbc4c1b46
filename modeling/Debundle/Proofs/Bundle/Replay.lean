import Debundle.Proofs.Bundle.Delivery
import Debundle.Proofs.Forest.Contradictions

/-!
# Contradictions are found again

Whenever a bundle is unpacked, the forest grows by all edges that the session knows, not only by those
that the bundle brings.  So a bundle that has nothing to do with the ones before it, whose modules ask
for nothing and are new in id and source, makes the forest grow by the same edges once more.  What
contradicts the forest is found again each time: one conflict is recorded for every edge that gives a
file another name than it has.

* `Sighting.Unrelated`: a module that has nothing to do with what was seen.
* `Session.Widens`: a session that knows more, but not about what was seen.
* `Session.Widens.growth_eq`: its forest grows by the same operations, and some new files.
* `Session.conflicts_unpacked_of_unrelated`: the conflicts after an unrelated bundle.
-/

namespace Debundle

open Debundle.Action Script

/-- A module that has nothing to do with what was seen: it asks for nothing, and nobody mentioned its
id or had its digest. -/
structure Sighting.Unrelated (vs : List Sighting) (v : Sighting) : Prop where
  asks : v.asks = []
  rawId : v.rawId ∉ Session.idsSeen vs
  digest : ∀ w ∈ vs, w.digest ≠ v.digest

instance (vs : List Sighting) (v : Sighting) : Decidable (v.Unrelated vs) :=
  decidable_of_iff (v.asks = [] ∧ v.rawId ∉ Session.idsSeen vs ∧ ∀ w ∈ vs, w.digest ≠ v.digest)
    ⟨fun h => ⟨h.1, h.2.1, h.2.2⟩, fun h => ⟨h.asks, h.rawId, h.digest⟩⟩

namespace Forest

theorem conflicts_after_addFile (f : Forest) (id name : Text) (isPlaceholder : Bool) :
    (f.after (.addFile id name isPlaceholder)).conflicts = f.conflicts := by
  have hstep : (Operation.addFile id name isPlaceholder).step.Leaves f fun _ g =>
      g.conflicts = f.conflicts := by
    unfold Operation.step addFile addItem
    rw [leaves_bind, leaves_get_bind]
    split
    · rfl
    · split <;> rfl
  exact hstep

/-- New files contradict nothing. -/
theorem conflicts_afterAll_files (f : Forest) (ids : List Text) :
    (f.afterAll (ids.map fun id => .addFile id id true)).conflicts = f.conflicts := by
  induction ids generalizing f with
  | nil => rfl
  | cons id ids ih => exact (ih _).trans (conflicts_after_addFile f id id true)

end Forest

namespace Session

variable {s t : Session} {vs ws : List Sighting} {w : Sighting}

/-! ## Knowing more -/

/-- One session knows more than another, but not about what was seen: ids that were seen lead where
they led, and new records go by other ids and ask for nothing. -/
structure Widens (vs : List Sighting) (s t : Session) : Prop where
  aliases : ∀ id ∈ idsSeen vs, t.aliases.get? id = s.aliases.get? id
  records : ∃ more : Table ModuleRecord, t.modules = s.modules ++ more ∧
    ∀ e ∈ more, e.1 ∉ idsSeen vs ∧ e.2.dependencies = []

theorem Widens.refl (vs : List Sighting) (s : Session) : Widens vs s s where
  aliases _ _ := rfl
  records := ⟨[], (List.append_nil _).symm, fun _ h => absurd h List.not_mem_nil⟩

/-- An unrelated module is known by an id that was not seen, also after other unrelated ones. -/
theorem knownId_notMem_idsSeen (ht : Traced (vs ++ ws) t) (hws : ∀ w ∈ ws, w.Unrelated vs)
    (hw : w.Unrelated vs) : t.knownId w.digest w.rawId ∉ idsSeen vs := by
  have howner := ht.owner_self w
  have hnone : owner vs w.digest = none := by
    rw [owner, Option.map_eq_none_iff, List.find?_eq_none]
    intro u hu
    simpa using hw.digest u hu
  rw [List.append_assoc, owner_append, hnone, Option.none_or] at howner
  obtain ⟨u, hu, -, hid⟩ := exists_of_owner howner
  rw [← hid]
  rcases List.mem_append.mp hu with hu | hu
  · exact (hws u hu).rawId
  · rw [List.mem_singleton.mp hu]
    exact hw.rawId

theorem Traced.key_mem_idsSeen (hs : Traced vs s) {k : Text} (hk : k ∈ s.modules.keys) :
    k ∈ idsSeen vs := by
  obtain ⟨r, hr⟩ := Option.isSome_iff_exists.mp ((Table.has_iff_mem_keys _ _).mpr hk)
  obtain ⟨v, hv, rfl⟩ := hs.exists_rawId hr
  exact rawId_mem_idsSeen hv

theorem modules_take_of_asks_nil (s : Session) (hw : w.asks = []) :
    (s.take w).modules = if w.ending = .complete then
      s.modules.insert (s.knownId w.digest w.rawId) (s.registered (s.recordOf w [])) else
        s.modules := by
  unfold Session.take read
  rw [hw]
  split <;> rfl

/-- An unrelated module is taken in. -/
theorem Widens.take (hst : Widens vs s t) (hs : Traced vs s) (ht : Traced (vs ++ ws) t)
    (hws : ∀ w ∈ ws, w.Unrelated vs) (hw : w.Unrelated vs) : Widens vs s (t.take w) where
  aliases id hid := by
    have hne : id ≠ w.rawId := by
      rintro rfl
      exact hw.rawId hid
    rw [aliases_take, Table.get?_insert, if_neg hne, hst.aliases id hid]
  records := by
    obtain ⟨more, hmore, hnew⟩ := hst.records
    rw [modules_take_of_asks_nil t hw.asks]
    split
    · have hk := knownId_notMem_idsSeen ht hws hw
      have hold : t.knownId w.digest w.rawId ∉ s.modules.keys := mt hs.key_mem_idsSeen hk
      have hrecord : (t.registered (t.recordOf w [])).dependencies = [] := by
        unfold registered
        have hid : (t.recordOf w []).canonicalId = t.knownId w.digest w.rawId := rfl
        cases hknown : t.modules.get? (t.recordOf w []).canonicalId with
        | none => rfl
        | some known =>
          rw [hid, hmore, Table.get?_append, (Table.get?_eq_none_iff _ _).mpr hold, Option.none_or]
            at hknown
          exact (hnew _ (Table.mem_of_get? hknown)).2
      refine ⟨more.insert (t.knownId w.digest w.rawId) (t.registered (t.recordOf w [])), ?_, ?_⟩
      · rw [hmore, Table.insert_append_of_notMem hold]
      · intro e he
        rcases Table.mem_of_mem_insert he with rfl | he
        · exact ⟨hk, hrecord⟩
        · exact hnew e he
    · exact ⟨more, hmore, hnew⟩

/-- Unrelated modules are taken in. -/
theorem IsNamed.widens_takeAll (hs : IsNamed vs s) (hws : ∀ w ∈ ws, w.Unrelated vs)
    (hids : ∀ w ∈ ws, w.rawId ≠ []) : Widens vs s (s.takeAll ws) := by
  induction ws using List.reverseRecOn with
  | nil => exact .refl vs s
  | append_singleton ws w ih =>
    obtain ⟨hbefore, hw⟩ := List.forall_mem_append.mp hws
    obtain ⟨hbeforeIds, -⟩ := List.forall_mem_append.mp hids
    have hrun : s.takeAll (ws ++ [w]) = (s.takeAll ws).take w := List.foldl_append
    rw [hrun]
    exact (ih hbefore hbeforeIds).take hs.traced (hs.takeAll hbeforeIds).traced hbefore
      (hw w List.mem_cons_self)

/-! ## Growing once more -/

/-- What was seen is asked for by the same edges. -/
theorem Widens.edge?_eq (hst : Widens vs s t) (ha : Aliased vs s) {asked : Text × Text}
    (hasked : asked.1 ∈ idsSeen vs) (current : Text) :
    t.edge? current asked = s.edge? current asked := by
  have halias : t.resolveAlias asked.1 = s.resolveAlias asked.1 := by
    rw [resolveAlias, hst.aliases _ hasked, resolveAlias]
  have hmodule : t.modules.get? (s.resolveAlias asked.1) =
      s.modules.get? (s.resolveAlias asked.1) := by
    obtain ⟨more, hmore, hnew⟩ := hst.records
    have hnone : more.get? (s.resolveAlias asked.1) = none := by
      rw [Table.get?_eq_none_iff]
      intro hmem
      obtain ⟨e, he, hkey⟩ := List.mem_map.mp hmem
      exact (hnew e he).1 (hkey ▸ ha.resolveAlias_mem_idsSeen hasked)
    rw [hmore, Table.get?_append, hnone, Option.or_none]
  rw [edge?, halias, hmodule, edge?]

/-- The forest grows by the same operations, and then by some new files. -/
theorem Widens.growth_eq (hst : Widens vs s t) (hs : Traced vs s) (ha : Aliased vs s)
    (hd : Declared vs s) :
    ∃ ids : List Text, t.growth = s.growth ++ ids.map fun id => .addFile id id true := by
  obtain ⟨more, hmore, hnew⟩ := hst.records
  have hlive : t.liveRecords = s.liveRecords ++ (more.map Prod.snd).filter fun r => !r.isStub := by
    rw [liveRecords, hmore, List.map_append, List.filter_append, liveRecords]
  refine ⟨((more.map Prod.snd).filter fun r => !r.isStub).map ModuleRecord.canonicalId, ?_⟩
  rw [growth, hlive, List.flatMap_append, growth, List.map_map]
  congr 1
  · refine List.flatMap_congr fun r hr => ?_
    rw [operationsOf, operationsOf, edgesOf, edgesOf]
    congr 2
    exact List.filterMap_congr fun asked hasked =>
      hst.edge?_eq ha (asked_mem_idsSeen hs hd hr hasked) _
  · generalize hrecords : (more.map Prod.snd).filter (fun r => !r.isStub) = records
    have hnone : ∀ r ∈ records, r.dependencies = [] := by
      intro r hr
      rw [← hrecords] at hr
      obtain ⟨e, he, rfl⟩ := List.mem_map.mp (List.mem_of_mem_filter hr)
      exact (hnew e he).2
    rw [List.map_eq_flatMap]
    refine List.flatMap_congr fun r hr => ?_
    rw [operationsOf, edgesOf, hnone r hr]
    rfl

/-- Of the operations by which the forest grows only the edges are contradicted. -/
theorem filterMap_growth (s : Session) (f : Forest) :
    s.growth.filterMap f.rejection? = s.edges.filterMap fun e => f.rejection? e.operation := by
  rw [growth, edges, List.filterMap_flatMap, List.filterMap_flatMap]
  refine List.flatMap_congr fun r _ => ?_
  have hfile : f.rejection? (.addFile r.canonicalId r.canonicalId true) = none := rfl
  rw [operationsOf, List.filterMap_cons_none hfile, List.filterMap_map]
  rfl

/-- A bundle that has nothing to do with the ones before it adds no conflict exactly if its reading is
given up, or no operation by which the forest has grown brings up a conflict when it is carried out
once more.  Otherwise it adds one conflict about a file for every edge that gives a file another name
than it has. -/
theorem conflicts_unpacked_of_unrelated (sources : List Source) (bundle : Source)
    (hbundle : ∀ v ∈ (reading bundle).1, v.Unrelated (history sources)) :
    (((after sources).unpacked bundle).forest.conflicts = (after sources).forest.conflicts ↔
      ((reading bundle).2 = true → (after sources).forest.Quiet (after sources).growth)) ∧
    ((reading bundle).2 = true →
      ((after sources).unpacked bundle).forest.conflictsAbout .file =
        (after sources).forest.conflictsAbout .file ++ (after sources).edges.filterMap fun e =>
          ((after sources).unpacked bundle).forest.rejection? e.operation) := by
  have hs := after_isNamed sources
  have hwf := forest_after_wellFormed sources
  obtain ⟨htraced, haliased, hdeclared⟩ := after_aliased sources
  have hwidens := hs.widens_takeAll hbundle (rawId_ne_nil_of_mem_reading bundle)
  obtain ⟨ids, hgrowth⟩ := hwidens.growth_eq htraced haliased hdeclared
  rw [hs.forest_unpacked, growthBy, hgrowth]
  generalize after sources = s at *
  by_cases hend : (reading bundle).2 = true
  · rw [if_pos hend]
    have hrun : s.forest.afterAll (s.growth ++ ids.map fun id => .addFile id id true) =
        (s.forest.afterAll s.growth).afterAll (ids.map fun id => .addFile id id true) :=
      List.foldl_append
    refine ⟨?_, fun _ => ?_⟩
    · rw [hrun, Forest.conflicts_afterAll_files, Forest.conflicts_afterAll_eq_iff hwf]
      exact ⟨fun h _ => h, fun h => h hend⟩
    · have hfiles : ∀ f : Forest,
          (ids.map fun id => Forest.Operation.addFile id id true).filterMap f.rejection? = [] := by
        intro f
        rw [List.filterMap_map, List.filterMap_eq_nil_iff]
        exact fun _ _ => rfl
      rw [Forest.conflictsAbout_afterAll hwf, List.filterMap_append, hfiles, List.append_nil,
        filterMap_growth]
  · rw [if_neg hend]
    exact ⟨iff_of_true rfl fun h => absurd h hend, fun h => absurd h hend⟩

/-- A bundle with two modules that agree on what a third one is called. -/
def bundleOfAgreement : Text :=
  "p(\x7b1:[function()\x7ba\x7d,\x7b'./x':2\x7d],3:[function()\x7bb\x7d,\x7b'./d/../x':2\x7d]\x7d,\x7b\x7d,[1])"

/-- A bundle with two modules that do not agree on what a third one is called. -/
def bundleOfDispute : Text :=
  "p(\x7b1:[function()\x7ba\x7d,\x7b'./x':2\x7d],3:[function()\x7bb\x7d,\x7b'./y':2\x7d]\x7d,\x7b\x7d,[1])"

/-- A bundle with a module that has nothing to do with these. -/
def bundleOfStranger : Text :=
  "p(\x7b9:[function()\x7bc\x7d,\x7b\x7d]\x7d,\x7b\x7d,[9])"

set_option maxRecDepth 100000 in
/-- Where the modules agree, the unrelated bundle adds no conflict. -/
theorem agreement_conflicts_unpacked :
    ∃ before bundle, (Source.parse bundleOfAgreement).toOption = some before ∧
      (Source.parse bundleOfStranger).toOption = some bundle ∧
      (∀ v ∈ (reading bundle).1, v.Unrelated (history [before])) ∧ (reading bundle).2 = true ∧
      (after [before]).edges ≠ [] ∧
      ((after [before]).unpacked bundle).forest.conflicts = (after [before]).forest.conflicts := by
  have h : ((Source.parse bundleOfAgreement).toOption.any fun before =>
      (Source.parse bundleOfStranger).toOption.any fun bundle =>
        decide ((∀ v ∈ (reading bundle).1, v.Unrelated (history [before])) ∧
          (reading bundle).2 = true ∧ (after [before]).edges ≠ [] ∧
          (after [before]).forest.Quiet (after [before]).growth)) = true := by
    decide +kernel
  obtain ⟨before, hbefore, h⟩ := (Option.any_eq_true _ _).mp h
  obtain ⟨bundle, hbundle, h⟩ := (Option.any_eq_true _ _).mp h
  obtain ⟨hunrelated, hend, hedges, hquiet⟩ := of_decide_eq_true h
  exact ⟨before, bundle, hbefore, hbundle, hunrelated, hend, hedges,
    (conflicts_unpacked_of_unrelated [before] bundle hunrelated).1.mpr fun _ => hquiet⟩

set_option maxRecDepth 100000 in
/-- Where they do not agree, it adds the conflict about them once more. -/
theorem dispute_conflicts_unpacked :
    ∃ before bundle, (Source.parse bundleOfDispute).toOption = some before ∧
      (Source.parse bundleOfStranger).toOption = some bundle ∧
      (∀ v ∈ (reading bundle).1, v.Unrelated (history [before])) ∧
      (after [before]).forest.conflicts =
        [⟨.file, Text.ofString "2", Text.ofString "x", Text.ofString "y"⟩] ∧
      ((after [before]).unpacked bundle).forest.conflicts =
        (after [before]).forest.conflicts ++ (after [before]).forest.conflicts ∧
      ((after [before]).unpacked bundle).forest.conflicts ≠ (after [before]).forest.conflicts := by
  have h : ((Source.parse bundleOfDispute).toOption.any fun before =>
      (Source.parse bundleOfStranger).toOption.any fun bundle =>
        decide ((∀ v ∈ (reading bundle).1, v.Unrelated (history [before])) ∧
          (after [before]).forest.conflicts =
            [⟨.file, Text.ofString "2", Text.ofString "x", Text.ofString "y"⟩] ∧
          ((after [before]).unpacked bundle).forest.conflicts =
            (after [before]).forest.conflicts ++ (after [before]).forest.conflicts ∧
          ((after [before]).unpacked bundle).forest.conflicts ≠
            (after [before]).forest.conflicts)) = true := by
    decide +kernel
  obtain ⟨before, hbefore, h⟩ := (Option.any_eq_true _ _).mp h
  obtain ⟨bundle, hbundle, h⟩ := (Option.any_eq_true _ _).mp h
  exact ⟨before, bundle, hbefore, hbundle, of_decide_eq_true h⟩

end Session
end Debundle
