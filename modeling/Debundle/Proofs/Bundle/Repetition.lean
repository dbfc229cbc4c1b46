import Debundle.Proofs.Bundle.Delivery

/-!
# The same bundle again

A bundle that is unpacked a second time says nothing that the session has not heard.  Every source
has its id, every dependency is known by a path that is as good, and every record has all that its
modules ask for.  So only paths may change, which are written anew, and the places of files; and an
id that the bundle uses for several modules has its aliases once more in the same order, so that the
last one stays.

* `Session.outline`: a session without paths and places.
* `Session.HasTaken`: a module has been taken into the session.
* `Session.HasTaken.outline_take`: taking it in once more changes an alias at most.
* `Session.outline_takeAll_takeAll`: what some modules say, taken in twice.
* `Session.outline_unpacked_unpacked`: a bundle that is unpacked twice.
-/

namespace Debundle

open Debundle.Action Script

/-- A record without its paths. -/
def ModuleRecord.outline (r : ModuleRecord) : ModuleRecord :=
  { r with dependencies := r.dependencies.keys.map fun d => (d, []) }

namespace Session

variable {s t : Session} {v w : Sighting}

/-- A session without the paths in its records, and without its forest. -/
def outline (s : Session) : Session :=
  { s with modules := s.modules.map fun e => (e.1, e.2.outline), forest := Forest.empty }

theorem SameButForest.outline_eq (h : s.SameButForest t) : t.outline = s.outline := by
  rw [h]
  rfl

/-! ## What has been taken in -/

/-- Records stay, their dependencies are only added to, and a record that is more than a stand-in
stays so. -/
def RecordsGrow (s t : Session) : Prop :=
  ∀ k r, s.modules.get? k = some r → ∃ r', t.modules.get? k = some r' ∧
    r.dependencies.keys ⊆ r'.dependencies.keys ∧ (r'.isStub = true → r.isStub = true)

/-- A module has been taken into the session: all that it says is remembered, and if it was read
completely, the record under its id asks for what it asks for, and is no stand-in unless it is one. -/
structure HasTaken (s : Session) (v : Sighting) : Prop extends s.Remembers v where
  record : v.ending = .complete → ∃ r, s.modules.get? (s.knownId v.digest v.rawId) = some r ∧
    v.asks.map Ask.dependency ⊆ r.dependencies.keys ∧ (r.isStub = true → v.isStub = true)

theorem recordsGrow_read (s : Session) (v : Sighting) : s.RecordsGrow (s.read v).1 := by
  intro k r hr
  have hsame := map_modules_askAll (g := fun r => (r.dependencies.keys, r.isStub)) (by simp)
    (s.knownId v.digest v.rawId) v.asks (s.claim v.digest v.rawId) [] k
  have hr' : (s.claim v.digest v.rawId).modules.get? k = some r := hr
  rw [hr', Option.map_some] at hsame
  obtain ⟨r', hget, heq⟩ := Option.map_eq_some_iff.mp hsame
  obtain ⟨hkeys, hstub⟩ := Prod.mk.inj heq
  exact ⟨r', hget, hkeys ▸ List.Subset.refl _, fun h => hstub ▸ h⟩

theorem recordsGrow_withRecord (s : Session) (new : ModuleRecord) :
    s.RecordsGrow (s.withRecord new) := by
  intro k r hr
  rw [withRecord, Table.get?_insert]
  split
  · rename_i hk
    refine ⟨_, rfl, ?_⟩
    rw [registered, ← hk, hr]
    refine ⟨fun d hd => (Table.mem_keys_insertAll _ _).mpr (Or.inl hd), fun h => ?_⟩
    exact (Bool.and_eq_true_iff.mp h).1
  · exact ⟨r, hr, List.Subset.refl _, id⟩

theorem RecordsGrow.trans {u : Session} (hst : s.RecordsGrow t) (htu : t.RecordsGrow u) :
    s.RecordsGrow u := by
  intro k r hr
  obtain ⟨r', hr', hkeys, hstub⟩ := hst k r hr
  obtain ⟨r'', hr'', hkeys', hstub'⟩ := htu k r' hr'
  exact ⟨r'', hr'', fun d hd => hkeys' (hkeys hd), fun h => hstub (hstub' h)⟩

theorem recordsGrow_take (s : Session) (v : Sighting) : s.RecordsGrow (s.take v) := by
  unfold Session.take
  split
  · exact (recordsGrow_read s v).trans (recordsGrow_withRecord _ _)
  · exact recordsGrow_read s v

/-- What has been taken in stays. -/
theorem HasTaken.of_grows (hv : s.HasTaken v) (hst : s.Grows t) (hrecords : s.RecordsGrow t) :
    t.HasTaken v where
  toRemembers := hv.toRemembers.of_grows hst
  record hcomplete := by
    obtain ⟨r, hr, hkeys, hstub⟩ := hv.record hcomplete
    obtain ⟨r', hr', hkeys', hstub'⟩ := hrecords _ r hr
    rw [knownId_of_grows hst hv.digest]
    exact ⟨r', hr', fun d hd => hkeys' (hkeys hd), fun h => hstub (hstub' h)⟩

theorem HasTaken.take (hv : s.HasTaken v) (w : Sighting) : (s.take w).HasTaken v :=
  hv.of_grows ((read_grows s w).trans (read_grows_take s w)) (recordsGrow_take s w)

theorem HasTaken.withForest (hv : s.HasTaken v) (f : Forest) :
    { s with forest := f }.HasTaken v where
  digest := hv.digest
  rawId := hv.rawId
  asks := hv.asks
  record := hv.record

/-- The id of a module that was read is the one under which it was registered. -/
theorem knownId_take (s : Session) (v : Sighting) :
    (s.take v).knownId v.digest v.rawId = s.knownId v.digest v.rawId := by
  have hread : (s.read v).1.hashes.get? v.digest = some (s.knownId v.digest v.rawId) := by
    rw [read, (askAll_frame _ _ _ _).1, hashes_claim]
  rw [knownId, (read_grows_take s v).hashes _ _ hread, Option.getD_some]

theorem hasTaken_take (s : Session) (v : Sighting) : (s.take v).HasTaken v where
  toRemembers := (remembers_read s v).of_grows (read_grows_take s v)
  record hcomplete := by
    rw [knownId_take, Session.take, if_pos hcomplete, withRecord]
    refine ⟨_, Table.get?_insert_self _ _ _, ?_⟩
    have hkeys : v.asks.map Ask.dependency ⊆ (s.read v).2.keys :=
      fun d hd => (mem_keys_read s v d).mpr hd
    have hstub := isStub_recordOf s v
    unfold registered
    split
    · exact ⟨hkeys, fun h => hstub ▸ h⟩
    · refine ⟨fun d hd => (Table.mem_keys_insertAll _ _).mpr (Or.inr (hkeys hd)), fun h => ?_⟩
      exact hstub ▸ (Bool.and_eq_true_iff.mp h).2

/-- All that is taken in has been taken in afterwards. -/
theorem hasTaken_takeAll (vs : List Sighting) (s : Session) :
    ∀ v ∈ vs, (s.takeAll vs).HasTaken v := by
  induction vs using List.reverseRecOn with
  | nil => exact fun v hv => absurd hv List.not_mem_nil
  | append_singleton vs w ih =>
    have hlast : s.takeAll (vs ++ [w]) = (s.takeAll vs).take w := by
      rw [takeAll, List.foldl_append]
      rfl
    intro v hv
    rw [hlast]
    rcases List.mem_append.mp hv with hv | hv
    · exact (ih v hv).take w
    · rw [List.mem_singleton.mp hv]
      exact hasTaken_take _ w

/-! ## Taking in once more -/

/-- The session with another alias for an id. -/
def realias (s : Session) (v : Sighting) : Session :=
  { s with aliases := s.aliases.insert v.rawId (s.knownId v.digest v.rawId) }

/-- Reading a module that has been taken in changes an alias at most. -/
theorem HasTaken.read_eq (hv : s.HasTaken v) : (s.read v).1 = s.realias v := by
  have hclaim : s.claim v.digest v.rawId = s.realias v := by
    rw [claim, Table.insertNew, Table.has, if_pos hv.digest]
    rfl
  rw [read, hclaim]
  exact askAll_eq_self v.asks [] hv.asks

/-- A record is, but for its paths, what it was before a module of its content came again. -/
theorem outline_mergeRecords {known new : ModuleRecord}
    (hkeys : new.dependencies.keys ⊆ known.dependencies.keys)
    (hstub : known.isStub = true → new.isStub = true) :
    (mergeRecords known new).outline = known.outline := by
  have hflag : (known.isStub && new.isStub) = known.isStub := by
    cases hknown : known.isStub with
    | false => rfl
    | true => exact hstub hknown
  unfold ModuleRecord.outline mergeRecords
  simp only [Table.keys_insertAll_of_subset hkeys, hflag]

/-- Taking in a module once more changes, but for paths, an alias at most. -/
theorem HasTaken.outline_take (hv : s.HasTaken v) : (s.take v).outline = (s.realias v).outline := by
  unfold Session.take
  split
  · rename_i hcomplete
    obtain ⟨known, hknown, hkeys, hstub⟩ := hv.record hcomplete
    have hmodules : (s.read v).1.modules.get? (s.knownId v.digest v.rawId) = some known := by
      rw [hv.read_eq]
      exact hknown
    have hmerged : (mergeRecords known (s.recordOf v (s.read v).2)).outline = known.outline := by
      refine outline_mergeRecords (fun d hd => hkeys ((mem_keys_read s v d).mp hd)) fun h => ?_
      rw [isStub_recordOf]
      exact hstub h
    have hregistered : (s.read v).1.registered (s.recordOf v (s.read v).2) =
        mergeRecords known (s.recordOf v (s.read v).2) := by
      unfold registered
      rw [show (s.recordOf v (s.read v).2).canonicalId = s.knownId v.digest v.rawId from rfl,
        hmodules]
    rw [← hv.read_eq, withRecord, hregistered, outline, outline, Table.map_insert, hmerged]
    simp only
    rw [Table.insert_of_get?]
    rw [Table.get?_map, show (s.recordOf v (s.read v).2).canonicalId =
      s.knownId v.digest v.rawId from rfl, hmodules, Option.map_some]
  · rw [hv.read_eq]

/-- The aliases that some modules give. -/
def aliasesOf (s : Session) (vs : List Sighting) : Table Text :=
  vs.map fun v => (v.rawId, s.knownId v.digest v.rawId)

/-- The aliases after some modules were taken in are those that they give in the end. -/
theorem aliases_takeAll (vs : List Sighting) (s : Session) :
    (s.takeAll vs).aliases = s.aliases.insertAll ((s.takeAll vs).aliasesOf vs) := by
  induction vs generalizing s with
  | nil => rfl
  | cons v rest ih =>
    have hlater : (s.takeAll (v :: rest)).knownId v.digest v.rawId = s.knownId v.digest v.rawId := by
      rw [← knownId_take s v]
      exact knownId_of_grows (takeAll_grows (s.take v) rest) (hasTaken_take s v).digest
    have hstep : s.takeAll (v :: rest) = (s.take v).takeAll rest := rfl
    rw [aliasesOf, List.map_cons, hlater, hstep, ih, aliases_take]
    rfl

/-- Modules that have been taken in change, but for paths, nothing but aliases. -/
theorem outline_takeAll (vs : List Sighting) (hs : ∀ v ∈ vs, s.HasTaken v) :
    (s.takeAll vs).outline = { s.outline with aliases := s.aliases.insertAll (s.aliasesOf vs) } := by
  induction vs generalizing s with
  | nil => rfl
  | cons v rest ih =>
    obtain ⟨hv, hrest⟩ := List.forall_mem_cons.mp hs
    have hstep : s.takeAll (v :: rest) = (s.take v).takeAll rest := rfl
    have hids : (s.take v).aliasesOf rest = s.aliasesOf rest := by
      refine List.map_congr_left fun w hw => ?_
      rw [knownId_of_grows ((read_grows s v).trans (read_grows_take s v)) (hrest w hw).digest]
    rw [hstep, ih fun w hw => (hrest w hw).take v, hids, hv.outline_take, aliases_take]
    rfl

/-- Modules that are taken in twice, with any growth of the forest in between, lead to the same
session as taken in once, but for paths and places. -/
theorem outline_takeAll_takeAll (vs : List Sighting) (hs : s.aliases.keys.Nodup) (f : Forest) :
    ({ s.takeAll vs with forest := f }.takeAll vs).outline = (s.takeAll vs).outline := by
  have htaken : ∀ v ∈ vs, { s.takeAll vs with forest := f }.HasTaken v :=
    fun v hv => (hasTaken_takeAll vs s v hv).withForest f
  have haliases : { s.takeAll vs with forest := f }.aliasesOf vs = (s.takeAll vs).aliasesOf vs := rfl
  rw [outline_takeAll vs htaken, haliases]
  simp only [aliases_takeAll vs s, Table.insertAll_insertAll hs]
  rw [← aliases_takeAll vs s]
  rfl

/-! ## Unpacking once more -/

theorem nodup_keys_aliases (sources : List Source) : (after sources).aliases.keys.Nodup := by
  refine after_induction (P := fun _ s => s.aliases.keys.Nodup) List.nodup_nil ?_ ?_ sources
  · intro _ s v hs
    rw [aliases_take]
    exact Table.nodup_keys_insert hs _ _
  · exact fun _ _ _ hs => hs

/-- Unpacking a bundle twice leads to the same session as unpacking it once, but for paths and
places. -/
theorem outline_unpacked_unpacked (sources : List Source) (bundle : Source) :
    (((after sources).unpacked bundle).unpacked bundle).outline =
      ((after sources).unpacked bundle).outline := by
  have honce := takeAll_sameButForest_unpacked (after sources) bundle
  have htwice := takeAll_sameButForest_unpacked ((after sources).unpacked bundle) bundle
  rw [htwice.outline_eq, honce.outline_eq, honce]
  exact outline_takeAll_takeAll _ (nodup_keys_aliases sources) _

/-- The id and the source of every record that is more than a stand-in are in the outline. -/
theorem map_liveRecords_eq (h : t.outline = s.outline) :
    t.liveRecords.map (fun r => (some r.canonicalId, r.source)) =
      s.liveRecords.map fun r => (some r.canonicalId, r.source) := by
  have hlive : ∀ u : Session, u.liveRecords.map (fun r => (some r.canonicalId, r.source)) =
      u.outline.liveRecords.map fun r => (some r.canonicalId, r.source) := by
    intro u
    simp only [liveRecords, outline, List.map_map, List.filter_map]
    rfl
  rw [hlive t, hlive s, h]

/-- A bundle that is unpacked a second time adds nothing.  Whatever came before, if it gives out
modules, it gives out modules again, with the same ids and sources in the same order; and the
session is the same as after the first time, but for the paths in its records and the forest: the
records are under the same ids in the same order, each with the same raw id, source and dependencies,
in order, and as much of a stand-in; and aliases, digests, scores and referrers are the same. -/
theorem unpackPacked_again (sources : List Source) (bundle : Source) (modules : List SourceModule)
    (h : ((unpackPacked bundle).run (after sources)).result = .ok modules) :
    (((after sources).unpacked bundle).unpacked bundle).outline =
        ((after sources).unpacked bundle).outline ∧
      ∃ again, ((unpackPacked bundle).run ((after sources).unpacked bundle)).result = .ok again ∧
        again.map (fun m => (m.id, m.source)) = modules.map fun m => (m.id, m.source) := by
  have houtline := outline_unpacked_unpacked sources bundle
  refine ⟨houtline, ?_⟩
  have hs := after_isNamed sources
  by_cases hentries : entriesOf bundle = []
  · rw [unpackPacked_eq, unpackEntries, hentries] at h ⊢
    exact ⟨[], rfl, by cases h; rfl⟩
  · have hblocked : FailsIf ((entriesOf bundle).any (isBlocked bundle))
        ((unpackPacked bundle).run (after sources)).result := unpackPacked_blocked hs bundle
    rw [h] at hblocked
    have hfirst := (hs.unpackPacked_ok hentries hblocked.of_ok).2
    have hsecond := ((hs.unpacked bundle).unpackPacked_ok hentries hblocked.of_ok).2
    rw [h] at hfirst
    refine ⟨_, hsecond, ?_⟩
    rw [Except.ok.inj hfirst, List.map_map, List.map_map]
    exact map_liveRecords_eq houtline

/-- A bundle with two modules. -/
def bundleOfTwo : Text :=
  "p(\x7b5:[function()\x7ba\x7d,\x7b\x7d],6:[function()\x7bb\x7d,\x7b\x7d]\x7d,\x7b\x7d,[5])"

/-- A bundle that has both modules under one id, the second of them malformed halfway, and a copy of
the first one that is malformed as well. -/
def bundleOfOneKey : Text :=
  "p(\x7b1:[function()\x7ba\x7d,\x7b'./c':7,'../c.js':7\x7d],1:[function()\x7bb\x7d,\x7b'./d':1,...x\x7d],2:[function()\x7ba\x7d,5]\x7d,\x7b\x7d,[1])"

set_option maxRecDepth 100000 in
/-- Unpacked twice, the bundle gives the id two aliases each time, and the second one stays. -/
theorem oneKey_again :
    ∃ before bundle modules, (Source.parse bundleOfTwo).toOption = some before ∧
      (Source.parse bundleOfOneKey).toOption = some bundle ∧
      ((unpackPacked bundle).run (after [before])).result = .ok modules ∧
      ((after [before]).unpacked bundle).resolveAlias "1" = "6" ∧
      (((after [before]).unpacked bundle).unpacked bundle).outline =
        ((after [before]).unpacked bundle).outline ∧
      ∃ again, ((unpackPacked bundle).run ((after [before]).unpacked bundle)).result = .ok again ∧
        again.map (fun m => (m.id, m.source)) = modules.map fun m => (m.id, m.source) := by
  have h : ((Source.parse bundleOfTwo).toOption.any fun before =>
      (Source.parse bundleOfOneKey).toOption.any fun bundle =>
        ((unpackPacked bundle).run (after [before])).result.toOption.any fun _ =>
          decide (((after [before]).unpacked bundle).resolveAlias "1" = "6")) = true := by
    decide +kernel
  obtain ⟨before, hbefore, h⟩ := (Option.any_eq_true _ _).mp h
  obtain ⟨bundle, hbundle, h⟩ := (Option.any_eq_true _ _).mp h
  obtain ⟨modules, hmodules, h⟩ := (Option.any_eq_true _ _).mp h
  have hok : ((unpackPacked bundle).run (after [before])).result = .ok modules := by
    cases hresult : ((unpackPacked bundle).run (after [before])).result with
    | error e => rw [hresult] at hmodules; cases hmodules
    | ok found => rw [hresult] at hmodules; cases hmodules; rfl
  exact ⟨before, bundle, modules, hbefore, hbundle, hok, of_decide_eq_true h,
    unpackPacked_again [before] bundle modules hok⟩

end Session
end Debundle
