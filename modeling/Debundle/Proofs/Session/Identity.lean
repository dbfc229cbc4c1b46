import Debundle.Proofs.Bundle.Sighting

/-!
# Identity of modules across bundles

A module is known by the id that the first module with the same digest has in its bundle.  Ids are
unique within a bundle at most.  So modules with one digest always share a record, but if a later
bundle gives an id that is taken to a module with another digest, that module shares the record as
well, and its source is lost.

Here it is said exactly when the records of a session are those of different contents: the first
modules to be seen with different digests must have different ids, and digests must tell the sources
apart.

* `recordsRead`: the records that reading a bundle gives.
* `Session.owner`: the id of the first module with a digest.
* `Session.Traced`: the records of a session in terms of what was seen.
* `Session.IdentifiesByContent`: records are shared by modules with the same digest, and only by
  these, and no source is lost.
* `Session.identifiesByContent_iff`: exactly when this is so.
-/

namespace Debundle

open Script

/-! ## Records that are read -/

/-- The records that reading some entries gives, one after the other. -/
def recordsIn (source : Source) : List Node → Session → List ModuleRecord
  | [], _ => []
  | entry :: rest, s =>
    let outcome := (readEntry source entry).run s
    match outcome.result with
    | .ok none => recordsIn source rest outcome.state
    | .ok (some r) =>
      r :: recordsIn source rest ((Session.register (ε := Fault) r).run outcome.state).state
    | .error (.flaw _) => recordsIn source rest outcome.state
    | .error (.fault _) => []

/-- The records that reading a bundle gives. -/
def recordsOf (source : Source) (s : Session) : List ModuleRecord :=
  match (packedArguments? source.statements).bind List.head? with
  | none => []
  | some table => recordsIn source table.parts s

/-- The records that reading some bundles gives, one bundle after the other. -/
def recordsRead : List Source → Session → List ModuleRecord
  | [], _ => []
  | source :: rest, s => recordsOf source s ++ recordsRead rest (s.unpacked source)

namespace Session

variable {s : Session} {vs ws : List Sighting} {v w : Sighting}

/-- The records of the sightings that are complete. -/
def recordsTaken : List Sighting → Session → List ModuleRecord
  | [], _ => []
  | v :: rest, s =>
    if v.ending = .complete then s.recordOf v (s.read v).2 :: recordsTaken rest (s.take v)
    else recordsTaken rest (s.take v)

theorem recordsIn_eq (source : Source) (entries : List Node) :
    recordsIn source entries s = recordsTaken (sightingsIn source entries).1 s := by
  induction entries generalizing s with
  | nil => rfl
  | cons entry rest ih =>
    have h : (glance source entry).Leaves s ((readEntry source entry).run s).result
      ((readEntry source entry).run s).state := readEntry_leaves source entry
    unfold recordsIn sightingsIn
    cases hglance : glance source entry with
    | nothing =>
      rw [hglance] at h
      obtain ⟨ht, hr | ⟨f, hr⟩⟩ := h
      · simp only [ht, hr, ih]
      · simp only [ht, hr, ih]
    | gaveUp =>
      rw [hglance] at h
      obtain ⟨ht, f, hr⟩ := h
      simp only [hr]
      rfl
    | module v =>
      rw [hglance] at h
      obtain ⟨ht, hr⟩ := h
      cases hending : v.ending with
      | complete =>
        rw [hending] at hr
        have hr : _ = Except.ok (some (s.recordOf v (s.read v).2)) := hr
        simp only [hr, ht, hending, reduceCtorEq, if_false, recordsTaken, if_true, ih, take]
        rfl
      | leftOut =>
        rw [hending] at hr
        obtain ⟨f, hr⟩ := hr
        simp only [hr, ht, hending, reduceCtorEq, if_false, recordsTaken, ih, take]
      | gaveUp =>
        rw [hending] at hr
        obtain ⟨f, hr⟩ := hr
        simp only [hr, hending, if_true, recordsTaken, reduceCtorEq, if_false]

theorem recordsOf_eq (source : Source) :
    recordsOf source s = recordsTaken (reading source).1 s := by
  unfold recordsOf reading
  cases (packedArguments? source.statements).bind List.head? with
  | none => rfl
  | some table =>
    simp only
    split
    · rename_i hempty
      rw [List.isEmpty_iff.mp hempty]
      rfl
    · exact recordsIn_eq source table.parts

/-! ## First sightings -/

/-- The id of the first module that was seen with a digest. -/
def owner (vs : List Sighting) (digest : Text) : Option Text :=
  (vs.find? fun v => v.digest = digest).map Sighting.rawId

/-- The modules that were read completely and whose digest belongs to an id. -/
def residents (vs : List Sighting) (id : Text) : List Sighting :=
  vs.filter fun v => v.ending = .complete ∧ owner vs v.digest = some id

theorem owner_append (vs ws : List Sighting) (digest : Text) :
    owner (vs ++ ws) digest = (owner vs digest).or (owner ws digest) := by
  unfold owner
  rw [List.find?_append, Option.map_or]

/-- Whoever was first stays first. -/
theorem owner_append_of_mem (hv : v ∈ vs) (ws : List Sighting) :
    owner (vs ++ ws) v.digest = owner vs v.digest := by
  have hsome : (owner vs v.digest).isSome = true := by
    rw [owner, Option.isSome_map, List.find?_isSome]
    exact ⟨v, hv, by simp⟩
  obtain ⟨id, hid⟩ := Option.isSome_iff_exists.mp hsome
  rw [owner_append, hid, Option.some_or]

theorem residents_append (vs : List Sighting) (w : Sighting) (id : Text) :
    residents (vs ++ [w]) id = residents vs id ++
      if w.ending = .complete ∧ owner (vs ++ [w]) w.digest = some id then [w] else [] := by
  unfold residents
  rw [List.filter_append]
  congr 1
  · refine List.filter_congr fun v hv => ?_
    rw [owner_append_of_mem hv]
  · simp [List.filter_cons]

/-! ## Records in terms of what was seen -/

/-- The digests belong to the ids of the modules that were first seen with them, and the record
under an id has the source of the first module that was read completely and whose digest belongs to the
id; it is a stand-in as long as all such modules are. -/
structure Traced (vs : List Sighting) (s : Session) : Prop where
  hashes : ∀ d, s.hashes.get? d = owner vs d
  nodup : s.modules.keys.Nodup
  record : ∀ k, (s.modules.get? k).map (fun r => (r.source, r.isStub)) =
    (residents vs k).head?.map fun v => (v.source, (residents vs k).all Sighting.isStub)

theorem Traced.empty : Traced [] Session.empty where
  hashes _ := rfl
  nodup := List.nodup_nil
  record _ := rfl

theorem Traced.owner_self (hs : Traced vs s) (w : Sighting) :
    owner (vs ++ [w]) w.digest = some (s.knownId w.digest w.rawId) := by
  have hself : owner [w] w.digest = some w.rawId := by simp [owner]
  rw [owner_append, hself, knownId, hs.hashes]
  rcases owner vs w.digest with _ | id <;> rfl

/-- What asking leaves of the records: which there are, and their sources. -/
theorem askAll_records (id : Text) (asks : List Ask) (s : Session) (found : Table Text) :
    (askAll id asks s found).1.hashes = s.hashes ∧
      (askAll id asks s found).1.modules.keys = s.modules.keys ∧
      (∀ k, ((askAll id asks s found).1.modules.get? k).map (fun r => (r.source, r.isStub)) =
        (s.modules.get? k).map fun r => (r.source, r.isStub)) ∧
      (askAll id asks s found).2.isEmpty = (found.isEmpty && asks.isEmpty) := by
  obtain ⟨hhashes, -, hkeys, -⟩ := askAll_frame id asks s found
  refine ⟨hhashes, hkeys, fun k => map_modules_askAll (by simp) id asks s found k, ?_⟩
  have hnone : (askAll id asks s found).2.keys = [] ↔
      found.keys = [] ∧ asks.map Ask.dependency = [] := by
    simp only [List.eq_nil_iff_forall_not_mem, mem_keys_askAll, not_or, forall_and]
  simp only [Table.keys, List.map_eq_nil_iff] at hnone
  rw [Bool.eq_iff_iff, Bool.and_eq_true, List.isEmpty_iff, List.isEmpty_iff, List.isEmpty_iff]
  exact hnone

theorem isStub_recordOf (s : Session) (v : Sighting) :
    (s.recordOf v (s.read v).2).isStub = v.isStub := by
  obtain ⟨-, -, -, hempty⟩ :=
    askAll_records (s.knownId v.digest v.rawId) v.asks (s.claim v.digest v.rawId) []
  rw [recordOf, read, hempty, Sighting.isStub]
  rfl

/-- A sighting is taken in. -/
theorem Traced.take (hs : Traced vs s) (w : Sighting) : Traced (vs ++ [w]) (s.take w) := by
  obtain ⟨hhashes, hkeys, hrecords, -⟩ :=
    askAll_records (s.knownId w.digest w.rawId) w.asks (s.claim w.digest w.rawId) []
  have howner := hs.owner_self w
  have hclaimed : ∀ d, (s.read w).1.hashes.get? d = owner (vs ++ [w]) d := by
    intro d
    rw [read, hhashes, claim, Table.get?_insertNew, owner_append, ← hs.hashes]
    by_cases hd : d = w.digest
    · rw [if_pos hd, hd]
      have hself : owner [w] w.digest = some w.rawId := by simp [owner]
      rw [hself]
      rcases s.hashes.get? w.digest with _ | id <;> rfl
    · have hother : owner [w] d = none := by simp [owner, Ne.symm hd]
      rw [if_neg hd, hother, Option.or_none]
  have hread : ∀ k, ((s.read w).1.modules.get? k).map (fun r => (r.source, r.isStub)) =
      (residents vs k).head?.map fun v => (v.source, (residents vs k).all Sighting.isStub) :=
    fun k => (hrecords k).trans (hs.record k)
  unfold Session.take
  split
  · rename_i hcomplete
    refine ⟨hclaimed, Table.nodup_keys_insert (hkeys ▸ hs.nodup) _ _, fun k => ?_⟩
    rw [residents_append, withRecord, Table.get?_insert, howner]
    by_cases hk : k = s.knownId w.digest w.rawId
    · -- the record under the id of the module is new, or another resident is there
      have hid : (s.recordOf w (s.read w).2).canonicalId = k := hk.symm
      rw [if_pos (by exact hk), if_pos ⟨hcomplete, by rw [hk]⟩, Option.map_some, registered, hid]
      have hkept := hread k
      rcases hresidents : residents vs k with _ | ⟨v, rest⟩
      · rw [hresidents] at hkept
        rw [Option.map_eq_none_iff.mp hkept]
        have hsource : (s.recordOf w (s.read w).2).source = w.source := rfl
        simp [isStub_recordOf, hsource]
      · rw [hresidents] at hkept
        obtain ⟨known, hknown, heq⟩ := Option.map_eq_some_iff.mp hkept
        obtain ⟨hsource, hstub⟩ := Prod.mk.inj heq
        rw [hknown]
        simp only [mergeRecords, isStub_recordOf, hsource, hstub, List.cons_append, List.head?_cons,
          Option.map_some]
        simp [List.all_append, Bool.and_assoc]
    · rw [if_neg (by exact hk), if_neg (by simp [Ne.symm hk]), List.append_nil]
      exact hread k
  · rename_i hincomplete
    refine ⟨hclaimed, hkeys ▸ hs.nodup, fun k => ?_⟩
    rw [residents_append, if_neg (by simp [hincomplete]), List.append_nil]
    exact hread k

theorem Traced.takeAll (hs : Traced vs s) (ws : List Sighting) :
    Traced (vs ++ ws) (s.takeAll ws) := by
  induction ws generalizing vs s with
  | nil =>
    rw [List.append_nil]
    exact hs
  | cons w ws ih =>
    rw [← List.singleton_append, ← List.append_assoc]
    exact ih (hs.take w)

theorem Traced.unpacked (hs : Traced vs s) (source : Source) :
    Traced (vs ++ (reading source).1) (s.unpacked source) :=
  unpacked_induction (P := Traced) (fun _ _ w h => h.take w)
    (fun _ _ _ h => ⟨h.hashes, h.nodup, h.record⟩) hs source

theorem after_traced (sources : List Source) : Traced (history sources) (after sources) :=
  after_induction .empty (fun _ _ w h => h.take w)
    (fun _ _ _ h => ⟨h.hashes, h.nodup, h.record⟩) sources

/-! ## What was read in terms of what was seen -/

/-- What the records of some modules have in common with the modules. -/
theorem Traced.map_recordsTaken (hs : Traced vs s) (ws : List Sighting) :
    (recordsTaken ws s).map (fun r => (some r.canonicalId, r.source, r.isStub)) =
      (ws.filter fun v => v.ending = .complete).map fun v =>
        (owner (vs ++ ws) v.digest, v.source, v.isStub) := by
  induction ws generalizing vs s with
  | nil => rfl
  | cons w ws ih =>
    have hrest := ih (hs.take w)
    rw [List.append_assoc, List.singleton_append] at hrest
    unfold recordsTaken
    rw [List.filter_cons]
    by_cases hcomplete : w.ending = .complete
    · have howner : owner (vs ++ w :: ws) w.digest = some (s.knownId w.digest w.rawId) := by
        rw [← List.singleton_append, ← List.append_assoc,
          owner_append_of_mem (by simp), hs.owner_self]
      rw [if_pos hcomplete, if_pos (by simpa using hcomplete), List.map_cons, List.map_cons, hrest,
        howner, isStub_recordOf]
      rfl
    · rw [if_neg hcomplete, if_neg (by simpa using hcomplete), hrest]

theorem Traced.map_recordsRead (hs : Traced vs s) (sources : List Source) :
    (recordsRead sources s).map (fun r => (some r.canonicalId, r.source, r.isStub)) =
      ((history sources).filter fun v => v.ending = .complete).map fun v =>
        (owner (vs ++ history sources) v.digest, v.source, v.isStub) := by
  induction sources generalizing vs s with
  | nil => rfl
  | cons source rest ih =>
    have hrest := ih (hs.unpacked source)
    have hhistory : history (source :: rest) = (reading source).1 ++ history rest := rfl
    rw [hhistory, ← List.append_assoc, List.filter_append, List.map_append, ← hrest, recordsRead,
      List.map_append, recordsOf_eq, hs.map_recordsTaken]
    congr 1
    refine List.map_congr_left fun v hv => ?_
    rw [owner_append_of_mem (List.mem_append_right _ (List.mem_of_mem_filter hv))]

/-! ## Identity by content -/

/-- Two modules that were read share a record if and only if their sources have the same digest, and
the source of every module that was read and is more than a stand-in is the source of a record. -/
def IdentifiesByContent (read : List ModuleRecord) (s : Session) : Prop :=
  (∀ r ∈ read, ∀ r' ∈ read, r.canonicalId = r'.canonicalId ↔ r.source.digest = r'.source.digest) ∧
    ∀ r ∈ read, r.isStub = false → ∃ kept ∈ s.liveRecords, kept.source = r.source

/-- No id was the first one of modules with different digests, as far as modules with them were
read completely. -/
def OwnersDiffer (vs : List Sighting) : Prop :=
  ∀ v ∈ vs, ∀ w ∈ vs, v.ending = .complete → w.ending = .complete →
    owner vs v.digest = owner vs w.digest → v.digest = w.digest

/-- Every module that is more than a stand-in has the source of the first one that was read
completely and has the same digest. -/
def FirstsAgree (vs : List Sighting) : Prop :=
  ∀ v ∈ vs, v.ending = .complete → v.isStub = false → ∀ w,
    vs.find? (fun u => u.ending = .complete ∧ u.digest = v.digest) = some w → w.source = v.source

/-- Sources have the same digest if and only if their digests were seen to be the same. -/
theorem digest_eq_iff (v w : Sighting) :
    v.source.digest = w.source.digest ↔ v.digest = w.digest := by
  rw [v.digest_eq, w.digest_eq, Except.ok.injEq]

section Final

variable (sources : List Source)

/-- A record that was read belongs to a module that was read completely. -/
theorem exists_sighting {r : ModuleRecord} (hr : r ∈ recordsRead sources empty) :
    ∃ v ∈ history sources, v.ending = .complete ∧
      owner (history sources) v.digest = some r.canonicalId ∧ v.source = r.source ∧
      v.isStub = r.isStub := by
  have hmap := Traced.empty.map_recordsRead sources
  rw [List.nil_append] at hmap
  have hmem := List.mem_map_of_mem (f := fun r : ModuleRecord =>
    (some r.canonicalId, r.source, r.isStub)) hr
  rw [hmap] at hmem
  obtain ⟨v, hv, heq⟩ := List.mem_map.mp hmem
  obtain ⟨hmem, hcomplete⟩ := List.mem_filter.mp hv
  obtain ⟨hid, heq⟩ := Prod.mk.inj heq
  obtain ⟨hsource, hstub⟩ := Prod.mk.inj heq
  exact ⟨v, hmem, by simpa using hcomplete, hid, hsource, hstub⟩

/-- A module that was read completely has a record that was read. -/
theorem exists_record {v : Sighting} (hv : v ∈ history sources) (hcomplete : v.ending = .complete) :
    ∃ r ∈ recordsRead sources empty, owner (history sources) v.digest = some r.canonicalId ∧
      v.source = r.source ∧ v.isStub = r.isStub := by
  have hmap := Traced.empty.map_recordsRead sources
  rw [List.nil_append] at hmap
  have hfilter : v ∈ (history sources).filter fun v => v.ending = .complete :=
    List.mem_filter.mpr ⟨hv, decide_eq_true hcomplete⟩
  have hmem := List.mem_map_of_mem (f := fun v : Sighting =>
    (owner (history sources) v.digest, v.source, v.isStub)) hfilter
  rw [← hmap] at hmem
  obtain ⟨r, hr, heq⟩ := List.mem_map.mp hmem
  obtain ⟨hid, heq⟩ := Prod.mk.inj heq
  obtain ⟨hsource, hstub⟩ := Prod.mk.inj heq
  exact ⟨r, hr, hid.symm, hsource.symm, hstub.symm⟩

/-- The first resident under an id is the first of the modules with its digest. -/
theorem find?_of_resident {k : Text}
    (hw : vs.find? (fun u => u.ending = .complete ∧ owner vs u.digest = some k) = some w) :
    w.ending = .complete ∧ owner vs w.digest = some k ∧
      vs.find? (fun u => u.ending = .complete ∧ u.digest = w.digest) = some w := by
  obtain ⟨hpasses, as, bs, hvs, has⟩ := List.find?_eq_some_iff_append.mp hw
  obtain ⟨hcomplete, hk⟩ : w.ending = .complete ∧ owner vs w.digest = some k := by
    simpa using hpasses
  refine ⟨hcomplete, hk, List.find?_eq_some_iff_append.mpr ⟨by simp [hcomplete], as, bs, hvs, ?_⟩⟩
  intro u hu
  have hnot := has u hu
  rw [Bool.not_eq_true', decide_eq_false_iff_not] at hnot ⊢
  exact fun h => hnot ⟨h.1, by rw [h.2, hk]⟩

/-- The record under an id has the source of the first resident. -/
theorem Traced.exists_resident (hs : Traced vs s) {k : Text} {kept : ModuleRecord}
    (hkept : s.modules.get? k = some kept) :
    ∃ w, w.source = kept.source ∧
      vs.find? (fun u => u.ending = .complete ∧ owner vs u.digest = some k) = some w := by
  have hrecord := hs.record k
  rw [hkept, Option.map_some] at hrecord
  obtain ⟨w, hw, heq⟩ := Option.map_eq_some_iff.mp hrecord.symm
  exact ⟨w, (Prod.mk.inj heq).1, by rw [← hw, residents, List.head?_filter]⟩

/-- A record is under an id that a module has in its bundle. -/
theorem Traced.exists_rawId (hs : Traced vs s) {k : Text} {kept : ModuleRecord}
    (hkept : s.modules.get? k = some kept) : ∃ v ∈ vs, v.rawId = k := by
  obtain ⟨w, -, hw⟩ := hs.exists_resident hkept
  have howner : owner vs w.digest = some k := (find?_of_resident hw).2.1
  obtain ⟨v, hv, hid⟩ := Option.map_eq_some_iff.mp howner
  exact ⟨v, List.mem_of_find?_eq_some hv, hid⟩

/-- There is a record under the id that belongs to the digest of a module, and it is no stand-in if
the module is none. -/
theorem Traced.exists_kept (hs : Traced vs s) (hv : v ∈ vs) (hcomplete : v.ending = .complete)
    {k : Text} (hk : owner vs v.digest = some k) :
    ∃ kept, s.modules.get? k = some kept ∧ (v.isStub = false → kept.isStub = false) := by
  have hresident : v ∈ residents vs k := List.mem_filter.mpr ⟨hv, by simp [hcomplete, hk]⟩
  have hsome := List.isSome_head?.mpr (List.ne_nil_of_mem hresident)
  obtain ⟨w, hw⟩ := Option.isSome_iff_exists.mp hsome
  have hrecord := hs.record k
  rw [hw, Option.map_some] at hrecord
  obtain ⟨kept, hkept, heq⟩ := Option.map_eq_some_iff.mp hrecord
  refine ⟨kept, hkept, fun hlive => ?_⟩
  rw [(Prod.mk.inj heq).2, ← Bool.not_eq_true, List.all_eq_true]
  intro hall
  rw [hall v hresident] at hlive
  exact absurd hlive (by simp)

theorem Traced.mem_liveRecords (hs : Traced vs s) {r : ModuleRecord} :
    r ∈ s.liveRecords ↔ (∃ k, s.modules.get? k = some r) ∧ r.isStub = false := by
  rw [liveRecords, List.mem_filter, List.mem_map, Bool.not_eq_true']
  refine and_congr_left fun _ => ⟨?_, ?_⟩
  · rintro ⟨⟨k, r⟩, hmem, rfl⟩
    exact ⟨k, (Table.mem_iff_get? hs.nodup).mp hmem⟩
  · rintro ⟨k, hk⟩
    exact ⟨(k, r), Table.mem_of_get? hk, rfl⟩

/-- Every module that was read ends up in a record.  Records are those of different contents exactly
if the first modules to be seen with different digests have different ids, and digests tell the
sources apart. -/
theorem identifiesByContent_iff :
    (∀ r ∈ recordsRead sources empty, ((after sources).modules.get? r.canonicalId).isSome) ∧
      (IdentifiesByContent (recordsRead sources empty) (after sources) ↔
        OwnersDiffer (history sources) ∧ FirstsAgree (history sources)) := by
  have hs := after_traced sources
  refine ⟨fun r hr => ?_, ⟨fun h => ⟨?_, ?_⟩, fun h => ⟨?_, ?_⟩⟩⟩
  · obtain ⟨v, hv, hcomplete, hid, -, -⟩ := exists_sighting sources hr
    obtain ⟨kept, hkept, -⟩ := hs.exists_kept hv hcomplete hid
    rw [hkept, Option.isSome_some]
  · intro v hv w hw hvc hwc howner
    obtain ⟨r, hr, hvid, hvs, -⟩ := exists_record sources hv hvc
    obtain ⟨r', hr', hwid, hws, -⟩ := exists_record sources hw hwc
    rw [hvid, hwid, Option.some_inj] at howner
    have hdigest := (h.1 r hr r' hr').mp howner
    rwa [← hvs, ← hws, digest_eq_iff] at hdigest
  · -- a record with the source of a module has its digest as well, so it is under the same id
    intro v hv hcomplete hlive w hw
    obtain ⟨r, hr, -, hsource, hstub⟩ := exists_record sources hv hcomplete
    obtain ⟨kept, hkept, hkeptSource⟩ := h.2 r hr (hstub ▸ hlive)
    obtain ⟨⟨k, hk⟩, -⟩ := hs.mem_liveRecords.mp hkept
    obtain ⟨u, hu, hfirst⟩ := hs.exists_resident hk
    have huv : u.source = v.source := by rw [hu, hkeptSource, hsource]
    have hdigest : u.digest = v.digest := (digest_eq_iff u v).mp (by rw [huv])
    have hfind := (find?_of_resident hfirst).2.2
    rw [hdigest, hw, Option.some_inj] at hfind
    rw [hfind, huv]
  · intro r hr r' hr'
    obtain ⟨v, hv, hvc, hvid, hvs, -⟩ := exists_sighting sources hr
    obtain ⟨w, hw, hwc, hwid, hws, -⟩ := exists_sighting sources hr'
    rw [← hvs, ← hws, digest_eq_iff, ← Option.some_inj, ← hvid, ← hwid]
    exact ⟨h.1 v hv w hw hvc hwc, fun hdigest => by rw [hdigest]⟩
  · -- all residents under the id of a module have its digest, and the first one has its source
    intro r hr hlive
    obtain ⟨v, hv, hcomplete, hid, hsource, hstub⟩ := exists_sighting sources hr
    obtain ⟨kept, hkept, hkeptLive⟩ := hs.exists_kept hv hcomplete hid
    obtain ⟨u, hu, hfirst⟩ := hs.exists_resident hkept
    obtain ⟨huc, hud, hfind⟩ := find?_of_resident hfirst
    have hdigest : u.digest = v.digest :=
      h.1 u (List.mem_of_find?_eq_some hfirst) v hv huc hcomplete (hud.trans hid.symm)
    rw [hdigest] at hfind
    refine ⟨kept, hs.mem_liveRecords.mpr ⟨⟨_, hkept⟩, hkeptLive (hstub.trans hlive)⟩, ?_⟩
    rw [← hu, h.2 v hv hcomplete (hstub.trans hlive) u hfind, hsource]

end Final

instance (read : List ModuleRecord) (s : Session) : Decidable (IdentifiesByContent read s) :=
  inferInstanceAs (Decidable (_ ∧ _))

/-- Two bundles that give one id to different modules. -/
def bundlesOfOneId : List Text :=
  ["p(\x7b1:[function()\x7ba\x7d,\x7b\x7d]\x7d,\x7b\x7d,[1])",
    "p(\x7b1:[function()\x7bb\x7d,\x7b\x7d]\x7d,\x7b\x7d,[1])"]

set_option maxRecDepth 100000 in
/-- The second module shares the record of the first one, and its source is lost. -/
theorem oneId_not_identifiesByContent :
    ∃ sources, (bundlesOfOneId.mapM Source.parse).toOption = some sources ∧
      ¬IdentifiesByContent (recordsRead sources empty) (after sources) := by
  have h : ((bundlesOfOneId.mapM Source.parse).toOption.any fun sources =>
      !decide (IdentifiesByContent (recordsRead sources empty) (after sources))) = true := by
    decide +kernel
  simpa [Option.any_eq_true] using h

end Session
end Debundle
