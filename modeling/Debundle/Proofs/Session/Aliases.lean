import Debundle.Proofs.Bundle.Edges
import Debundle.Proofs.Session.Identity
import Mathlib.Data.List.Dedup
import Mathlib.Data.List.Forall2

/-!
# Where aliases lead

A bundle knows its modules by ids of its own, and asks for them by these ids.  The session knows a
module by the id of the first one with the same digest, and an alias leads from the one id to the
other.  The first module with a digest need not have a record: it may have turned out to be
malformed after its id was claimed.

As long as no id is used for two contents, aliases are right.  They lead in one step, to the record
of the content that the id was used for; there is one record for every content that was read, with
everything that modules of this content ask for; and so every edge leads to the file of the module
that its bundle means.

* `Session.Aliased`, `Session.Declared`: aliases and dependencies in terms of what was seen.
* `Session.OneContentPerId`: no id is used for two contents.
* `Session.AliasesLead`: aliases are right.
* `Session.after_aliasesLead`: they are, after any bundles that use no id for two contents.
-/

namespace Debundle
namespace Session

open Debundle.Action Script

variable {s : Session} {vs : List Sighting} {v w : Sighting} {k x : Text}

/-! ## Aliases in terms of what was seen -/

/-- Every id that was seen has an alias, and an alias belongs to the digest of a module that was
seen with the id. -/
structure Aliased (vs : List Sighting) (s : Session) : Prop where
  seen : ∀ v ∈ vs, (s.aliases.get? v.rawId).isSome
  owner : ∀ x k, s.aliases.get? x = some k → ∃ v ∈ vs, v.rawId = x ∧ owner vs v.digest = some k

theorem aliases_take (s : Session) (w : Sighting) :
    (s.take w).aliases = s.aliases.insert w.rawId (s.knownId w.digest w.rawId) := by
  obtain ⟨-, haliases, -⟩ :=
    askAll_frame (s.knownId w.digest w.rawId) w.asks (s.claim w.digest w.rawId) []
  unfold Session.take
  split <;> exact haliases

/-- A sighting is taken in. -/
theorem Aliased.take (ha : Aliased vs s) (hs : Traced vs s) (w : Sighting) :
    Aliased (vs ++ [w]) (s.take w) := by
  refine ⟨fun v hv => ?_, fun x k hx => ?_⟩
  · rw [aliases_take, Table.get?_insert]
    split
    · rfl
    · rename_i hne
      refine ha.seen v ((List.mem_append.mp hv).resolve_right fun hw => hne ?_)
      rw [List.mem_singleton.mp hw]
  · rw [aliases_take, Table.get?_insert] at hx
    split at hx
    · rename_i hid
      refine ⟨w, by simp, hid.symm, ?_⟩
      rw [hs.owner_self, hx]
    · obtain ⟨v, hv, hid, howner⟩ := ha.owner x k hx
      exact ⟨v, List.mem_append_left _ hv, hid, by rw [owner_append_of_mem hv, howner]⟩

/-! ## Dependencies in terms of what was seen -/

/-- A record is under its own id, and has the dependencies that the modules of its content ask
for. -/
def Declared (vs : List Sighting) (s : Session) : Prop :=
  ∀ k r, s.modules.get? k = some r → r.canonicalId = k ∧
    ∀ d, d ∈ r.dependencies.keys ↔ ∃ v ∈ residents vs k, d ∈ v.asks.map Ask.dependency

/-- What asking changes of a record are paths only. -/
theorem Declared.askAll (hd : Declared vs s) (id : Text) (asks : List Ask) (found : Table Text) :
    Declared vs (askAll id asks s found).1 := by
  intro k r hr
  have hmap := map_modules_askAll (g := fun r => (r.canonicalId, r.dependencies.keys)) (by simp)
    id asks s found k
  rw [hr, Option.map_some] at hmap
  obtain ⟨old, hold, heq⟩ := Option.map_eq_some_iff.mp hmap.symm
  obtain ⟨hid, hkeys⟩ := Prod.mk.inj heq
  rw [← hid, ← hkeys]
  exact hd k old hold

theorem Traced.residents_eq_nil (hs : Traced vs s) (hk : s.modules.get? k = none) :
    residents vs k = [] := by
  have hrecord := hs.record k
  rw [hk, Option.map_none] at hrecord
  exact List.head?_eq_none_iff.mp (Option.map_eq_none_iff.mp hrecord.symm)

theorem mem_keys_read (s : Session) (v : Sighting) (d : Text) :
    d ∈ (s.read v).2.keys ↔ d ∈ v.asks.map Ask.dependency := by
  rw [read, mem_keys_askAll]
  simp [Table.keys]

/-- A sighting is taken in: a module that was read completely adds what it asks for to the record
under its id, and all other records ask for what they did. -/
theorem Declared.take (hd : Declared vs s) (hs : Traced vs s) (w : Sighting) :
    Declared (vs ++ [w]) (s.take w) := by
  have hread : Declared vs (s.read w).1 :=
    Declared.askAll (s := s.claim w.digest w.rawId) hd _ _ _
  have hfound := mem_keys_read s w
  have hkeys : (s.read w).1.modules.keys = s.modules.keys := (askAll_frame _ _ _ _).2.2.1
  unfold Session.take
  split
  · rename_i hcomplete
    intro k r hr
    rw [withRecord, Table.get?_insert] at hr
    rw [residents_append, hs.owner_self]
    by_cases hk : k = s.knownId w.digest w.rawId
    · rw [if_pos (by exact hk), Option.some_inj] at hr
      rw [if_pos ⟨hcomplete, by rw [hk]⟩, ← hr, registered]
      have hid : (s.recordOf w (s.read w).2).canonicalId = k := hk.symm
      rw [hid]
      rcases hknown : (s.read w).1.modules.get? k with _ | known
      · -- the record is new, so there was no module of the content
        have hnone : s.modules.get? k = none := by
          rw [Table.get?_eq_none_iff, ← hkeys, ← Table.get?_eq_none_iff, hknown]
        refine ⟨hid, fun d => ?_⟩
        rw [hs.residents_eq_nil hnone]
        exact (hfound d).trans (by simp)
      · obtain ⟨hcanonical, hdependencies⟩ := hread k known hknown
        refine ⟨hcanonical, fun d => ?_⟩
        have hmerged : d ∈ (known.dependencies.insertAll (s.read w).2).keys ↔
            (∃ v ∈ residents vs k, d ∈ v.asks.map Ask.dependency) ∨
              d ∈ w.asks.map Ask.dependency := by
          rw [Table.mem_keys_insertAll, hdependencies, hfound]
        refine hmerged.trans ?_
        simp only [List.mem_append, List.mem_singleton, or_and_right, exists_or, exists_eq_left]
    · rw [if_neg (by exact hk)] at hr
      rw [if_neg (by simp [Ne.symm hk]), List.append_nil]
      exact hread k r hr
  · rename_i hincomplete
    intro k r hr
    rw [residents_append, if_neg (by simp [hincomplete]), List.append_nil]
    exact hread k r hr

/-- Aliases and records in terms of all that was seen, after any bundles. -/
theorem after_aliased (sources : List Source) :
    Traced (history sources) (after sources) ∧ Aliased (history sources) (after sources) ∧
      Declared (history sources) (after sources) := by
  refine after_induction (P := fun vs s => Traced vs s ∧ Aliased vs s ∧ Declared vs s)
    ⟨.empty, ⟨?_, ?_⟩, ?_⟩ ?_ ?_ sources
  · exact fun v hv => absurd hv (by simp)
  · exact fun x k hx => absurd hx (by simp [empty, Table.get?])
  · exact fun k r hr => absurd hr (by simp [empty, Table.get?])
  · rintro vs s w ⟨hs, ha, hd⟩
    exact ⟨hs.take w, ha.take hs w, hd.take hs w⟩
  · rintro vs s f ⟨hs, ha, hd⟩
    exact ⟨⟨hs.hashes, hs.nodup, hs.record⟩, ⟨ha.seen, ha.owner⟩, hd⟩

/-! ## One content for every id -/

/-- No id is used for two contents, also not by modules that turn out to be malformed. -/
def OneContentPerId (vs : List Sighting) : Prop :=
  ∀ v ∈ vs, ∀ w ∈ vs, v.rawId = w.rawId → v.digest = w.digest

instance (vs : List Sighting) : Decidable (OneContentPerId vs) :=
  inferInstanceAs (Decidable (∀ v ∈ vs, ∀ w ∈ vs, _))

/-- The modules that were read completely and so have been registered. -/
def registeredIn (vs : List Sighting) : List Sighting := vs.filter fun v => v.ending = .complete

theorem mem_registeredIn : v ∈ registeredIn vs ↔ v ∈ vs ∧ v.ending = .complete := by
  rw [registeredIn, List.mem_filter, decide_eq_true_iff]

/-- That a record is the one with which a module was registered. -/
structure Registers (r : ModuleRecord) (v : Sighting) : Prop where
  rawId : r.rawId = v.rawId
  source : r.source = v.source
  dependencies : ∀ d, d ∈ r.dependencies.keys ↔ d ∈ v.asks.map Ask.dependency

theorem registers_recordsTaken (ws : List Sighting) (s : Session) :
    List.Forall₂ Registers (recordsTaken ws s) (registeredIn ws) := by
  induction ws generalizing s with
  | nil => exact .nil
  | cons w ws ih =>
    rw [recordsTaken, registeredIn, List.filter_cons]
    by_cases hcomplete : w.ending = .complete
    · rw [if_pos hcomplete, if_pos (decide_eq_true hcomplete)]
      exact .cons ⟨rfl, rfl, mem_keys_read s w⟩ (ih (s.take w))
    · rw [if_neg hcomplete, if_neg (by simpa using hcomplete)]
      exact ih (s.take w)

/-- The records that reading some bundles gives are those of the modules that were read
completely, one for one. -/
theorem registers_recordsRead (sources : List Source) (s : Session) :
    List.Forall₂ Registers (recordsRead sources s) (registeredIn (history sources)) := by
  induction sources generalizing s with
  | nil => exact .nil
  | cons source rest ih =>
    have hhistory : registeredIn (history (source :: rest)) =
        registeredIn (reading source).1 ++ registeredIn (history rest) := by
      rw [history, List.flatMap_cons, registeredIn, List.filter_append]
      rfl
    rw [recordsRead, recordsOf_eq, hhistory]
    exact List.rel_append (registers_recordsTaken _ s) (ih _)

theorem exists_of_owner {digest : Text} (h : owner vs digest = some k) :
    ∃ v ∈ vs, v.digest = digest ∧ v.rawId = k := by
  obtain ⟨v, hv, hid⟩ := Option.map_eq_some_iff.mp h
  exact ⟨v, List.mem_of_find?_eq_some hv, by simpa using List.find?_some hv, hid⟩

/-- An id then belongs to one digest at most. -/
theorem OneContentPerId.owner_inj (hids : OneContentPerId vs) {d d' : Text}
    (hd : owner vs d = some k) (hd' : owner vs d' = some k) : d = d' := by
  obtain ⟨v, hv, rfl, hvid⟩ := exists_of_owner hd
  obtain ⟨w, hw, rfl, hwid⟩ := exists_of_owner hd'
  exact hids v hv w hw (hvid.trans hwid.symm)

/-- The alias of an id that was seen belongs to the digest that it was seen with. -/
theorem Aliased.owner_resolveAlias (ha : Aliased vs s) (hids : OneContentPerId vs) (hv : v ∈ vs) :
    Session.owner vs v.digest = some (s.resolveAlias v.rawId) := by
  obtain ⟨k, hk⟩ := Option.isSome_iff_exists.mp (ha.seen v hv)
  obtain ⟨w, hw, hid, howner⟩ := ha.owner v.rawId k hk
  rw [resolveAlias, hk, Option.getD_some, ← howner, hids v hv w hw hid.symm]

/-- Aliases lead in one step: an id that belongs to a digest is its own alias. -/
theorem Aliased.resolveAlias_resolveAlias (ha : Aliased vs s) (hids : OneContentPerId vs)
    (x : Text) : s.resolveAlias (s.resolveAlias x) = s.resolveAlias x := by
  rcases hx : s.aliases.get? x with _ | k
  · have hself : s.resolveAlias x = x := by rw [resolveAlias, hx, Option.getD_none]
    rw [hself, hself]
  · have hk : s.resolveAlias x = k := by rw [resolveAlias, hx, Option.getD_some]
    obtain ⟨v, hv, -, howner⟩ := ha.owner x k hx
    obtain ⟨first, hfirst, hdigest, hid⟩ := exists_of_owner howner
    have halias := ha.owner_resolveAlias hids hfirst
    rw [hdigest, howner, hid, Option.some_inj] at halias
    rw [hk, ← halias]

/-- A record has the content of a module that was read completely and whose digest belongs to the
id of the record. -/
theorem Traced.exists_content (hs : Traced vs s) {r : ModuleRecord}
    (hr : s.modules.get? k = some r) :
    ∃ w ∈ registeredIn vs, w.source = r.source ∧ owner vs w.digest = some k := by
  obtain ⟨w, hsource, hfirst⟩ := hs.exists_resident hr
  obtain ⟨hcomplete, howner, -⟩ := find?_of_resident hfirst
  exact ⟨w, mem_registeredIn.mpr ⟨List.mem_of_find?_eq_some hfirst, hcomplete⟩, hsource, howner⟩

/-- The alias of a module that was read completely leads to the record of its content. -/
theorem Traced.exists_record_of_alias (hs : Traced vs s) (ha : Aliased vs s)
    (hids : OneContentPerId vs) (hv : v ∈ registeredIn vs) :
    ∃ r, s.modules.get? (s.resolveAlias v.rawId) = some r ∧ r.source.digest = v.source.digest := by
  obtain ⟨hmem, hcomplete⟩ := mem_registeredIn.mp hv
  have howner := ha.owner_resolveAlias hids hmem
  obtain ⟨r, hr, -⟩ := hs.exists_kept hmem hcomplete howner
  obtain ⟨w, -, hsource, hw⟩ := hs.exists_content hr
  refine ⟨r, hr, ?_⟩
  rw [← hsource, digest_eq_iff, hids.owner_inj hw howner]

/-- There is one record for every content that was read. -/
theorem Traced.perm_digests (hs : Traced vs s) (ha : Aliased vs s) (hids : OneContentPerId vs) :
    (s.modules.map fun e => e.2.source.digest).Perm
      ((registeredIn vs).map fun v => v.source.digest).dedup := by
  refine (List.perm_ext_iff_of_nodup ?_ (List.nodup_dedup _)).mpr fun digest => ?_
  · -- records with one digest are under one id
    refine List.Nodup.map_on ?_ (List.Nodup.of_map Prod.fst hs.nodup)
    rintro ⟨k, r⟩ hr ⟨k', r'⟩ hr' hdigest
    obtain ⟨w, -, hsource, hw⟩ := hs.exists_content ((Table.mem_iff_get? hs.nodup).mp hr)
    obtain ⟨w', -, hsource', hw'⟩ := hs.exists_content ((Table.mem_iff_get? hs.nodup).mp hr')
    have hsame : w.digest = w'.digest := by
      rw [← digest_eq_iff, hsource, hsource']
      exact hdigest
    have hkey : k = k' := Option.some_inj.mp (by rw [← hw, ← hw', hsame])
    rw [Table.mem_iff_get? hs.nodup] at hr hr'
    rw [hkey, hr', Option.some_inj] at hr
    rw [hkey, hr]
  · rw [List.mem_dedup, List.mem_map, List.mem_map]
    constructor
    · rintro ⟨⟨k, r⟩, hr, rfl⟩
      obtain ⟨w, hw, hsource, -⟩ := hs.exists_content ((Table.mem_iff_get? hs.nodup).mp hr)
      exact ⟨w, hw, by rw [hsource]⟩
    · rintro ⟨v, hv, rfl⟩
      obtain ⟨r, hr, hdigest⟩ := hs.exists_record_of_alias ha hids hv
      exact ⟨(_, r), Table.mem_of_get? hr, hdigest⟩

/-- A record asks for what the modules with its digest ask for. -/
theorem Declared.mem_keys_iff (hd : Declared vs s) (hs : Traced vs s) (hids : OneContentPerId vs)
    {r : ModuleRecord} (hr : s.modules.get? k = some r) (d : Text) :
    d ∈ r.dependencies.keys ↔ ∃ v ∈ registeredIn vs,
      v.source.digest = r.source.digest ∧ d ∈ v.asks.map Ask.dependency := by
  obtain ⟨w, -, hsource, hw⟩ := hs.exists_content hr
  have hresident : ∀ v, v ∈ residents vs k ↔
      v ∈ registeredIn vs ∧ v.source.digest = r.source.digest := by
    intro v
    rw [← hsource, digest_eq_iff, residents, List.mem_filter, decide_eq_true_iff, mem_registeredIn,
      and_assoc]
    refine and_congr_right fun _ => and_congr_right fun _ => ⟨fun hv => hids.owner_inj hv hw, ?_⟩
    exact fun hdigest => by rw [hdigest, hw]
  rw [(hd k r hr).2]
  simp only [hresident, and_assoc]

/-! ## Aliases are right -/

/-- Aliases are right, for a session after some modules were seen. -/
structure AliasesLead (vs : List Sighting) (s : Session) : Prop where
  /-- They lead in one step. -/
  idempotent : ∀ x, s.resolveAlias (s.resolveAlias x) = s.resolveAlias x
  /-- They lead to the record of the content. -/
  record : ∀ v ∈ registeredIn vs, ∃ r,
    s.modules.get? (s.resolveAlias v.rawId) = some r ∧ r.source.digest = v.source.digest
  /-- The records are those of the different contents. -/
  digests : (s.modules.map fun e => e.2.source.digest).Perm
    ((registeredIn vs).map fun v => v.source.digest).dedup
  /-- A record has the dependencies of all modules of its content. -/
  dependencies : ∀ k r, (k, r) ∈ s.modules → ∀ d, d ∈ r.dependencies.keys ↔
    ∃ v ∈ registeredIn vs, v.source.digest = r.source.digest ∧ d ∈ v.asks.map Ask.dependency
  /-- An edge leads to the file of the record that has the content of the module asked for. -/
  edges : ∀ e ∈ s.edges, ∀ v ∈ registeredIn vs, v.rawId = e.dependency → ∃ r,
    s.modules.get? e.target = some r ∧ r.canonicalId = e.target ∧
      r.source.digest = v.source.digest

/-- After any bundles that use no id for two contents, aliases are right.  What is said of the
modules that were read completely is said of those that reading the bundles registers, and the edges
are those by which the forest grows, whatever it was before. -/
theorem after_aliasesLead (sources : List Source) (hids : OneContentPerId (history sources)) :
    AliasesLead (history sources) (after sources) ∧
      List.Forall₂ Registers (recordsRead sources empty) (registeredIn (history sources)) ∧
      ∀ f, (growForest (after sources).liveRecords).Agrees
        (Action.each (after sources).growRecord (after sources).liveRecords)
        { after sources with forest := f } := by
  obtain ⟨hs, ha, hd⟩ := after_aliased sources
  refine ⟨⟨ha.resolveAlias_resolveAlias hids, fun v hv => hs.exists_record_of_alias ha hids hv,
    hs.perm_digests ha hids, fun k r hr => ?_, fun e he v hv hid => ?_⟩,
    registers_recordsRead sources empty, fun f => growForest_agrees (.withForest _ f) _⟩
  · exact hd.mem_keys_iff hs hids ((Table.mem_iff_get? hs.nodup).mp hr)
  · obtain ⟨r, hr, hdigest⟩ := hs.exists_record_of_alias ha hids hv
    rw [hid, ← target_of_mem_edges he] at hr
    exact ⟨r, hr, (hd e.target r hr).1, hdigest⟩

/-- Two bundles that have one content under different ids, of which the first one is malformed. -/
def bundlesOfOneContent : List Text :=
  ["p(\x7b1:[function()\x7ba\x7d,\x7b'./b':2\x7d],2:[function()\x7bb\x7d,5]\x7d,\x7b\x7d,[1])",
    "p(\x7b3:[function()\x7bb\x7d,\x7b'./a':1\x7d]\x7d,\x7b\x7d,[3])"]

set_option maxRecDepth 100000 in
/-- The content is known by the id of the malformed module. -/
theorem oneContent_aliasesLead :
    ∃ sources, (bundlesOfOneContent.mapM Source.parse).toOption = some sources ∧
      OneContentPerId (history sources) ∧ (after sources).resolveAlias "3" = "2" ∧
      AliasesLead (history sources) (after sources) := by
  have h : ((bundlesOfOneContent.mapM Source.parse).toOption.any fun sources =>
      decide (OneContentPerId (history sources) ∧ (after sources).resolveAlias "3" = "2")) =
        true := by
    decide +kernel
  obtain ⟨sources, hsources, hids, halias⟩ : ∃ sources,
      (bundlesOfOneContent.mapM Source.parse).toOption = some sources ∧
        OneContentPerId (history sources) ∧ (after sources).resolveAlias "3" = "2" := by
    simpa [Option.any_eq_true] using h
  exact ⟨sources, hsources, hids, halias, (after_aliasesLead sources hids).1⟩

end Session
end Debundle
