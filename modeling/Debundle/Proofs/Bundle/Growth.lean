import Debundle.Proofs.Bundle.Blocking
import Debundle.Proofs.Bundle.Edges

/-!
# Growing by operations

When the forest of a session grows, a sequence of operations is asked of it that is fixed before the
first of them is carried out: for every record that is more than a stand-in a file, and for each of
its edges a require path.  An operation that is refused is passed over, with the changes that it made
until then, so the forest afterwards is the one that these operations leave.  Whatever the bundles
were, the forest of a session is therefore reached from the empty one by such operations alone.

* `Session.growth`: the operations by which the forest grows.
* `Session.growForest_leaves`, `Session.grown_eq`: growing is carrying them out.
* `Session.idsSeen`, `Session.ids_growth`: the ids that modules mention, and that the forest grows by
  items that go by them.
* `Session.growths`, `Session.forest_after`: all operations since the first bundle, and the forest
  that they leave.
-/

namespace Debundle

open Debundle.Action Script

/-! ## Files -/

/-- Making sure of a file leaves the forest as adding the file does: an id that is taken changes
nothing. -/
theorem Forest.ensureFile_state (id name : Text) (isPlaceholder : Bool) (f : Forest) :
    (ensureFile id name isPlaceholder).Leaves f fun _ g =>
      g = f.after (.addFile id name isPlaceholder) := by
  unfold ensureFile
  rw [leaves_get_bind]
  split
  · rfl
  · rename_i hhas
    have hstep : (Operation.addFile id name isPlaceholder).step.Leaves f fun _ g => f = g := by
      unfold Operation.step addFile addItem
      rw [leaves_bind, leaves_get_bind]
      split
      · rfl
      · rw [if_pos (by simpa using hhas)]
        rfl
    exact hstep

namespace Session

variable {s t : Session} {vs : List Sighting}

/-! ## Operations -/

/-- What is asked of the forest for an edge. -/
def Edge.operation (e : Edge) : Forest.Operation := .require e.current e.target e.path

/-- What is asked of the forest for a record: a file, and then its edges. -/
def operationsOf (s : Session) (r : ModuleRecord) : List Forest.Operation :=
  .addFile r.canonicalId r.canonicalId true :: (s.edgesOf r).map Edge.operation

/-- What is asked of the forest when it grows. -/
def growth (s : Session) : List Forest.Operation := s.liveRecords.flatMap s.operationsOf

/-- The session after some operations on its forest. -/
def operate (s : Session) (ops : List Forest.Operation) : Session :=
  { s with forest := s.forest.afterAll ops }

theorem operate_append (s : Session) (ops more : List Forest.Operation) :
    s.operate (ops ++ more) = (s.operate ops).operate more := by
  simp only [operate, Forest.afterAll, List.foldl_append]

/-- An edge is taken in as far as the forest allows. -/
theorem foldEdge_leaves (e : Edge) (s : Session) :
    (foldEdge e).Leaves s fun r t => r = .ok () ∧ t = s.operate [e.operation] := by
  unfold foldEdge
  refine (requireEdge_ok e.current e.target e.path s).and ?_
  unfold requireEdge
  rw [leaves_bind, leaves_attempt, onForest, leaves_within]
  refine Leaves.mono (P := fun _ g => g = s.forest.after e.operation) rfl fun r g hg => ?_
  cases r with
  | ok _ => rw [hg]; rfl
  | error e => cases e <;> (rw [hg]; rfl)

theorem each_foldEdge_leaves (edges : List Edge) (s : Session) :
    (Action.each foldEdge edges).Leaves s fun r t =>
      r = .ok () ∧ t = s.operate (edges.map Edge.operation) := by
  induction edges generalizing s with
  | nil => exact ⟨rfl, rfl⟩
  | cons e rest ih =>
    rw [Action.each]
    refine (foldEdge_leaves e s).bind_ok fun t ht => ?_
    rw [ht, List.map_cons, ← List.singleton_append, operate_append]
    exact ih _

theorem growRecord_leaves {r : ModuleRecord} (hid : r.canonicalId ≠ []) (s t : Session) :
    (s.growRecord r).Leaves t fun result u => result = .ok () ∧ u = t.operate (s.operationsOf r) := by
  unfold growRecord
  have hfile : ((onForest (Forest.ensureFile r.canonicalId r.canonicalId true)).mapError
      Fault.forest).Leaves t fun result u =>
        result = .ok () ∧ u = t.operate [.addFile r.canonicalId r.canonicalId true] := by
    rw [leaves_mapError, onForest, leaves_within]
    refine ((Forest.ensureFile_ok hid _ true t.forest).and
      (Forest.ensureFile_state _ _ true t.forest)).mono fun result g hg => ?_
    rw [hg.1, hg.2]
    exact ⟨rfl, rfl⟩
  refine hfile.bind_ok fun u hu => ?_
  rw [hu, operationsOf, ← List.singleton_append, operate_append]
  exact each_foldEdge_leaves _ _

/-- The forest grows by its operations, one after the other, and nothing stops it. -/
theorem growForest_leaves (hs : ∀ r ∈ s.liveRecords, r.canonicalId ≠ []) :
    (growForest s.liveRecords).Leaves s fun r t => r = .ok () ∧ t = s.operate s.growth := by
  suffices h : ∀ records : List ModuleRecord, (∀ r ∈ records, r.canonicalId ≠ []) → ∀ t,
      (Action.each s.growRecord records).Leaves t fun r u =>
        r = .ok () ∧ u = t.operate (records.flatMap s.operationsOf) from
    (growForest_agrees (.refl s) _).symm.leaves (h _ hs s)
  intro records
  induction records with
  | nil => exact fun _ t => ⟨rfl, rfl⟩
  | cons r rest ih =>
    intro hrecords t
    obtain ⟨hr, hrest⟩ := List.forall_mem_cons.mp hrecords
    rw [Action.each]
    refine (growRecord_leaves hr s t).bind_ok fun u hu => ?_
    rw [hu, List.flatMap_cons, operate_append]
    exact ih hrest _

theorem grown_eq (hs : ∀ r ∈ s.liveRecords, r.canonicalId ≠ []) : s.grown = s.operate s.growth :=
  (growForest_leaves hs).2

theorem SameButForest.growth_eq (h : s.SameButForest t) : t.growth = s.growth := by
  rw [h]
  rfl

/-! ## Ids that modules mention -/

/-- The ids that some modules mention. -/
def idsSeen (vs : List Sighting) : List Text := vs.flatMap Sighting.ids

theorem rawId_mem_idsSeen {v : Sighting} (hv : v ∈ vs) : v.rawId ∈ idsSeen vs :=
  List.mem_flatMap.mpr ⟨v, hv, List.mem_cons_self⟩

theorem dependency_mem_idsSeen {v : Sighting} (hv : v ∈ vs) {d : Text}
    (hd : d ∈ v.asks.map Ask.dependency) : d ∈ idsSeen vs :=
  List.mem_flatMap.mpr ⟨v, hv, List.mem_cons_of_mem _ hd⟩

theorem owner_mem_idsSeen {digest k : Text} (h : owner vs digest = some k) : k ∈ idsSeen vs := by
  obtain ⟨v, hv, -, rfl⟩ := exists_of_owner h
  exact rawId_mem_idsSeen hv

/-- An id leads to an id that was seen. -/
theorem Aliased.resolveAlias_mem_idsSeen (ha : Aliased vs s) {d : Text} (hd : d ∈ idsSeen vs) :
    s.resolveAlias d ∈ idsSeen vs := by
  unfold resolveAlias
  cases halias : s.aliases.get? d with
  | none => exact hd
  | some k =>
    obtain ⟨v, -, -, howner⟩ := ha.owner d k halias
    exact owner_mem_idsSeen howner

theorem canonicalId_mem_idsSeen (hs : Traced vs s) (hd : Declared vs s) {r : ModuleRecord}
    (hr : r ∈ s.liveRecords) : r.canonicalId ∈ idsSeen vs := by
  obtain ⟨⟨k, hk⟩, -⟩ := hs.mem_liveRecords.mp hr
  obtain ⟨v, hv, hid⟩ := hs.exists_rawId hk
  rw [(hd k r hk).1, ← hid]
  exact rawId_mem_idsSeen hv

theorem asked_mem_idsSeen (hs : Traced vs s) (hd : Declared vs s) {r : ModuleRecord}
    (hr : r ∈ s.liveRecords) {asked : Text × Text} (hasked : asked ∈ r.dependencies) :
    asked.1 ∈ idsSeen vs := by
  obtain ⟨⟨k, hk⟩, -⟩ := hs.mem_liveRecords.mp hr
  obtain ⟨v, hv, hmem⟩ := ((hd k r hk).2 asked.1).mp (List.mem_map.mpr ⟨asked, hasked, rfl⟩)
  exact dependency_mem_idsSeen (List.mem_of_mem_filter hv) hmem

/-- The forest grows by items that go by ids that were seen. -/
theorem ids_growth (hs : Traced vs s) (ha : Aliased vs s) (hd : Declared vs s) :
    ∀ id ∈ s.growth.flatMap Forest.Operation.ids, id ∈ idsSeen vs := by
  intro id hid
  obtain ⟨op, hop, hid⟩ := List.mem_flatMap.mp hid
  obtain ⟨r, hr, hop⟩ := List.mem_flatMap.mp hop
  rcases List.mem_cons.mp hop with rfl | hop
  · rw [List.mem_singleton.mp hid]
    exact canonicalId_mem_idsSeen hs hd hr
  · obtain ⟨e, he, rfl⟩ := List.mem_map.mp hop
    obtain ⟨asked, hasked, he⟩ := List.mem_filterMap.mp he
    unfold edge? at he
    split at he
    · cases he
    · cases he
      rcases List.mem_pair.mp hid with rfl | rfl
      · exact canonicalId_mem_idsSeen hs hd hr
      · exact ha.resolveAlias_mem_idsSeen (asked_mem_idsSeen hs hd hr hasked)

/-! ## All operations so far -/

theorem after_isNamed (sources : List Source) : IsNamed (history sources) (after sources) := by
  induction sources using List.reverseRecOn with
  | nil => exact .empty
  | append_singleton sources source ih =>
    rw [after_append, history_append]
    exact ih.unpacked source

/-- The operations by which the forest grows when a bundle is unpacked: none if the reading is given
up. -/
def growthBy (s : Session) (source : Source) : List Forest.Operation :=
  if (reading source).2 then (s.takeAll (reading source).1).growth else []

/-- Unpacking takes what the bundle shows into the session and carries out the operations. -/
theorem IsNamed.unpacked_eq (hs : IsNamed vs s) (source : Source) :
    s.unpacked source = (s.takeAll (reading source).1).operate (s.growthBy source) := by
  rw [Session.unpacked_eq, growthBy]
  split
  · have hnamed := hs.takeAll (rawId_ne_nil_of_mem_reading source)
    exact grown_eq fun r hr => hnamed.canonicalId_ne_nil hr
  · rfl

theorem IsNamed.forest_unpacked (hs : IsNamed vs s) (source : Source) :
    (s.unpacked source).forest = s.forest.afterAll (s.growthBy source) := by
  rw [hs.unpacked_eq, operate, forest_takeAll]

/-- The operations by which the forest grows when bundles are unpacked. -/
def growths : List Source → Session → List Forest.Operation
  | [], _ => []
  | source :: rest, s => s.growthBy source ++ growths rest (s.unpacked source)

theorem IsNamed.forest_foldl (hs : IsNamed vs s) (sources : List Source) :
    (sources.foldl Session.unpacked s).forest = s.forest.afterAll (growths sources s) := by
  induction sources generalizing vs s with
  | nil => rfl
  | cons source rest ih =>
    rw [List.foldl_cons, ih (hs.unpacked source), growths, hs.forest_unpacked, Forest.afterAll,
      Forest.afterAll, ← List.foldl_append]
    rfl

/-- The forest after any bundles is what the operations for them leave of the empty one. -/
theorem forest_after (sources : List Source) :
    (after sources).forest = Forest.empty.afterAll (growths sources empty) :=
  IsNamed.empty.forest_foldl sources

end Session
end Debundle
