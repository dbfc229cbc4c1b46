import Debundle.Proofs.Bundle.Growth
import Debundle.Proofs.Forest.Permanence

/-!
# What unpacking gives out

A packed bundle gives out one module for every record that is more than a stand-in, in the order of
the records.  Malformed entries are left out and refused require paths are passed over, but every
such record has got a file before any of its paths was taken in, and items never disappear; so each
module has the path of a file that is in the forest.

The one thing that stops the unpacking is a string with an escape beyond the last code point.  If
there is none in the table, unpacking gives out its modules whatever else is wrong with the bundle
and whatever the session has been through.

* `Node.holdsBeyond`: a string with such an escape somewhere in a tree.
* `isBlocked_eq_false`: an entry without such a string can be read, or left out.
* `Session.IsNamed.unpackPacked_ok`: what unpacking gives out if nothing stops it.
* `Session.Delivers`: a module is what a record makes of it.
* `Session.unpackPacked_delivers`: the modules of a bundle are those of the records.
-/

namespace Debundle

open Debundle.Action Script

/-! ## Strings in a tree -/

namespace Script.Node

/-- Whether a string in a tree has an escape beyond the last code point. -/
def holdsBeyond (n : Node) : Bool :=
  n.all.any fun m => m.kind == .stringLiteral && m.children.any isBeyond

variable {root n : Node}

theorem isVoid_eq_false (hroot : root.holdsBeyond = false) (hn : n ∈ root.all) :
    n.isVoid = false := by
  have hunwrap : n.unwrap ∈ root.all := mem_all_trans hn n.unwrap_mem_all
  rw [holdsBeyond, List.any_eq_false] at hroot
  rw [isVoid, ← Bool.not_eq_true]
  exact hroot _ hunwrap

end Script.Node

variable {root : Node}

theorem isOk_keyText (hroot : root.holdsBeyond = false) {pair : Node} (hpair : pair ∈ root.all) :
    (keyText pair).isOk = true := by
  unfold keyText
  cases hkey : pair.part? .key with
  | none => rfl
  | some key =>
    have hmem : key ∈ root.all := Node.mem_all_trans hpair
      (Node.mem_all_of_mem_children (Node.mem_children_of_part? hkey) key.mem_all_self)
    simp only
    rw [Node.isOk_propertyKey, Node.isVoid_eq_false hroot hmem, Bool.not_false]

theorem holdVoid_eq_false (hroot : root.holdsBeyond = false) {pairs : List Node}
    (hpairs : ∀ pair ∈ pairs, pair ∈ root.all) : holdVoid pairs = false := by
  induction pairs with
  | nil => rfl
  | cons pair rest ih =>
    obtain ⟨hpair, hrest⟩ := List.forall_mem_cons.mp hpairs
    have hkey := isOk_keyText hroot hpair
    have hvalue : (pair.part? .value).any Node.isVoid = false := by
      cases hvalue : pair.part? .value with
      | none => rfl
      | some value =>
        refine Node.isVoid_eq_false hroot (Node.mem_all_trans hpair ?_)
        exact Node.mem_all_of_mem_children (Node.mem_children_of_part? hvalue) value.mem_all_self
    unfold holdVoid
    cases hresult : keyText pair with
    | error e =>
      rw [hresult] at hkey
      cases hkey
    | ok key =>
      cases key with
      | none => simp
      | some path => simp [hvalue, ih hrest]

theorem mem_parts_of_entryItems? {value : Option Node} {factory object : Node}
    (h : entryItems? value = some (factory, object)) : ∃ v, value = some v ∧ object ∈ v.parts := by
  obtain ⟨v, hv, h⟩ := Option.bind_eq_some_iff.mp h
  obtain ⟨_, -, h⟩ := Option.bind_eq_some_iff.mp h
  refine ⟨v, hv, ?_⟩
  split at h
  · rename_i hparts
    rw [hparts]
    cases h
    simp
  · cases h

/-- An entry whose strings have no escape beyond the last code point does not stop the reading. -/
theorem isBlocked_eq_false (source : Source) {entry : Node} (hentry : entry.holdsBeyond = false) :
    isBlocked source entry = false := by
  have hkey := isOk_keyText hentry entry.mem_all_self
  unfold isBlocked
  cases hresult : keyText entry with
  | error e =>
    rw [hresult] at hkey
    cases hkey
  | ok key =>
    simp only
    cases key.filter (!·.isEmpty) with
    | none => simp
    | some rawId =>
      cases hitems : entryItems? (entry.part? .value) with
      | none => simp
      | some items =>
        obtain ⟨factory, object⟩ := items
        obtain ⟨v, hv, hobject⟩ := mem_parts_of_entryItems? hitems
        have hobjectAll : object ∈ entry.all :=
          Node.mem_all_of_mem_children (Node.mem_children_of_part? hv)
            (Node.mem_all_of_mem_children (Node.mem_children_of_mem_parts hobject)
              object.mem_all_self)
        have hpairs : holdVoid object.parts = false := by
          refine holdVoid_eq_false hentry fun pair hpair => Node.mem_all_trans hobjectAll ?_
          exact Node.mem_all_of_mem_children (Node.mem_children_of_mem_parts hpair)
            pair.mem_all_self
        simp [hpairs]

/-! ## Files for records -/

namespace Forest

/-- A file that was asked for is there, whatever was asked before and after. -/
theorem has_afterAll_of_mem {f : Forest} (hf : f.WellFormed) {ops : List Operation} {id name : Text}
    {isPlaceholder : Bool} (hid : id ≠ []) (hop : .addFile id name isPlaceholder ∈ ops) :
    (f.afterAll ops).has id = true := by
  obtain ⟨before, later, rfl⟩ := List.append_of_mem hop
  rw [afterAll, List.foldl_append, List.foldl_cons, ← afterAll, ← afterAll]
  generalize hbefore : f.afterAll before = g
  have hg : g.WellFormed := hbefore ▸ wellFormed_afterAll hf before
  obtain ⟨⟨hok, -, hhas⟩, hstate⟩ := ((ensureFile_ok hid name isPlaceholder g).and
    (ensureFile_evolves ⟨(· = id), fun _ => True⟩ rfl name isPlaceholder)).and
    (ensureFile_state id name isPlaceholder g)
  have hadded : (g.after (.addFile id name isPlaceholder)).has id = true := hstate ▸ hhas hok
  exact (evolves_afterAll ((evolves_after hg _).wellFormed hg) later).has hadded

end Forest

namespace Session

variable {s : Session} {vs : List Sighting}

/-! ## Records -/

theorem IsNamed.nodup_canonicalIds (hs : IsNamed vs s) :
    (s.liveRecords.map ModuleRecord.canonicalId).Nodup := by
  have hkeys : (s.modules.map Prod.snd).map ModuleRecord.canonicalId = s.modules.keys := by
    rw [List.map_map]
    refine List.map_congr_left fun e he => ?_
    exact (hs.declared e.1 e.2 ((Table.mem_iff_get? hs.traced.nodup).mp he)).1
  have hsublist := (List.filter_sublist (p := fun r => !r.isStub)
    (l := s.modules.map Prod.snd)).map ModuleRecord.canonicalId
  rw [hkeys] at hsublist
  exact hs.traced.nodup.sublist hsublist

/-- Growing changes no record. -/
theorem liveRecords_operate (s : Session) (ops : List Forest.Operation) :
    (s.operate ops).liveRecords = s.liveRecords := rfl

/-- Every record that is more than a stand-in has a file after a bundle was read to the end. -/
theorem IsNamed.has_unpacked (hs : IsNamed vs s) (hforest : s.forest.WellFormed) {source : Source}
    (hend : (reading source).2 = true) {r : ModuleRecord}
    (hr : r ∈ (s.unpacked source).liveRecords) :
    (s.unpacked source).forest.has r.canonicalId = true := by
  have hid := (hs.unpacked source).canonicalId_ne_nil hr
  rw [hs.unpacked_eq, liveRecords_operate] at hr
  have hfile : Forest.Operation.addFile r.canonicalId r.canonicalId true ∈
      (s.takeAll (reading source).1).growth := List.mem_flatMap.mpr ⟨r, hr, List.mem_cons_self⟩
  rw [hs.forest_unpacked, growthBy, if_pos hend]
  exact Forest.has_afterAll_of_mem hforest hid hfile

/-! ## Unpacking -/

/-- If no entry stops the reading, the modules of all records are given out. -/
theorem IsNamed.unpackPacked_ok (hs : IsNamed vs s) {source : Source}
    (hentries : entriesOf source ≠ [])
    (hfree : (entriesOf source).any (isBlocked source) = false) :
    (reading source).2 = true ∧ ((unpackPacked source).run s).result =
      .ok ((s.unpacked source).liveRecords.map (s.unpacked source).moduleOf) := by
  have hend : (sightingsIn source (entriesOf source)).2 = true := by
    rw [sightingsIn_complete, hfree, Bool.not_false]
  refine ⟨by rw [reading_eq source hentries, hend], ?_⟩
  suffices h : (unpackPacked source).Leaves s fun r t =>
    r = .ok (t.liveRecords.map t.moduleOf) from h
  rw [unpackPacked_eq, unpackEntries, if_neg (by simpa using hentries), leaves_bind]
  refine (readEntries_leaves source (entriesOf source)).mono fun r t ht => ?_
  obtain ⟨rfl, hr⟩ := ht
  rw [if_pos hend] at hr
  rw [hr]
  have hnamed := hs.takeAll (rawId_ne_nil_of_mem_sightingsIn source (entriesOf source))
  simp only [leaves_get_bind]
  refine (growForest_ok _ (fun r hr => hnamed.canonicalId_ne_nil hr) _).bind
    (fun e t he => by cases he) fun _ t _ => ?_
  rw [leaves_get_bind]
  rfl

/-- A module is what a record makes of it: its id and source are those of the record, and its path
is that of the file of the record, which exists. -/
structure Delivers (s : Session) (r : ModuleRecord) (m : SourceModule) : Prop where
  id : m.id = some r.canonicalId
  source : m.source = r.source
  hasFile : s.forest.has r.canonicalId = true
  path : m.path = .text (s.forest.pathOf r.canonicalId)

theorem forest_after_wellFormed (sources : List Source) : (after sources).forest.WellFormed := by
  rw [forest_after]
  exact Forest.wellFormed_afterAll Forest.wellFormed_empty _

/-- Whatever bundles came before, a packed bundle with entries whose strings have no escape beyond
the last code point is unpacked, whichever entries are malformed and whichever require paths are
refused.  It gives out exactly one module for every record that is more than a stand-in, in the order
of the records and with ids that are all different, each with the source of the record and the path
of a file that is in the forest. -/
theorem unpackPacked_delivers (sources : List Source) (bundle : Source)
    (hentries : entriesOf bundle ≠ [])
    (hstrings : ∀ entry ∈ entriesOf bundle, entry.holdsBeyond = false) :
    ∃ modules, ((unpackPacked bundle).run (after sources)).result = .ok modules ∧
      List.Forall₂ ((after sources).unpacked bundle).Delivers
        ((after sources).unpacked bundle).liveRecords modules ∧
      (modules.map SourceModule.id).Nodup := by
  have hs := after_isNamed sources
  have hfree : (entriesOf bundle).any (isBlocked bundle) = false := by
    rw [List.any_eq_false]
    intro entry hentry
    rw [isBlocked_eq_false bundle (hstrings entry hentry)]
    exact Bool.false_ne_true
  obtain ⟨hend, hok⟩ := hs.unpackPacked_ok hentries hfree
  refine ⟨_, hok, ?_, ?_⟩
  · rw [List.forall₂_map_right_iff, List.forall₂_same]
    intro r hr
    exact ⟨rfl, rfl, hs.has_unpacked (forest_after_wellFormed sources) hend hr, rfl⟩
  · have hids := (hs.unpacked bundle).nodup_canonicalIds
    rw [List.map_map]
    have hsome := hids.map (f := some) fun _ _ h => Option.some_inj.mp h
    rw [List.map_map] at hsome
    exact hsome

/-- A bundle with a module that asks for another one. -/
def bundleBefore : Text := "p(\x7b1:[function()\x7ba\x7d,\x7b'./b':2\x7d]\x7d,\x7b\x7d,[1])"

/-- A bundle with the other module, which asks by a path that is refused, since it leads to the empty
id; with a malformed entry; and with one that stands for a module that is elsewhere. -/
def bundleWithRefusal : Text :=
  "p(\x7b2:[function()\x7bb\x7d,\x7b'./c':''\x7d],3:5,4:[function()\x7b\x7d,\x7b\x7d]\x7d,\x7b\x7d,[2])"

set_option maxRecDepth 100000 in
/-- The modules of both bundles are given out, beside each other as the first one asks; of the path
that is refused there is nothing in the forest. -/
theorem refusal_delivers :
    ∃ before bundle, (Source.parse bundleBefore).toOption = some before ∧
      (Source.parse bundleWithRefusal).toOption = some bundle ∧
      entriesOf bundle ≠ [] ∧ (∀ entry ∈ entriesOf bundle, entry.holdsBeyond = false) ∧
      ((after [before]).unpacked bundle).liveRecords.map ModuleRecord.canonicalId = ["1", "2"] ∧
      ["1", "2"].map ((after [before]).unpacked bundle).forest.pathOf =
        ["parent-1/1", "parent-1/b"] ∧
      ((after [before]).unpacked bundle).forest.items.map (·.id) = ["1", "2", "parent-1"] ∧
      ∃ modules, ((unpackPacked bundle).run (after [before])).result = .ok modules ∧
        List.Forall₂ ((after [before]).unpacked bundle).Delivers
          ((after [before]).unpacked bundle).liveRecords modules ∧
        (modules.map SourceModule.id).Nodup := by
  have h : ((Source.parse bundleBefore).toOption.any fun before =>
      (Source.parse bundleWithRefusal).toOption.any fun bundle =>
        decide (entriesOf bundle ≠ [] ∧ (∀ entry ∈ entriesOf bundle, entry.holdsBeyond = false) ∧
          ((after [before]).unpacked bundle).liveRecords.map ModuleRecord.canonicalId =
            ["1", "2"] ∧
          ["1", "2"].map ((after [before]).unpacked bundle).forest.pathOf =
            ["parent-1/1", "parent-1/b"] ∧
          ((after [before]).unpacked bundle).forest.items.map (·.id) =
            ["1", "2", "parent-1"])) = true := by
    decide +kernel
  obtain ⟨before, hbefore, h⟩ := (Option.any_eq_true _ _).mp h
  obtain ⟨bundle, hbundle, h⟩ := (Option.any_eq_true _ _).mp h
  obtain ⟨hentries, hstrings, hids, hpaths, hitems⟩ := of_decide_eq_true h
  exact ⟨before, bundle, hbefore, hbundle, hentries, hstrings, hids, hpaths, hitems,
    unpackPacked_delivers [before] bundle hentries hstrings⟩

end Session
end Debundle
