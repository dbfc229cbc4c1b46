import Debundle.Proofs.Bundle.Delivery
import Debundle.Proofs.Forest.Housing

/-!
# Modules that are taken for directories

Files go by the ids of modules, and directories by ids made from those of the items in them.  Nothing
keeps the two apart: a module may go by the id `parent-1` while another one goes by `1`.  If the
directory of `1` is wanted then, the file of the first module is taken for it.

This is the only way that something can be in a file.  So as long as no id that the bundles mention
is made from another one, only directories have something in them; and each id that is made from
another one can do harm, with a single module.

* `Session.housed_after`: where the ids in the forest of a session come from.
* `Session.file_used_of_made`: which files may have something in them, and that each of them can.
-/

namespace Debundle

open Debundle.Action Script

namespace Session

/-! ## Ids of items -/

/-- The ids in the forest of a session come from ids that were seen. -/
theorem housed_after (sources : List Source) :
    (after sources).forest.Housed (· ∈ idsSeen (history sources)) := by
  induction sources using List.reverseRecOn with
  | nil => exact .empty _
  | append_singleton sources source ih =>
    have hs := after_isNamed sources
    have hgrowth : ∀ id ∈ ((after sources).growthBy source).flatMap Forest.Operation.ids,
        id ∈ idsSeen (history (sources ++ [source])) := by
      unfold growthBy
      split
      · obtain ⟨htraced, haliased, hdeclared⟩ := after_aliased (sources ++ [source])
        have hsame := takeAll_sameButForest_unpacked (after sources) source
        rw [← hsame.growth_eq, ← after_append]
        exact ids_growth htraced haliased hdeclared
      · simp
    have hscope : (Forest.scopeOf ((after sources).growthBy source)).Within
        ⟨(· ∈ idsSeen (history (sources ++ [source]))), fun _ => True⟩ := ⟨hgrowth, fun _ h => h⟩
    have hevolves := (Forest.evolves_afterAll (forest_after_wellFormed sources)
      ((after sources).growthBy source)).mono hscope
    rw [after_append, hs.forest_unpacked]
    refine hevolves.housed (ih.mono fun id hid => ?_)
    rw [history_append, idsSeen, List.flatMap_append]
    exact List.mem_append_left _ hid

/-! ## A module that is taken for a directory -/

theorem path_pathThrough (x : Text) (n : Nat) :
    Ask.path ⟨x, Forest.pathThrough (n + 1)⟩ = Forest.pathThrough (n + 1) := by
  have hne : List.replicate (n + 1) (Text.ofString "a") ++ [Text.ofString "b"] ≠ [] := by simp
  have hnormal : Path.normalRequire (Forest.pathThrough (n + 1)) = Forest.pathThrough (n + 1) := by
    have hrelative : Text.startsWith (Forest.pathThrough (n + 1)) "./" = false :=
      Forest.startsWith_pathThrough n ['/']
    rw [Path.normalRequire, hrelative, Forest.pathThrough,
      Forest.normalKeepingSlash_names hne Forest.isName_of_mem_pathThrough]
    rfl
  rw [Ask.path, hnormal, completePath, Forest.pathThrough,
    Path.endsWith_join hne fun c hc => (Forest.isName_of_mem_pathThrough c hc).isPiece]
  rfl

/-- The forest grows by a file and a require path when the first module that is seen asks for
another one. -/
theorem growth_take_empty {v : Sighting} {x path : Text} (hcomplete : v.ending = .complete)
    (hasks : v.asks = [⟨x, path⟩]) (hx : v.rawId ≠ x) : (empty.take v).growth =
      [.addFile v.rawId v.rawId true, .require v.rawId x (Ask.path ⟨x, path⟩)] := by
  obtain ⟨rawId, source, digest, hdigest, asks, ending⟩ := v
  obtain rfl : ending = .complete := hcomplete
  obtain rfl : asks = [⟨x, path⟩] := hasks
  have hempty : (source.all CodePoint.isBlank && false) = false := Bool.and_false _
  have hmodules : (empty.take ⟨rawId, source, digest, hdigest, [⟨x, path⟩], .complete⟩).modules =
      [(rawId, ⟨rawId, rawId, source, [(x, Ask.path ⟨x, path⟩)], false⟩)] := by
    rw [← hempty]
    rfl
  have haliases : (empty.take ⟨rawId, source, digest, hdigest, [⟨x, path⟩], .complete⟩).aliases =
      [(rawId, rawId)] := rfl
  rw [growth, liveRecords, hmodules]
  simp [operationsOf, edgesOf, edge?, resolveAlias, hmodules, haliases, Table.get?, hx,
    Edge.operation]

/-- A single module that goes by an id made from that of the module it asks for, and that names the
directories in between, is taken for the last one of them. -/
theorem file_used_take {x : Text} (hx : x ≠ []) {n : Nat} {v : Sighting}
    (hcomplete : v.ending = .complete) (hid : v.rawId = Forest.parentIdOf^[n + 1] x)
    (hasks : v.asks = [⟨x, Forest.pathThrough (n + 1)⟩]) :
    ∃ i ∈ (empty.take v).grown.forest.items,
      i.id = v.rawId ∧ i.isFile = true ∧ i.children ≠ [] := by
  have hrawId : v.rawId ≠ [] := by
    rw [hid, Function.iterate_succ_apply']
    exact Forest.parentIdOf_ne_nil _
  have hnamed := IsNamed.empty.take hrawId
  have hforest : (empty.take v).forest = Forest.empty := forest_takeAll [v] empty
  have hgrowth := growth_take_empty hcomplete hasks (hid ▸ Forest.iterate_parentIdOf_ne_self n x)
  rw [grown_eq fun r hr => hnamed.canonicalId_ne_nil hr, operate, hforest, hgrowth,
    path_pathThrough, hid]
  exact Forest.file_used_alone hx n

/-- A file has something in it only if its module goes by an id that is made, in one step or several,
from another id that the bundles mention.  And every id that is made from another one can do this: a
single module that goes by it and asks for the other one is enough. -/
theorem file_used_of_made (sources : List Source) :
    (∀ i ∈ (after sources).forest.items, i.isFile = true → i.children ≠ [] →
      i.id ∈ idsSeen (history sources) ∧
        ∃ x ∈ idsSeen (history sources), ∃ n, i.id = Forest.parentIdOf^[n + 1] x) ∧
    ∀ x n, x ≠ [] → ∃ v : Sighting, v.ids = [Forest.parentIdOf^[n + 1] x, x] ∧
      ∃ i ∈ (empty.take v).grown.forest.items,
        i.id = v.rawId ∧ i.isFile = true ∧ i.children ≠ [] := by
  refine ⟨fun i hi hfile hchildren => ?_, fun x n hx => ?_⟩
  · have hwf := forest_after_wellFormed sources
    have hfind := hwf.find?_of_mem hi
    obtain ⟨child, hchild⟩ := List.exists_mem_of_ne_nil _ hchildren
    rw [← Forest.childrenOf_of_find? hfind, hwf.mem_childrenOf_iff] at hchild
    obtain ⟨hid, x, n, hx, hmade⟩ := (housed_after sources).of_isFile hfind hfile ⟨child, hchild⟩
    exact ⟨hid, x, hx, n, hmade⟩
  · have hscalar : Text.IsScalar [] := fun _ h => absurd h List.not_mem_nil
    obtain ⟨digest, hdigest⟩ := exists_digest hscalar
    exact ⟨⟨Forest.parentIdOf^[n + 1] x, [], digest, hdigest, [⟨x, Forest.pathThrough (n + 1)⟩],
      .complete⟩, rfl, file_used_take hx rfl rfl rfl⟩

/-- A bundle with a module that goes by the id of the directory for the module it asks for. -/
def bundleWithParentId : Text :=
  "p(\x7b'parent-1':[function()\x7ba\x7d,\x7b'a/b':1\x7d],1:[function()\x7bb\x7d,\x7b\x7d]\x7d,\x7b\x7d,[1])"

set_option maxRecDepth 100000 in
/-- The module is given out as the file `a`, and the other one as the file `b` in it. -/
theorem parentId_file_used :
    ∃ source, (Source.parse bundleWithParentId).toOption = some source ∧
      ((after [source]).liveRecords.map fun r => (after [source]).forest.pathOf r.canonicalId) =
        [Text.ofString "a", Text.ofString "a/b"] ∧
      ¬∀ i ∈ (after [source]).forest.items, i.isFile = true → i.children = [] := by
  have h : ((Source.parse bundleWithParentId).toOption.any fun source =>
      decide (((after [source]).liveRecords.map fun r =>
          (after [source]).forest.pathOf r.canonicalId) =
            [Text.ofString "a", Text.ofString "a/b"] ∧
        ¬∀ i ∈ (after [source]).forest.items, i.isFile = true → i.children = [])) = true := by
    decide +kernel
  obtain ⟨source, hsource, h⟩ := (Option.any_eq_true _ _).mp h
  exact ⟨source, hsource, of_decide_eq_true h⟩

end Session
end Debundle
