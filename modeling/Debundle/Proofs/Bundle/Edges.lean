import Debundle.Proofs.Bundle.Sighting

/-!
# The edges by which the forest grows

When the forest grows, every record that is more than a stand-in gets a file, and every path by
which it asks for a module is taken into the forest as an edge between two files.  Growing changes
nothing but the forest, and the edges are read off the records and the aliases, so they are fixed
before the first of them is taken in.

* `Session.Edge`: that one file asks for another by a path.
* `Session.edgesOf`, `Session.edges`: the edges of a record, and of all records.
* `Session.growRecord`: a file for a record, and then its edges.
* `Session.growForest_agrees`: the forest grows by exactly these edges.
-/

namespace Debundle
namespace Session

open Debundle.Action

/-- That the module of one file asks for the module of another one. -/
structure Edge where
  /-- The id of the file that asks. -/
  current : Text
  /-- The id by which its bundle knows the module that it asks for. -/
  dependency : Text
  /-- The id of the file of that module. -/
  target : Text
  /-- The path by which it asks. -/
  path : Text
deriving DecidableEq

/-- The edge for a path by which a file asks for a module; there is none to a stand-in. -/
def edge? (s : Session) (current : Text) (asked : Text × Text) : Option Edge :=
  if (s.modules.get? (s.resolveAlias asked.1)).any ModuleRecord.isStub then none
  else some ⟨current, asked.1, s.resolveAlias asked.1, asked.2⟩

/-- The edges of a record. -/
def edgesOf (s : Session) (r : ModuleRecord) : List Edge :=
  r.dependencies.filterMap (s.edge? r.canonicalId)

/-- The edges by which the forest grows. -/
def edges (s : Session) : List Edge := s.liveRecords.flatMap s.edgesOf

theorem target_of_edge? {s : Session} {current : Text} {asked : Text × Text} {e : Edge}
    (h : s.edge? current asked = some e) : e.target = s.resolveAlias e.dependency := by
  unfold edge? at h
  split at h
  · exact absurd h (by simp)
  · rw [← Option.some_inj.mp h]

theorem target_of_mem_edges {s : Session} {e : Edge} (he : e ∈ s.edges) :
    e.target = s.resolveAlias e.dependency := by
  obtain ⟨r, -, he⟩ := List.mem_flatMap.mp he
  obtain ⟨asked, -, he⟩ := List.mem_filterMap.mp he
  exact target_of_edge? he

/-- Takes an edge into the forest. -/
def foldEdge (e : Edge) : SessionStep Unit := requireEdge e.current e.target e.path

/-- Makes a file for a record and takes in its edges, as a session gives them. -/
def growRecord (s : Session) (r : ModuleRecord) : SessionStep Unit := do
  (onForest (Forest.ensureFile r.canonicalId r.canonicalId true)).mapError Fault.forest
  Action.each foldEdge (s.edgesOf r)

variable {s t : Session}

theorem SameButForest.withForest (s : Session) (f : Forest) :
    s.SameButForest { s with forest := f } := rfl

theorem SameButForest.edge?_eq (h : s.SameButForest t) : t.edge? = s.edge? := by
  rw [h]
  rfl

/-- Growing by what a record asks for is taking in its edges, one after the other. -/
theorem growEdges_agrees (hst : s.SameButForest t) (current : Text) (asked : List (Text × Text)) :
    (growEdges current asked).Agrees
      (Action.each foldEdge (asked.filterMap (s.edge? current))) t := by
  induction asked generalizing t with
  | nil => exact .refl _ t
  | cons a rest ih =>
    obtain ⟨dependency, path⟩ := a
    have hedge : t.edge? current (dependency, path) = s.edge? current (dependency, path) := by
      rw [hst.edge?_eq]
    refine agrees_of_leaves fun Q hQ => ?_
    unfold growEdges
    rw [leaves_get_bind]
    by_cases hstub : (t.modules.get? (t.resolveAlias dependency)).any ModuleRecord.isStub = true
    · have hnone : s.edge? current (dependency, path) = none := by
        rw [← hedge, edge?, if_pos hstub]
      rw [List.filterMap_cons_none hnone] at hQ
      simp only [hstub, if_true]
      rw [leaves_bind, leaves_say]
      exact (ih hst).symm.leaves hQ
    · have hsome : s.edge? current (dependency, path) =
          some ⟨current, dependency, t.resolveAlias dependency, path⟩ := by
        rw [← hedge, edge?, if_neg hstub]
      simp only [hstub, Bool.false_eq_true, if_false]
      rw [List.filterMap_cons_some hsome, Action.each] at hQ
      have hstep := Agrees.bind (.refl _ t)
        (requireEdge_sameButForest current (t.resolveAlias dependency) path)
        fun _ u hu => ih (hst.trans hu)
      exact hstep.symm.leaves hQ

/-- The forest grows by the edges that the session gives before it grows. -/
theorem growForest_agrees (hst : s.SameButForest t) (records : List ModuleRecord) :
    (growForest records).Agrees (Action.each s.growRecord records) t := by
  induction records generalizing t with
  | nil => exact .refl _ t
  | cons r rest ih =>
    unfold growForest
    rw [Action.each, growRecord, bind_assoc]
    have hfile : ((onForest (Forest.ensureFile r.canonicalId r.canonicalId true)).mapError
        Fault.forest).Leaves t fun _ u => t.SameButForest u :=
      onForest_sameButForest (Forest.ensureFile r.canonicalId r.canonicalId true)
    refine Agrees.bind (.refl _ t) hfile fun _ u hu => ?_
    refine Agrees.bind (growEdges_agrees (hst.trans hu) r.canonicalId r.dependencies)
      (growEdges_sameButForest r.canonicalId r.dependencies) fun _ w hw => ?_
    exact ih ((hst.trans hu).trans hw)

end Session
end Debundle
