import Debundle.Proofs.Bundle.Definitions
import Debundle.Unpack.Aggregate
import Mathlib.Data.List.Nodup

/-!
# Every path is looked at once

Bundles inside bundles, and all inputs one after the other, share the paths that were looked at.
A path that is given out was not looked at before, and is looked at from then on.  So the leaves of
all inputs together have different paths, whatever the bundles are.

* `pathKeys`, `Progress.keys`: the paths of some modules, and those that were looked at, as keys.
* `Progress.Gives`: leaves are given out whose paths are new and different.
* `Progress.Gives.append`: one after the other.
* `workOff_gives`, `unpackAll_gives`: what is given out by a stack, and by all inputs.
* `nodup_pathKeys_leaves`: the leaves of all inputs have different paths.
-/

namespace Debundle

open Debundle.Action Script

/-- The paths of some modules, as they are filed. -/
def pathKeys (ms : List SourceModule) : List Scalar := ms.map fun m => m.path.filed

/-- The paths that were looked at, as they are filed. -/
def Progress.keys (p : Progress) : List Scalar := p.seen.map Scalar.filed

/-- A scalar is the same key as one of some others if and only if it is filed like one of them. -/
theorem any_sameKey_iff {paths : List Scalar} {path : Scalar} :
    paths.any (·.sameKey path) = true ↔ path.filed ∈ paths.map Scalar.filed := by
  simp only [Scalar.sameKey, List.any_eq_true, beq_iff_eq, List.mem_map]

theorem Progress.hasSeen_iff (p : Progress) (path : Scalar) :
    p.hasSeen path = true ↔ path.filed ∈ p.keys :=
  any_sameKey_iff

/-- Whether a path was looked at depends only on the keys. -/
theorem Progress.hasSeen_eq {p q : Progress} (h : q.keys = p.keys) (path : Scalar) :
    q.hasSeen path = p.hasSeen path := by
  rw [Bool.eq_iff_iff, hasSeen_iff, hasSeen_iff, h]

theorem Progress.hasSeen_mark (p : Progress) (path other : Scalar) :
    (p.mark path).hasSeen other = (path.sameKey other || p.hasSeen other) := by
  rw [hasSeen, mark, List.any_append, Bool.or_comm]
  simp [hasSeen]

@[simp] theorem Progress.keys_mark (p : Progress) (path : Scalar) :
    (p.mark path).keys = p.keys ++ [path.filed] := by
  simp [keys, mark]

theorem Progress.subset_mark (p : Progress) (path : Scalar) : p.keys ⊆ (p.mark path).keys := by
  rw [keys_mark]
  exact List.subset_append_left _ _

/-! ## Looking into a module -/

section Expand

variable {m : SourceModule} {p : Progress} {source : Source} {kind : BundleKind}

theorem expand_leaves_unparsable {e : ParseError} (hparse : Source.parse m.source = .error e)
    (Q : Except Fault (List SourceModule) → Progress → Prop) :
    (expand m).Leaves p Q ↔ Q (.ok []) p := by
  unfold expand
  rw [hparse]
  rfl

theorem expand_leaves_error {e : LiteralError} (hparse : Source.parse m.source = .ok source)
    (hkind : BundleKind.ofStatements source.statements = .error e)
    (Q : Except Fault (List SourceModule) → Progress → Prop) :
    (expand m).Leaves p Q ↔ Q (.error (.literal e)) p := by
  unfold expand
  rw [hparse]
  simp only
  rw [leaves_bind, leaves_ofExcept, hkind]
  rfl

/-- The modules of a script are those of a bundle of its kind. -/
theorem expand_leaves (hparse : Source.parse m.source = .ok source)
    (hkind : BundleKind.ofStatements source.statements = .ok kind)
    (Q : Except Fault (List SourceModule) → Progress → Prop) :
    (expand m).Leaves p Q ↔ (unpackKind kind source).Leaves p Q := by
  unfold expand
  rw [hparse]
  simp only
  rw [leaves_bind, leaves_ofExcept, hkind]
  simp only [Except.mapError]
  split
  · rw [leaves_bind, leaves_say]
  · rfl

/-- Looking into a module leaves the paths that were looked at as they are. -/
theorem expand_keys (m : SourceModule) (p : Progress) :
    (expand m).Leaves p fun _ q => q.keys = p.keys := by
  cases hparse : Source.parse m.source with
  | error e => exact (expand_leaves_unparsable hparse _).mpr rfl
  | ok source =>
    cases hkind : BundleKind.ofStatements source.statements with
    | error e => exact (expand_leaves_error hparse hkind _).mpr rfl
    | ok kind =>
      rw [expand_leaves hparse hkind]
      cases kind with
      | packed => rfl
      | amd => exact (unpackStatements_leaves source source.statements _).mpr rfl
      | leaf => rfl

end Expand

/-! ## Leaves with new paths -/

/-- The paths that were looked at are kept, and if leaves are given out, their paths are different
ones that were not looked at before and are looked at now. -/
def Progress.Gives {ε : Type} (p : Progress) (r : Except ε (List SourceModule)) (q : Progress) :
    Prop :=
  p.keys ⊆ q.keys ∧ ∀ leaves, r = .ok leaves →
    (pathKeys leaves).Nodup ∧ (pathKeys leaves).Disjoint p.keys ∧ pathKeys leaves ⊆ q.keys

namespace Progress

variable {ε : Type} {p q t : Progress} {ms ns : List SourceModule}

theorem Gives.nil (h : p.keys ⊆ q.keys) : p.Gives (.ok [] : Except ε _) q := by
  refine ⟨h, ?_⟩
  rintro leaves hleaves
  rw [← Except.ok.inj hleaves]
  exact ⟨List.nodup_nil, List.disjoint_nil_left _, List.nil_subset _⟩

theorem Gives.error {e : ε} (h : p.keys ⊆ q.keys) : p.Gives (.error e) q :=
  ⟨h, fun _ hleaves => nomatch hleaves⟩

/-- A module whose path was not looked at is given out. -/
theorem Gives.single {m : SourceModule} (hm : ¬p.hasSeen m.path = true)
    (hq : q.keys = (p.mark m.path).keys) : p.Gives (.ok [m] : Except ε _) q := by
  rw [hasSeen_iff] at hm
  rw [keys_mark] at hq
  refine ⟨hq ▸ List.subset_append_left _ _, ?_⟩
  rintro leaves hleaves
  rw [← Except.ok.inj hleaves]
  refine ⟨List.nodup_singleton _, ?_, hq ▸ List.subset_append_right _ _⟩
  exact List.singleton_disjoint.mpr hm

theorem Gives.mapError {δ : Type} {r : Except ε (List SourceModule)} (f : ε → δ) (h : p.Gives r q) :
    p.Gives (r.mapError f) q := by
  cases r with
  | error e => exact .error h.1
  | ok leaves =>
    refine ⟨h.1, fun ms hms => h.2 ms ?_⟩
    rw [Except.ok.inj hms]

theorem Gives.of_subset {r : Except ε (List SourceModule)} (hpq : p.keys ⊆ q.keys)
    (h : q.Gives r t) : p.Gives r t := by
  refine ⟨List.Subset.trans hpq h.1, fun leaves hleaves => ?_⟩
  obtain ⟨hnodup, hnew, hseen⟩ := h.2 leaves hleaves
  exact ⟨hnodup, fun k hk hk' => hnew hk (hpq hk'), hseen⟩

/-- What is given out later has other paths. -/
theorem Gives.append (hms : p.Gives (.ok ms : Except ε _) q)
    (hns : q.Gives (.ok ns : Except ε _) t) : p.Gives (.ok (ms ++ ns) : Except ε _) t := by
  obtain ⟨hpq, hms⟩ := hms
  obtain ⟨hqt, hns⟩ := hns
  obtain ⟨hmsNodup, hmsNew, hmsSeen⟩ := hms ms rfl
  obtain ⟨hnsNodup, hnsNew, hnsSeen⟩ := hns ns rfl
  refine ⟨List.Subset.trans hpq hqt, ?_⟩
  rintro leaves hleaves
  have hkeys : pathKeys leaves = pathKeys ms ++ pathKeys ns := by
    rw [← Except.ok.inj hleaves, pathKeys, List.map_append]
    rfl
  rw [hkeys]
  refine ⟨?_, ?_, ?_⟩
  · exact List.nodup_append'.mpr ⟨hmsNodup, hnsNodup, fun k hk hk' => hnsNew hk' (hmsSeen hk)⟩
  · exact List.disjoint_append_left.mpr ⟨hmsNew, fun k hk hk' => hnsNew hk (hpq hk')⟩
  · exact List.append_subset.mpr ⟨fun k hk => hqt (hmsSeen hk), hnsSeen⟩

/-- Leaves are given out, and then what another action gives. -/
theorem Gives.bind_append {b : Action Progress ε (List SourceModule)}
    (hms : p.Gives (.ok ms : Except ε _) q) (hb : b.Leaves q fun r t => q.Gives r t) :
    (do return ms ++ (← b) : Action Progress ε (List SourceModule)).Leaves q
      fun r t => p.Gives r t :=
  hb.bind (fun _ _ h => .error (List.Subset.trans hms.1 h.1)) fun _ _ h => hms.append h

end Progress

/-! ## A stack, and all inputs -/

/-- Whatever is on the stack, the leaves have new and different paths. -/
theorem workOff_gives (fuel : Nat) (stack : List SourceModule) (p : Progress) :
    (workOff fuel stack).Leaves p fun r q => p.Gives r q := by
  induction fuel generalizing stack p with
  | zero =>
    cases stack with
    | nil => exact .nil (List.Subset.refl _)
    | cons m stack => exact .error (List.Subset.refl _)
  | succ fuel ih =>
    cases stack with
    | nil => exact .nil (List.Subset.refl _)
    | cons m stack =>
      unfold workOff
      rw [leaves_get_bind]
      split
      · exact ih stack p
      · rename_i hm
        have hmark := p.subset_mark m.path
        rw [leaves_bind, leaves_modify]
        refine (expand_keys m (p.mark m.path)).bind (fun e q h => ?_) fun ms q h => ?_
        · rw [← h] at hmark
          exact .error hmark
        · cases ms with
          | nil =>
            have hsingle : p.Gives (.ok [m] : Except Fault _) q := .single hm h
            exact hsingle.bind_append (ih stack q)
          | cons first rest =>
            rw [← h] at hmark
            exact (ih (first :: rest ++ stack) q).mono fun r t ht => .of_subset hmark ht

theorem unpackCandidate_gives (fuel : Nat) (c : Candidate) (p : Progress) :
    (unpackCandidate fuel c).Leaves p fun r q => p.Gives r q := by
  unfold unpackCandidate
  cases c.path with
  | list items => exact .error (List.Subset.refl _)
  | mapping entries => exact .error (List.Subset.refl _)
  | scalar path =>
    simp only
    rw [leaves_get_bind]
    split
    · exact .nil (List.Subset.refl _)
    · split
      · exact workOff_gives fuel _ p
      · exact .error (p.subset_mark path)

/-- Whatever the inputs are, their leaves have new and different paths. -/
theorem unpackAll_gives (fuel : Nat) (bundles : List Value) (p : Progress) :
    (unpackAll fuel bundles).Leaves p fun r q => p.Gives r q := by
  fun_induction unpackAll fuel bundles generalizing p with
  | case1 => exact .nil (List.Subset.refl _)
  | case2 rest ih => exact ih p
  | case3 v rest _ ih =>
    rw [leaves_bind, leaves_ofExcept]
    cases Candidate.ofValue v with
    | error e => exact .error (List.Subset.refl _)
    | ok c =>
      simp only
      split
      · rw [leaves_bind, leaves_say]
        exact ih p
      · have hleaves : ((unpackCandidate fuel c).mapError BundleError.fault).Leaves p
            fun r q => p.Gives r q := by
          rw [leaves_mapError]
          exact (unpackCandidate_gives fuel c p).mono fun r q h => h.mapError BundleError.fault
        refine hleaves.bind (fun e q h => .error h.1) fun ms q hms => ?_
        exact hms.bind_append (ih q)

/-- The leaves of all inputs together have different paths. -/
theorem nodup_pathKeys_leaves {fuel : Nat} {bundles : List Value} {leaves : List SourceModule}
    (h : ((unpackAll fuel bundles).run Progress.start).result = .ok leaves) :
    (pathKeys leaves).Nodup := by
  have hgives : Progress.start.Gives ((unpackAll fuel bundles).run Progress.start).result
    ((unpackAll fuel bundles).run Progress.start).state := unpackAll_gives fuel bundles .start
  exact (hgives.2 leaves h).1

end Debundle
