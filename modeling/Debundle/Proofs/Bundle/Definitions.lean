import Debundle.Bundle.Amd
import Debundle.Proofs.Journal.Postcondition

/-!
# What an AMD bundle defines

The modules of an AMD bundle are in the bundle alone: unpacking it neither reads nor changes what is
known from elsewhere.  If all factories can be restored, every definition gives one module, in the
order of the statements.

* `moduleOf?`: the module of a definition whose factory can be restored.
* `modulesIn`: the modules that statements define.
* `unpackStatements_leaves`: unpacking finds just these.
* `modulesIn_eq`: all definitions give a module if all factories can be restored.
* `hasDefinition_iff`: a script has the shape of an AMD bundle if something is defined.
-/

namespace Debundle

open Debundle.Action Script

variable {source : Source} {n : Node} {ns : List Node} {ds : List Definition} {d : Definition}

/-- The module of a definition, if its factory can be restored. -/
def moduleOf? (source : Source) (d : Definition) : Option SourceModule :=
  (restore (source.textOf d.factory)).toOption.map fun restored =>
    ⟨.text d.path, restored.source, none⟩

/-- The modules of a definition: one, or none if it is left out. -/
def modulesOf (source : Source) (d : Definition) : Except Fault (List SourceModule) :=
  match restore (source.textOf d.factory) with
  | .error (.unedited e) => .error (.unedited e)
  | _ => .ok (moduleOf? source d).toList

/-- The modules that statements define. -/
def modulesIn (source : Source) : List Node → Except Fault (List SourceModule)
  | [] => .ok []
  | n :: ns =>
    match definition? n with
    | .error e => .error (.literal e)
    | .ok none => modulesIn source ns
    | .ok (some d) => do return (← modulesOf source d) ++ (← modulesIn source ns)

/-! ## Unpacking -/

section Unpacking

variable {σ : Type} {s : σ}

theorem unpackDefinition_leaves (source : Source) (d : Definition)
    (Q : Except Fault (List SourceModule) → σ → Prop) :
    (unpackDefinition source d).Leaves s Q ↔ Q (modulesOf source d) s := by
  unfold unpackDefinition restoreEntry modulesOf moduleOf?
  rw [leaves_bind, leaves_attempt, leaves_bind, leaves_ofExcept]
  cases restore (source.textOf d.factory) with
  | error e =>
    cases e with
    | unparsable e => rfl
    | malformed f => rfl
    | unedited e => rfl
  | ok restored => rfl

/-- Unpacking finds what the statements define, and changes nothing. -/
theorem unpackStatements_leaves (source : Source) (ns : List Node)
    (Q : Except Fault (List SourceModule) → σ → Prop) :
    (unpackStatements source ns).Leaves s Q ↔ Q (modulesIn source ns) s := by
  induction ns generalizing Q with
  | nil => rfl
  | cons n ns ih =>
    unfold unpackStatements modulesIn
    rw [leaves_bind, leaves_ofExcept]
    cases definition? n with
    | error e => rfl
    | ok found =>
      have hfound : (Except.ok found : Except LiteralError _).mapError Fault.literal = .ok found :=
        rfl
      rw [hfound]
      cases found with
      | none =>
        simp only [pure_bind, List.nil_append]
        rw [leaves_bind, ih]
        cases modulesIn source ns with
        | error e => rfl
        | ok ms => rfl
      | some d =>
        simp only
        rw [leaves_bind, unpackDefinition_leaves]
        cases modulesOf source d with
        | error e => rfl
        | ok first =>
          simp only
          rw [leaves_bind, ih]
          cases modulesIn source ns with
          | error e => rfl
          | ok ms => rfl

end Unpacking

/-! ## Bundles whose factories can be restored -/

theorem definitions_cons (h : definitions (n :: ns) = .ok ds) :
    ∃ found rest, definition? n = .ok found ∧ definitions ns = .ok rest ∧
      ds = found.toList ++ rest := by
  unfold definitions at h
  cases hfound : definition? n with
  | error e =>
    rw [hfound] at h
    cases h
  | ok found =>
    cases hrest : definitions ns with
    | error e =>
      rw [hfound, hrest] at h
      cases h
    | ok rest =>
      rw [hfound, hrest] at h
      exact ⟨found, rest, rfl, rfl, (Except.ok.inj h).symm⟩

/-- If all factories can be restored, every definition gives a module. -/
theorem modulesIn_eq (hds : definitions ns = .ok ds)
    (hrestored : ∀ d ∈ ds, (moduleOf? source d).isSome) :
    modulesIn source ns = .ok (ds.filterMap (moduleOf? source)) := by
  induction ns generalizing ds with
  | nil =>
    rw [← Except.ok.inj hds]
    rfl
  | cons n ns ih =>
    obtain ⟨found, rest, hfound, hrest, rfl⟩ := definitions_cons hds
    have htail := ih hrest fun d hd => hrestored d (List.mem_append_right _ hd)
    unfold modulesIn
    rw [hfound]
    cases found with
    | none => exact htail
    | some d =>
      obtain ⟨m, hm⟩ := Option.isSome_iff_exists.mp (hrestored d (by simp))
      have hmodules : modulesOf source d = .ok [m] := by
        unfold modulesOf
        cases hrestore : restore (source.textOf d.factory) with
        | error e => simp [moduleOf?, hrestore, Except.toOption] at hm
        | ok restored => rw [hm]; rfl
      simp only [hmodules, htail, List.filterMap_append, Option.toList_some]
      rw [List.filterMap_cons_some hm]
      rfl

/-- Something is defined if and only if there is a definition. -/
theorem hasDefinition_iff (hds : definitions ns = .ok ds) :
    hasDefinition ns = .ok (!ds.isEmpty) := by
  induction ns generalizing ds with
  | nil =>
    rw [← Except.ok.inj hds]
    rfl
  | cons n ns ih =>
    obtain ⟨found, rest, hfound, hrest, rfl⟩ := definitions_cons hds
    unfold hasDefinition
    rw [hfound]
    cases found with
    | none => exact ih hrest
    | some d => rfl

/-- A module that is defined has a path. -/
theorem path_ne_nil_of_definition? (hd : definition? n = .ok (some d)) : d.path ≠ [] := by
  unfold definition? at hd
  cases hparts : definitionParts? n with
  | none =>
    rw [hparts] at hd
    cases hd
  | some parts =>
    obtain ⟨path, factory⟩ := parts
    cases hvalue : path.stringValue with
    | error e =>
      simp only [hparts, hvalue] at hd
      cases hd
    | ok value =>
      have hending : (if definitionEndings.any (Text.endsWith value) = true
          then some (⟨value, factory⟩ : Definition) else none) = some d := by
        simp only [hparts, hvalue] at hd
        exact Except.ok.inj hd
      split at hending
      · rename_i hany
        rw [← Option.some.inj hending]
        rintro rfl
        exact absurd hany (by decide)
      · cases hending

theorem path_ne_nil_of_definitions (hds : definitions ns = .ok ds) : ∀ d ∈ ds, d.path ≠ [] := by
  induction ns generalizing ds with
  | nil =>
    rw [← Except.ok.inj hds]
    exact fun d hd => absurd hd (by simp)
  | cons n ns ih =>
    obtain ⟨found, rest, hfound, hrest, rfl⟩ := definitions_cons hds
    intro d hd
    rcases List.mem_append.mp hd with hd | hd
    · rw [Option.mem_toList.mp hd] at hfound
      exact path_ne_nil_of_definition? hfound
    · exact ih hrest d hd

end Debundle
