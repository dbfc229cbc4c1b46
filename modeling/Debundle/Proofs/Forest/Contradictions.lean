import Debundle.Proofs.Forest.Permanence

/-!
# What is contradicted

A require path contradicts the forest if it gives a file another name than it has.  The first path to
a file decides on its name, and the name stays; so whether a path is contradicted can be read off the
forest at the end of a run, and does not depend on when the path is taken in, or how often.  Each time
that a contradicted path is taken in, a conflict is recorded.

* `Forest.conflictsAbout`: the conflicts of a kind.
* `Forest.rejection?`: the conflict about a file that an operation brings up.
* `Forest.conflictsAbout_afterAll`: the conflicts about files after a run, in terms of the names that
  files have at its end.
* `Forest.Quiet`: no operation brings up a conflict at its turn.
* `Forest.conflicts_afterAll_eq_iff`: only a quiet run records nothing.
-/

namespace Debundle
namespace Forest

open Debundle.Action

variable {S : Scope} {f g : Forest} {kind : ConflictKind}

/-! ## Conflicts of a kind -/

/-- The conflicts of a kind. -/
def conflictsAbout (f : Forest) (kind : ConflictKind) : List NameConflict :=
  f.conflicts.filter (·.kind = kind)

theorem conflictsAbout_congr (h : g.conflicts = f.conflicts) (kind : ConflictKind) :
    g.conflictsAbout kind = f.conflictsAbout kind := by
  rw [conflictsAbout, h, conflictsAbout]

theorem conflictsAbout_record (f : Forest) (c : NameConflict) (kind : ConflictKind) :
    (f.record c).conflictsAbout kind =
      f.conflictsAbout kind ++ if c.kind = kind then [c] else [] := by
  rw [conflictsAbout, record, List.filter_append, conflictsAbout]
  by_cases hc : c.kind = kind <;> simp [hc]

/-- A kind of conflict that does not come up is not recorded. -/
theorem Change.conflictsAbout (hfg : Change S f g) (hkind : ¬S.kinds kind) :
    g.conflictsAbout kind = f.conflictsAbout kind := by
  cases hfg with
  | insert name isFile isPlaceholder hid hfresh => rfl
  | settle name hi hplaceholder => rfl
  | record hfound hi hsettled hne =>
    rw [conflictsAbout_record, if_neg ?_, List.append_nil]
    rintro rfl
    exact hkind hfound
  | move hchild hparent habove => exact conflictsAbout_congr (conflicts_move _ _ _) kind

theorem Evolves.conflictsAbout (hfg : Evolves S f g) (hkind : ¬S.kinds kind) :
    g.conflictsAbout kind = f.conflictsAbout kind := by
  induction hfg with
  | refl => rfl
  | tail _ hgh ih => rw [hgh.conflictsAbout hkind, ih]

/-! ## Conflicts about files -/

/-- The conflict about a file that an operation brings up. -/
def rejection? (f : Forest) : Operation → Option NameConflict
  | .require _ target path =>
    if CanLead target path then
      (f.find? target).bind fun i =>
        if i.name = baseOf path then none else some ⟨.file, target, i.name, baseOf path⟩
    else none
  | _ => none

/-- When its name has been claimed, a file has a settled name, and the conflict is recorded if that
is another one. -/
theorem named_settled (f : Forest) (target name : Text) :
    ∃ i, (f.named target name).find? target = some i ∧ i.isPlaceholder = false ∧
      (f.named target name).conflictsAbout .file = f.conflictsAbout .file ++
        if i.name = name then [] else [⟨.file, target, i.name, name⟩] := by
  unfold named
  cases hfile : f.find? target with
  | none =>
    refine ⟨⟨target, name, true, false, none, []⟩, ?_, rfl, ?_⟩
    · rw [find?_insert, hfile, Option.none_or, if_pos rfl]
    · rw [if_pos rfl, List.append_nil]
      rfl
  | some i =>
    simp only
    split
    · refine ⟨i.settled name, ?_, rfl, ?_⟩
      · rw [find?_settle, if_pos rfl, hfile, Option.map_some]
      · rw [if_pos (by rfl), List.append_nil]
        rfl
    · rename_i hsettled
      by_cases hname : i.name = name
      · rw [if_pos hname]
        exact ⟨i, hfile, by simpa using hsettled, by rw [if_pos hname, List.append_nil]⟩
      · rw [if_neg hname]
        refine ⟨i, hfile, by simpa using hsettled, ?_⟩
        rw [conflictsAbout_record, if_pos rfl, if_neg hname]

/-- When the name of a file has been claimed, a require path brings up no more conflicts about
files. -/
theorem require_conflictsAbout (hf : f.WellFormed) {target path : Text}
    (hlead : CanLead target path) (current : Text) :
    (require current target path).Leaves f fun _ g => (f.named target (baseOf path)).Keeps g ∧
      g.conflictsAbout .file = (f.named target (baseOf path)).conflictsAbout .file := by
  obtain ⟨hnamed, hhas⟩ := named_evolves ⟨(· = target), fun _ => True⟩ (f := f) trivial
    hlead.2.2 rfl (baseOf path)
  rw [require_leaves hlead]
  refine (place_evolves ⟨(· = current), (· ≠ .file)⟩ (by simp) (by simp) (hnamed.wellFormed hf) rfl
    hhas path).mono fun r g hg => ?_
  exact ⟨hg.keeps, hg.conflictsAbout (by simp)⟩

/-- One operation records the conflict about a file that it brings up, as any later forest shows. -/
theorem conflictsAbout_after (hf : f.WellFormed) (op : Operation)
    (hlater : (f.after op).Keeps g) :
    (f.after op).conflictsAbout .file = f.conflictsAbout .file ++ (g.rejection? op).toList := by
  cases op with
  | require current target path =>
    by_cases hlead : CanLead target path
    · obtain ⟨i, hi, hsettled, hconflicts⟩ := named_settled f target (baseOf path)
      obtain ⟨hkeeps, hsame⟩ : (f.named target (baseOf path)).Keeps
            (f.after (.require current target path)) ∧
          (f.after (.require current target path)).conflictsAbout .file =
            (f.named target (baseOf path)).conflictsAbout .file :=
        require_conflictsAbout hf hlead current
      obtain ⟨j, hj, hij⟩ := (hkeeps.trans hlater).item target i hi
      have hrejection : g.rejection? (.require current target path) =
          if i.name = baseOf path then none else some ⟨.file, target, i.name, baseOf path⟩ := by
        rw [rejection?, if_pos hlead, hj, Option.bind_some, hij.name hsettled]
      rw [hsame, hconflicts, hrejection]
      split <;> rfl
    · have hsame : f.after (.require current target path) = f := require_leaves_of_not hlead current
      rw [hsame, rejection?, if_neg hlead]
      simp
  | merge first second =>
    rw [(evolves_after hf (.merge first second)).conflictsAbout fun h => by cases h]
    simp [rejection?]
  | addFile id name isPlaceholder =>
    rw [(evolves_after hf (.addFile id name isPlaceholder)).conflictsAbout fun h => h]
    simp [rejection?]
  | addDirectory id name isPlaceholder =>
    rw [(evolves_after hf (.addDirectory id name isPlaceholder)).conflictsAbout fun h => h]
    simp [rejection?]
  | addParent child name =>
    rw [(evolves_after hf (.addParent child name)).conflictsAbout fun h => h]
    simp [rejection?]

/-- The conflicts about files after a run: those before it, and one for every operation that gives a
file another name than it has in the end. -/
theorem conflictsAbout_afterAll (hf : f.WellFormed) (ops : List Operation) :
    (f.afterAll ops).conflictsAbout .file =
      f.conflictsAbout .file ++ ops.filterMap (f.afterAll ops).rejection? := by
  induction ops generalizing f with
  | nil => rw [List.filterMap_nil, List.append_nil]; rfl
  | cons op ops ih =>
    have hop := (evolves_after hf op).wellFormed hf
    have hlater : (f.after op).Keeps ((f.after op).afterAll ops) := (evolves_afterAll hop ops).keeps
    have hrun : f.afterAll (op :: ops) = (f.after op).afterAll ops := rfl
    rw [hrun, ih hop, conflictsAbout_after hf op hlater, List.append_assoc, List.filterMap_cons]
    cases ((f.after op).afterAll ops).rejection? op <;> rfl

/-! ## Quiet runs -/

/-- No operation brings up a conflict at its turn. -/
def Quiet (f : Forest) : List Operation → Prop
  | [] => True
  | op :: ops => (f.after op).conflicts = f.conflicts ∧ (f.after op).Quiet ops

instance Quiet.instDecidable (f : Forest) : (ops : List Operation) → Decidable (f.Quiet ops)
  | [] => .isTrue trivial
  | op :: ops =>
    have := Quiet.instDecidable (f.after op) ops
    inferInstanceAs (Decidable (_ ∧ _))

/-- Only a quiet run records nothing: what is recorded stays. -/
theorem conflicts_afterAll_eq_iff (hf : f.WellFormed) (ops : List Operation) :
    (f.afterAll ops).conflicts = f.conflicts ↔ f.Quiet ops := by
  induction ops generalizing f with
  | nil => exact iff_of_true rfl trivial
  | cons op ops ih =>
    have hop := evolves_after hf op
    have hstart : f.conflicts <+: (f.after op).conflicts := hop.keeps.conflicts
    have hrest : (f.after op).conflicts <+: ((f.after op).afterAll ops).conflicts :=
      (evolves_afterAll (hop.wellFormed hf) ops).keeps.conflicts
    have hrun : f.afterAll (op :: ops) = (f.after op).afterAll ops := rfl
    rw [hrun, Quiet, ← ih (hop.wellFormed hf)]
    constructor
    · intro heq
      rw [heq] at hrest
      have hfirst : (f.after op).conflicts = f.conflicts :=
        (hstart.eq_of_length (Nat.le_antisymm hstart.length_le hrest.length_le)).symm
      exact ⟨hfirst, heq.trans hfirst.symm⟩
    · exact fun h => h.2.trans h.1

end Forest
end Debundle
