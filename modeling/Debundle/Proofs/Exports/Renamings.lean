import Debundle.Exports
import Debundle.Proofs.Factory.Restoring
import Debundle.Proofs.Journal.Failures
import Debundle.Proofs.Script.Respelling
import Mathlib.Data.Option.Basic

/-!
# The renamings of a source

Exports are renamed one after the other, each one in the source that the one before it left and
that was parsed anew.  A run of `renameExports` is the list of the renamings that it keeps.

* `RenamingStep`: one renaming, with the parsed sources before and behind it.
* `renamings`: all of them, in order.
* `RenamingStep.IsDone`, `isDone_of_mem_renamings`: what is known of each one.
* `exists_renameExports`: the run never fails, and gives a source with bytes if it got one.
* `exists_renameExports_eq`: what the run gives is told by its renamings.
-/

namespace Debundle

open Script

/-- One renaming. -/
structure RenamingStep where
  /-- The script in which a variable is renamed. -/
  before : Source
  /-- The export that gives the variable its new name. -/
  subject : ExportedVariable
  /-- The new name. -/
  new : Text
  /-- The script that comes out. -/
  after : Source

namespace RenamingStep

/-- The old name. -/
def old (s : RenamingStep) : Text := s.subject.variableName

/-- The references that get the new name. -/
def renamed (s : RenamingStep) : List Node :=
  renamedReferences s.before.root s.subject.assignment s.old

/-- The edits that give it to them. -/
def edits (s : RenamingStep) : List Edit := renameEdits s.new s.renamed

end RenamingStep

/-! ## Runs -/

/-- The renamings at the statements from `index` on, in at most `fuel` steps. -/
def renamingsFrom (fileName : Option Text) : Nat → Nat → Source → List RenamingStep
  | 0, _, _ => []
  | fuel + 1, index, source =>
    match source.statements[index]? with
    | none => []
    | some statement =>
      match exportedVariable? statement with
      | none => renamingsFrom fileName fuel (index + 1) source
      | some e =>
        let new := targetName e.exported e.variableName fileName
        if new == e.variableName || !isDeclared source.root e.variableName then
          renamingsFrom fileName fuel (index + 1) source
        else
          match renameVariable source e new with
          | .error _ => []
          | .ok text =>
            match Source.parse text with
            | .error _ => []
            | .ok after => ⟨source, e, new, after⟩ :: renamingsFrom fileName fuel (index + 1) after

/-- The renamings of a source, in order. -/
def renamings (source : Text) (fileName : Option Text) : List RenamingStep :=
  match Source.parse source with
  | .error _ => []
  | .ok parsed => renamingsFrom fileName (parsed.bytes.length + 1) 0 parsed

variable {fileName : Option Text} {fuel index : Nat} {source text : Text} {parsed : Source}
  {r : Renaming} {s : RenamingStep} {statement : Node} {e : ExportedVariable}

/-- The source that the last of some renamings leaves. -/
def sourceAfter (steps : List RenamingStep) (source : Text) : Text :=
  (steps.getLast?.map fun s => s.after.text).getD source

theorem sourceAfter_cons (s : RenamingStep) (steps : List RenamingStep) (source : Text) :
    sourceAfter (s :: steps) source = sourceAfter steps s.after.text := by
  unfold sourceAfter
  rw [List.getLast?_cons]
  cases steps.getLast? <;> rfl

theorem renameFrom_eq (h : renameFrom fileName fuel index parsed = .ok r) :
    r.renamed = (renamingsFrom fileName fuel index parsed).map (fun s => (s.old, s.new)) ∧
      r.source = sourceAfter (renamingsFrom fileName fuel index parsed) parsed.text := by
  induction fuel generalizing index parsed r with
  | zero =>
    cases h
    exact ⟨rfl, rfl⟩
  | succ fuel ih =>
    rw [renameFrom] at h
    rw [renamingsFrom]
    cases hstatement : parsed.statements[index]? with
    | none =>
      rw [hstatement] at h
      cases h
      exact ⟨rfl, rfl⟩
    | some statement =>
      simp only [hstatement] at h ⊢
      cases hexport : exportedVariable? statement with
      | none =>
        simp only [hexport] at h ⊢
        exact ih h
      | some e =>
        simp only [hexport] at h ⊢
        split at h
        · rename_i hskip
          rw [if_pos hskip]
          exact ih h
        · rename_i hrename
          rw [if_neg hrename]
          obtain ⟨text, hrenamed, h⟩ := exists_of_bind_eq_ok h
          simp only [hrenamed]
          cases hparse : Source.parse text with
          | error flaw =>
            simp only [hparse] at h ⊢
            cases h
            exact ⟨rfl, rfl⟩
          | ok after =>
            simp only [hparse] at h ⊢
            obtain ⟨rest, hrest, h⟩ := exists_of_bind_eq_ok h
            cases h
            obtain ⟨hnames, hsource⟩ := ih hrest
            rw [List.map_cons, ← hnames, sourceAfter_cons, ← hsource]
            exact ⟨rfl, rfl⟩

/-! ## What is known of a renaming -/

/-- A renaming that a run keeps: a statement of a parsed script exports a declared variable under
another name, and the script with the new name can be parsed. -/
structure RenamingStep.IsDone (fileName : Option Text) (s : RenamingStep) : Prop where
  parsed : ∃ text, Source.parse text = .ok s.before
  exported : ∃ statement ∈ s.before.statements, exportedVariable? statement = some s.subject
  new : s.new = targetName s.subject.exported s.old fileName
  differs : s.new ≠ s.old
  declared : isDeclared s.before.root s.old = true
  renamed : ∃ text, renameVariable s.before s.subject s.new = .ok text ∧
    Source.parse text = .ok s.after

theorem isDone_of_mem_renamingsFrom (hparsed : ∃ text, Source.parse text = .ok parsed)
    (hs : s ∈ renamingsFrom fileName fuel index parsed) : s.IsDone fileName := by
  induction fuel generalizing index parsed with
  | zero => exact absurd hs List.not_mem_nil
  | succ fuel ih =>
    rw [renamingsFrom] at hs
    split at hs
    · exact absurd hs List.not_mem_nil
    · rename_i statement hstatement
      split at hs
      · exact ih hparsed hs
      · rename_i e hexport
        simp only at hs
        split at hs
        · exact ih hparsed hs
        · rename_i hrename
          simp only [Bool.or_eq_true, beq_iff_eq, Bool.not_eq_true', not_or,
            Bool.not_eq_false] at hrename
          split at hs
          · exact absurd hs List.not_mem_nil
          · rename_i text hrenamed
            split at hs
            · exact absurd hs List.not_mem_nil
            · rename_i after hparse
              rcases List.mem_cons.mp hs with rfl | hs
              · exact ⟨hparsed, ⟨statement, List.mem_of_getElem? hstatement, hexport⟩, rfl,
                  hrename.1, hrename.2, text, hrenamed, hparse⟩
              · exact ih ⟨text, hparse⟩ hs

theorem isDone_of_mem_renamings (hs : s ∈ renamings source fileName) : s.IsDone fileName := by
  unfold renamings at hs
  split at hs
  · exact absurd hs List.not_mem_nil
  · rename_i parsed hparse
    exact isDone_of_mem_renamingsFrom ⟨source, hparse⟩ hs

/-! ## What is renamed -/

theorem firstMaximal_mem {key : Node → Nat} {ns : List Node} {n : Node}
    (h : firstMaximal key ns = some n) : n ∈ ns := by
  induction ns generalizing n with
  | nil => cases h
  | cons m ms ih =>
    rw [firstMaximal] at h
    split at h
    · cases h
      exact List.mem_cons_self
    · rename_i k hk
      split at h
      · cases h
        exact List.mem_cons_of_mem _ (ih hk)
      · cases h
        exact List.mem_cons_self

theorem mem_all_of_bindingTarget? {site target : Node} {name : Text}
    (h : bindingTarget? site name = some target) :
    target ∈ site.all ∧ target.kind = .identifier ∧ target.text = name := by
  obtain ⟨htarget, hname⟩ := Option.filter_eq_some_iff.mp h
  rw [Bool.and_eq_true, beq_iff_eq, beq_iff_eq] at hname
  exact ⟨Node.mem_all_of_target? htarget, hname⟩

/-- What is renamed is in the script: the target of a binding site, or a reference. -/
theorem mem_renamedReferences {root assignment n : Node} {name : Text}
    (h : n ∈ renamedReferences root assignment name) :
    (∃ site ∈ bindingSites root name, bindingTarget? site name = some n) ∨
      n ∈ references root name := by
  rcases List.mem_append.mp h with h | h
  · obtain ⟨site, hsite, htarget⟩ := Option.bind_eq_some_iff.mp (Option.mem_toList.mp h)
    have hmem := List.mem_of_mem_filter (List.mem_of_mem_filter (firstMaximal_mem hsite))
    exact Or.inl ⟨site, hmem, htarget⟩
  · exact Or.inr (List.mem_of_mem_filter h)

theorem mem_all_of_mem_renamedReferences {root assignment n : Node} {name : Text}
    (h : n ∈ renamedReferences root assignment name) : n ∈ root.all := by
  rcases mem_renamedReferences h with ⟨site, hsite, htarget⟩ | h
  · exact Node.mem_all_trans (mem_all_of_mem_walk (List.mem_of_mem_filter hsite))
      (mem_all_of_bindingTarget? htarget).1
  · exact mem_all_of_mem_references h

theorem exportedVariable?_mem {statement : Node} (h : exportedVariable? statement = some e) :
    e.assignment ∈ statement.all ∧
      (∃ n ∈ statement.all, n.kind = .propertyIdentifier ∧ n.text = e.exported) ∧
      ∃ n ∈ statement.all, n.kind = .identifier ∧ n.text = e.variableName := by
  unfold exportedVariable? at h
  simp only [Option.bind_eq_bind, Option.bind_eq_some_iff, Option.guard_eq_some'] at h
  obtain ⟨-, -, assignment, hassignment, -, -, left, hleft, right, hright, -, hright', object, -,
    property, hproperty, -, -, -, hproperty', h⟩ := h
  cases h
  rw [Bool.and_eq_true, beq_iff_eq, beq_iff_eq] at hright'
  have hmem := Node.mem_all_of_expression? hassignment
  exact ⟨hmem,
    ⟨property, Node.mem_all_trans hmem (Node.mem_all_trans (Node.mem_all_of_part? hleft)
      (Node.mem_all_of_part? hproperty)), beq_iff_eq.mp hproperty', rfl⟩,
    right, Node.mem_all_trans hmem (Node.mem_all_of_part? hright), hright'.2, rfl⟩

/-! ## New names have bytes -/

theorem isSurrogate_of_isWordPart {c : CodePoint} (h : isWordPart c = true) :
    c.isSurrogate = false := by
  have hranges : ∀ r ∈ alphanumericRanges, r.2 < 0xD800 ∨ 0xDFFF < r.1 := by decide +kernel
  rw [CodePoint.isSurrogate, Bool.and_eq_false_iff, decide_eq_false_iff_not,
    decide_eq_false_iff_not]
  simp only [isWordPart, CodePoint.isAlphanumeric, CodePoint.is, Bool.or_eq_true, beq_iff_eq,
    List.any_eq_true, Bool.and_eq_true, decide_eq_true_eq] at h
  rcases h with (⟨r, hr, hlow, hhigh⟩ | h) | h
  · have hapart := hranges r hr
    omega
  · rw [h]
    decide
  · rw [h]
    decide

theorem isScalar_of_isVariableName {t : Text} (h : isVariableName t = true) : t.IsScalar := by
  unfold isVariableName at h
  split at h
  · exact fun c hc => absurd hc List.not_mem_nil
  · rename_i c cs
    simp only [Bool.and_eq_true, List.all_eq_true] at h
    obtain ⟨hfirst, hrest⟩ := h
    refine List.forall_mem_cons.mpr ⟨?_, fun d hd => ?_⟩
    · have hunderscore : '_'.toNat = 95 := rfl
      have hdollar : '$'.toNat = 36 := rfl
      simp only [CodePoint.isLetter, CodePoint.is, Bool.or_eq_true, Bool.and_eq_true,
        decide_eq_true_eq, beq_iff_eq] at hfirst
      rw [CodePoint.isSurrogate, Bool.and_eq_false_iff, decide_eq_false_iff_not,
        decide_eq_false_iff_not]
      omega
    · -- the line feed that is allowed at the end is no part of the name
      by_cases hlast : some d = cs.getLast? ∧ d.val = '\n'.toNat
      · rw [CodePoint.isSurrogate, hlast.2]
        decide
      · refine isSurrogate_of_isWordPart (hrest d ?_)
        split
        · rename_i hnewline
          refine List.mem_dropLast_of_mem_of_ne_getLast? hd fun heq => hlast ⟨heq, ?_⟩
          rw [← heq] at hnewline
          simpa [CodePoint.is] using hnewline
        · exact hd

theorem isVariableName_of_inferName? {name : Text} (h : inferName? fileName = some name) :
    isVariableName name = true := by
  unfold inferName? at h
  simp only [Option.bind_eq_bind, Option.bind_eq_some_iff] at h
  obtain ⟨_, -, _, -, h⟩ := h
  split at h
  · rename_i hname
    cases h
    exact hname
  · cases h

theorem targetName_isScalar {exported variableName : Text} (hexported : exported.IsScalar)
    (hname : variableName.IsScalar) : (targetName exported variableName fileName).IsScalar := by
  unfold targetName
  split
  · exact hname
  · split
    · cases hinfer : inferName? fileName with
      | none =>
        show defaultExportName.IsScalar
        decide
      | some name => exact isScalar_of_isVariableName (isVariableName_of_inferName? hinfer)
    · exact hexported

/-! ## Runs never fail -/

/-- A variable that a statement exports can be renamed, and what comes out has bytes: those of the
source with the edits applied. -/
theorem exists_renameVariable (fileName : Option Text) (hsource : parsed.IsOf text)
    (hstatement : statement ∈ parsed.statements) (he : exportedVariable? statement = some e) :
    ∃ u : Text, u.IsScalar ∧
      u.bytes = editedBytes parsed.bytes parsed.bytes.length 0
        ((renameEdits (targetName e.exported e.variableName fileName)
          (renamedReferences parsed.root e.assignment e.variableName)).mergeSort Edit.le) ∧
      renameVariable parsed e (targetName e.exported e.variableName fileName) = .ok u := by
  have hmem := Node.mem_all_of_mem_children (Node.mem_children_of_mem_parts hstatement)
    statement.mem_all_self
  have hscalar : ∀ n ∈ statement.all, n.text.IsScalar := fun n hn =>
    hsource.isScalar.of_subset
      (Node.liesIn_iff.mp (hsource.root.of_mem_all (Node.mem_all_trans hmem hn))).2.2.1
  obtain ⟨-, ⟨n, hn, -, hexported⟩, m, hm, -, hname⟩ := exportedVariable?_mem he
  have hnew : (targetName e.exported e.variableName fileName).IsScalar :=
    targetName_isScalar (hexported ▸ hscalar n hn) (hname ▸ hscalar m hm)
  have hstart : Text.Boundary text 0 := ⟨[], text, rfl, rfl⟩
  have hstop : Text.Boundary text parsed.bytes.length :=
    ⟨text, [], (List.append_nil text).symm, by rw [hsource.bytes, Text.length_bytes]⟩
  unfold renameVariable
  rw [hsource.bytes] at hstop ⊢
  refine applyEdits_liesIn hsource.isScalar hstart hstop fun edit hedit => ?_
  obtain ⟨ref, href, rfl⟩ := List.mem_map.mp hedit
  exact renameEdit_liesIn hsource.isScalar
    (hsource.root.of_mem_all (mem_all_of_mem_renamedReferences href)) hnew

theorem Script.Source.text_of_parse (h : Source.parse text = .ok parsed) : parsed.text = text := by
  unfold Source.parse at h
  split at h
  · cases h
  · split at h
    · cases h
    · cases h
      rfl

theorem isScalar_text_of_parse (h : Source.parse text = .ok parsed) : parsed.text.IsScalar := by
  rw [Source.text_of_parse h]
  exact (Source.isOf_of_parse h).isScalar

theorem exists_renameFrom (hparse : Source.parse text = .ok parsed) :
    ∃ r, renameFrom fileName fuel index parsed = .ok r ∧ r.source.IsScalar := by
  induction fuel generalizing index parsed text with
  | zero => exact ⟨_, rfl, isScalar_text_of_parse hparse⟩
  | succ fuel ih =>
    rw [renameFrom]
    cases hstatement : parsed.statements[index]? with
    | none => exact ⟨_, rfl, isScalar_text_of_parse hparse⟩
    | some statement =>
      cases hexport : exportedVariable? statement with
      | none =>
        simp only [hexport]
        exact ih hparse
      | some e =>
        simp only [hexport]
        split
        · exact ih hparse
        · obtain ⟨u, -, -, hrenamed⟩ := exists_renameVariable fileName
            (Source.isOf_of_parse hparse) (List.mem_of_getElem? hstatement) hexport
          rw [hrenamed]
          show ∃ r, (match Source.parse u with
            | .error flaw => _
            | .ok changed => _ : Except EditError Renaming) = .ok r ∧ _
          cases hafter : Source.parse u with
          | error flaw => exact ⟨_, rfl, isScalar_text_of_parse hparse⟩
          | ok after =>
            obtain ⟨rest, hrest, hsource⟩ := @ih (index + 1) u after hafter
            simp only [hrest]
            exact ⟨_, rfl, hsource⟩

/-- Renaming exports never fails, and a source with bytes becomes a source with bytes. -/
theorem exists_renameExports (source : Text) (fileName : Option Text) :
    ∃ r, renameExports source fileName = .ok r ∧ (source.IsScalar → r.source.IsScalar) := by
  unfold renameExports
  cases hparse : Source.parse source with
  | error flaw => exact ⟨_, rfl, fun h => h⟩
  | ok parsed =>
    obtain ⟨r, hr, hscalar⟩ := exists_renameFrom hparse
    exact ⟨r, hr, fun _ => hscalar⟩

/-- A run reports the names of its renamings, and its source is what the last one leaves. -/
theorem exists_renameExports_eq (source : Text) (fileName : Option Text) :
    ∃ r, renameExports source fileName = .ok r ∧
      r.renamed = (renamings source fileName).map (fun s => (s.old, s.new)) ∧
      r.source = sourceAfter (renamings source fileName) source := by
  obtain ⟨r, hr, -⟩ := exists_renameExports source fileName
  refine ⟨r, hr, ?_⟩
  unfold renameExports at hr
  unfold renamings
  cases hparse : Source.parse source with
  | error flaw =>
    rw [hparse] at hr
    cases hr
    exact ⟨rfl, rfl⟩
  | ok parsed =>
    rw [hparse] at hr
    rw [← Source.text_of_parse hparse]
    exact renameFrom_eq hr

/-! ## The first renaming -/

/-- The renaming of a variable by edits that come in order.  Nothing is sorted, so that this can be
evaluated in a proof. -/
def renamingBy? (parsed : Source) (e : ExportedVariable) (new : Text) (edits : List Edit) :
    Option RenamingStep := do
  guard (new ≠ e.variableName ∧ isDeclared parsed.root e.variableName = true)
  guard (edits.Pairwise (fun d e => d.le e = true) ∧ ∀ e ∈ edits, e.text.IsScalar)
  let text ← (editedBytes parsed.bytes parsed.bytes.length 0 edits).decode.toOption
  let after ← (Source.parse text).toOption
  return ⟨parsed, e, new, after⟩

/-- The renaming at a statement, if it is the first one that exports something. -/
def renamingAt? (source : Text) (fileName : Option Text) (i : Nat) : Option RenamingStep := do
  let parsed ← (Source.parse source).toOption
  guard (i ≤ parsed.bytes.length ∧
    ∀ j < i, (parsed.statements[j]?.bind exportedVariable?).isNone = true)
  let e ← parsed.statements[i]?.bind exportedVariable?
  renamingBy? parsed e (targetName e.exported e.variableName fileName)
    (renameEdits (targetName e.exported e.variableName fileName)
      (renamedReferences parsed.root e.assignment e.variableName))

/-- Statements that export nothing are passed over. -/
theorem renamingsFrom_skip {i : Nat}
    (h : ∀ j < i, (parsed.statements[index + j]?.bind exportedVariable?).isNone = true)
    (hi : index + i < parsed.statements.length) :
    renamingsFrom fileName (fuel + i) index parsed =
      renamingsFrom fileName fuel (index + i) parsed := by
  induction i generalizing index with
  | zero => rfl
  | succ i ih =>
    have hlt : index < parsed.statements.length := by omega
    have hnone := h 0 (Nat.succ_pos i)
    rw [Nat.add_zero, List.getElem?_eq_getElem hlt, Option.bind_some,
      Option.isNone_iff_eq_none] at hnone
    have hrest := @ih (index + 1) (fun j hj => by
      have hnext := h (j + 1) (by omega)
      rwa [show index + (j + 1) = index + 1 + j by omega] at hnext) (by omega)
    rw [show fuel + (i + 1) = fuel + i + 1 by omega, renamingsFrom,
      List.getElem?_eq_getElem hlt]
    simp only [hnone]
    rw [hrest, show index + 1 + i = index + (i + 1) by omega]

theorem mem_renamings_of_renamingAt? {i : Nat} (h : renamingAt? source fileName i = some s) :
    s ∈ renamings source fileName := by
  simp only [renamingAt?, renamingBy?, Option.bind_eq_bind, Option.bind_eq_some_iff,
    Option.guard_eq_some', toOption_eq_some_iff] at h
  obtain ⟨parsed, hparse, -, ⟨hi, hfirst⟩, e, ⟨statement, hstatement, hexport⟩, -,
    ⟨hnew, hdeclared⟩, -, ⟨hsorted, hscalar⟩, text, htext, after, hafter, h⟩ := h
  cases h
  have hrename : renameVariable parsed e (targetName e.exported e.variableName fileName) =
      .ok text := by
    rw [renameVariable, applyEdits_eq _ _ _ hscalar, List.mergeSort_of_pairwise hsorted, htext]
    rfl
  have hlength := (List.getElem?_eq_some_iff.mp hstatement).1
  obtain ⟨fuel, hfuel⟩ := Nat.exists_eq_add_of_le hi
  have hskip : renamingsFrom fileName (fuel + 1 + i) 0 parsed =
      renamingsFrom fileName (fuel + 1) (0 + i) parsed :=
    renamingsFrom_skip (fun j hj => by rw [Nat.zero_add]; exact hfirst j hj) (by omega)
  have hkept : (targetName e.exported e.variableName fileName == e.variableName ||
      !isDeclared parsed.root e.variableName) = false := by
    rw [hdeclared, beq_eq_false_iff_ne.mpr hnew]
    rfl
  unfold renamings
  simp only [hparse]
  rw [hfuel, show i + fuel + 1 = fuel + 1 + i by omega, hskip, renamingsFrom, Nat.zero_add,
    hstatement]
  simp only [hexport, hkept, hrename, hafter]
  exact List.mem_cons_self

end Debundle
