import Debundle.Digest
import Debundle.Factory
import Debundle.Proofs.Script.Descent
import Debundle.Proofs.Script.Source
import Debundle.Proofs.Script.Splicing

/-!
# Restoring a module never breaks off

Once a text has been parsed and found to be a factory, its module can be put together: all pieces of
the body and all references stand between code points of the text, so every cut leaves text on both
sides, and what is put in has bytes.  The source of a restored module therefore has a digest.

* `Edit.LiesIn`: an edit that replaces a piece of a text by a text with bytes.
* `applyEdits_liesIn`: such edits can be applied between two boundaries.
* `restore_isScalar`: restoring never fails for want of bytes, and gives a source that has them.
-/

namespace Debundle

open Script

/-! ## Tables and lists -/

theorem Table.mem_of_mem_insert {α : Type} {key : Text} {value : α} {t : Table α} {e : Text × α}
    (h : e ∈ insert key value t) : e = (key, value) ∨ e ∈ t := by
  induction t with
  | nil => exact Or.inl (List.mem_singleton.mp h)
  | cons first rest ih =>
    obtain ⟨k, v⟩ := first
    rw [insert] at h
    split at h
    · rename_i hk
      rcases List.mem_cons.mp h with h | h
      · exact Or.inl (hk ▸ h)
      · exact Or.inr (List.mem_cons_of_mem _ h)
    · rcases List.mem_cons.mp h with h | h
      · exact Or.inr (h ▸ List.mem_cons_self)
      · exact (ih h).imp_right (List.mem_cons_of_mem _)

/-- A computation that succeeds on every item succeeds on the whole list. -/
theorem mapM_eq_ok {α β ε : Type} {f : α → Except ε β} {g : α → β} {as : List α}
    (h : ∀ a ∈ as, f a = .ok (g a)) : as.mapM f = .ok (as.map g) := by
  induction as with
  | nil => rfl
  | cons a as ih =>
    obtain ⟨ha, has⟩ := List.forall_mem_cons.mp h
    rw [List.mapM_cons, ha, ih has]
    rfl

/-! ## Edits -/

namespace Script

variable {t : Text} {n m : Node}

theorem Node.LiesIn.of_mem_all (hn : n.LiesIn t) (hm : m ∈ n.all) : m.LiesIn t := by
  induction n using Node.induction with
  | step n ih =>
    rw [Node.all_eq] at hm
    rcases List.mem_cons.mp hm with rfl | hm
    · exact hn
    · obtain ⟨c, hc, hm⟩ := List.mem_flatMap.mp hm
      exact ih c hc ((Node.liesIn_iff.mp hn).2.2.2 c hc) hm

/-- An edit that replaces a piece of a text by a text with bytes. -/
structure Edit.LiesIn (t : Text) (e : Edit) : Prop where
  start : t.Boundary e.start
  stop : t.Boundary e.stop
  text : e.text.IsScalar

/-- Between boundaries, the edited bytes are those of a text without surrogates. -/
theorem editedBytes_liesIn (ht : t.IsScalar) {cursor stop : Nat} (hcursor : t.Boundary cursor)
    (hstop : t.Boundary stop) {edits : List Edit} (hedits : ∀ e ∈ edits, e.LiesIn t) :
    ∃ u : Text, u.IsScalar ∧ editedBytes t.bytes stop cursor edits = u.bytes := by
  induction edits generalizing cursor with
  | nil =>
    obtain ⟨u, hu, hslice⟩ := Text.exists_slice hcursor hstop
    exact ⟨u, ht.of_subset hu, hslice⟩
  | cons e edits ih =>
    obtain ⟨he, hedits⟩ := List.forall_mem_cons.mp hedits
    rw [editedBytes]
    split
    · exact ih hcursor hedits
    · obtain ⟨before, hbefore, hslice⟩ := Text.exists_slice hcursor he.start
      obtain ⟨after, hafter, hrest⟩ := ih he.stop hedits
      refine ⟨before ++ e.text ++ after, ((ht.of_subset hbefore).append he.text).append hafter, ?_⟩
      rw [hslice, hrest, Text.bytes_append, Text.bytes_append]

theorem effectiveEdits_subset (stop cursor : Nat) (edits : List Edit) :
    effectiveEdits stop cursor edits ⊆ edits := by
  induction edits generalizing cursor with
  | nil => exact fun _ he => he
  | cons e edits ih =>
    rw [effectiveEdits]
    split
    · exact List.subset_cons_of_subset e (ih cursor)
    · exact List.cons_subset_cons e (ih e.stop)

/-- Edits by texts without surrogates give what their bytes encode. -/
theorem applyEdits_eq (bytes : Bytes) (start stop : Nat) {edits : List Edit}
    (hedits : ∀ e ∈ edits, e.text.IsScalar) :
    applyEdits bytes start stop edits =
      (editedBytes bytes stop start (edits.mergeSort Edit.le)).decode.mapError
        fun _ => .undecodable := by
  rw [applyEdits_eq_ite, if_pos fun e he =>
    hedits e (List.mem_mergeSort.mp (effectiveEdits_subset _ _ _ he))]
  rfl

/-- Edits can be applied between two boundaries. -/
theorem applyEdits_liesIn (ht : t.IsScalar) {start stop : Nat} (hstart : t.Boundary start)
    (hstop : t.Boundary stop) {edits : List Edit} (hedits : ∀ e ∈ edits, e.LiesIn t) :
    ∃ u : Text, u.IsScalar ∧
      u.bytes = editedBytes t.bytes stop start (edits.mergeSort Edit.le) ∧
      applyEdits t.bytes start stop edits = .ok u := by
  have hsorted : ∀ e ∈ edits.mergeSort Edit.le, e.LiesIn t := fun e he =>
    hedits e (List.mem_mergeSort.mp he)
  obtain ⟨u, hu, hbytes⟩ := editedBytes_liesIn ht hstart hstop hsorted
  refine ⟨u, hu, hbytes.symm, ?_⟩
  rw [applyEdits_eq _ _ _ fun e he => (hedits e he).text, hbytes, Bytes.decode_bytes hu]
  rfl

theorem renameEdit_liesIn (ht : t.IsScalar) (hn : n.LiesIn t) {new : Text} (hnew : new.IsScalar) :
    (renameEdit new n).LiesIn t := by
  obtain ⟨hstart, hstop, htext, -⟩ := Node.liesIn_iff.mp hn
  refine ⟨hstart, hstop, ?_⟩
  unfold renameEdit
  simp only
  split
  · have hcolon : Text.IsScalar (Text.ofString ": ") := by decide
    exact ((ht.of_subset htext).append hcolon).append hnew
  · exact hnew

end Script

/-! ## Factories -/

namespace Factory

variable {body : Node}

/-- Parameters get no other names than the three by convention. -/
theorem mem_parameterNames_of_mem_renames {function : Node} {old new : Text}
    (h : (old, new) ∈ renames function) : new ∈ parameterNames := by
  have hall : ∀ e ∈ renames function, e.2 ∈ parameterNames := by
    unfold renames
    refine List.foldlRecOn (motive := fun found : Table Text => ∀ e ∈ found, e.2 ∈ parameterNames)
      _ _ (fun _ he => absurd he List.not_mem_nil) fun found hfound pair hpair => ?_
    simp only
    split
    · intro e he
      rcases Table.mem_of_mem_insert he with rfl | he
      · exact (List.of_mem_zip hpair).2
      · exact hfound e he
    · exact hfound
  exact hall _ h

theorem isScalar_of_mem_parameterNames {new : Text} (h : new ∈ parameterNames) : new.IsScalar := by
  have hall : ∀ name ∈ parameterNames, name.IsScalar := by decide
  exact hall new h

theorem selected_subset (body : Node) (old : Text) : selected body old ⊆ references body old := by
  unfold selected
  split
  · exact List.Subset.refl _
  · exact List.filter_subset_self _

/-- The pieces gathered so far begin and end at offsets of a kind. -/
structure Pieces.AllAt (P : Nat → Prop) (p : Pieces) : Prop where
  spans : ∀ s ∈ p.spans, P s.1 ∧ P s.2
  pending : ∀ k ∈ p.pending, P k
  trailing : ∀ k ∈ p.trailing, P k

namespace Pieces.AllAt

variable {P : Nat → Prop} {p : Pieces}

theorem pending_getD (hp : p.AllAt P) {k : Nat} (hk : P k) : P (p.pending.getD k) := by
  cases h : p.pending with
  | none => exact hk
  | some start => exact hp.pending start h

theorem add (hp : p.AllAt P) {child : Node} (hstart : P child.start) (hstop : P child.stop)
    (wanted : List (Nat × Nat)) : (p.add wanted child).AllAt P := by
  have hnone : ∀ k ∈ (none : Option Nat), P k := fun _ hk => by cases hk
  unfold Pieces.add
  split
  · refine ⟨hp.spans, ?_, ?_⟩
    · rintro _ ⟨⟩
      exact hp.pending_getD hstart
    · rintro _ ⟨⟩
      exact hstop
  · split
    · exact ⟨List.forall_mem_cons.mpr ⟨⟨hp.pending_getD hstart, hstop⟩, hp.spans⟩, hnone, hnone⟩
    · exact ⟨hp.spans, hnone, hnone⟩

theorem empty : Pieces.AllAt P ⟨[], none, none⟩ :=
  ⟨fun _ h => absurd h List.not_mem_nil, fun _ h => absurd h (Option.not_mem_none _),
    fun _ h => absurd h (Option.not_mem_none _)⟩

theorem foldl_add (hp : p.AllAt P) {cs : List Node} (hcs : ∀ c ∈ cs, P c.start ∧ P c.stop)
    (wanted : List (Nat × Nat)) : (cs.foldl (Pieces.add wanted) p).AllAt P := by
  induction cs generalizing p with
  | nil => exact hp
  | cons c cs ih =>
    obtain ⟨⟨hstart, hstop⟩, hcs⟩ := List.forall_mem_cons.mp hcs
    exact ih (hp.add hstart hstop wanted) hcs

theorem finish (hp : p.AllAt P) : ∀ s ∈ p.finish, P s.1 ∧ P s.2 := by
  intro s hs
  unfold Pieces.finish at hs
  split at hs
  · rename_i start stop rest last hspans hlast
    have hall := hp.spans
    rw [hspans] at hall
    obtain ⟨hfirst, hrest⟩ := List.forall_mem_cons.mp hall
    rcases List.mem_cons.mp (List.mem_reverse.mp hs) with rfl | hs
    · exact ⟨hfirst.1, hp.trailing _ hlast⟩
    · exact hrest s hs
  · exact hp.spans s (List.mem_reverse.mp hs)

end Pieces.AllAt

/-- The pieces of a body that are kept begin and end where its children do. -/
theorem statementSpans_allAt {P : Nat → Prop} (hbody : ∀ c ∈ body.children, P c.start ∧ P c.stop) :
    ∀ s ∈ statementSpans body, P s.1 ∧ P s.2 :=
  (Pieces.AllAt.empty.foldl_add (fun c hc => hbody c (List.mem_of_mem_filter hc)) _).finish

/-- The function is a part of the script, and the body, a block, is a part of the function. -/
theorem mem_all_of_read {source : Source} {function body : Node}
    (h : read source = .ok (function, body)) :
    function ∈ source.root.all ∧ function.part? .body = some body ∧
      body.kind = .statementBlock := by
  unfold read at h
  split at h
  · rename_i statement hstatements
    have hstatement : statement ∈ source.root.children :=
      Node.mem_children_of_mem_parts (n := source.root)
        (by rw [← Source.statements, hstatements]; exact List.mem_cons_self)
    split at h
    · cases h
    · rename_i found hfound
      split at h
      · split at h
        · cases h
        · rename_i inner hinner
          split at h
          · rename_i hblock
            cases h
            exact ⟨Node.mem_all_of_mem_children hstatement (Node.mem_all_of_expression? hfound),
              hinner, beq_iff_eq.mp hblock⟩
          · cases h
      · cases h
  · cases h

end Factory

/-! ## Restoring -/

/-- The edits that rename the parameters of a factory. -/
def factoryEdits (function body : Node) : List Edit :=
  (parameterRenames function body).flatMap fun r => renameEdits r.new r.uses

/-- These edits lie in the text of the factory. -/
theorem factoryEdits_lieIn {t : Text} (ht : t.IsScalar) (function : Node) {body : Node}
    (hbody : body.LiesIn t) :
    ∀ e ∈ factoryEdits function body, e.LiesIn t := by
  intro e he
  obtain ⟨r, hr, he⟩ := List.mem_flatMap.mp he
  obtain ⟨⟨old, new⟩, hrename, rfl⟩ := List.mem_map.mp hr
  obtain ⟨n, hn, rfl⟩ := List.mem_map.mp he
  have hnew := Factory.isScalar_of_mem_parameterNames
    (Factory.mem_parameterNames_of_mem_renames hrename)
  exact renameEdit_liesIn ht
    (hbody.of_mem_all (mem_all_of_mem_references (Factory.selected_subset body old hn))) hnew

/-- One piece of the body of a factory, with its parameters renamed. -/
def restoredPiece (source : Source) (function body : Node) (span : Nat × Nat) :
    Except FactoryError Text :=
  (applyEdits source.bytes span.1 span.2 (factoryEdits function body)).mapError .unedited

/-- The module of a factory is put together from the pieces of its body. -/
theorem restore_eq {code : Text} {source : Source} {function body : Node}
    (hparse : Source.parse ("(" ++ code ++ ")") = .ok source)
    (hread : Factory.read source = .ok (function, body)) :
    restore code =
      ((Factory.statementSpans body).mapM (restoredPiece source function body)).map fun pieces =>
        ⟨Text.join "\n" pieces, parameterRenames function body⟩ := by
  have hread' : (Factory.read source).mapError FactoryError.malformed = .ok (function, body) := by
    rw [hread]
    rfl
  unfold restore
  rw [hparse]
  show ((Factory.read source).mapError FactoryError.malformed >>= _) = _
  rw [hread']
  rfl

/-- The parameters of the factory are renamed. -/
theorem renamed_of_restore_eq_ok {code : Text} {source : Source} {function body : Node}
    {restored : Restored} (hparse : Source.parse ("(" ++ code ++ ")") = .ok source)
    (hread : Factory.read source = .ok (function, body)) (h : restore code = .ok restored) :
    restored.renamed = parameterRenames function body := by
  rw [restore_eq hparse hread] at h
  cases hpieces : (Factory.statementSpans body).mapM (restoredPiece source function body) with
  | error e =>
    rw [hpieces] at h
    cases h
  | ok pieces =>
    rw [hpieces] at h
    cases h
    rfl

/-- What is restored can be parsed and is a factory. -/
theorem exists_of_restore_eq_ok {code : Text} {restored : Restored}
    (h : restore code = .ok restored) :
    ∃ source function body, Source.parse ("(" ++ code ++ ")") = .ok source ∧
      Factory.read source = .ok (function, body) := by
  cases hparse : Source.parse ("(" ++ code ++ ")") with
  | error e =>
    unfold restore at h
    rw [hparse] at h
    cases h
  | ok source =>
    cases hread : Factory.read source with
    | error flaw =>
      unfold restore at h
      rw [hparse] at h
      change ((Factory.read source).mapError FactoryError.malformed >>= _) = _ at h
      rw [hread] at h
      cases h
    | ok found => exact ⟨source, found.1, found.2, rfl, hread⟩

/-- What can be parsed and is a factory can be restored, piece by piece. -/
theorem exists_restore_eq_join {code : Text} {source : Source} {function body : Node}
    (hparse : Source.parse ("(" ++ code ++ ")") = .ok source)
    (hread : Factory.read source = .ok (function, body)) :
    ∃ piece : Nat × Nat → Text,
      (∀ span ∈ Factory.statementSpans body, (piece span).IsScalar ∧ (piece span).bytes =
        editedBytes source.bytes span.2 span.1 ((factoryEdits function body).mergeSort Edit.le)) ∧
      restore code = .ok ⟨Text.join "\n" ((Factory.statementSpans body).map piece),
        parameterRenames function body⟩ := by
  have hsource := Source.isOf_of_parse hparse
  obtain ⟨hfunction, hbody, -⟩ := Factory.mem_all_of_read hread
  have hlies := (hsource.root.of_mem_all hfunction).of_mem_all (Node.mem_all_of_part? hbody)
  have hpiece : ∀ span ∈ Factory.statementSpans body, ∃ u : Text, u.IsScalar ∧
      u.bytes = editedBytes source.bytes span.2 span.1
        ((factoryEdits function body).mergeSort Edit.le) ∧
      restoredPiece source function body span = .ok u := by
    intro span hspan
    have hchildren : ∀ c ∈ body.children,
        Text.Boundary ("(" ++ code ++ ")") c.start ∧ Text.Boundary ("(" ++ code ++ ")") c.stop := by
      intro c hc
      obtain ⟨hstart, hstop, -⟩ := Node.liesIn_iff.mp ((Node.liesIn_iff.mp hlies).2.2.2 c hc)
      exact ⟨hstart, hstop⟩
    obtain ⟨hstart, hstop⟩ := Factory.statementSpans_allAt hchildren span hspan
    obtain ⟨u, hu, hbytes, happly⟩ := applyEdits_liesIn hsource.isScalar hstart hstop
      (factoryEdits_lieIn hsource.isScalar function hlies)
    refine ⟨u, hu, hsource.bytes ▸ hbytes, ?_⟩
    rw [restoredPiece, hsource.bytes, happly]
    rfl
  choose! piece hscalar hbytes hpiece using hpiece
  refine ⟨piece, fun span hspan => ⟨hscalar span hspan, hbytes span hspan⟩, ?_⟩
  rw [restore_eq hparse hread, mapM_eq_ok hpiece]
  rfl

/-- What can be parsed and is a factory can be restored, to a source that has bytes. -/
theorem exists_restore_eq_ok {code : Text} {source : Source} {function body : Node}
    (hparse : Source.parse ("(" ++ code ++ ")") = .ok source)
    (hread : Factory.read source = .ok (function, body)) :
    ∃ restored, restored.source.IsScalar ∧ restore code = .ok restored := by
  obtain ⟨piece, hpiece, hrestore⟩ := exists_restore_eq_join hparse hread
  have hnewline : Text.IsScalar (Text.ofString "\n") := by decide
  exact ⟨_, Text.isScalar_join hnewline (List.forall_mem_map.mpr fun span hspan =>
    (hpiece span hspan).1), hrestore⟩

/-- A source that has bytes has a digest. -/
theorem exists_digest {source : Text} (h : source.IsScalar) :
    ∃ digest, source.digest = .ok digest := by
  unfold Text.digest
  rw [Text.encode_eq_ok h]
  exact ⟨_, rfl⟩

/-- Restoring never fails for want of bytes, and gives a source that has them. -/
theorem restore_isScalar (code : Text) :
    (∀ e, restore code ≠ .error (.unedited e)) ∧
      ∀ restored, restore code = .ok restored → restored.source.IsScalar := by
  cases hparse : Source.parse ("(" ++ code ++ ")") with
  | error e =>
    have herror : restore code = .error (.unparsable e) := by
      unfold restore
      rw [hparse]
      rfl
    rw [herror]
    exact ⟨by simp, by simp⟩
  | ok source =>
    cases hread : Factory.read source with
    | error f =>
      have herror : restore code = .error (.malformed f) := by
        have hread' : (Factory.read source).mapError FactoryError.malformed =
            .error (.malformed f) := by
          rw [hread]
          rfl
        unfold restore
        rw [hparse]
        show ((Factory.read source).mapError FactoryError.malformed >>= _) = _
        rw [hread']
        rfl
      rw [herror]
      exact ⟨by simp, by simp⟩
    | ok found =>
      obtain ⟨restored, hscalar, hok⟩ := exists_restore_eq_ok hparse hread
      rw [hok]
      refine ⟨by simp, ?_⟩
      rintro _ ⟨⟩
      exact hscalar

end Debundle
