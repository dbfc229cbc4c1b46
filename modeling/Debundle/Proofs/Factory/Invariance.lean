import Debundle.Proofs.Factory.Renaming
import Debundle.Proofs.Session.Asking

/-!
# Parameter names do not matter

Restoring a module puts the names by convention back wherever a minifier took them away.  All
offsets differ between the two factories, but nothing that is kept of the body begins or ends inside
a name, so the same pieces are kept, and each of them is the same once the names are back.  Both
factories are then restored to one source, and the same module out of two bundles has one digest and
one id.

* `Renaming.inOrder_replacements`, `Renaming.outside_replacements`: where the new names stand.
* `Renaming.restoredPiece_respelled`: each piece of the body is the same.
* `statementSpans_respelled`: the same pieces are kept.
* `restore_source_eq`: the source is the same.
* `restore_ignores_parameterNames`: so are the digest and the id.
-/

namespace Debundle

open Script

namespace Factory

/-! ## The function -/

theorem read_respelled {source source' : Source} {function body : Node} {s : Respelling}
    (hroot : source'.root = source.root.respelled s) (h : read source = .ok (function, body)) :
    read source' = .ok (function.respelled s, body.respelled s) := by
  have hstatements : source'.statements = source.statements.map (Node.respelled s) := by
    rw [Source.statements, Source.statements, hroot, Node.parts_respelled]
  unfold read at h ⊢
  rw [hstatements]
  split at h
  · rename_i statement hsource
    rw [hsource]
    simp only [List.map_cons, List.map_nil, Node.expression?_respelled]
    split at h
    · cases h
    · rename_i found hfound
      rw [hfound]
      simp only [Option.map_some, Node.respelled_kind, Node.part?_respelled]
      split at h
      · rename_i hkind
        rw [if_pos hkind]
        split at h
        · cases h
        · rename_i inner hinner
          rw [hinner]
          simp only [Option.map_some, Node.respelled_kind]
          split at h
          · rename_i hblock
            rw [if_pos hblock]
            cases h
            rfl
          · cases h
      · cases h
  · cases h

/-! ## The pieces of the body -/

/-- The pieces at other offsets. -/
def Pieces.moved (f : Nat → Nat) (p : Pieces) : Pieces :=
  ⟨p.spans.map (Prod.map f f), p.pending.map f, p.trailing.map f⟩

theorem Pieces.add_respelled (s : Respelling) {wanted wanted' : List (Nat × Nat)} {child : Node}
    (hwanted : wanted'.contains (child.respelled s).span = wanted.contains child.span)
    (p : Pieces) :
    (p.moved s.offset).add wanted' (child.respelled s) = (p.add wanted child).moved s.offset := by
  unfold Pieces.add
  rw [hwanted, Node.respelled_kind, Node.respelled_start, Node.respelled_stop]
  split
  · cases p with
    | mk spans pending trailing => cases pending <;> rfl
  · split
    · cases p with
      | mk spans pending trailing => cases pending <;> rfl
    · rfl

theorem Pieces.finish_moved (f : Nat → Nat) (p : Pieces) :
    (p.moved f).finish = p.finish.map (Prod.map f f) := by
  obtain ⟨spans, pending, trailing⟩ := p
  rcases spans with _ | ⟨⟨start, stop⟩, rest⟩
  · rfl
  · cases trailing <;> simp [Pieces.finish, Pieces.moved]

/-- The same pieces are kept, at other offsets. -/
theorem statementSpans_respelled (s : Respelling) {body : Node}
    (hspan : ∀ c ∈ body.children, ∀ d ∈ body.children,
      (c.respelled s).span = (d.respelled s).span → c.span = d.span) :
    statementSpans (body.respelled s) =
      (statementSpans body).map (Prod.map s.offset s.offset) := by
  have hwanted : ∀ c ∈ body.children,
      ((body.respelled s).bodyStatements.map Node.span).contains (c.respelled s).span =
        (body.bodyStatements.map Node.span).contains c.span := by
    intro c hc
    rw [Node.bodyStatements_respelled, List.map_map, Bool.eq_iff_iff, List.contains_iff_mem,
      List.contains_iff_mem, List.mem_map, List.mem_map]
    constructor
    · rintro ⟨d, hd, heq⟩
      have hpart : d ∈ body.parts := (List.dropWhile_sublist _).subset hd
      exact ⟨d, hd, hspan d (Node.mem_children_of_mem_parts hpart) c hc heq⟩
    · rintro ⟨d, hd, heq⟩
      exact ⟨d, hd, by rw [Function.comp_apply, Node.span_respelled, Node.span_respelled, heq]⟩
  have hfold : ∀ (cs : List Node) (p : Pieces), (∀ c ∈ cs, c ∈ body.children) →
      (cs.map (Node.respelled s)).foldl
          (Pieces.add ((body.respelled s).bodyStatements.map Node.span)) (p.moved s.offset) =
        (cs.foldl (Pieces.add (body.bodyStatements.map Node.span)) p).moved s.offset := by
    intro cs
    induction cs with
    | nil => exact fun p _ => rfl
    | cons c cs ih =>
      intro p hcs
      obtain ⟨hc, hcs⟩ := List.forall_mem_cons.mp hcs
      rw [List.map_cons, List.foldl_cons, List.foldl_cons, Pieces.add_respelled s (hwanted c hc)]
      exact ih _ hcs
  have hchildren : (body.respelled s).children.filter (·.kind != .keyword) =
      (body.children.filter (·.kind != .keyword)).map (Node.respelled s) := by
    rw [Node.respelled_children, List.filter_map]
    congr 2
    funext c
    rw [Function.comp_apply, Node.respelled_kind]
  unfold statementSpans
  simp only
  rw [hchildren, ← Pieces.finish_moved, ← hfold _ _ fun c hc => List.mem_of_mem_filter hc]
  rfl

namespace Renaming

variable {r : Renaming} {n : Node} {old : Text}

/-! ## The replacements -/

/-- A replacement stands for a use of a parameter. -/
theorem exists_of_mem_replacements (hplaced : r.source.IsPlaced) (h : r.IsConventional) {e : Edit}
    (he : e ∈ r.replacements) :
    ∃ n ∈ r.uses, ∃ new ∈ r.names, r.spelling n = some new ∧ e = ⟨n.start, n.stop, new⟩ := by
  obtain ⟨n, hn, rfl⟩ := List.mem_map.mp he
  obtain ⟨hroot, hspelling⟩ := List.mem_filter.mp hn
  obtain ⟨new, hnew⟩ := Option.isSome_iff_exists.mp hspelling
  obtain ⟨huse, hpair⟩ := (spelling_eq_some_iff hplaced h hroot).mp hnew
  exact ⟨n, huse, new, (List.of_mem_zip hpair).2, hnew, by rw [hnew, Option.getD_some]⟩

/-- The replacements stand one behind the other. -/
theorem inOrder_replacements {text : Text} (hsource : r.source.IsOf text)
    (hplaced : r.source.IsPlaced) (h : r.IsConventional) (hfresh : r.IsFresh) :
    InOrder r.source.bytes.length 0 r.replacements := by
  refine inOrder_of_pairwise ?_ fun e he => ?_
  · rw [replacements, List.pairwise_map]
    refine hplaced.nested.pairwise_tokens fun n hn hspelling => ?_
    obtain ⟨new, hnew⟩ := Option.isSome_iff_exists.mp hspelling
    exact isToken_of_mem_uses hplaced h ((spelling_eq_some_iff hplaced h hn).mp hnew).1
  · obtain ⟨n, huse, new, hnew, -, rfl⟩ := exists_of_mem_replacements hplaced h he
    obtain ⟨-, ⟨before, after, htext, hstop⟩, -⟩ :=
      Node.liesIn_iff.mp (hsource.root.of_mem_all (h.of_mem_uses huse).1)
    have hlength : n.stop ≤ r.source.bytes.length := by
      rw [hsource.bytes, Text.length_bytes, htext, Text.utf8Size_append]
      exact hstop ▸ Nat.le_add_right _ _
    exact ⟨Nat.zero_le _, (isToken_of_mem_uses hplaced h huse).start_lt_stop, hlength,
      hfresh.ne_nil new hnew⟩

/-- No node begins or ends inside a replacement. -/
theorem outside_replacements (hplaced : r.source.IsPlaced) (h : r.IsConventional)
    (hn : n ∈ r.source.root.all) :
    Outside r.replacements n.start ∧ Outside r.replacements n.stop := by
  have hoffset : ∀ e ∈ r.replacements,
      (n.start ≤ e.start ∨ e.stop ≤ n.start) ∧ (n.stop ≤ e.start ∨ e.stop ≤ n.stop) := by
    intro e he
    obtain ⟨m, huse, new, -, -, rfl⟩ := exists_of_mem_replacements hplaced h he
    exact hplaced.nested.offset_outside (h.of_mem_uses huse).1 hn
      (isToken_of_mem_uses hplaced h huse)
  exact ⟨fun e he => (hoffset e he).1, fun e he => (hoffset e he).2⟩

/-- A use of a parameter was replaced. -/
theorem exists_replacement (hplaced : r.source.IsPlaced) (h : r.IsConventional) (hfresh : r.IsFresh)
    (hn : n ∈ r.uses) :
    ∃ new, (⟨n.start, n.stop, new⟩ : Edit) ∈ r.replacements := by
  obtain ⟨hroot, -, htext⟩ := h.of_mem_uses hn
  have hlength : parameterNames.length ≤ r.names.length := hfresh.length.ge
  obtain ⟨new, hpair⟩ := exists_mem_zip hlength htext
  have hspelling := (spelling_eq_some_iff hplaced h hroot).mpr ⟨hn, hpair⟩
  refine ⟨new, List.mem_map.mpr ⟨n, List.mem_filter.mpr ⟨hroot, ?_⟩, ?_⟩⟩
  · rw [hspelling, Option.isSome_some]
  · rw [hspelling, Option.getD_some]

/-- What was replaced for a reference to a parameter is put back. -/
theorem undoes_undoing (hplaced : r.source.IsPlaced) (h : r.IsConventional)
    (hold : old ∈ parameterNames) (hn : n ∈ references r.body old) (new : Text) :
    Edit.Undoes r.source.bytes r.replacements ⟨n.start, n.stop, new⟩ (r.undoing old n) := by
  have hroot := Node.mem_all_trans h.mem_all_body (mem_all_of_mem_references hn)
  obtain ⟨hkind, rfl⟩ := h.of_mem_references hold hn
  exact ⟨rfl, rfl, (hplaced.identifier n hroot hkind).2.symm⟩

/-! ## The pieces with the old names -/

theorem factoryEdits_eq_nil (h : r.IsConventional) : factoryEdits r.function r.body = [] := by
  unfold factoryEdits parameterRenames
  rw [renames_eq_nil h]
  rfl

/-- Between two offsets in the body, putting the names by convention back undoes the
replacements. -/
theorem restoredPiece_respelled {text : Text} (hsource : r.source.IsOf text)
    (hplaced : r.source.IsPlaced) (h : r.IsConventional) (hfresh : r.IsFresh) {renamed : Source}
    (hgives : r.Gives renamed) {a b : Nat} (ha : Outside r.replacements a)
    (hb : Outside r.replacements b) (hstart : r.body.start ≤ a) (hstop : b ≤ r.body.stop) :
    restoredPiece renamed (r.function.respelled r.respelling) (r.body.respelled r.respelling)
        (shifted r.replacements a, shifted r.replacements b) =
      restoredPiece r.source r.function r.body (a, b) := by
  have hedits : ∀ u, u ∈ (factoryEdits (r.function.respelled r.respelling)
      (r.body.respelled r.respelling)).mergeSort Edit.le ↔
        ∃ old ∈ parameterNames, ∃ m ∈ references r.body old, u = r.undoing old m := fun u =>
    List.mem_mergeSort.trans (mem_factoryEdits_respelled hplaced h hfresh)
  unfold restoredPiece
  rw [factoryEdits_eq_nil h, applyEdits_eq _ _ _ (fun e he => absurd he List.not_mem_nil),
    List.mergeSort_nil, applyEdits_eq, hgives.bytes, editedBytes_spliced
      (inOrder_replacements hsource hplaced h hfresh) (pairwise_start_mergeSort _) ?_ ha hb ?_]
  · rfl
  · intro u hu
    obtain ⟨old, hold, m, hm, rfl⟩ := (hedits u).mp hu
    obtain ⟨new, hnew⟩ :=
      exists_replacement hplaced h hfresh (mem_uses_of_mem_references hold hm)
    exact ⟨_, hnew, undoes_undoing hplaced h hold hm new⟩
  · intro e he hea heb
    obtain ⟨n, huse, new, -, -, rfl⟩ := exists_of_mem_replacements hplaced h he
    obtain ⟨hold, hn⟩ := mem_references_of_mem_uses hplaced h huse
      (Nat.le_trans hstart hea) (Nat.le_trans heb hstop)
    exact ⟨r.undoing n.text n, (hedits _).mpr ⟨n.text, hold, n, hn, rfl⟩,
      undoes_undoing hplaced h hold hn new⟩
  · intro u hu
    obtain ⟨old, hold, m, -, rfl⟩ := (hedits u).mp (List.mem_mergeSort.mpr hu)
    exact isScalar_of_mem_parameterNames hold

/-- The pieces of the body stand in it, and do not begin or end inside a replacement. -/
theorem statementSpans_outside (hplaced : r.source.IsPlaced) (h : r.IsConventional) :
    ∀ span ∈ statementSpans r.body,
      (Outside r.replacements span.1 ∧ r.body.start ≤ span.1 ∧ span.1 ≤ r.body.stop) ∧
        Outside r.replacements span.2 ∧ r.body.start ≤ span.2 ∧ span.2 ≤ r.body.stop := by
  have hbody := hplaced.nested.of_mem_all h.mem_all_body
  refine statementSpans_allAt (P := fun x =>
    Outside r.replacements x ∧ r.body.start ≤ x ∧ x ≤ r.body.stop) fun c hc => ?_
  have hinside := (hbody r.body r.body.mem_all_self).inside c hc
  have hle := (hbody.of_mem_children hc c c.mem_all_self).start_le_stop
  obtain ⟨hstart, hstop⟩ := outside_replacements hplaced h
    (Node.mem_all_trans h.mem_all_body (Node.mem_all_of_mem_children hc c.mem_all_self))
  exact ⟨⟨hstart, by omega⟩, hstop, by omega⟩

/-- Children of the body with different spans have different spans at their new offsets. -/
theorem span_eq_of_respelled {text : Text} (hsource : r.source.IsOf text)
    (hplaced : r.source.IsPlaced) (h : r.IsConventional) (hfresh : r.IsFresh) {c d : Node}
    (hc : c ∈ r.body.children) (hd : d ∈ r.body.children)
    (heq : (c.respelled r.respelling).span = (d.respelled r.respelling).span) :
    c.span = d.span := by
  have hinOrder := inOrder_replacements hsource hplaced h hfresh
  have houtside : ∀ c ∈ r.body.children,
      Outside r.replacements c.start ∧ Outside r.replacements c.stop := fun c hc =>
    outside_replacements hplaced h
      (Node.mem_all_trans h.mem_all_body (Node.mem_all_of_mem_children hc c.mem_all_self))
  rw [Node.span_respelled, Node.span_respelled] at heq
  obtain ⟨hstart, hstop⟩ := Prod.mk.inj heq
  exact Prod.ext ((shifted_inj hinOrder (houtside c hc).1 (houtside d hd).1).mp hstart)
    ((shifted_inj hinOrder (houtside c hc).2 (houtside d hd).2).mp hstop)

end Renaming
end Factory

/-! ## Restoring -/

theorem mapM_map_eq {α β γ ε : Type} {f : α → β} {g : β → Except ε γ} {k : α → Except ε γ}
    {as : List α} (h : ∀ a ∈ as, g (f a) = k a) : (as.map f).mapM g = as.mapM k := by
  induction as with
  | nil => rfl
  | cons a as ih =>
    obtain ⟨ha, has⟩ := List.forall_mem_cons.mp h
    rw [List.map_cons, List.mapM_cons, List.mapM_cons, ha, ih has]

/-- A factory and the same factory with other names for its parameters are restored to the same
source. -/
theorem restore_source_eq {r : Factory.Renaming} {code code' : Text} {renamed : Source}
    (hparse : Source.parse ("(" ++ code ++ ")") = .ok r.source)
    (hplaced : r.source.IsPlaced) (h : r.IsConventional) (hfresh : r.IsFresh)
    (hparse' : Source.parse ("(" ++ code' ++ ")") = .ok renamed) (hgives : r.Gives renamed) :
    (restore code').map Restored.source = (restore code).map Restored.source := by
  have hsource := Source.isOf_of_parse hparse
  have hread' := Factory.read_respelled hgives.root h.read
  have hspans := Factory.statementSpans_respelled r.respelling fun c hc d hd heq =>
    Factory.Renaming.span_eq_of_respelled hsource hplaced h hfresh hc hd heq
  have hpieces : ((Factory.statementSpans r.body).map
        (Prod.map r.respelling.offset r.respelling.offset)).mapM
          (restoredPiece renamed (r.function.respelled r.respelling)
            (r.body.respelled r.respelling)) =
      (Factory.statementSpans r.body).mapM (restoredPiece r.source r.function r.body) := by
    refine mapM_map_eq fun span hmem => ?_
    obtain ⟨⟨ha, hstart, -⟩, hb, -, hstop⟩ :=
      Factory.Renaming.statementSpans_outside hplaced h span hmem
    exact Factory.Renaming.restoredPiece_respelled hsource hplaced h hfresh hgives ha hb hstart
      hstop
  rw [restore_eq hparse h.read, restore_eq hparse' hread', hspans, hpieces]
  cases (Factory.statementSpans r.body).mapM (restoredPiece r.source r.function r.body) <;> rfl

namespace Session

theorem knownId_claim (s : Session) (digest rawId rawId' : Text) :
    (s.claim digest rawId).knownId digest rawId' = s.knownId digest rawId := by
  unfold knownId claim
  simp only
  rw [Table.get?_insertNew, if_pos rfl, Option.getD_some]

/-- In every session, a source that follows another one gets the id of that one, whatever ids the
two modules have in their bundles. -/
def Identifies (source source' : Text) : Prop :=
  ∀ (s : Session) (rawId rawId' : Text), (canonicalId rawId source).Leaves s fun r t =>
    ∃ id, r = .ok id ∧ (canonicalId rawId' source').Leaves t fun r' _ => r' = .ok id

theorem identifies_self {source digest : Text} (h : source.digest = .ok digest) :
    Identifies source source := by
  intro s rawId rawId'
  rw [canonicalId_leaves h]
  refine ⟨_, rfl, ?_⟩
  rw [canonicalId_leaves h, knownId_claim]

end Session

/-- Three new names for the parameters of a factory, wherever they are used, do not matter for the
module: both factories are restored to one source, so both modules have one digest and, in every
session, one id. -/
theorem restore_ignores_parameterNames (r : Factory.Renaming) (code code' : Text) (renamed : Source)
    (hparse : Source.parse ("(" ++ code ++ ")") = .ok r.source)
    (hplaced : r.source.IsPlaced) (hfactory : r.IsConventional) (hfresh : r.IsFresh)
    (hparse' : Source.parse ("(" ++ code' ++ ")") = .ok renamed) (hgives : r.Gives renamed) :
    ∃ restored restored', restore code = .ok restored ∧ restore code' = .ok restored' ∧
      restored'.source = restored.source ∧
      (∃ digest, restored.source.digest = .ok digest ∧ restored'.source.digest = .ok digest) ∧
      Session.Identifies restored.source restored'.source := by
  obtain ⟨restored, hscalar, hrestored⟩ := exists_restore_eq_ok hparse hfactory.read
  obtain ⟨restored', -, hrestored'⟩ :=
    exists_restore_eq_ok hparse' (Factory.read_respelled hgives.root hfactory.read)
  have heq := restore_source_eq hparse hplaced hfactory hfresh hparse' hgives
  rw [hrestored, hrestored'] at heq
  have hsource : restored'.source = restored.source := Except.ok.inj heq
  obtain ⟨digest, hdigest⟩ := exists_digest hscalar
  refine ⟨restored, restored', hrestored, hrestored', hsource, ⟨digest, hdigest, ?_⟩, ?_⟩
  · rw [hsource, hdigest]
  · rw [hsource]
    exact Session.identifies_self hdigest

/-- A factory in which another function has a parameter of the same name. -/
def shadowingFactory : Text :=
  "function(require,module,exports)\x7b" ++
    "var a=require(1);exports.b=function(module)\x7breturn module\x7d\x7d"

/-- The same factory with other names for its parameters. -/
def renamedFactory : Text :=
  "function(e,t,n)\x7bvar a=e(1);n.b=function(module)\x7breturn module\x7d\x7d"

set_option maxRecDepth 100000 in
/-- The two factories are restored to the same source. -/
theorem shadowingFactory_restored :
    ∃ (r : Factory.Renaming) (renamed : Source),
      r.names = [Text.ofString "e", Text.ofString "t", Text.ofString "n"] ∧
      Source.parse ("(" ++ shadowingFactory ++ ")") = .ok r.source ∧
      r.source.IsPlaced ∧ r.IsConventional ∧ r.IsFresh ∧
      Source.parse ("(" ++ renamedFactory ++ ")") = .ok renamed ∧ r.Gives renamed ∧
      ∃ restored restored', restore shadowingFactory = .ok restored ∧
        restore renamedFactory = .ok restored' ∧ restored'.source = restored.source := by
  have h : ((Source.parse ("(" ++ shadowingFactory ++ ")")).toOption.any fun source =>
      (Source.parse ("(" ++ renamedFactory ++ ")")).toOption.any fun renamed =>
        (Factory.read source).toOption.any fun found =>
          let r : Factory.Renaming :=
            ⟨source, found.1, found.2, [Text.ofString "e", Text.ofString "t", Text.ofString "n"]⟩
          decide (r.source.IsPlaced ∧ r.IsConventional ∧ r.IsFresh ∧ r.Gives renamed)) = true := by
    decide +kernel
  obtain ⟨source, hparse, h⟩ := exists_of_toOption_any h
  obtain ⟨renamed, hparse', h⟩ := exists_of_toOption_any h
  obtain ⟨⟨function, body⟩, -, h⟩ := exists_of_toOption_any h
  obtain ⟨hplaced, hfactory, hfresh, hgives⟩ := of_decide_eq_true h
  obtain ⟨restored, restored', hrestored, hrestored', heq, -⟩ :=
    restore_ignores_parameterNames _ _ _ renamed hparse hplaced hfactory hfresh hparse' hgives
  exact ⟨_, renamed, rfl, hparse, hplaced, hfactory, hfresh, hparse', hgives, restored, restored',
    hrestored, hrestored', heq⟩

end Debundle
