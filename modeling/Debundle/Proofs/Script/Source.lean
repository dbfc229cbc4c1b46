import Debundle.Proofs.Script.Grammar
import Debundle.Script.Source

/-!
# The tree of a source lies in its text

* `Node.weave_liesIn`: comments that are put into a tree stay where they stand.
* `Source.IsOf`: a source and the text it was read from.
* `Source.isOf_of_parse`: whatever can be parsed has a tree that lies in its text.
* `exists_of_toOption_any`: how a check of a parsed source is used.
-/

namespace Debundle

theorem toOption_eq_some_iff {ε α : Type} {x : Except ε α} {a : α} :
    x.toOption = some a ↔ x = .ok a := by
  cases x with
  | error e => simp [Except.toOption]
  | ok b => simp [Except.toOption]

/-- What is checked of the result of a run that succeeds. -/
theorem exists_of_toOption_any {ε α : Type} {x : Except ε α} {p : α → Bool}
    (h : x.toOption.any p = true) : ∃ a, x = .ok a ∧ p a = true := by
  cases x with
  | error e => cases h
  | ok a => exact ⟨a, rfl, h⟩

end Debundle

namespace Debundle.Script

variable {t : Text}

/-! ## Comments in the tree -/

namespace Node

mutual

theorem withRemarks_liesIn {remarks : List Node} (hremarks : ∀ r ∈ remarks, r.LiesIn t) :
    ∀ n : Node, n.LiesIn t → (withRemarks remarks n).LiesIn t
  | ⟨kind, role, start, stop, text, children⟩, h => by
    have hchildren := (Node.liesIn_iff.mp h).2.2.2
    rw [withRemarks]
    exact h.reshape (weave_liesIn hremarks children hchildren)

theorem weave_liesIn {remarks : List Node} (hremarks : ∀ r ∈ remarks, r.LiesIn t) :
    ∀ cs : List Node, (∀ c ∈ cs, c.LiesIn t) → ∀ n ∈ weave remarks cs, n.LiesIn t
  | [], _ => by
    rw [weave]
    exact hremarks
  | c :: cs, h => by
    obtain ⟨hc, hcs⟩ := List.forall_mem_cons.mp h
    have hrest := List.drop_subset
      (remarks.takeWhile fun r => decide (r.start < c.start)).length remarks
    rw [weave]
    refine List.forall_mem_append.mpr ⟨fun r hr => hremarks r (List.takeWhile_subset _ hr),
      List.forall_mem_cons.mpr ⟨withRemarks_liesIn (fun r hr => ?_) c hc,
        weave_liesIn (fun r hr => ?_) cs hcs⟩⟩
    · exact hremarks r (hrest (List.takeWhile_subset _ hr))
    · exact hremarks r (hrest (List.mem_of_mem_drop hr))

end

end Node

/-! ## Parsing -/

namespace Source

/-- A source was read from a text that has bytes, and its tree lies in the text. -/
structure IsOf (source : Source) (t : Text) : Prop where
  isScalar : t.IsScalar
  bytes : source.bytes = t.bytes
  root : source.root.LiesIn t

theorem tree?_liesIn {root : Node} (h : tree? t = some root) : root.LiesIn t := by
  obtain ⟨⟨found, reader⟩, hprogram, h⟩ := Option.bind_eq_some_iff.mp h
  simp only at h
  split at h
  · cases h
    obtain ⟨hfound, hreader⟩ :=
      (Grammar.program_readsIn (t := t) _).out _ (Reader.LiesIn.start t) _ _ hprogram
    have hremarks : ∀ r ∈ reader.comments.reverse ++ reader.skipped.map Remark.node,
        r.LiesIn t := by
      refine List.forall_mem_append.mpr ⟨fun r hr => ?_, List.forall_mem_map.mpr fun m hm => ?_⟩
      · exact hreader.comments r (List.mem_reverse.mp hr)
      · exact (hreader.skipped m hm).node
    have hchildren := Node.weave_liesIn hremarks found hfound.out
    refine ⟨?_, hreader.total, List.nil_subset t, hchildren⟩
    cases hhead :
      (Node.weave (reader.comments.reverse ++ reader.skipped.map Remark.node) found).head? with
    | none => exact hreader.total
    | some first => exact (Node.liesIn_iff.mp (hchildren first (List.mem_of_head? hhead))).1
  · cases h

/-- Whatever can be parsed has a tree that lies in its text. -/
theorem isOf_of_parse {source : Source} (h : parse t = .ok source) : source.IsOf t := by
  unfold parse at h
  split at h
  · cases h
  · rename_i bytes hbytes
    obtain ⟨hscalar, rfl⟩ := Text.isScalar_of_encode hbytes
    split at h
    · cases h
    · rename_i root hroot
      cases h
      exact ⟨hscalar, rfl, tree?_liesIn hroot⟩

end Source
end Debundle.Script
