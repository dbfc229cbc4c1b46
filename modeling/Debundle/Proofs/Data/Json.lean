import Debundle.Data.Json
import Debundle.Proofs.Data.Comparing
import Debundle.Proofs.Data.Sorting

/-!
# What is written of a value

A value is written whole if all its scalars and keys have a form, and if the keys of each of its
mappings can be compared where they are to be in order.  If not, the writing breaks off somewhere.

* `Value.IsWritable`: values that can be written.
* `JsonText.Gives`: pieces that are complete under a condition, and make up a text then.
* `Value.jsonText_gives`: those of a value are complete if it can be written, and make up its text.
* `Value.isWritable_sortKeys`: putting keys in order does not change whether a value can be written.
* `Mapping.sorted_inOrder`: the keys are in order then.
-/

namespace Debundle

/-! ## Values that can be written -/

/-- A scalar that has a form in a written value, also as a key. -/
def Scalar.HasJson : Scalar → Prop
  | .int n => (Text.ofNat n.natAbs).length ≤ JsonFault.digitLimit
  | .time _ _ => False
  | _ => True

/-- A value that can be written, with the keys of mappings in order if `sorted`. -/
inductive Value.IsWritable (sorted : Bool) : Value → Prop where
  /-- A scalar that has a form. -/
  | scalar {s : Scalar} (h : s.HasJson) : IsWritable sorted (.scalar s)
  /-- A list of values that can be written. -/
  | list {items : List Value} (h : ∀ v ∈ items, IsWritable sorted v) :
    IsWritable sorted (.list items)
  /-- A mapping from keys that have a form to values that can be written. -/
  | mapping {entries : List (Scalar × Value)} (hkeys : ∀ e ∈ entries, e.1.HasJson)
    (horder : sorted = true → Mapping.isSortable entries = true)
    (hvalues : ∀ e ∈ entries, IsWritable sorted e.2) : IsWritable sorted (.mapping entries)

namespace Value

variable {sorted : Bool} {s : Scalar} {items : List Value} {entries : List (Scalar × Value)}

@[simp] theorem isWritable_scalar_iff : (scalar s).IsWritable sorted ↔ s.HasJson :=
  ⟨fun h => by cases h; assumption, .scalar⟩

@[simp] theorem isWritable_list_iff :
    (list items).IsWritable sorted ↔ ∀ v ∈ items, v.IsWritable sorted :=
  ⟨fun h => by cases h; assumption, .list⟩

@[simp] theorem isWritable_mapping_iff :
    (mapping entries).IsWritable sorted ↔
      (sorted = true → Mapping.isSortable entries = true) ∧
        ∀ e ∈ entries, e.1.HasJson ∧ e.2.IsWritable sorted := by
  refine ⟨fun h => ?_, fun ⟨horder, h⟩ =>
    .mapping (fun e he => (h e he).1) horder fun e he => (h e he).2⟩
  cases h with
  | mapping hkeys horder hvalues => exact ⟨horder, fun e he => ⟨hkeys e he, hvalues e he⟩⟩

end Value

namespace Scalar

theorem jsonFault?_eq_none_iff {s : Scalar} : s.jsonFault? = none ↔ s.HasJson := by
  cases s <;> simp [jsonFault?, HasJson]

theorem jsonKeyFault?_eq_none_iff {s : Scalar} : s.jsonKeyFault? = none ↔ s.HasJson := by
  cases s <;> simp [jsonKeyFault?, jsonFault?, HasJson]

end Scalar

/-! ## Pieces -/

namespace JsonText

variable {front back text : JsonText} {P Q : Prop} {t u : Text}

/-- Pieces that are complete under a condition and nowhere else, and make up a text then. -/
structure Gives (text : JsonText) (P : Prop) (t : Text) : Prop where
  /-- When they are complete. -/
  fault : text.fault = none ↔ P
  /-- The text. -/
  flatten : text.fault = none → text.pieces.flatten = t

theorem Gives.congr (h : text.Gives P t) (hPQ : P ↔ Q) (htu : t = u) : text.Gives Q u :=
  ⟨h.fault.trans hPQ, fun hfault => (h.flatten hfault).trans htu⟩

theorem gives_whole (pieces : List Text) : (whole pieces).Gives True pieces.flatten :=
  ⟨iff_of_true rfl trivial, fun _ => rfl⟩

theorem gives_broken (fault : JsonFault) (t : Text) : (broken fault).Gives False t :=
  ⟨iff_of_false nofun not_false, nofun⟩

/-- One thing behind another. -/
theorem Gives.append (hfront : front.Gives P t) (hback : back.Gives Q u) :
    (front ++ back).Gives (P ∧ Q) (t ++ u) := by
  show (JsonText.append front back).Gives (P ∧ Q) (t ++ u)
  unfold JsonText.append
  split
  · rename_i fault hfault
    refine ⟨iff_of_false (fun h => ?_) fun h => ?_, fun h => ?_⟩
    · rw [hfault] at h
      cases h
    · rw [hfront.fault.mpr h.1] at hfault
      cases hfault
    · rw [hfault] at h
      cases h
  · rename_i hfault
    refine ⟨?_, fun h => ?_⟩
    · rw [hback.fault, iff_and_self]
      exact fun _ => hfront.fault.mp hfault
    · rw [List.flatten_append, hfront.flatten hfault, hback.flatten h]

theorem gives_ofScalar (front : Text) (s : Scalar) :
    (ofScalar front s).Gives s.HasJson (front ++ s.toJson) := by
  rw [← Scalar.jsonFault?_eq_none_iff]
  unfold ofScalar
  split
  · rename_i h
    exact (gives_whole _).congr (iff_of_true trivial h) List.flatten_singleton
  · rename_i h
    exact ⟨iff_of_false nofun (by rw [h]; nofun), nofun⟩
  · rename_i h
    exact (gives_broken _ _).congr (iff_of_false not_false (by rw [h]; nofun)) rfl

theorem gives_ofKey (front : List Text) (k : Scalar) :
    (ofKey front k).Gives k.HasJson (front.flatten ++ k.toJsonKey ++ ": ") := by
  rw [← Scalar.jsonKeyFault?_eq_none_iff]
  unfold ofKey
  split
  · rename_i h
    refine (gives_whole _).congr (iff_of_true trivial h) ?_
    simp
  · rename_i h
    exact (gives_broken _ _).congr (iff_of_false not_false (by rw [h]; nofun)) rfl

end JsonText

namespace Value

open JsonText

variable {sorted : Bool} {level : Nat} {v : Value} {vs : List Value}

/-- An item behind what stands before it, and the items behind it. -/
theorem itemPieces_cons_gives {Q : Prop} {u : Text}
    (hv : (piecesAt sorted level v).Gives (v.IsWritable sorted) (jsonAt level v))
    (hvs : (piecesAt.itemPieces sorted level ("," ++ newLine level) vs).Gives Q u) (front : Text) :
    (piecesAt.itemPieces sorted level front (v :: vs)).Gives (v.IsWritable sorted ∧ Q)
      (front ++ jsonAt level v ++ u) := by
  unfold piecesAt.itemPieces
  refine Gives.append ?_ hvs
  cases v with
  | scalar s => exact (gives_ofScalar front s).congr isWritable_scalar_iff.symm (by rw [jsonAt])
  | list items =>
    exact ((gives_whole [front]).append hv).congr (true_and _).to_iff
      (by rw [List.flatten_singleton])
  | mapping entries =>
    exact ((gives_whole [front]).append hv).congr (true_and _).to_iff
      (by rw [List.flatten_singleton])

/-- Entries whose keys have to be in order, and can be. -/
theorem entries_gives {text : JsonText} {P : Prop} {t : Text} (entries : Mapping)
    (h : text.Gives P t) :
    (if sorted && !entries.isSortable then broken .unordered else text).Gives
      ((sorted = true → entries.isSortable = true) ∧ P) t := by
  split
  · rename_i hunordered
    rw [Bool.and_eq_true, Bool.not_eq_true'] at hunordered
    refine (gives_broken _ _).congr (iff_of_false not_false fun h => ?_) rfl
    exact Bool.false_ne_true (hunordered.2.symm.trans (h.1 hunordered.1))
  · rename_i hordered
    rw [Bool.and_eq_true, Bool.not_eq_true', not_and, Bool.not_eq_false] at hordered
    exact h.congr (iff_and_self.mpr fun _ => hordered) rfl

mutual

/-- The pieces of a value are complete if it can be written, and make up its text. -/
theorem piecesAt_gives (sorted : Bool) (level : Nat) : ∀ v : Value,
    (piecesAt sorted level v).Gives (v.IsWritable sorted) (jsonAt level v)
  | .scalar s => by
    rw [piecesAt]
    exact (gives_ofScalar [] s).congr isWritable_scalar_iff.symm (by rw [jsonAt, List.nil_append])
  | .list [] => by
    rw [piecesAt, List.isEmpty_nil, if_pos rfl]
    exact (gives_whole _).congr (by simp) (by rw [jsonAt, List.flatten_singleton])
  | .list (v :: vs) => by
    rw [piecesAt, List.isEmpty_cons, if_neg Bool.false_ne_true]
    refine ((itemPieces_cons_gives (piecesAt_gives sorted (level + 1) v)
      (itemPieces_gives sorted (level + 1) vs) _).append (gives_whole _)).congr ?_ ?_
    · rw [isWritable_list_iff, List.forall_mem_cons, and_true]
    · rw [jsonAt]
      simp
  | .mapping [] => by
    rw [piecesAt, List.isEmpty_nil, if_pos rfl]
    exact (gives_whole _).congr (by simp [Mapping.isSortable])
      (by rw [jsonAt, List.flatten_singleton])
  | .mapping ((k, v) :: es) => by
    have hentries := ((gives_ofKey [] k).append (piecesAt_gives sorted (level + 1) v)).append
      (entryPieces_gives sorted (level + 1) es)
    rw [piecesAt, List.isEmpty_cons, if_neg Bool.false_ne_true, piecesAt.entryPieces]
    refine (((gives_whole _).append (entries_gives _ hentries)).append (gives_whole _)).congr ?_ ?_
    · rw [isWritable_mapping_iff, List.forall_mem_cons, true_and, and_true]
    · rw [jsonAt]
      simp

theorem itemPieces_gives (sorted : Bool) (level : Nat) : ∀ vs : List Value,
    (piecesAt.itemPieces sorted level ("," ++ newLine level) vs).Gives
      (∀ v ∈ vs, v.IsWritable sorted) (jsonAt.jsonItems level vs)
  | [] => (gives_whole []).congr (by simp) (by rw [jsonAt.jsonItems, List.flatten_nil])
  | v :: vs => by
    refine (itemPieces_cons_gives (piecesAt_gives sorted level v)
      (itemPieces_gives sorted level vs) _).congr List.forall_mem_cons.symm ?_
    rw [jsonAt.jsonItems]

theorem entryPieces_gives (sorted : Bool) (level : Nat) : ∀ es : List (Scalar × Value),
    (piecesAt.entryPieces sorted level ["," ++ newLine level] es).Gives
      (∀ e ∈ es, e.1.HasJson ∧ e.2.IsWritable sorted) (jsonAt.jsonEntries level es)
  | [] => (gives_whole []).congr (by simp) (by rw [jsonAt.jsonEntries, List.flatten_nil])
  | (k, v) :: es => by
    rw [piecesAt.entryPieces]
    refine (((gives_ofKey _ k).append (piecesAt_gives sorted level v)).append
      (entryPieces_gives sorted level es)).congr ?_ ?_
    · rw [List.forall_mem_cons]
    · rw [jsonAt.jsonEntries]
      simp

end

end Value

/-! ## Keys in order -/

namespace Mapping

theorem sorted_perm (m : Mapping) : m.sorted.Perm m := Sorting.sort_perm _ m

/-- Whether keys can be compared depends on the keys alone, and not on their order. -/
theorem isSortable_congr {m m' : Mapping} (h : (m.map Prod.fst).Perm (m'.map Prod.fst)) :
    m.isSortable = m'.isSortable := by
  have hkeys : ∀ m : Mapping, m.isSortable =
      ((m.map Prod.fst).length ≤ 1 ||
        (m.map Prod.fst).all fun k => (m.map Prod.fst).all fun k' => k.isComparable k') := by
    intro m
    simp [isSortable, List.all_map, Function.comp_def]
  rw [hkeys, hkeys, h.length_eq, h.all_eq]
  simp only [h.all_eq]

end Mapping

namespace Scalar

/-- Keys that can be compared are two texts, two numbers, or points in time. -/
theorem isComparable_cases {a b : Scalar} (h : a.isComparable b = true) :
    (∃ t u, a = .text t ∧ b = .text u) ∨
      (∃ x y, a.binary64? = some x ∧ b.binary64? = some y) ∨ ∃ day clock, a = .time day clock := by
  cases a <;> cases b <;> simp_all [isComparable, exceeds?, binary64?, integer?]

theorem precedes_text (t u : Text) : precedes (.text t) (.text u) = !u.le t := by
  simp [precedes, exceeds?]

/-- Numbers are ordered by where they stand. -/
theorem precedes_iff_of_binary64 {a b : Scalar} {x y : Binary64} (ha : a.binary64? = some x)
    (hb : b.binary64? = some y) (hx : x ≠ .nan) (hy : y ≠ .nan) :
    a.precedes b = true ↔ x.rank < y.rank := by
  rw [← Binary64.exceeds_iff hy hx, precedes, exceeds?]
  · simp [ha, hb]
  · rintro t u rfl -
    cases hb

theorem precedes_time (a : Scalar) (day : Day) (clock : Option Clock) :
    a.precedes (.time day clock) = false := by
  cases a <;> rfl

theorem ne_nan_of_binary64 {a : Scalar} {x : Binary64} (ha : a.binary64? = some x)
    (hne : a ≠ .float .nan) : x ≠ .nan := by
  rintro rfl
  cases a <;> simp_all [binary64?, integer?]

/-- Keys any two of which can be compared are ordered, if none of them is the floating-point value
that is no number. -/
theorem precedes_ranks {S : Scalar → Prop} (hS : ∀ a b, S a → S b → a.isComparable b = true)
    (hnan : ∀ a, S a → a ≠ .float .nan) : Sorting.Ranks precedes S where
  asymm {a b} ha hb hab := by
    obtain ⟨t, u, rfl, rfl⟩ | ⟨x, y, hx, hy⟩ | ⟨day, clock, rfl⟩ :=
      isComparable_cases (hS a b ha hb)
    · rw [precedes_text, Bool.not_eq_true'] at hab
      rw [precedes_text, Bool.not_eq_false']
      exact (Text.le_total t u).resolve_right (by rw [hab]; exact Bool.false_ne_true)
    · have hxnan := ne_nan_of_binary64 hx (hnan a ha)
      have hynan := ne_nan_of_binary64 hy (hnan b hb)
      rw [precedes_iff_of_binary64 hx hy hxnan hynan] at hab
      rw [← Bool.not_eq_true, precedes_iff_of_binary64 hy hx hynan hxnan]
      exact lt_asymm hab
    · exact precedes_time b day clock
  trans {a b c} ha hb hc hba hcb := by
    obtain ⟨t, u, rfl, rfl⟩ | ⟨x, y, hx, hy⟩ | ⟨day, clock, rfl⟩ :=
      isComparable_cases (hS a b ha hb)
    · obtain ⟨-, v, -, rfl⟩ | ⟨_, _, h, -⟩ | ⟨_, _, h⟩ := isComparable_cases (hS _ c ha hc)
      · rw [precedes_text, Bool.not_eq_false'] at hba hcb ⊢
        exact Text.le_trans hba hcb
      · cases h
      · cases h
    · obtain ⟨_, _, rfl, -⟩ | ⟨x', z, -, hz⟩ | ⟨_, _, rfl⟩ := isComparable_cases (hS a c ha hc)
      · cases hx
      · have hxnan := ne_nan_of_binary64 hx (hnan a ha)
        have hynan := ne_nan_of_binary64 hy (hnan b hb)
        have hznan := ne_nan_of_binary64 hz (hnan c hc)
        rw [← Bool.not_eq_true, precedes_iff_of_binary64 hy hx hynan hxnan, not_lt] at hba
        rw [← Bool.not_eq_true, precedes_iff_of_binary64 hz hy hznan hynan, not_lt] at hcb
        rw [← Bool.not_eq_true, precedes_iff_of_binary64 hz hx hznan hxnan, not_lt]
        exact hba.trans hcb
      · cases hx
    · exact precedes_time c day clock

end Scalar

namespace Mapping

/-- Keys are put in order if any two of them can be compared and none is the floating-point value
that is no number. -/
theorem sorted_inOrder {m : Mapping} (hsortable : m.isSortable = true)
    (hnan : ∀ e ∈ m, e.1 ≠ .float .nan) :
    Sorting.InOrder (fun e e' => e.1.precedes e'.1) m.sorted := by
  rw [isSortable, Bool.or_eq_true, decide_eq_true_eq] at hsortable
  rcases hsortable with hshort | hcomparable
  · rw [← (sorted_perm m).length_eq] at hshort
    match m.sorted, hshort with
    | [], _ => exact List.Pairwise.nil
    | [e], _ => exact List.pairwise_singleton _ e
  · have hkeys : Sorting.Ranks Scalar.precedes fun k => ∃ e ∈ m, e.1 = k := by
      refine Scalar.precedes_ranks ?_ ?_
      · rintro _ _ ⟨e, he, rfl⟩ ⟨e', he', rfl⟩
        exact List.all_eq_true.mp (List.all_eq_true.mp hcomparable e he) e' he'
      · rintro _ ⟨e, he, rfl⟩
        exact hnan e he
    exact (hkeys.comap Prod.fst).sort_inOrder fun e he => ⟨e, he, rfl⟩

end Mapping

namespace Value

variable {sorted : Bool}

mutual

/-- Putting keys in order does not change whether a value can be written. -/
theorem isWritable_sortKeys : ∀ v : Value, v.sortKeys.IsWritable sorted ↔ v.IsWritable sorted
  | .scalar s => Iff.rfl
  | .list items => by
    rw [sortKeys, isWritable_list_iff, isWritable_list_iff]
    exact isWritable_sortItems items
  | .mapping entries => by
    obtain ⟨hkeys, hvalues⟩ := isWritable_sortEntries entries
    rw [sortKeys, isWritable_mapping_iff, isWritable_mapping_iff,
      Mapping.isSortable_congr (((Mapping.sorted_perm _).map _).trans (List.Perm.of_eq hkeys))]
    refine and_congr_right fun _ => Iff.trans ?_ hvalues
    simp only [(Mapping.sorted_perm _).mem_iff]

theorem isWritable_sortItems : ∀ items : List Value,
    (∀ v ∈ sortKeys.sortItems items, v.IsWritable sorted) ↔ ∀ v ∈ items, v.IsWritable sorted
  | [] => Iff.rfl
  | v :: items => by
    rw [sortKeys.sortItems, List.forall_mem_cons, List.forall_mem_cons, isWritable_sortKeys v,
      isWritable_sortItems items]

theorem isWritable_sortEntries : ∀ entries : List (Scalar × Value),
    (sortKeys.sortEntries entries).map Prod.fst = entries.map Prod.fst ∧
      ((∀ e ∈ sortKeys.sortEntries entries, e.1.HasJson ∧ e.2.IsWritable sorted) ↔
        ∀ e ∈ entries, e.1.HasJson ∧ e.2.IsWritable sorted)
  | [] => ⟨rfl, Iff.rfl⟩
  | (k, v) :: entries => by
    obtain ⟨hkeys, hvalues⟩ := isWritable_sortEntries entries
    refine ⟨congrArg (k :: ·) hkeys, ?_⟩
    rw [sortKeys.sortEntries, List.forall_mem_cons, List.forall_mem_cons, isWritable_sortKeys v,
      hvalues]

end

/-- What is written of a value is complete if the value can be written, and is its text then. -/
theorem jsonText_gives (sorted : Bool) (v : Value) :
    (v.jsonText sorted).Gives (v.IsWritable sorted) (v.arranged sorted).toJson := by
  refine (piecesAt_gives sorted 0 _).congr ?_ rfl
  unfold arranged
  split
  · exact isWritable_sortKeys v
  · exact Iff.rfl

/-- Numbers are put in order by size. -/
example : ((mapping [(.int 10, .list []), (.int 9, .scalar .null)]).jsonText true).pieces.flatten =
    "\x7b\n  \"9\": null,\n  \"10\": []\n\x7d" := by
  decide +kernel

end Value

end Debundle
