import Debundle.Proofs.Data.Comparing
import Debundle.Proofs.Text.Boundaries
import Debundle.Script.Edit
import Mathlib.Data.List.Basic

/-!
# Splicing

When pieces of a text are replaced by others, what stands between them stays the same, but at other
offsets.  Replacing the pieces back in any part of the new text gives the same part of the old one.

* `mergeSort_eq_of_perm`: it does not matter how edits are listed.
* `applyEdits_eq_ite`: what edits give, and when they fail.
* `spliced`: the bytes with all pieces replaced.
* `shifted`: the offset at which an offset comes to lie.
* `InOrder`: pieces that stand one behind the other.
* `shifted_lt_shifted`: offsets outside of the pieces stay in order.
* `slice_spliced`: what stands between the pieces stays the same.
* `editedBytes_spliced`: replacing the pieces back.
-/

namespace Debundle

/-! ## Slices -/

namespace Bytes

variable {a b c i j : Nat} {xs ys : Bytes}

theorem length_slice (h : b ≤ xs.length) : (xs.slice a b).length = b - a := by
  rw [slice, List.length_take, List.length_drop]
  omega

theorem slice_eq_nil (h : b ≤ a) : xs.slice a b = [] := by
  rw [slice, Nat.sub_eq_zero_of_le h, List.take_zero]

theorem slice_drop : slice (xs.drop c) i j = xs.slice (c + i) (c + j) := by
  rw [slice, slice, List.drop_drop, Nat.add_sub_add_left]

theorem slice_append_left (h : j ≤ xs.length) : slice (xs ++ ys) i j = xs.slice i j := by
  by_cases hij : i ≤ j
  · rw [slice, slice, List.drop_append_of_le_length (by omega), List.take_append_of_le_length]
    rw [List.length_drop]
    omega
  · rw [slice_eq_nil (by omega), slice_eq_nil (by omega)]

theorem slice_append_right : slice (xs ++ ys) (xs.length + i) (xs.length + j) = ys.slice i j := by
  rw [slice, slice, List.drop_length_add_append, Nat.add_sub_add_left]

theorem slice_slice (h : c + j ≤ b) : slice (xs.slice c b) i j = xs.slice (c + i) (c + j) := by
  rw [slice, slice, slice, List.drop_take, List.take_take, List.drop_drop, Nat.add_sub_add_left,
    Nat.min_eq_left (by omega)]

theorem slice_append_slice (hab : a ≤ b) (hbc : b ≤ c) :
    xs.slice a b ++ xs.slice b c = xs.slice a c := by
  have hc : c - a = (b - a) + (c - b) := by omega
  have hb : b = a + (b - a) := by omega
  rw [slice, slice, slice, hc, List.take_add, List.drop_drop, ← hb]

end Bytes

namespace Script

/-! ## The order of edits -/

theorem Edit.le_iff {d e : Edit} :
    d.le e = true ↔ d.start < e.start ∨
      d.start = e.start ∧ (d.stop < e.stop ∨ d.stop = e.stop ∧ Text.le d.text e.text = true) := by
  unfold Edit.le
  by_cases hstart : d.start = e.start
  · by_cases hstop : d.stop = e.stop
    · simp [hstart, hstop]
    · simp [hstart, hstop]
  · simp [hstart]

theorem Edit.le_total (d e : Edit) : (d.le e || e.le d) = true := by
  have htext := Text.le_total d.text e.text
  rw [Bool.or_eq_true, le_iff, le_iff]
  rcases Nat.lt_trichotomy d.start e.start with h | h | h
  · exact Or.inl (Or.inl h)
  · rcases Nat.lt_trichotomy d.stop e.stop with h' | h' | h'
    · exact Or.inl (Or.inr ⟨h, Or.inl h'⟩)
    · exact htext.imp (fun ht => Or.inr ⟨h, Or.inr ⟨h', ht⟩⟩)
        fun ht => Or.inr ⟨h.symm, Or.inr ⟨h'.symm, ht⟩⟩
    · exact Or.inr (Or.inr ⟨h.symm, Or.inl h'⟩)
  · exact Or.inr (Or.inl h)

theorem Edit.le_trans (d e f : Edit) (hde : d.le e = true) (hef : e.le f = true) :
    d.le f = true := by
  rw [le_iff] at hde hef ⊢
  rcases hde with h | ⟨h, h' | ⟨h', htext⟩⟩
  · exact Or.inl (by omega)
  · rcases hef with k | ⟨k, k' | ⟨k', -⟩⟩
    · exact Or.inl (by omega)
    · exact Or.inr ⟨by omega, Or.inl (by omega)⟩
    · exact Or.inr ⟨by omega, Or.inl (by omega)⟩
  · rcases hef with k | ⟨k, k' | ⟨k', htext'⟩⟩
    · exact Or.inl (by omega)
    · exact Or.inr ⟨by omega, Or.inl (by omega)⟩
    · exact Or.inr ⟨by omega, Or.inr ⟨by omega, Text.le_trans htext htext'⟩⟩

theorem Edit.le_antisymm {d e : Edit} (hde : d.le e = true) (hed : e.le d = true) : d = e := by
  rw [le_iff] at hde hed
  obtain ⟨hstart, hde⟩ := hde.resolve_left (by omega)
  obtain ⟨-, hed⟩ := hed.resolve_left (by omega)
  obtain ⟨hstop, htext⟩ := hde.resolve_left (by omega)
  obtain ⟨-, htext'⟩ := hed.resolve_left (by omega)
  have heq := Text.le_antisymm htext htext'
  cases d
  cases e
  simp_all

/-- Edits are applied in one order, whichever order they are listed in. -/
theorem mergeSort_eq_of_perm {edits listed : List Edit} (h : listed.Perm edits) :
    listed.mergeSort Edit.le = edits.mergeSort Edit.le := by
  have hsorted := List.pairwise_mergeSort Edit.le_trans Edit.le_total
  have hperm : (listed.mergeSort Edit.le).Perm (edits.mergeSort Edit.le) :=
    ((List.mergeSort_perm listed _).trans h).trans (List.mergeSort_perm edits _).symm
  exact hperm.eq_of_pairwise (fun d e _ _ => Edit.le_antisymm) (hsorted listed) (hsorted edits)

/-- Edits are applied from left to right. -/
theorem pairwise_start_mergeSort (edits : List Edit) :
    (edits.mergeSort Edit.le).Pairwise fun d e => d.start ≤ e.start := by
  refine (List.pairwise_mergeSort Edit.le_trans Edit.le_total edits).imp fun h => ?_
  rcases Edit.le_iff.mp h with h | h
  · exact Nat.le_of_lt h
  · exact Nat.le_of_eq h.1

/-- Edits that are apart from each other are applied one behind the other. -/
theorem pairwise_mergeSort_of_apart {edits : List Edit} (hfilled : ∀ e ∈ edits, e.start < e.stop)
    (hapart : edits.Pairwise fun d e => d.stop ≤ e.start ∨ e.stop ≤ d.start) :
    (edits.mergeSort Edit.le).Pairwise fun d e => d.stop ≤ e.start := by
  have hsorted := ((List.mergeSort_perm edits Edit.le).pairwise_iff fun h => h.symm).mpr hapart
  refine ((pairwise_start_mergeSort edits).and (List.Pairwise.and_mem.mp hsorted)).imp ?_
  rintro d e ⟨hle, -, he, hapart⟩
  have hlt := hfilled e (List.mem_mergeSort.mp he)
  omega

/-! ## What is read -/

/-- The bytes of a range, edited. -/
def editedRange (bytes : Bytes) (start stop : Nat) (edits : List Edit) : Bytes :=
  editedBytes bytes stop start (edits.mergeSort Edit.le)

/-- Edits fail if one of the texts has no bytes, or if the edited bytes are no text. -/
theorem applyEdits_eq_ite (bytes : Bytes) (start stop : Nat) (edits : List Edit) :
    applyEdits bytes start stop edits =
      if ∀ e ∈ effectiveEdits stop start (edits.mergeSort Edit.le), e.text.IsScalar then
        (editedRange bytes start stop edits).decode.mapError fun _ => .undecodable
      else .error .unencodable := by
  have hiff : ((effectiveEdits stop start (edits.mergeSort Edit.le)).any
      fun e => e.text.surrogateAt?.isSome) = true ↔
      ¬∀ e ∈ effectiveEdits stop start (edits.mergeSort Edit.le), e.text.IsScalar := by
    simp only [List.any_eq_true, ← Text.surrogateAt?_eq_none_iff, not_forall, exists_prop,
      Option.isSome_iff_ne_none, Ne]
  simp only [applyEdits, hiff, ite_not]
  congr 1
  unfold editedRange
  cases (editedBytes bytes stop start (edits.mergeSort Edit.le)).decode <;> rfl

/-! ## Pieces -/

/-- The bytes behind an offset with all pieces replaced. -/
def spliced (bytes : Bytes) : Nat → List Edit → Bytes
  | cursor, [] => bytes.drop cursor
  | cursor, e :: edits => bytes.slice cursor e.start ++ e.text.bytes ++ spliced bytes e.stop edits

/-- How far behind `cursor` an offset comes to lie. -/
def shiftedFrom : Nat → List Edit → Nat → Nat
  | cursor, [], x => x - cursor
  | cursor, e :: edits, x =>
    if e.stop ≤ x then e.start - cursor + e.text.utf8Size + shiftedFrom e.stop edits x
    else x - cursor

/-- The offset at which an offset comes to lie. -/
def shifted (edits : List Edit) (x : Nat) : Nat := shiftedFrom 0 edits x

/-- Pieces of `size` bytes stand one behind the other, behind `cursor`, and neither they nor what
they are replaced by is empty. -/
def InOrder (size : Nat) : Nat → List Edit → Prop
  | _, [] => True
  | cursor, e :: edits =>
    cursor ≤ e.start ∧ e.start < e.stop ∧ e.stop ≤ size ∧ e.text ≠ [] ∧ InOrder size e.stop edits

/-- An offset is not inside a piece. -/
def Outside (edits : List Edit) (x : Nat) : Prop := ∀ e ∈ edits, x ≤ e.start ∨ e.stop ≤ x

variable {bytes : Bytes} {size cursor x y a b : Nat} {edits : List Edit} {e : Edit}

theorem inOrder_of_pairwise (hordered : edits.Pairwise fun d e => d.stop ≤ e.start)
    (hedits : ∀ e ∈ edits, cursor ≤ e.start ∧ e.start < e.stop ∧ e.stop ≤ size ∧ e.text ≠ []) :
    InOrder size cursor edits := by
  induction edits generalizing cursor with
  | nil => trivial
  | cons e edits ih =>
    obtain ⟨hfirst, hordered⟩ := List.pairwise_cons.mp hordered
    obtain ⟨⟨hcursor, hfilled, hstop, htext⟩, hrest⟩ := List.forall_mem_cons.mp hedits
    exact ⟨hcursor, hfilled, hstop, htext,
      ih hordered fun d hd => ⟨hfirst d hd, (hrest d hd).2⟩⟩

theorem InOrder.of_mem (h : InOrder size cursor edits) (he : e ∈ edits) :
    cursor ≤ e.start ∧ e.start < e.stop ∧ e.stop ≤ size ∧ e.text ≠ [] := by
  induction edits generalizing cursor with
  | nil => exact absurd he List.not_mem_nil
  | cons d edits ih =>
    obtain ⟨hcursor, hfilled, hstop, htext, hrest⟩ := h
    rcases List.mem_cons.mp he with rfl | he
    · exact ⟨hcursor, hfilled, hstop, htext⟩
    · obtain ⟨hd, hlater⟩ := ih hrest he
      exact ⟨by omega, hlater⟩

/-- The offsets of a piece are not inside another one. -/
theorem InOrder.outside (h : InOrder size cursor edits) (he : e ∈ edits) :
    Outside edits e.start ∧ Outside edits e.stop := by
  induction edits generalizing cursor with
  | nil => exact absurd he List.not_mem_nil
  | cons d edits ih =>
    obtain ⟨hcursor, hfilled, hstop, htext, hrest⟩ := h
    rcases List.mem_cons.mp he with rfl | he
    · refine ⟨List.forall_mem_cons.mpr ⟨Or.inl (Nat.le_refl _), fun d hd => ?_⟩,
        List.forall_mem_cons.mpr ⟨Or.inr (Nat.le_refl _), fun d hd => ?_⟩⟩
      · have hd := hrest.of_mem hd
        omega
      · have hd := hrest.of_mem hd
        omega
    · have hbehind := hrest.of_mem he
      obtain ⟨hstart, hstop⟩ := ih hrest he
      exact ⟨List.forall_mem_cons.mpr ⟨by omega, hstart⟩,
        List.forall_mem_cons.mpr ⟨by omega, hstop⟩⟩

theorem utf8Size_pos {t : Text} (h : t ≠ []) : 0 < t.utf8Size := by
  cases t with
  | nil => exact absurd rfl h
  | cons c cs =>
    have hc : 0 < c.utf8Size := by
      unfold CodePoint.utf8Size
      repeat' split
      all_goals omega
    rw [Text.utf8Size]
    omega

/-- Pieces in order are replaced one after the other. -/
theorem editedBytes_eq_spliced (h : InOrder bytes.length cursor edits) :
    editedBytes bytes bytes.length cursor edits = spliced bytes cursor edits := by
  induction edits generalizing cursor with
  | nil =>
    rw [editedBytes, spliced, Bytes.slice, ← List.length_drop, List.take_length]
  | cons e edits ih =>
    obtain ⟨hcursor, -, hstop, -, hrest⟩ := h
    rw [editedBytes, spliced, if_neg (by simp; omega), ih hrest]

/-! ## Offsets -/

theorem shiftedFrom_lt_shiftedFrom (h : InOrder size cursor edits) (hx : Outside edits x)
    (hcursor : cursor ≤ x) (hxy : x < y) :
    shiftedFrom cursor edits x < shiftedFrom cursor edits y := by
  induction edits generalizing cursor with
  | nil =>
    rw [shiftedFrom, shiftedFrom]
    omega
  | cons e edits ih =>
    obtain ⟨-, -, -, htext, hrest⟩ := h
    obtain ⟨hxe, hx⟩ := List.forall_mem_cons.mp hx
    have hsize := utf8Size_pos htext
    rw [shiftedFrom, shiftedFrom]
    by_cases hstop : e.stop ≤ x
    · have hlt := ih hrest hx hstop
      rw [if_pos hstop, if_pos (by omega)]
      omega
    · rw [if_neg hstop]
      split <;> omega

/-- Offsets outside of the pieces stay in order. -/
theorem shifted_lt_shifted (h : InOrder size 0 edits) (hx : Outside edits x) (hxy : x < y) :
    shifted edits x < shifted edits y :=
  shiftedFrom_lt_shiftedFrom h hx (Nat.zero_le x) hxy

theorem shifted_le_shifted (h : InOrder size 0 edits) (hx : Outside edits x) (hxy : x ≤ y) :
    shifted edits x ≤ shifted edits y := by
  rcases Nat.eq_or_lt_of_le hxy with rfl | hlt
  · exact Nat.le_refl _
  · exact Nat.le_of_lt (shifted_lt_shifted h hx hlt)

theorem shifted_inj (h : InOrder size 0 edits) (hx : Outside edits x) (hy : Outside edits y) :
    shifted edits x = shifted edits y ↔ x = y := by
  refine ⟨fun heq => ?_, fun heq => by rw [heq]⟩
  rcases Nat.lt_trichotomy x y with hlt | heq | hgt
  · have hlt := shifted_lt_shifted h hx hlt
    omega
  · exact heq
  · have hgt := shifted_lt_shifted h hy hgt
    omega

/-! ## What stands between the pieces -/

theorem slice_spliced_from (h : InOrder bytes.length cursor edits) (ha : Outside edits a)
    (hb : Outside edits b) (hcursor : cursor ≤ a) (hab : a ≤ b)
    (hnone : ∀ e ∈ edits, ¬(a ≤ e.start ∧ e.stop ≤ b)) :
    (spliced bytes cursor edits).slice (shiftedFrom cursor edits a) (shiftedFrom cursor edits b) =
      bytes.slice a b := by
  induction edits generalizing cursor with
  | nil =>
    rw [spliced, shiftedFrom, shiftedFrom, Bytes.slice_drop]
    congr 1 <;> omega
  | cons e edits ih =>
    obtain ⟨hstart, hfilled, hstop, -, hrest⟩ := h
    obtain ⟨hae, ha⟩ := List.forall_mem_cons.mp ha
    obtain ⟨hbe, hb⟩ := List.forall_mem_cons.mp hb
    obtain ⟨hnot, hnone⟩ := List.forall_mem_cons.mp hnone
    have hlengthSlice : (bytes.slice cursor e.start).length = e.start - cursor :=
      Bytes.length_slice (by omega)
    rw [spliced, shiftedFrom, shiftedFrom]
    by_cases hbefore : e.stop ≤ a
    · have hskip : (bytes.slice cursor e.start ++ e.text.bytes).length =
          e.start - cursor + e.text.utf8Size := by
        rw [List.length_append, hlengthSlice, Text.length_bytes]
      rw [if_pos hbefore, if_pos (by omega), ← hskip, Bytes.slice_append_right]
      exact ih hrest ha hb hbefore hnone
    · rw [if_neg hbefore, if_neg (by omega), List.append_assoc,
        Bytes.slice_append_left (by rw [hlengthSlice]; omega), Bytes.slice_slice (by omega)]
      congr 1 <;> omega

/-- What stands between the pieces stays the same. -/
theorem slice_spliced (h : InOrder bytes.length 0 edits) (ha : Outside edits a)
    (hb : Outside edits b)
    (hnone : ∀ e ∈ edits, ¬(a ≤ e.start ∧ e.stop ≤ b)) :
    (spliced bytes 0 edits).slice (shifted edits a) (shifted edits b) = bytes.slice a b := by
  by_cases hab : a ≤ b
  · exact slice_spliced_from h ha hb (Nat.zero_le a) hab hnone
  · have hlt := shifted_lt_shifted h hb (Nat.lt_of_not_le hab)
    rw [Bytes.slice_eq_nil (by omega), Bytes.slice_eq_nil (by omega)]

/-! ## Replacing back -/

/-- An edit puts back what a piece was replaced for. -/
structure Edit.Undoes (bytes : Bytes) (edits : List Edit) (e u : Edit) : Prop where
  start : u.start = shifted edits e.start
  stop : u.stop = shifted edits e.stop
  text : u.text.bytes = bytes.slice e.start e.stop

/-- Putting all pieces between two offsets back gives what stood between them. -/
theorem editedBytes_spliced (h : InOrder bytes.length 0 edits) {undo : List Edit}
    (hsorted : undo.Pairwise fun u v => u.start ≤ v.start)
    (hundo : ∀ u ∈ undo, ∃ e ∈ edits, e.Undoes bytes edits u)
    (ha : Outside edits a) (hb : Outside edits b)
    (hall : ∀ e ∈ edits, a ≤ e.start → e.stop ≤ b → ∃ u ∈ undo, e.Undoes bytes edits u) :
    editedBytes (spliced bytes 0 edits) (shifted edits b) (shifted edits a) undo =
      bytes.slice a b := by
  induction undo generalizing a with
  | nil =>
    refine slice_spliced h ha hb fun e he hbetween => ?_
    obtain ⟨u, hu, -⟩ := hall e he hbetween.1 hbetween.2
    exact absurd hu List.not_mem_nil
  | cons u undo ih =>
    obtain ⟨hlater, hsorted⟩ := List.pairwise_cons.mp hsorted
    obtain ⟨⟨e, he, hu⟩, hundo⟩ := List.forall_mem_cons.mp hundo
    obtain ⟨-, hfilled, -⟩ := h.of_mem he
    obtain ⟨hestart, hestop⟩ := h.outside he
    -- what puts another piece back comes later
    have hother : ∀ f ∈ edits, ∀ v ∈ u :: undo, f.Undoes bytes edits v → f.start ≠ e.start →
        v ∈ undo := by
      intro f hf v hv hfv hne
      refine (List.mem_cons.mp hv).resolve_left fun hvu => hne ?_
      rw [← shifted_inj h (h.outside hf).1 hestart, ← hfv.start, hvu, hu.start]
    rw [editedBytes, hu.start, hu.stop, hu.text]
    by_cases hbetween : a ≤ e.start ∧ e.stop ≤ b
    · obtain ⟨hstart, hstop⟩ := hbetween
      have hafter := shifted_le_shifted h ha hstart
      have hbefore := shifted_le_shifted h hestop hstop
      have hbetween : ∀ f ∈ edits, ¬(a ≤ f.start ∧ f.stop ≤ e.start) := by
        intro f hf hff
        obtain ⟨-, hffilled, -⟩ := h.of_mem hf
        obtain ⟨v, hv, hfv⟩ := hall f hf hff.1 (by omega)
        have hle := hlater v (hother f hf v hv hfv (by omega))
        have hlt := shifted_lt_shifted h (h.outside hf).1 (show f.start < e.start by omega)
        rw [hu.start, hfv.start] at hle
        omega
      have hrest := ih hsorted hundo hestop fun f hf hfstart hfstop => by
        obtain ⟨v, hv, hfv⟩ := hall f hf (by omega) hfstop
        exact ⟨v, hother f hf v hv hfv (by omega), hfv⟩
      rw [if_neg (by simp; omega), slice_spliced h ha hestart hbetween, hrest,
        Bytes.slice_append_slice hstart (Nat.le_of_lt hfilled),
        Bytes.slice_append_slice (by omega) hstop]
    · have hskip : shifted edits e.start < shifted edits a ∨
          shifted edits b < shifted edits e.stop := by
        by_cases hstart : e.start < a
        · exact Or.inl (shifted_lt_shifted h hestart hstart)
        · exact Or.inr (shifted_lt_shifted h hb (by omega))
      rw [if_pos (by simpa using hskip)]
      refine ih hsorted hundo ha fun f hf hfstart hfstop => ?_
      obtain ⟨v, hv, hfv⟩ := hall f hf hfstart hfstop
      refine ⟨v, hother f hf v hv hfv fun heq => hbetween ?_, hfv⟩
      obtain ⟨-, hffilled, -⟩ := h.of_mem hf
      have hstop := (h.outside hf).2 e he
      omega

end Script
end Debundle
