import Debundle.Proofs.Script.Source
import Debundle.Proofs.Script.Splicing
import Debundle.Proofs.Text.Decoding

/-!
# Editing a range in parts

A body is edited statement by statement, with the edits of all statements at hand in each of them.
An edit that is not inside a range is passed over there, so it matters how a range is cut: if no
edit stands across the cut, the bytes on both sides of it are edited as they are in the whole
range.  The two sides can be read as texts if neither begins inside of a character, and an edit of
a part of a character may see to it that one does.

* `AreApart`: edits that do not overlap.
* `editedBytes_eq_spliced_take`, `foldr_replaceIn`: edits inside a range are applied one by one.
* `edited_cut`: edits on both sides of a cut.
* `boundary_editedBytes`: which edits leave no part of a character behind.
* `AreApart.applyInParts_iff`: when a range can be edited in two parts.
* `applyEdits_composes`: all of this for texts.
-/

namespace Debundle

namespace Script

/-! ## Edits that are apart -/

/-- Edits do not overlap, and none of them is empty. -/
structure AreApart (edits : List Edit) : Prop where
  filled : ∀ e ∈ edits, e.start < e.stop
  apart : edits.Pairwise fun d e => d.stop ≤ e.start ∨ e.stop ≤ d.start

instance (edits : List Edit) : Decidable (AreApart edits) :=
  decidable_of_iff ((∀ e ∈ edits, e.start < e.stop) ∧
      edits.Pairwise fun d e => d.stop ≤ e.start ∨ e.stop ≤ d.start)
    ⟨fun ⟨hfilled, hapart⟩ => ⟨hfilled, hapart⟩, fun h => ⟨h.filled, h.apart⟩⟩

/-- An edit is inside a range. -/
def Edit.Inside (start stop : Nat) (e : Edit) : Prop := start ≤ e.start ∧ e.stop ≤ stop

instance (start stop : Nat) (e : Edit) : Decidable (e.Inside start stop) :=
  inferInstanceAs (Decidable (_ ∧ _))

/-- A cut is not inside an edit. -/
def IsCut (m : Nat) (edits : List Edit) : Prop := ∀ e ∈ edits, m ≤ e.start ∨ e.stop ≤ m

instance (m : Nat) (edits : List Edit) : Decidable (IsCut m edits) :=
  inferInstanceAs (Decidable (∀ e ∈ edits, _))

/-- A range, which begins at an offset, with one edit applied. -/
def Edit.replaceIn (offset : Nat) (e : Edit) (range : Bytes) : Bytes :=
  range.take (e.start - offset) ++ e.text.bytes ++ range.drop (e.stop - offset)

variable {bytes : Bytes} {start stop cursor m : Nat} {edits : List Edit} {t : Text}

theorem AreApart.filled_mergeSort (h : AreApart edits) :
    ∀ e ∈ edits.mergeSort Edit.le, e.start < e.stop := fun e he =>
  h.filled e (List.mem_mergeSort.mp he)

theorem AreApart.pairwise_mergeSort (h : AreApart edits) :
    (edits.mergeSort Edit.le).Pairwise fun d e => d.stop ≤ e.start :=
  pairwise_mergeSort_of_apart h.filled h.apart

variable {e : Edit}

theorem passed_iff :
    (decide (e.start < cursor) || decide (stop < e.stop)) = true ↔ ¬e.Inside cursor stop := by
  rw [Bool.or_eq_true, decide_eq_true_eq, decide_eq_true_eq, Edit.Inside]
  omega

theorem effectiveEdits_cons : effectiveEdits stop cursor (e :: edits) =
    if e.Inside cursor stop then e :: effectiveEdits stop e.stop edits
    else effectiveEdits stop cursor edits := by
  simp only [effectiveEdits, passed_iff, ite_not]

theorem editedBytes_cons : editedBytes bytes stop cursor (e :: edits) =
    if e.Inside cursor stop then
      bytes.slice cursor e.start ++ e.text.bytes ++ editedBytes bytes stop e.stop edits
    else editedBytes bytes stop cursor edits := by
  simp only [editedBytes, passed_iff, ite_not]

/-! ## Edits inside a range -/

/-- Edits inside a range are all applied. -/
theorem effectiveEdits_eq_self (hordered : edits.Pairwise fun d e => d.stop ≤ e.start)
    (hinside : ∀ e ∈ edits, e.Inside cursor stop) : effectiveEdits stop cursor edits = edits := by
  induction edits generalizing cursor with
  | nil => rfl
  | cons e edits ih =>
    obtain ⟨hbehind, hordered⟩ := List.pairwise_cons.mp hordered
    obtain ⟨he, hinside⟩ := List.forall_mem_cons.mp hinside
    rw [effectiveEdits_cons, if_pos he,
      ih hordered fun d hd => ⟨hbehind d hd, (hinside d hd).2⟩]

/-- Edits inside a range are replaced one behind the other, and what stands between them stays. -/
theorem editedBytes_eq_spliced_take (hfilled : ∀ e ∈ edits, e.start < e.stop)
    (hordered : edits.Pairwise fun d e => d.stop ≤ e.start)
    (hinside : ∀ e ∈ edits, e.Inside cursor stop) :
    editedBytes bytes stop cursor edits = spliced (bytes.take stop) cursor edits := by
  induction edits generalizing cursor with
  | nil => rw [editedBytes, spliced, List.drop_take, Bytes.slice]
  | cons e edits ih =>
    obtain ⟨hlt, hfilled⟩ := List.forall_mem_cons.mp hfilled
    obtain ⟨hbehind, hordered⟩ := List.pairwise_cons.mp hordered
    obtain ⟨he, hinside⟩ := List.forall_mem_cons.mp hinside
    have hstop : e.stop ≤ stop := he.2
    have hslice : Bytes.slice (bytes.take stop) cursor e.start = bytes.slice cursor e.start := by
      rw [Bytes.slice, Bytes.slice, List.drop_take, List.take_take, Nat.min_eq_left (by omega)]
    rw [editedBytes_cons, if_pos he, spliced, hslice,
      ih hfilled hordered fun d hd => ⟨hbehind d hd, (hinside d hd).2⟩]

/-- Applied from right to left, the edits behind `cursor` leave alone what is in front of it. -/
theorem foldr_replaceIn_from (hstart : start ≤ cursor) (hcursor : cursor ≤ stop)
    (hfilled : ∀ e ∈ edits, e.start < e.stop)
    (hordered : edits.Pairwise fun d e => d.stop ≤ e.start)
    (hinside : ∀ e ∈ edits, e.Inside cursor stop) (hbytes : ∀ e ∈ edits, e.stop ≤ bytes.length) :
    edits.foldr (Edit.replaceIn start) (bytes.slice start stop) =
      bytes.slice start cursor ++ editedBytes bytes stop cursor edits := by
  induction edits generalizing cursor with
  | nil => exact (Bytes.slice_append_slice hstart hcursor).symm
  | cons e edits ih =>
    obtain ⟨hlt, hfilled⟩ := List.forall_mem_cons.mp hfilled
    obtain ⟨hbehind, hordered⟩ := List.pairwise_cons.mp hordered
    obtain ⟨he, hinside⟩ := List.forall_mem_cons.mp hinside
    obtain ⟨hlength, hbytes⟩ := List.forall_mem_cons.mp hbytes
    have hlow : cursor ≤ e.start := he.1
    have hhigh : e.stop ≤ stop := he.2
    have hfront : (bytes.slice start e.stop).length = e.stop - start := Bytes.length_slice hlength
    have hjoin : bytes.slice start cursor ++ bytes.slice cursor e.start =
        bytes.slice start e.start :=
      Bytes.slice_append_slice hstart hlow
    have htake : (bytes.slice start e.stop).take (e.start - start) = bytes.slice start e.start := by
      rw [Bytes.slice, Bytes.slice, List.take_take, Nat.min_eq_left (by omega)]
    rw [List.foldr_cons, ih (show start ≤ e.stop by omega) hhigh hfilled hordered
        fun d hd => ⟨hbehind d hd, (hinside d hd).2⟩, Edit.replaceIn,
      List.take_append_of_le_length (by omega), htake, ← hfront, List.drop_left, editedBytes_cons,
      if_pos he, ← hjoin]
    simp only [List.append_assoc]
    exact hbytes

/-- Applying edits inside a range one by one, from right to left. -/
theorem foldr_replaceIn (hrange : start ≤ stop) (hfilled : ∀ e ∈ edits, e.start < e.stop)
    (hordered : edits.Pairwise fun d e => d.stop ≤ e.start)
    (hinside : ∀ e ∈ edits, e.Inside start stop) (hbytes : ∀ e ∈ edits, e.stop ≤ bytes.length) :
    edits.foldr (Edit.replaceIn start) (bytes.slice start stop) =
      editedBytes bytes stop start edits := by
  rw [foldr_replaceIn_from (Nat.le_refl _) hrange hfilled hordered hinside hbytes,
    Bytes.slice_eq_nil (Nat.le_refl _), List.nil_append]

/-! ## Cuts -/

/-- Edits that end behind a range leave it as it is. -/
theorem edited_of_behind (bytes : Bytes) (cursor : Nat) (h : ∀ e ∈ edits, m < e.stop) :
    effectiveEdits m cursor edits = [] ∧
      editedBytes bytes m cursor edits = bytes.slice cursor m := by
  induction edits with
  | nil => exact ⟨rfl, rfl⟩
  | cons e edits ih =>
    obtain ⟨he, h⟩ := List.forall_mem_cons.mp h
    have hpassed : ¬e.Inside cursor m := fun hinside => Nat.not_lt.mpr hinside.2 he
    rw [effectiveEdits_cons, if_neg hpassed, editedBytes_cons, if_neg hpassed]
    exact ih h

/-- If no edit stands across a cut, those that are applied in front of it and behind it are those
that are applied, and they do the same. -/
theorem edited_cut (hcursor : cursor ≤ m) (hstop : m ≤ stop)
    (hfilled : ∀ e ∈ edits, e.start < e.stop)
    (hordered : edits.Pairwise fun d e => d.stop ≤ e.start) (hcut : IsCut m edits) :
    effectiveEdits stop cursor edits =
        effectiveEdits m cursor edits ++ effectiveEdits stop m edits ∧
      editedBytes bytes stop cursor edits =
        editedBytes bytes m cursor edits ++ editedBytes bytes stop m edits := by
  induction edits generalizing cursor with
  | nil => exact ⟨rfl, (Bytes.slice_append_slice hcursor hstop).symm⟩
  | cons e edits ih =>
    obtain ⟨hlt, hfilled⟩ := List.forall_mem_cons.mp hfilled
    obtain ⟨hbehind, hordered⟩ := List.pairwise_cons.mp hordered
    obtain ⟨he, hcut⟩ := List.forall_mem_cons.mp hcut
    simp only [effectiveEdits_cons, editedBytes_cons]
    by_cases hinside : e.Inside cursor stop
    · have hlow : cursor ≤ e.start := hinside.1
      have hhigh : e.stop ≤ stop := hinside.2
      rw [if_pos hinside, if_pos hinside]
      rcases he with hright | hleft
      · -- this edit and all later ones are behind the cut
        have hbehind' : ∀ d ∈ edits, m < d.stop := by
          intro d hd
          have hd' := hbehind d hd
          have hlt' := hfilled d hd
          omega
        obtain ⟨hnone, hfront⟩ := edited_of_behind bytes cursor hbehind'
        have hjoin : bytes.slice cursor m ++ bytes.slice m e.start = bytes.slice cursor e.start :=
          Bytes.slice_append_slice hcursor hright
        have hpassed : ¬e.Inside cursor m := fun h => by
          have hend := h.2
          omega
        have happlied : e.Inside m stop := ⟨hright, hhigh⟩
        rw [if_neg hpassed, if_neg hpassed, if_pos happlied, if_pos happlied, hnone, hfront,
          ← hjoin]
        exact ⟨rfl, by simp only [List.append_assoc]⟩
      · obtain ⟨heffective, hedited⟩ := ih hleft hfilled hordered hcut
        have hpassed : ¬e.Inside m stop := fun h => by
          have hbegin := h.1
          omega
        have happlied : e.Inside cursor m := ⟨hlow, hleft⟩
        rw [if_pos happlied, if_pos happlied, if_neg hpassed, if_neg hpassed, heffective, hedited]
        exact ⟨rfl, by simp only [List.append_assoc]⟩
    · have hfront : ¬e.Inside cursor m := fun h => hinside ⟨h.1, Nat.le_trans h.2 hstop⟩
      have hback : ¬e.Inside m stop := fun h => hinside ⟨Nat.le_trans hcursor h.1, h.2⟩
      rw [if_neg hinside, if_neg hinside, if_neg hfront, if_neg hfront, if_neg hback, if_neg hback]
      exact ih hcursor hfilled hordered hcut

/-! ## Characters -/

theorem getElem?_of_mem_head?_slice {a b : Nat} {x : UInt8} (h : x ∈ (bytes.slice a b).head?) :
    x ∈ bytes[a]? := by
  rw [Bytes.slice, List.head?_take] at h
  split at h
  · cases h
  · rwa [List.head?_drop] at h

/-- No text begins inside a character. -/
theorem isTail_head?_bytes (t : Text) : ∀ b ∈ t.bytes.head?, Bytes.isTail b.toNat = false := by
  intro b hb
  cases t with
  | nil => cases hb
  | cons c t =>
    obtain ⟨first, tail, hutf8, hfirst, -⟩ := Bytes.exists_utf8_eq_cons c
    rw [Text.bytes, List.flatMap_cons, hutf8] at hb
    cases hb
    exact hfirst

/-- If the edited bytes begin at a boundary and so does what stands behind each edit, they do not
begin inside a character. -/
theorem boundary_editedBytes (hcursor : bytes.Boundary cursor)
    (hedits : ∀ e ∈ edits, e.Inside cursor stop → bytes.Boundary e.stop)
    (hfilled : ∀ e ∈ edits, e.start < e.stop) :
    ∀ b ∈ (editedBytes bytes stop cursor edits).head?, Bytes.isTail b.toNat = false := by
  induction edits generalizing cursor with
  | nil => exact fun b hb => hcursor b (getElem?_of_mem_head?_slice hb)
  | cons e edits ih =>
    obtain ⟨he, hedits⟩ := List.forall_mem_cons.mp hedits
    obtain ⟨hlt, hfilled⟩ := List.forall_mem_cons.mp hfilled
    rw [editedBytes_cons]
    by_cases hinside : e.Inside cursor stop
    · have hlow : cursor ≤ e.start := hinside.1
      have hrest := ih (he hinside) (fun d hd h => hedits d hd ⟨by have hd := h.1; omega, h.2⟩)
        hfilled
      intro b hb
      rw [if_pos hinside, List.head?_append, List.head?_append, Option.mem_def,
        Option.or_eq_some_iff, Option.or_eq_some_iff] at hb
      rcases hb with (hb | ⟨-, hb⟩) | ⟨-, hb⟩
      · exact hcursor b (getElem?_of_mem_head?_slice hb)
      · exact isTail_head?_bytes e.text b hb
      · exact hrest b hb
    · rw [if_neg hinside]
      exact ih hcursor hedits hfilled

/-! ## Texts -/

/-- Edits that are listed in order are applied as they are listed. -/
theorem applyEdits_of_sorted (hsorted : edits.Pairwise fun d e => d.le e = true) :
    applyEdits bytes start stop edits =
      if ∀ e ∈ effectiveEdits stop start edits, e.text.IsScalar then
        (editedBytes bytes stop start edits).decode.mapError fun _ => .undecodable
      else .error .unencodable := by
  rw [applyEdits_eq_ite, editedRange, List.mergeSort_of_pairwise hsorted]

theorem applyEdits_eq_ok_iff : applyEdits bytes start stop edits = .ok t ↔
    (∀ e ∈ effectiveEdits stop start (edits.mergeSort Edit.le), e.text.IsScalar) ∧
      (editedRange bytes start stop edits).decode = .ok t := by
  rw [applyEdits_eq_ite]
  by_cases hscalar : ∀ e ∈ effectiveEdits stop start (edits.mergeSort Edit.le), e.text.IsScalar
  · rw [if_pos hscalar, and_iff_right hscalar]
    cases (editedRange bytes start stop edits).decode <;> simp [Except.mapError]
  · rw [if_neg hscalar]
    exact ⟨nofun, fun h => absurd h.1 hscalar⟩

theorem applyEdits_eq_unencodable_iff : applyEdits bytes start stop edits = .error .unencodable ↔
    ¬∀ e ∈ effectiveEdits stop start (edits.mergeSort Edit.le), e.text.IsScalar := by
  rw [applyEdits_eq_ite]
  by_cases hscalar : ∀ e ∈ effectiveEdits stop start (edits.mergeSort Edit.le), e.text.IsScalar
  · rw [if_pos hscalar]
    refine ⟨fun h => ?_, fun h => absurd hscalar h⟩
    cases hdecode : (editedRange bytes start stop edits).decode <;>
      simp [hdecode, Except.mapError] at h
  · rw [if_neg hscalar]
    exact ⟨fun _ => hscalar, fun _ => rfl⟩

/-- The edits of a range are those of its two parts. -/
theorem AreApart.editedRange_cut (h : AreApart edits) (bytes : Bytes) (hstart : start ≤ m)
    (hstop : m ≤ stop) (hcut : IsCut m edits) :
    effectiveEdits stop start (edits.mergeSort Edit.le) =
        effectiveEdits m start (edits.mergeSort Edit.le) ++
          effectiveEdits stop m (edits.mergeSort Edit.le) ∧
      editedRange bytes start stop edits =
        editedRange bytes start m edits ++ editedRange bytes m stop edits :=
  edited_cut hstart hstop h.filled_mergeSort h.pairwise_mergeSort fun e he =>
    hcut e (List.mem_mergeSort.mp he)

/-- The text of a range that is edited in two parts. -/
def applyInParts (bytes : Bytes) (start m stop : Nat) (edits : List Edit) :
    Except EditError Text := do
  let front ← applyEdits bytes start m edits
  let back ← applyEdits bytes m stop edits
  return front ++ back

theorem applyInParts_eq_ok_iff : applyInParts bytes start m stop edits = .ok t ↔
    ∃ a b, applyEdits bytes start m edits = .ok a ∧ applyEdits bytes m stop edits = .ok b ∧
      t = a ++ b := by
  unfold applyInParts
  rcases applyEdits bytes start m edits with e | a
  · exact ⟨nofun, nofun⟩
  · rcases applyEdits bytes m stop edits with e | b
    · exact ⟨nofun, nofun⟩
    · refine ⟨fun h => ⟨a, b, rfl, rfl, (Except.ok.inj h).symm⟩, ?_⟩
      rintro ⟨_, _, ha, hb, rfl⟩
      cases ha
      cases hb
      rfl

/-- A range can be edited in two parts exactly if it can be edited and the place of the cut comes
to lie between two code points. -/
theorem AreApart.applyInParts_iff (h : AreApart edits) (hstart : start ≤ m) (hstop : m ≤ stop)
    (hcut : IsCut m edits) : applyInParts bytes start m stop edits = .ok t ↔
      applyEdits bytes start stop edits = .ok t ∧
        t.Boundary (editedRange bytes start m edits).length := by
  obtain ⟨heffective, hedited⟩ := h.editedRange_cut bytes hstart hstop hcut
  simp only [applyInParts_eq_ok_iff, applyEdits_eq_ok_iff]
  rw [heffective, hedited, List.forall_mem_append, and_assoc, ← Bytes.decode_append_eq_ok_iff]
  constructor
  · rintro ⟨a, b, ⟨hscalar, ha⟩, ⟨hscalar', hb⟩, rfl⟩
    exact ⟨⟨hscalar, hscalar'⟩, a, b, ha, hb, rfl⟩
  · rintro ⟨⟨hscalar, hscalar'⟩, a, b, ha, hb, rfl⟩
    exact ⟨a, b, ⟨hscalar, ha⟩, ⟨hscalar', hb⟩, rfl⟩

/-- A range has a text that has no bytes exactly if one of its parts has. -/
theorem AreApart.unencodable_iff (h : AreApart edits) (hstart : start ≤ m) (hstop : m ≤ stop)
    (hcut : IsCut m edits) : applyEdits bytes start stop edits = .error .unencodable ↔
      applyEdits bytes start m edits = .error .unencodable ∨
        applyEdits bytes m stop edits = .error .unencodable := by
  obtain ⟨heffective, -⟩ := h.editedRange_cut bytes hstart hstop hcut
  rw [applyEdits_eq_unencodable_iff, applyEdits_eq_unencodable_iff, applyEdits_eq_unencodable_iff,
    heffective, List.forall_mem_append, not_and_or]

/-- The place of a cut comes to lie between two code points if the cut and the edits behind it end
between characters. -/
theorem AreApart.boundary_of_cut (h : AreApart edits) (hstart : start ≤ m) (hstop : m ≤ stop)
    (hcut : IsCut m edits) (hm : bytes.Boundary m)
    (hedits : ∀ e ∈ edits, e.Inside m stop → bytes.Boundary e.stop)
    (hwhole : applyEdits bytes start stop edits = .ok t) :
    t.Boundary (editedRange bytes start m edits).length := by
  obtain ⟨-, hedited⟩ := h.editedRange_cut bytes hstart hstop hcut
  obtain ⟨hbytes, -⟩ := Bytes.decode_eq_ok_iff.mp (applyEdits_eq_ok_iff.mp hwhole).2
  rw [hedited] at hbytes
  refine Text.boundary_of_bytes ?_ ?_
  · rw [← Text.length_bytes, ← hbytes, List.length_append]
    exact Nat.le_add_right _ _
  · rw [← hbytes]
    intro b hb
    rw [List.getElem?_append_right (Nat.le_refl _), Nat.sub_self, ← List.head?_eq_getElem?] at hb
    exact boundary_editedBytes hm (fun e he => hedits e (List.mem_mergeSort.mp he))
      h.filled_mergeSort b hb

/-- It does not matter in which order edits are listed.  If all of them are inside a range, each is
replaced there and what stands between them stays, as if they were applied one by one from right to
left.  If no edit stands across a cut, a range is edited like its two parts: their bytes are those
of the whole, and they can be read if the place of the cut comes to lie between two code points.
That is so if the cut and the edits behind it end between characters. -/
theorem applyEdits_composes (bytes : Bytes) (hrange : start ≤ stop) (h : AreApart edits) :
    (∀ listed : List Edit, listed.Perm edits →
      applyEdits bytes start stop listed = applyEdits bytes start stop edits) ∧
    ((∀ e ∈ edits, e.Inside start stop) →
      ∃ ordered : List Edit, ordered.Perm edits ∧
        ordered.Pairwise (fun d e => d.stop ≤ e.start) ∧
        applyEdits bytes start stop edits =
          (if ∀ e ∈ edits, e.text.IsScalar then
            (spliced (bytes.take stop) start ordered).decode.mapError fun _ => .undecodable
          else .error .unencodable) ∧
        ((∀ e ∈ edits, e.stop ≤ bytes.length) →
          spliced (bytes.take stop) start ordered =
            ordered.foldr (Edit.replaceIn start) (bytes.slice start stop))) ∧
    ∀ m, start ≤ m → m ≤ stop → IsCut m edits →
      editedRange bytes start stop edits =
        editedRange bytes start m edits ++ editedRange bytes m stop edits ∧
      (applyEdits bytes start stop edits = .error .unencodable ↔
        applyEdits bytes start m edits = .error .unencodable ∨
          applyEdits bytes m stop edits = .error .unencodable) ∧
      (∀ t : Text, applyInParts bytes start m stop edits = .ok t ↔
        applyEdits bytes start stop edits = .ok t ∧
          t.Boundary (editedRange bytes start m edits).length) ∧
      (bytes.Boundary m → (∀ e ∈ edits, e.Inside m stop → bytes.Boundary e.stop) →
        (applyInParts bytes start m stop edits).toOption =
          (applyEdits bytes start stop edits).toOption) := by
  refine ⟨fun listed hlisted => ?_, fun hinside => ?_, fun m hstart hstop hcut =>
    ⟨(h.editedRange_cut bytes hstart hstop hcut).2, h.unencodable_iff hstart hstop hcut,
      fun t => h.applyInParts_iff hstart hstop hcut, fun hm hedits => ?_⟩⟩
  · rw [applyEdits, applyEdits, mergeSort_eq_of_perm hlisted]
  · have hperm := List.mergeSort_perm edits Edit.le
    have hinside' : ∀ e ∈ edits.mergeSort Edit.le, e.Inside start stop := fun e he =>
      hinside e (hperm.mem_iff.mp he)
    have hspliced : editedBytes bytes stop start (edits.mergeSort Edit.le) =
        spliced (bytes.take stop) start (edits.mergeSort Edit.le) :=
      editedBytes_eq_spliced_take h.filled_mergeSort h.pairwise_mergeSort hinside'
    refine ⟨_, hperm, h.pairwise_mergeSort, ?_, fun hbytes => ?_⟩
    · rw [applyEdits_eq_ite, effectiveEdits_eq_self h.pairwise_mergeSort hinside', editedRange,
        hspliced]
      simp only [hperm.mem_iff]
    · rw [← hspliced, foldr_replaceIn hrange h.filled_mergeSort h.pairwise_mergeSort hinside'
        fun e he => hbytes e (hperm.mem_iff.mp he)]
  · refine Option.ext fun t => ?_
    rw [toOption_eq_some_iff, toOption_eq_some_iff, h.applyInParts_iff hstart hstop hcut]
    exact and_iff_left_of_imp (h.boundary_of_cut hstart hstop hcut hm hedits)

/-- A source of two statements, the second of which begins with a character of two bytes. -/
def twoCalls : Bytes := Text.bytes "e(1);\u00e9(e)"

/-- The edits of both statements, in no order. -/
def twoCallEdits : List Edit := [⟨8, 9, "x"⟩, ⟨0, 1, "require"⟩]

/-- The two statements, edited one after the other, are the source, edited. -/
theorem twoCalls_composes : AreApart twoCallEdits ∧ IsCut 5 twoCallEdits ∧
    applyEdits twoCalls 0 10 twoCallEdits.reverse = applyEdits twoCalls 0 10 twoCallEdits ∧
    applyInParts twoCalls 0 5 10 twoCallEdits = .ok "require(1);\u00e9(x)" := by
  have hapart : AreApart twoCallEdits := by decide
  have hcut : IsCut 5 twoCallEdits := by decide
  obtain ⟨hlisted, -, hparts⟩ := applyEdits_composes twoCalls (show 0 ≤ 10 by decide) hapart
  obtain ⟨-, -, -, hparts⟩ := hparts 5 (by decide) (by decide) hcut
  refine ⟨hapart, hcut, hlisted _ (List.reverse_perm _), toOption_eq_some_iff.mp ?_⟩
  rw [hparts (by decide) (by decide), ← hlisted _ (List.reverse_perm _),
    applyEdits_of_sorted (by decide)]
  decide

/-- Two characters of two bytes each. -/
def twoCharacters : Bytes := Text.bytes "\u00e9\u00e9"

/-- The edits that take away the second byte of the first character and the first byte of the second
one. -/
def innerEdits : List Edit := [⟨1, 2, ""⟩, ⟨2, 3, ""⟩]

/-- What is left of the two characters is one character, which cannot be read in two parts, although
the cut is between the two and in no edit.  And edits that end behind the bytes do not give the same
when they are applied from right to left. -/
theorem twoCharacters_not_composes :
    (AreApart innerEdits ∧ twoCharacters.Boundary 2 ∧ IsCut 2 innerEdits ∧
      applyEdits twoCharacters 0 4 innerEdits = .ok "\u00e9" ∧
      (applyInParts twoCharacters 0 2 4 innerEdits).toOption = none ∧
      ¬∀ (bytes : Bytes) (start m stop : Nat) (edits : List Edit), AreApart edits →
        start ≤ m → m ≤ stop → bytes.Boundary m → IsCut m edits →
        (applyInParts bytes start m stop edits).toOption =
          (applyEdits bytes start stop edits).toOption) ∧
    applyEdits (Text.bytes "abc") 0 20 [⟨5, 6, "x"⟩, ⟨8, 9, "y"⟩] = .ok "abcxy" ∧
    [⟨5, 6, "x"⟩, ⟨8, 9, "y"⟩].foldr (Edit.replaceIn 0) ((Text.bytes "abc").slice 0 20) =
      Text.bytes "abcyx" := by
  have hapart : AreApart innerEdits := by decide
  have hboundary : twoCharacters.Boundary 2 := by decide
  have hcut : IsCut 2 innerEdits := by decide
  have hwhole : applyEdits twoCharacters 0 4 innerEdits = .ok "\u00e9" := by
    rw [applyEdits_of_sorted (by decide)]
    decide +kernel
  have hfront : applyEdits twoCharacters 0 2 innerEdits = .error .undecodable := by
    rw [applyEdits_of_sorted (by decide)]
    decide
  have hparts : (applyInParts twoCharacters 0 2 4 innerEdits).toOption = none := by
    rw [applyInParts, hfront]
    rfl
  have hpast : applyEdits (Text.bytes "abc") 0 20 [⟨5, 6, "x"⟩, ⟨8, 9, "y"⟩] = .ok "abcxy" := by
    rw [applyEdits_of_sorted (by decide)]
    decide
  refine ⟨⟨hapart, hboundary, hcut, hwhole, hparts, fun h => ?_⟩, hpast, by decide⟩
  have heq := h twoCharacters 0 2 4 innerEdits hapart (by decide) (by decide) hboundary hcut
  rw [hparts, hwhole] at heq
  cases heq

end Script
end Debundle
