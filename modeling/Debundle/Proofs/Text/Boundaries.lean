import Debundle.Text.Utf8
import Mathlib.Data.List.Infix

/-!
# Offsets between code points

A source is cut at byte offsets.  A cut between two code points leaves text on both sides, and the
bytes between two such cuts can be read back; a cut inside a code point cannot.

* `Text.IsScalar`: a text without surrogates.
* `Bytes.decode_bytes`: the bytes of such a text are read back as the text.
* `Text.Boundary`: an offset between two code points of a text.
* `Text.exists_slice`: the bytes between two boundaries are those of a piece of the text.
-/

namespace Debundle

/-! ## Texts without surrogates -/

namespace Text

/-- No code point of a text is a surrogate. -/
def IsScalar (t : Text) : Prop := ∀ c ∈ t, c.isSurrogate = false

instance (t : Text) : Decidable t.IsScalar :=
  inferInstanceAs (Decidable (∀ c ∈ t, c.isSurrogate = false))

variable {t u : Text}

theorem IsScalar.append (ht : t.IsScalar) (hu : u.IsScalar) : (t ++ u).IsScalar :=
  List.forall_mem_append.mpr ⟨ht, hu⟩

theorem IsScalar.of_subset (hu : u.IsScalar) (h : t ⊆ u) : t.IsScalar := fun c hc => hu c (h hc)

theorem surrogateAt?_eq_none_iff : t.surrogateAt? = none ↔ t.IsScalar := List.findIdx?_eq_none_iff

/-- A text has bytes if and only if it has no surrogate. -/
theorem encode_eq_ok (ht : t.IsScalar) : t.encode = .ok t.bytes := by
  rw [encode, surrogateAt?_eq_none_iff.mpr ht]

theorem isScalar_of_encode {bytes : Bytes} (h : t.encode = .ok bytes) :
    t.IsScalar ∧ bytes = t.bytes := by
  unfold encode at h
  split at h
  · cases h
  · rename_i hnone
    exact ⟨surrogateAt?_eq_none_iff.mp hnone, (Except.ok.inj h).symm⟩

theorem isScalar_join {sep : Text} (hsep : sep.IsScalar) {ts : List Text}
    (hts : ∀ t ∈ ts, t.IsScalar) : (join sep ts).IsScalar := by
  induction ts with
  | nil => exact fun c hc => absurd hc (by simp [join])
  | cons t ts ih =>
    have ht : t.IsScalar := hts t List.mem_cons_self
    have hrest := ih fun u hu => hts u (List.mem_cons_of_mem _ hu)
    cases ts with
    | nil => exact ht
    | cons u ts => exact (ht.append hsep).append hrest

/-! ## Sizes -/

@[simp] theorem bytes_nil : bytes [] = [] := rfl

theorem bytes_append (t u : Text) : (t ++ u).bytes = t.bytes ++ u.bytes := List.flatMap_append

theorem bytes_join (sep : Text) (ts : List Text) :
    (join sep ts).bytes = List.intercalate sep.bytes (ts.map bytes) := by
  induction ts with
  | nil => rfl
  | cons t ts ih =>
    cases ts with
    | nil => exact List.intercalate_singleton.symm
    | cons u ts =>
      rw [join, bytes_append, bytes_append, ih]
      exact List.intercalate_cons_cons.symm

theorem utf8Size_append (t u : Text) : (t ++ u).utf8Size = t.utf8Size + u.utf8Size := by
  rw [← length_bytes, bytes_append, List.length_append, length_bytes, length_bytes]

end Text

/-! ## Reading bytes back -/

namespace Bytes

/-- Bytes that belong to a character already read are passed over. -/
theorem decodeFrom_skip (offset : Nat) (tail rest : Bytes) :
    decodeFrom offset tail.length (tail ++ rest) = decodeFrom (offset + tail.length) 0 rest := by
  induction tail generalizing offset with
  | nil => rfl
  | cons b tail ih =>
    rw [List.cons_append, List.length_cons, decodeFrom, ih, Nat.add_assoc, Nat.add_comm 1]

theorem toNat_toUInt8 {n : Nat} (h : n < 0x100) : n.toUInt8.toNat = n := Nat.mod_eq_of_lt h

theorem isTail_of_mod (n : Nat) : isTail (0x80 + n % 0x40) = true := by
  simp only [isTail, Bool.and_eq_true, decide_eq_true_eq]
  omega

/-- Two bytes. -/
theorem decodeOne_two {n : Nat} (hlow : 0x80 ≤ n) (hhigh : n < 0x800) (rest : List Nat) :
    decodeOne (0xC0 + n / 0x40) ((0x80 + n % 0x40) :: rest) = .ok (n, 2) := by
  have hsecond : isSecond (0xC0 + n / 0x40) (0x80 + n % 0x40) = true := by
    simp only [isSecond, isTail_of_mod, Bool.true_and, Bool.and_eq_true, Bool.not_eq_true',
      Bool.and_eq_false_iff, beq_eq_false_iff_ne, decide_eq_false_iff_not]
    omega
  have hstart : (decide (0xC0 + n / 0x40 < 0xC2) || decide (0xF4 < 0xC0 + n / 0x40)) = false := by
    simp only [Bool.or_eq_false_iff, decide_eq_false_iff_not]
    omega
  simp only [decodeOne, hsecond, hstart, Bool.not_true, Bool.false_eq_true, if_false]
  rw [if_neg (by omega), if_pos (by omega)]
  refine congrArg (fun k => Except.ok (k, 2)) ?_
  omega

/-- Three bytes. -/
theorem decodeOne_three {n : Nat} (hlow : 0x800 ≤ n) (hhigh : n < 0x10000)
    (hscalar : n < 0xD800 ∨ 0xDFFF < n) (rest : List Nat) :
    decodeOne (0xE0 + n / 0x1000) ((0x80 + n / 0x40 % 0x40) :: (0x80 + n % 0x40) :: rest) =
      .ok (n, 3) := by
  have hsecond : isSecond (0xE0 + n / 0x1000) (0x80 + n / 0x40 % 0x40) = true := by
    simp only [isSecond, isTail_of_mod, Bool.true_and, Bool.and_eq_true, Bool.not_eq_true',
      Bool.and_eq_false_iff, beq_eq_false_iff_ne, decide_eq_false_iff_not]
    omega
  have hstart :
      (decide (0xE0 + n / 0x1000 < 0xC2) || decide (0xF4 < 0xE0 + n / 0x1000)) = false := by
    simp only [Bool.or_eq_false_iff, decide_eq_false_iff_not]
    omega
  simp only [decodeOne, hsecond, hstart, isTail_of_mod, Bool.not_true, Bool.false_eq_true, if_false]
  rw [if_neg (by omega), if_neg (by omega), if_pos (by omega)]
  refine congrArg (fun k => Except.ok (k, 3)) ?_
  omega

/-- Four bytes. -/
theorem decodeOne_four {n : Nat} (hlow : 0x10000 ≤ n) (hhigh : n < 0x110000) (rest : List Nat) :
    decodeOne (0xF0 + n / 0x40000) ((0x80 + n / 0x1000 % 0x40) :: (0x80 + n / 0x40 % 0x40) ::
      (0x80 + n % 0x40) :: rest) = .ok (n, 4) := by
  have hsecond : isSecond (0xF0 + n / 0x40000) (0x80 + n / 0x1000 % 0x40) = true := by
    simp only [isSecond, isTail_of_mod, Bool.true_and, Bool.and_eq_true, Bool.not_eq_true',
      Bool.and_eq_false_iff, beq_eq_false_iff_ne, decide_eq_false_iff_not]
    omega
  have hstart :
      (decide (0xF0 + n / 0x40000 < 0xC2) || decide (0xF4 < 0xF0 + n / 0x40000)) = false := by
    simp only [Bool.or_eq_false_iff, decide_eq_false_iff_not]
    omega
  simp only [decodeOne, hsecond, hstart, isTail_of_mod, Bool.not_true, Bool.false_eq_true, if_false]
  rw [if_neg (by omega), if_neg (by omega), if_neg (by omega)]
  refine congrArg (fun k => Except.ok (k, 4)) ?_
  omega

/-- The bytes of a code point are read back as its number. -/
theorem decodeOne_utf8 {c : CodePoint} (hc : c.isSurrogate = false) :
    ∃ first tail, c.utf8 = first :: tail ∧
      ∀ rest : Bytes, decodeOne first.toNat (((tail ++ rest).take 3).map UInt8.toNat) =
        .ok (c.val, tail.length + 1) := by
  have hlt := c.isLt
  have hscalar : c.val < 0xD800 ∨ 0xDFFF < c.val := by
    simp only [CodePoint.isSurrogate, Bool.and_eq_false_iff, decide_eq_false_iff_not] at hc
    omega
  by_cases h1 : c.val < 0x80
  · refine ⟨_, [], by rw [CodePoint.utf8, if_pos h1], fun rest => ?_⟩
    rw [toNat_toUInt8 (by omega)]
    exact if_pos h1
  by_cases h2 : c.val < 0x800
  · refine ⟨_, [_], by rw [CodePoint.utf8, if_neg h1, if_pos h2], fun rest => ?_⟩
    simp only [List.cons_append, List.nil_append, List.take_succ_cons, List.map_cons]
    rw [toNat_toUInt8 (by omega), toNat_toUInt8 (by omega)]
    exact decodeOne_two (by omega) h2 _
  by_cases h3 : c.val < 0x10000
  · refine ⟨_, [_, _], by rw [CodePoint.utf8, if_neg h1, if_neg h2, if_pos h3], fun rest => ?_⟩
    simp only [List.cons_append, List.nil_append, List.take_succ_cons, List.map_cons]
    rw [toNat_toUInt8 (by omega), toNat_toUInt8 (by omega), toNat_toUInt8 (by omega)]
    exact decodeOne_three (by omega) h3 hscalar _
  · refine ⟨_, [_, _, _], by rw [CodePoint.utf8, if_neg h1, if_neg h2, if_neg h3], fun rest => ?_⟩
    simp only [List.cons_append, List.nil_append, List.take_succ_cons, List.map_cons]
    rw [toNat_toUInt8 (by omega), toNat_toUInt8 (by omega), toNat_toUInt8 (by omega),
      toNat_toUInt8 (by omega)]
    exact decodeOne_four (by omega) hlt _

theorem decodeFrom_bytes {t : Text} (ht : t.IsScalar) (offset : Nat) :
    decodeFrom offset 0 t.bytes = .ok t := by
  induction t generalizing offset with
  | nil => rfl
  | cons c t ih =>
    obtain ⟨hc, ht⟩ := List.forall_mem_cons.mp ht
    obtain ⟨first, tail, hutf8, hone⟩ := decodeOne_utf8 hc
    have hbytes : Text.bytes (c :: t) = first :: (tail ++ Text.bytes t) := by
      rw [Text.bytes, List.flatMap_cons, hutf8, List.cons_append]
      rfl
    have hnumber : CodePoint.ofNat? c.val = some c := dif_pos c.isLt
    rw [hbytes, decodeFrom, hone]
    simp only [Nat.add_sub_cancel]
    rw [decodeFrom_skip, ih ht, hnumber]
    rfl

/-- The bytes of a text without surrogates are read back as the text. -/
theorem decode_bytes {t : Text} (ht : t.IsScalar) : decode t.bytes = .ok t := decodeFrom_bytes ht 0

end Bytes

/-! ## Boundaries -/

namespace Text

variable {t : Text} {a b : Nat}

/-- An offset between two code points of a text, or at one of its ends. -/
def Boundary (t : Text) (k : Nat) : Prop :=
  ∃ before after, t = before ++ after ∧ k = before.utf8Size

/-- The bytes between two boundaries are those of a piece of the text. -/
theorem exists_slice (ha : t.Boundary a) (hb : t.Boundary b) :
    ∃ u, u ⊆ t ∧ t.bytes.slice a b = u.bytes := by
  obtain ⟨p, p', hp, rfl⟩ := ha
  obtain ⟨q, q', hq, rfl⟩ := hb
  rcases List.prefix_or_prefix_of_prefix (Exists.intro p' hp.symm) ⟨q', hq.symm⟩ with h | h
  · obtain ⟨u, rfl⟩ := h
    refine ⟨u, fun c hc => by rw [hq]; simp [hc], ?_⟩
    rw [hq, bytes_append, bytes_append, Bytes.slice, List.append_assoc, utf8Size_append,
      Nat.add_sub_cancel_left, ← length_bytes p, List.drop_left, ← length_bytes u, List.take_left]
  · obtain ⟨u, rfl⟩ := h
    refine ⟨[], List.nil_subset t, ?_⟩
    rw [Bytes.slice, utf8Size_append, Nat.sub_eq_zero_of_le (Nat.le_add_right _ _), List.take_zero,
      bytes_nil]

end Text
end Debundle
