import Debundle.Proofs.Text.Boundaries

/-!
# What is read

Bytes that can be read are the bytes of what is read, and no other text has them.  So bytes can be
read in two parts exactly when they are cut between two code points, and that is so wherever the
second part does not begin with a byte that continues a character.

* `Bytes.decode_eq_ok_iff`: bytes are read as a text exactly when they are its bytes.
* `Bytes.Boundary`: an offset in bytes that is not inside a character.
* `Text.boundary_of_bytes`: such an offset in the bytes of a text is between two code points.
* `Bytes.decode_append_eq_ok_iff`: bytes that are read in two parts.
-/

namespace Debundle

namespace Bytes

/-! ## One character -/

/-- The characters of one to four bytes that can be read. -/
theorem decodeOne_cases {a n size : Nat} {rest : List Nat}
    (h : decodeOne a rest = .ok (n, size)) :
    (a < 0x80 ∧ n = a ∧ size = 1) ∨
    (∃ b rest', rest = b :: rest' ∧ 0xC2 ≤ a ∧ a < 0xE0 ∧ isSecond a b = true ∧
      n = (a - 0xC0) * 0x40 + (b - 0x80) ∧ size = 2) ∨
    (∃ b c rest', rest = b :: c :: rest' ∧ 0xE0 ≤ a ∧ a < 0xF0 ∧ isSecond a b = true ∧
      isTail c = true ∧ n = (a - 0xE0) * 0x1000 + (b - 0x80) * 0x40 + (c - 0x80) ∧ size = 3) ∨
    (∃ b c d rest', rest = b :: c :: d :: rest' ∧ 0xF0 ≤ a ∧ a ≤ 0xF4 ∧ isSecond a b = true ∧
      isTail c = true ∧ isTail d = true ∧
      n = (a - 0xF0) * 0x40000 + (b - 0x80) * 0x1000 + (c - 0x80) * 0x40 + (d - 0x80) ∧
      size = 4) := by
  unfold decodeOne at h
  split at h
  · rename_i hascii
    cases h
    exact Or.inl ⟨hascii, rfl, rfl⟩
  split at h
  · cases h
  rename_i hrange
  simp only [Bool.or_eq_true, decide_eq_true_eq, not_or, Nat.not_lt] at hrange
  obtain ⟨hlow, hhigh⟩ := hrange
  rcases rest with _ | ⟨b, rest⟩
  · cases h
  simp only at h
  split at h
  · cases h
  rename_i hsecond
  rw [Bool.not_eq_true', Bool.not_eq_false] at hsecond
  split at h
  · rename_i htwo
    obtain ⟨hn, hsize⟩ := Prod.mk.inj (Except.ok.inj h)
    exact Or.inr (Or.inl ⟨b, rest, rfl, hlow, htwo, hsecond, hn.symm, hsize.symm⟩)
  rename_i htwo
  rcases rest with _ | ⟨c, rest⟩
  · cases h
  simp only at h
  split at h
  · cases h
  rename_i hthird
  rw [Bool.not_eq_true', Bool.not_eq_false] at hthird
  split at h
  · rename_i hthree
    obtain ⟨hn, hsize⟩ := Prod.mk.inj (Except.ok.inj h)
    exact Or.inr (Or.inr (Or.inl ⟨b, c, rest, rfl, Nat.le_of_not_lt htwo, hthree, hsecond, hthird,
      hn.symm, hsize.symm⟩))
  rename_i hthree
  rcases rest with _ | ⟨d, rest⟩
  · cases h
  simp only at h
  split at h
  · cases h
  rename_i hfourth
  rw [Bool.not_eq_true', Bool.not_eq_false] at hfourth
  obtain ⟨hn, hsize⟩ := Prod.mk.inj (Except.ok.inj h)
  exact Or.inr (Or.inr (Or.inr ⟨b, c, d, rest, rfl, Nat.le_of_not_lt hthree, hhigh, hsecond,
    hthird, hfourth, hn.symm, hsize.symm⟩))

theorem isTail_iff {b : Nat} : isTail b = true ↔ 0x80 ≤ b ∧ b ≤ 0xBF := by
  simp [isTail]

/-- The second byte rules surrogates out, numbers that are too great and forms that are too long. -/
theorem isSecond_iff {a b : Nat} : isSecond a b = true ↔
    (0x80 ≤ b ∧ b ≤ 0xBF) ∧ (a = 0xE0 → 0xA0 ≤ b) ∧ (a = 0xED → b < 0xA0) ∧
      (a = 0xF0 → 0x90 ≤ b) ∧ (a = 0xF4 → b < 0x90) := by
  simp only [isSecond, isTail, Bool.and_eq_true, Bool.not_eq_true', Bool.and_eq_false_iff,
    beq_eq_false_iff_ne, decide_eq_false_iff_not, decide_eq_true_eq]
  omega

theorem toUInt8_eq {n : Nat} {b : UInt8} (h : n = b.toNat) : n.toUInt8 = b := by
  rw [h]
  exact UInt8.ofNat_toNat

/-- A character is read from its own bytes only. -/
theorem exists_utf8_of_decodeOne {first : UInt8} {rest : Bytes} {n size : Nat}
    (h : decodeOne first.toNat ((rest.take 3).map UInt8.toNat) = .ok (n, size)) :
    ∃ (c : CodePoint) (tail after : Bytes), c.isSurrogate = false ∧ c.val = n ∧
      c.utf8 = first :: tail ∧ rest = tail ++ after ∧ size = tail.length + 1 := by
  have hscalar : ∀ (hn : n < 0x110000), n < 0xD800 ∨ 0xDFFF < n →
      CodePoint.isSurrogate ⟨n, hn⟩ = false := by
    intro hn h
    simp only [CodePoint.isSurrogate, Bool.and_eq_false_iff, decide_eq_false_iff_not]
    omega
  have hfirst := first.toNat_lt
  rcases decodeOne_cases h with ⟨ha, rfl, rfl⟩ | ⟨b, rest', hrest, halow, ha, hb, hn, rfl⟩ |
    ⟨b, c, rest', hrest, halow, ha, hb, hc, hn, rfl⟩ |
    ⟨b, c, d, rest', hrest, halow, ha, hb, hc, hd, hn, rfl⟩
  · refine ⟨⟨first.toNat, by omega⟩, [], rest, hscalar _ (by omega), rfl, ?_, rfl, rfl⟩
    rw [CodePoint.utf8, if_pos ha, toUInt8_eq rfl]
  · rw [isSecond_iff] at hb
    rcases rest with _ | ⟨b', rest⟩
    · cases hrest
    obtain ⟨rfl, -⟩ := List.cons.inj hrest
    refine ⟨⟨n, by omega⟩, [b'], rest, hscalar _ (by omega), rfl, ?_, rfl, rfl⟩
    rw [CodePoint.utf8]
    simp only
    rw [if_neg (by omega), if_pos (by omega), toUInt8_eq (b := first) (by omega),
      toUInt8_eq (b := b') (by omega)]
  · rw [isSecond_iff] at hb
    rw [isTail_iff] at hc
    rcases rest with _ | ⟨b', _ | ⟨c', rest⟩⟩
    · cases hrest
    · cases hrest
    simp only [List.take_succ_cons, List.map_cons, List.cons.injEq] at hrest
    obtain ⟨rfl, rfl, -⟩ := hrest
    refine ⟨⟨n, by omega⟩, [b', c'], rest, hscalar _ (by omega), rfl, ?_, rfl, rfl⟩
    rw [CodePoint.utf8]
    simp only
    rw [if_neg (by omega), if_neg (by omega), if_pos (by omega),
      toUInt8_eq (b := first) (by omega), toUInt8_eq (b := b') (by omega),
      toUInt8_eq (b := c') (by omega)]
  · rw [isSecond_iff] at hb
    rw [isTail_iff] at hc hd
    rcases rest with _ | ⟨b', _ | ⟨c', _ | ⟨d', rest⟩⟩⟩
    · cases hrest
    · cases hrest
    · cases hrest
    simp only [List.take_succ_cons, List.map_cons, List.cons.injEq] at hrest
    obtain ⟨rfl, rfl, rfl, -⟩ := hrest
    refine ⟨⟨n, by omega⟩, [b', c', d'], rest, hscalar _ (by omega), rfl, ?_, rfl, rfl⟩
    rw [CodePoint.utf8]
    simp only
    rw [if_neg (by omega), if_neg (by omega), if_neg (by omega),
      toUInt8_eq (b := first) (by omega), toUInt8_eq (b := b') (by omega),
      toUInt8_eq (b := c') (by omega), toUInt8_eq (b := d') (by omega)]

/-! ## A text -/

theorem bytes_of_decodeFrom {offset : Nat} {bytes : Bytes} {t : Text}
    (h : decodeFrom offset 0 bytes = .ok t) : bytes = t.bytes ∧ t.IsScalar := by
  induction hlength : bytes.length using Nat.strongRecOn generalizing offset bytes t with
  | ind length ih =>
    cases bytes with
    | nil =>
      cases h
      exact ⟨rfl, fun c hc => absurd hc List.not_mem_nil⟩
    | cons first rest =>
      rw [decodeFrom] at h
      split at h
      · cases h
      · rename_i n size hone
        obtain ⟨c, tail, after, hc, rfl, hutf8, rfl, rfl⟩ := exists_utf8_of_decodeOne hone
        have hnumber : CodePoint.ofNat? c.val = some c := dif_pos c.isLt
        rw [Nat.add_sub_cancel, decodeFrom_skip, hnumber] at h
        rw [List.length_cons, List.length_append] at hlength
        cases hafter : decodeFrom (offset + 1 + tail.length) 0 after with
        | error e =>
          rw [hafter] at h
          cases h
        | ok u =>
          rw [hafter] at h
          cases h
          obtain ⟨hbytes, hu⟩ := ih after.length (by omega) hafter rfl
          refine ⟨?_, List.forall_mem_cons.mpr ⟨hc, hu⟩⟩
          show _ = Text.bytes (c :: u)
          rw [Text.bytes, List.flatMap_cons, hutf8, hbytes]
          rfl

/-- Bytes are read as a text exactly when they are the bytes of the text, and it has no
surrogates. -/
theorem decode_eq_ok_iff {bytes : Bytes} {t : Text} :
    bytes.decode = .ok t ↔ bytes = t.bytes ∧ t.IsScalar := by
  refine ⟨bytes_of_decodeFrom, ?_⟩
  rintro ⟨rfl, ht⟩
  exact decode_bytes ht

/-! ## Two parts -/

/-- An offset in bytes is not inside a character: no byte there continues one. -/
def Boundary (bytes : Bytes) (k : Nat) : Prop := ∀ b ∈ bytes[k]?, isTail b.toNat = false

instance (bytes : Bytes) (k : Nat) : Decidable (bytes.Boundary k) :=
  match h : bytes[k]? with
  | none => isTrue fun b hb => by rw [h] at hb; cases hb
  | some b =>
    decidable_of_iff (isTail b.toNat = false)
      ⟨fun hb c hc => by rw [h] at hc; cases hc; exact hb, fun hb => hb b h⟩

/-- A character begins with a byte that continues none, and continues with bytes that do. -/
theorem exists_utf8_eq_cons (c : CodePoint) :
    ∃ first tail, c.utf8 = first :: tail ∧ isTail first.toNat = false ∧
      ∀ b ∈ tail, isTail b.toNat = true := by
  have hlt := c.isLt
  have hhead : ∀ n : Nat, n < 0x100 → n < 0x80 ∨ 0xC0 ≤ n → isTail n.toUInt8.toNat = false := by
    intro n hn h
    rw [toNat_toUInt8 hn, Bool.eq_false_iff, Ne, isTail_iff]
    omega
  have htail : ∀ n : Nat, isTail (0x80 + n % 0x40).toUInt8.toNat = true := by
    intro n
    rw [toNat_toUInt8 (by omega)]
    exact isTail_of_mod n
  unfold CodePoint.utf8
  simp only
  split
  · exact ⟨_, [], rfl, hhead _ (by omega) (by omega), nofun⟩
  · split
    · exact ⟨_, [_], rfl, hhead _ (by omega) (by omega), 
      List.forall_mem_singleton.mpr (htail _)⟩
    · split
      · exact ⟨_, [_, _], rfl, hhead _ (by omega) (by omega),
          List.forall_mem_cons.mpr ⟨htail _, List.forall_mem_singleton.mpr (htail _)⟩⟩
      · exact ⟨_, [_, _, _], rfl, hhead _ (by omega) (by omega),
          List.forall_mem_cons.mpr ⟨htail _,
            List.forall_mem_cons.mpr ⟨htail _, List.forall_mem_singleton.mpr (htail _)⟩⟩⟩

end Bytes

namespace Text

variable {t u : Text} {k : Nat}

theorem Boundary.append_left (h : t.Boundary k) (u : Text) :
    Boundary (u ++ t) (u.utf8Size + k) := by
  obtain ⟨before, after, rfl, rfl⟩ := h
  exact ⟨u ++ before, after, (List.append_assoc _ _ _).symm, (utf8Size_append _ _).symm⟩

/-- An offset in the bytes of a text that is not inside a character is between two code points. -/
theorem boundary_of_bytes (hk : k ≤ t.utf8Size) (h : t.bytes.Boundary k) : t.Boundary k := by
  induction t generalizing k with
  | nil => exact ⟨[], [], rfl, Nat.le_zero.mp hk⟩
  | cons c t ih =>
    obtain ⟨first, tail, hutf8, -, htail⟩ := Bytes.exists_utf8_eq_cons c
    have hbytes : bytes (c :: t) = first :: (tail ++ bytes t) := by
      rw [bytes, List.flatMap_cons, hutf8]
      rfl
    have hsize : utf8Size [c] = tail.length + 1 := by
      rw [← length_bytes, bytes, List.flatMap_cons, List.flatMap_nil, List.append_nil, hutf8]
      rfl
    rw [hbytes] at h
    by_cases hinside : k ≤ tail.length
    · cases k with
      | zero => exact ⟨[], c :: t, rfl, rfl⟩
      | succ k =>
        -- the byte at the offset is one of those that continue the character
        have hbyte : (first :: (tail ++ bytes t))[k + 1]? = some tail[k] := by
          rw [List.getElem?_cons_succ, List.getElem?_append_left hinside,
            List.getElem?_eq_getElem hinside]
        have hnot := h _ hbyte
        rw [htail _ (List.getElem_mem hinside)] at hnot
        cases hnot
    · obtain ⟨j, rfl⟩ : ∃ j, k = tail.length + 1 + j := ⟨k - (tail.length + 1), by omega⟩
      have hrest : (bytes t).Boundary j := by
        intro b hb
        refine h b ?_
        rw [Nat.add_right_comm, List.getElem?_cons_succ, List.getElem?_append_right (by omega),
          Nat.add_sub_cancel_left]
        exact hb
      rw [show c :: t = [c] ++ t from rfl, utf8Size_append, hsize] at hk
      have hboundary := (ih (by omega) hrest).append_left [c]
      rw [hsize] at hboundary
      exact hboundary

end Text

/-- Bytes that are read as a text can be read in two parts exactly if they are cut between two code
points of the text, and the two parts are then those of the text. -/
theorem Bytes.decode_append_eq_ok_iff {xs ys : Bytes} {t : Text} :
    (∃ a b, xs.decode = .ok a ∧ ys.decode = .ok b ∧ t = a ++ b) ↔
      Bytes.decode (xs ++ ys) = .ok t ∧ t.Boundary xs.length := by
  simp only [decode_eq_ok_iff]
  constructor
  · rintro ⟨a, b, ⟨rfl, ha⟩, ⟨rfl, hb⟩, rfl⟩
    exact ⟨⟨(Text.bytes_append a b).symm, ha.append hb⟩, a, b, rfl, Text.length_bytes a⟩
  · rintro ⟨⟨hbytes, ht⟩, a, b, rfl, hlength⟩
    rw [Text.bytes_append, ← Text.length_bytes] at *
    obtain ⟨rfl, rfl⟩ := List.append_inj hbytes hlength
    exact ⟨a, b, ⟨rfl, ht.of_subset (List.subset_append_left a b)⟩,
      ⟨rfl, ht.of_subset (List.subset_append_right a b)⟩, rfl⟩

end Debundle
