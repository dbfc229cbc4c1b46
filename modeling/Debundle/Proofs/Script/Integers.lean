import Debundle.Proofs.Script.Descent
import Debundle.Script.Literal
import Mathlib.Data.List.Induction
import Mathlib.Data.Nat.Digits.Defs

/-!
# Integers as ids

A module table may write the number of a module in one way and ask for the module in another one:
in decimal, or in another base behind a mark, with separators between digits, and with the suffix of
a BigInt.  The text of a number is its decimal numeral, however it is written, with one exception:
the suffix is cut off and the rest is taken as it is, so a BigInt behind a mark keeps its mark.

* `IntegerLiteral`: an integer as a script can write it, with its value.
* `IntegerLiteral.readInteger?_decimal`, `IntegerLiteral.readInteger?_marked`: the value is what is
  read.
* `IntegerLiteral.ofNat_value`: digits without a zero in front are the decimal numeral.
* `IntegerLiteral.numberText_marked`, `IntegerLiteral.numberText_unmarked`: the text of an integer.
* `numberText_iff`: when the text is the decimal numeral, and when two integers are one id.
-/

namespace Debundle

/-! ## Digits -/

namespace CodePoint

/-- Whether the code point is a digit of a base, of at most 16. -/
def isDigitOf (base : Nat) (c : CodePoint) : Bool := c.hexValue?.any (· < base)

/-- The value of a digit. -/
def digitValue (c : CodePoint) : Nat := c.hexValue?.getD 0

variable {c : CodePoint} {base : Nat}

theorem digitValue_lt (h : c.isDigitOf base = true) : c.digitValue < base := by
  unfold isDigitOf at h
  unfold digitValue
  cases hc : c.hexValue? with
  | none => simp [hc] at h
  | some d => simpa [hc] using h

/-- The digits of a base are those that its reader takes. -/
theorem isHexDigit_of_isDigitOf (h : c.isDigitOf base = true) : c.isHexDigit = true := by
  unfold isDigitOf at h
  unfold isHexDigit
  cases hc : c.hexValue? <;> simp_all

theorem val_of_isDigitOf (hbase : base ≤ 10) (h : c.isDigitOf base = true) :
    c.val = 0x30 + c.digitValue ∧ c.digitValue < base := by
  refine ⟨?_, digitValue_lt h⟩
  have hlt := digitValue_lt h
  unfold isDigitOf at h
  unfold digitValue at hlt ⊢
  unfold hexValue? at h hlt ⊢
  simp only [Bool.and_eq_true, decide_eq_true_eq] at h hlt ⊢
  split
  · simp only [Option.getD_some]
    omega
  · rename_i hdecimal
    rw [if_neg hdecimal] at h hlt
    split at hlt
    · simp only [Option.getD_some] at hlt
      omega
    · split at hlt
      · simp only [Option.getD_some] at hlt
        omega
      · rename_i hupper hlower
        simp [hupper, hlower] at h

/-- Neither a separator nor the suffix of a BigInt is a digit. -/
theorem is_eq_false_of_isDigitOf (h : c.isDigitOf base = true) :
    c.is '_' = false ∧ c.is 'n' = false := by
  have hnone : ∀ n : Nat, n = 0x5F ∨ n = 0x6E → c.val ≠ n := by
    rintro n hn rfl
    unfold isDigitOf hexValue? at h
    rcases hn with hn | hn <;> simp [hn] at h
  exact ⟨beq_eq_false_iff_ne.mpr (hnone _ (Or.inl rfl)),
    beq_eq_false_iff_ne.mpr (hnone _ (Or.inr rfl))⟩

theorem isDigit_of_isDigitOf (h : c.isDigitOf 10 = true) : c.isDigit = true := by
  obtain ⟨hval, hlt⟩ := val_of_isDigitOf (Nat.le_refl _) h
  simp only [isDigit, Bool.and_eq_true, decide_eq_true_eq]
  omega

theorem isOctalDigit_of_isDigitOf (h : c.isDigitOf 8 = true) : c.isOctalDigit = true := by
  obtain ⟨hval, hlt⟩ := val_of_isDigitOf (by decide) h
  simp only [isOctalDigit, Bool.and_eq_true, decide_eq_true_eq]
  omega

theorem isBinaryDigit_of_isDigitOf (h : c.isDigitOf 2 = true) : c.isBinaryDigit = true := by
  obtain ⟨hval, hlt⟩ := val_of_isDigitOf (by decide) h
  simp only [isBinaryDigit, Bool.or_eq_true, beq_iff_eq]
  omega

/-- A decimal digit is the numeral of its value. -/
theorem ofChar_digitChar (h : c.isDigitOf 10 = true) : ofChar c.digitValue.digitChar = c := by
  obtain ⟨hval, hlt⟩ := val_of_isDigitOf (Nat.le_refl _) h
  have hdigits : ∀ d < 10, (ofChar d.digitChar).val = 0x30 + d := by decide
  have heq : (ofChar c.digitValue.digitChar).val = c.val := by rw [hdigits _ hlt, hval]
  cases c
  cases hofChar : ofChar _
  rw [hofChar] at heq
  congr

theorem isDigit_ofChar {d : Char} (h : d.isDigit = true) : (ofChar d).isDigit = true := h

end CodePoint

namespace Script

/-! ## Integers in a script -/

/-- How an integer is written: in decimal, or in another base behind a mark, the letter of which may
be a capital. -/
inductive Radix where
  | decimal
  | hexadecimal (capital : Bool)
  | octal (capital : Bool)
  | binary (capital : Bool)
deriving DecidableEq, Repr

namespace Radix

/-- The base. -/
def base : Radix → Nat
  | .decimal => 10
  | .hexadecimal _ => 16
  | .octal _ => 8
  | .binary _ => 2

/-- The mark in front of the digits. -/
def mark : Radix → Text
  | .decimal => []
  | .hexadecimal capital => if capital then "0X" else "0x"
  | .octal capital => if capital then "0O" else "0o"
  | .binary capital => if capital then "0B" else "0b"

end Radix

/-- An integer as a script can write it: digits of a base in groups with separators between them,
behind the mark of the base, and perhaps with the suffix of a BigInt.  In decimal a zero in front
stands alone. -/
structure IntegerLiteral where
  /-- The base with its mark. -/
  radix : Radix
  /-- The groups of digits. -/
  groups : List Text
  /-- Whether the suffix of a BigInt is there. -/
  isBig : Bool
  group_ne_nil : ∀ g ∈ groups, g ≠ []
  isDigitOf : ∀ c ∈ groups.flatten, c.isDigitOf radix.base = true
  digits_ne_nil : groups.flatten ≠ []
  leadingZero : radix = .decimal → groups.flatten.head? = some (CodePoint.ofChar '0') →
    groups.flatten = [CodePoint.ofChar '0']

namespace IntegerLiteral

/-- The digits without the separators. -/
def digits (l : IntegerLiteral) : Text := l.groups.flatten

/-- The literal as a script has it. -/
def spelling (l : IntegerLiteral) : Text :=
  l.radix.mark ++ Text.join "_" l.groups ++ if l.isBig then "n" else ""

/-- The integer that the digits denote in their base. -/
def value (l : IntegerLiteral) : Nat :=
  Nat.ofDigits l.radix.base (l.digits.map CodePoint.digitValue).reverse

/-- A BigInt behind a mark. -/
def IsMarkedBig (l : IntegerLiteral) : Prop := l.isBig = true ∧ l.radix ≠ .decimal

instance (l : IntegerLiteral) : Decidable l.IsMarkedBig := inferInstanceAs (Decidable (_ ∧ _))

variable (l : IntegerLiteral)

/-! ## What is read -/

/-- The last digit of a number counts for itself. -/
theorem readNat_eq (base : Nat) (t : Text) :
    Text.readNat base t = Nat.ofDigits base (t.map CodePoint.digitValue).reverse := by
  induction t using List.reverseRecOn with
  | nil => rfl
  | append_singleton t c ih =>
    rw [Text.readNat, Text.readDigits] at ih ⊢
    rw [List.map_append, List.foldl_append, ih, List.map_append, List.reverse_append]
    simp [Nat.ofDigits_cons, CodePoint.digitValue, Nat.mul_comm, Nat.add_comm]

theorem value_eq : l.value = Text.readNat l.radix.base l.digits := (readNat_eq _ _).symm

/-- Without the separators the digits are left. -/
theorem filter_join {groups : List Text} (h : ∀ c ∈ groups.flatten, c.is '_' = false) :
    (Text.join "_" groups).filter (fun c => !c.is '_') = groups.flatten := by
  induction groups with
  | nil => rfl
  | cons g gs ih =>
    rw [List.flatten_cons, List.forall_mem_append] at h
    have hg : g.filter (fun c => !c.is '_') = g :=
      List.filter_eq_self.mpr fun c hc => by rw [h.1 c hc]; rfl
    cases gs with
    | nil => rw [Text.join, hg, List.flatten_cons, List.flatten_nil, List.append_nil]
    | cons g' gs =>
      rw [Text.join, List.filter_append, List.filter_append, hg, ih h.2, List.flatten_cons]
      exact congrArg (· ++ _) (List.append_nil g)

/-- What is left of the literal without the separators. -/
theorem filter_spelling : l.spelling.filter (fun c => !c.is '_') =
    l.radix.mark ++ l.digits ++ if l.isBig then "n" else "" := by
  have hdigits := filter_join fun c hc => (CodePoint.is_eq_false_of_isDigitOf (l.isDigitOf c hc)).1
  have hmark : l.radix.mark.filter (fun c => !c.is '_') = l.radix.mark := by
    cases l.radix with
    | decimal => rfl
    | hexadecimal capital | octal capital | binary capital => cases capital <;> rfl
  rw [spelling, List.filter_append, List.filter_append, hmark, hdigits, digits]
  cases l.isBig <;> rfl

variable {l}

/-- Digits without a zero in front are the decimal numeral of what they denote. -/
theorem ofNat_readNat {t : Text} (hne : t ≠ []) (hdigits : ∀ c ∈ t, c.isDigitOf 10 = true)
    (hzero : t.head? = some (CodePoint.ofChar '0') → t = [CodePoint.ofChar '0']) :
    Text.ofNat (Text.readNat 10 t) = t := by
  induction t using List.reverseRecOn with
  | nil => exact absurd rfl hne
  | append_singleton t c ih =>
    obtain ⟨hfront, hlast⟩ := List.forall_mem_append.mp hdigits
    have hc := hlast c (List.mem_singleton_self c)
    have hlt := CodePoint.digitValue_lt hc
    have hlastNumeral : (Nat.toDigits 10 c.digitValue).map CodePoint.ofChar = [c] := by
      rw [Nat.toDigits_of_lt_base hlt, List.map_singleton, CodePoint.ofChar_digitChar hc]
    rcases eq_or_ne t [] with rfl | hne
    · rw [readNat_eq]
      simpa [Text.ofNat] using hlastNumeral
    · have hhead : t.head? ≠ some (CodePoint.ofChar '0') := by
        intro h
        have hone := hzero (by rw [List.head?_append_of_ne_nil _ hne, h])
        have hlength := congrArg List.length hone
        rw [List.length_append, List.length_singleton, List.length_singleton] at hlength
        exact hne (List.eq_nil_of_length_eq_zero (by omega))
      have hnumeral := ih hne hfront fun h => absurd h hhead
      have hpos : 0 < Text.readNat 10 t := by
        rw [Nat.pos_iff_ne_zero]
        intro hnone
        rw [hnone] at hnumeral
        exact hhead (hnumeral ▸ rfl)
      have hvalue : Text.readNat 10 (t ++ [c]) = 10 * Text.readNat 10 t + c.digitValue := by
        rw [readNat_eq, readNat_eq, List.map_append, List.reverse_append]
        simp [Nat.ofDigits_cons, Nat.add_comm]
      rw [hvalue, Text.ofNat, ← Nat.toDigits_append_toDigits (by decide) hpos hlt, List.map_append,
        hlastNumeral]
      exact congrArg (· ++ [c]) hnumeral

theorem ofNat_value (hradix : l.radix = .decimal) : Text.ofNat l.value = l.digits := by
  have hdigits := l.isDigitOf
  rw [hradix] at hdigits
  rw [value_eq, hradix]
  exact ofNat_readNat l.digits_ne_nil hdigits (l.leadingZero hradix)

/-- Digits without a zero in front are read, if they are not too many. -/
theorem readInteger?_digits {t : Text} (hne : t ≠ []) (hdigits : ∀ c ∈ t, c.isDigitOf 10 = true)
    (hzero : t.head? = some (CodePoint.ofChar '0') → t = [CodePoint.ofChar '0'])
    (hlength : t.length ≤ digitLimit) : readInteger? t = some (Text.readNat 10 t) := by
  have hall : t.all CodePoint.isDigit = true :=
    List.all_eq_true.mpr fun c hc => CodePoint.isDigit_of_isDigitOf (hdigits c hc)
  rcases t with _ | ⟨z, _ | ⟨m, t⟩⟩
  · exact absurd rfl hne
  · rw [readInteger?, if_pos (by simpa using hall)]
    exact nofun
  · have hz : z.is '0' = false := by
      rw [CodePoint.is, beq_eq_false_iff_ne]
      intro hval
      have hz : z = CodePoint.ofChar '0' := by
        cases z
        congr
      exact absurd (hzero (congrArg some hz)) (by simp)
    rw [readInteger?, hz, if_neg Bool.false_ne_true, hall, if_pos (by simpa using hlength)]

theorem readInteger?_decimal (hradix : l.radix = .decimal)
    (hlength : l.digits.length ≤ digitLimit) : readInteger? l.digits = some l.value := by
  have hdigits := l.isDigitOf
  rw [hradix] at hdigits
  rw [value_eq, hradix]
  exact readInteger?_digits l.digits_ne_nil hdigits (l.leadingZero hradix) hlength

/-- Behind a mark the integer is read from its digits. -/
theorem readInteger?_marked (hradix : l.radix ≠ .decimal) :
    readInteger? (l.radix.mark ++ l.digits) = some l.value := by
  have hdigits := l.isDigitOf
  have hne : l.digits.isEmpty = false := List.isEmpty_eq_false_iff.mpr l.digits_ne_nil
  have hbased : ∀ {p : CodePoint → Bool}, (∀ c ∈ l.digits, p c = true) →
      basedInteger? l.radix.base p l.digits = some l.value := by
    intro p hp
    rw [basedInteger?, hne, List.all_eq_true.mpr hp, value_eq]
    rfl
  cases hr : l.radix with
  | decimal => exact absurd hr hradix
  | hexadecimal capital =>
    have h := hbased (p := CodePoint.isHexDigit) fun c hc =>
      CodePoint.isHexDigit_of_isDigitOf (hdigits c hc)
    rw [hr] at h
    cases capital <;> exact h
  | octal capital =>
    rw [hr] at hdigits
    have h := hbased (p := CodePoint.isOctalDigit) fun c hc =>
      CodePoint.isOctalDigit_of_isDigitOf (hdigits c hc)
    rw [hr] at h
    cases capital <;> exact h
  | binary capital =>
    rw [hr] at hdigits
    have h := hbased (p := CodePoint.isBinaryDigit) fun c hc =>
      CodePoint.isBinaryDigit_of_isDigitOf (hdigits c hc)
    rw [hr] at h
    cases capital <;> exact h

/-! ## What is written -/

/-- The text of an integer, by its suffix: a BigInt stays as it is written, without separators. -/
theorem numberText_spelling (hlength : (Text.ofNat l.value).length ≤ digitLimit) :
    numberText l.spelling =
      if l.isBig then l.radix.mark ++ l.digits else Text.ofNat l.value := by
  rw [numberText, filter_spelling]
  cases l.isBig with
  | true =>
    have hsuffix : (l.radix.mark ++ l.digits ++ ("n" : Text)).getLast?.any (·.is 'n') = true := by
      rw [List.getLast?_append]
      rfl
    simp only [if_true]
    rw [if_pos hsuffix]
    exact List.dropLast_concat
  | false =>
    have hlast : (l.radix.mark ++ l.digits).getLast?.any (·.is 'n') = false := by
      have hne : l.digits ≠ [] := l.digits_ne_nil
      rw [List.getLast?_append_of_ne_nil _ hne, List.getLast?_eq_some_getLast hne]
      exact (CodePoint.is_eq_false_of_isDigitOf (l.isDigitOf _ (List.getLast_mem hne))).2
    have hread : readInteger? (l.radix.mark ++ l.digits) = some l.value := by
      by_cases hradix : l.radix = .decimal
      · rw [hradix, Radix.mark, List.nil_append]
        exact readInteger?_decimal hradix (ofNat_value hradix ▸ hlength)
      · exact readInteger?_marked hradix
    have htext : integerText? (l.radix.mark ++ l.digits) = some (Text.ofNat l.value) := by
      rw [integerText?, hread]
      exact if_pos hlength
    have hnoSuffix : l.radix.mark ++ l.digits ++ ("" : Text) = l.radix.mark ++ l.digits :=
      List.append_nil _
    simp only [Bool.false_eq_true, if_false]
    rw [hnoSuffix, hlast, if_neg Bool.false_ne_true, htext]

/-- A mark has a letter, which no decimal numeral has. -/
theorem mark_append_ne_ofNat (hradix : l.radix ≠ .decimal) (t : Text) (n : Nat) :
    l.radix.mark ++ t ≠ Text.ofNat n := by
  intro heq
  have hletter : ∃ c ∈ l.radix.mark, c.isDigit = false := by
    cases hr : l.radix with
    | decimal => exact absurd hr hradix
    | hexadecimal capital | octal capital | binary capital => cases capital <;> decide
  obtain ⟨c, hc, hletter⟩ := hletter
  obtain ⟨d, hd, rfl⟩ := List.mem_map.mp (heq ▸ List.mem_append_left t hc : c ∈ Text.ofNat n)
  have hdigit := CodePoint.isDigit_ofChar (Nat.isDigit_of_mem_toDigits (by decide) (by decide) hd)
  exact absurd (hdigit.symm.trans hletter) (by decide)

/-- A BigInt behind a mark keeps the mark. -/
theorem numberText_marked (hlength : (Text.ofNat l.value).length ≤ digitLimit)
    (hl : l.IsMarkedBig) : numberText l.spelling = l.radix.mark ++ l.digits := by
  rw [numberText_spelling hlength, if_pos hl.1]

/-- The text of any other integer is its numeral. -/
theorem numberText_unmarked (hlength : (Text.ofNat l.value).length ≤ digitLimit)
    (hl : ¬l.IsMarkedBig) : numberText l.spelling = Text.ofNat l.value := by
  rw [numberText_spelling hlength]
  by_cases hbig : l.isBig = true
  · have hradix : l.radix = .decimal := not_not.mp fun h => hl ⟨hbig, h⟩
    rw [if_pos hbig, ofNat_value hradix, hradix]
    rfl
  · rw [if_neg hbig]

end IntegerLiteral

/-! ## One integer, one id -/

/-- A node is an integer, perhaps inside of parentheses. -/
def Node.Spells (n : Node) (l : IntegerLiteral) : Prop :=
  n.unwrap.kind = .numberLiteral ∧ n.unwrap.text = l.spelling

variable {l : IntegerLiteral} {n : Node}

theorem Node.Spells.literalValue (h : n.Spells l) :
    n.literalValue = .ok (some (numberText l.spelling)) := by
  rw [Node.literalValue]
  simp only [h.1, h.2]

/-- As a key an integer is read like anywhere else. -/
theorem Node.Spells.propertyKey (h : n.Spells l) :
    n.propertyKey = .ok (some (numberText l.spelling)) := by
  have hkind : (n.kind == .propertyIdentifier) = false := by
    rw [beq_eq_false_iff_ne]
    intro hkind
    have hplain : n.unwrap = n := by
      cases n
      subst hkind
      rfl
    have hnumber := h.1
    rw [hplain, hkind] at hnumber
    cases hnumber
  rw [Node.propertyKey, hkind, if_neg Bool.false_ne_true, h.literalValue]

/-- The text of an integer is its decimal numeral unless the integer is a BigInt behind a mark,
which keeps the mark and its digits.  So a key and an id of one integer are the same text exactly
when neither of them is such a BigInt, or when both of them are, with the same mark and digits. -/
theorem numberText_iff (l : IntegerLiteral) (hlength : (Text.ofNat l.value).length ≤ digitLimit) :
    (numberText l.spelling = Text.ofNat l.value ↔ ¬l.IsMarkedBig) ∧
    (l.IsMarkedBig → numberText l.spelling = l.radix.mark ++ l.digits) ∧
    ∀ m : IntegerLiteral, m.value = l.value →
      ∀ key value : Node, key.Spells l → value.Spells m →
        ((∃ id, key.propertyKey = .ok (some id) ∧ value.literalValue = .ok (some id)) ↔
          (¬l.IsMarkedBig ∧ ¬m.IsMarkedBig) ∨
            (l.IsMarkedBig ∧ m.IsMarkedBig ∧
              l.radix.mark ++ l.digits = m.radix.mark ++ m.digits)) := by
  refine ⟨⟨fun htext hl => ?_, l.numberText_unmarked hlength⟩, l.numberText_marked hlength,
    fun m hvalue key value hkey hdep => ?_⟩
  · rw [l.numberText_marked hlength hl] at htext
    exact l.mark_append_ne_ofNat hl.2 _ _ htext
  have hlength' : (Text.ofNat m.value).length ≤ digitLimit := hvalue ▸ hlength
  have hsame : (∃ id, key.propertyKey = .ok (some id) ∧ value.literalValue = .ok (some id)) ↔
      numberText l.spelling = numberText m.spelling := by
    rw [hkey.propertyKey, hdep.literalValue]
    simp [eq_comm]
  rw [hsame]
  by_cases hl : l.IsMarkedBig
  · by_cases hm : m.IsMarkedBig
    · rw [l.numberText_marked hlength hl, m.numberText_marked hlength' hm]
      simp [hl, hm]
    · rw [l.numberText_marked hlength hl, m.numberText_unmarked hlength' hm]
      simp [hl, hm, l.mark_append_ne_ofNat hl.2]
  · by_cases hm : m.IsMarkedBig
    · rw [l.numberText_unmarked hlength hl, m.numberText_marked hlength' hm]
      simp [hl, hm, (m.mark_append_ne_ofNat hm.2 _ _).symm]
    · rw [l.numberText_unmarked hlength hl, m.numberText_unmarked hlength' hm, hvalue]
      simp [hl, hm]

/-- The integer 31 in hexadecimal. -/
def thirtyOneHexadecimal : IntegerLiteral :=
  ⟨.hexadecimal true, ["1", "F"], false, by decide, by decide, by decide, by decide⟩

/-- The integer 31 as a BigInt in decimal. -/
def thirtyOneBig : IntegerLiteral :=
  ⟨.decimal, ["31"], true, by decide, by decide, by decide, by decide⟩

/-- The key `0X1_F` and the id `(31n)` are one id. -/
theorem numberText_thirtyOne :
    numberText "0X1_F" = "31" ∧
    ∃ id, Node.propertyKey ⟨.numberLiteral, none, 0, 5, "0X1_F", []⟩ = .ok (some id) ∧
      Node.literalValue ⟨.parenthesizedExpression, none, 6, 11, "(31n)",
        [⟨.numberLiteral, none, 7, 10, "31n", []⟩]⟩ = .ok (some id) := by
  obtain ⟨htext, -, hids⟩ := numberText_iff thirtyOneHexadecimal (by decide)
  exact ⟨htext.mpr (by decide), (hids thirtyOneBig (by decide) _ _ ⟨rfl, rfl⟩ ⟨rfl, rfl⟩).mpr
    (Or.inl ⟨by decide, by decide⟩)⟩

/-- The integer 16 as a BigInt in hexadecimal. -/
def sixteenBig : IntegerLiteral :=
  ⟨.hexadecimal false, ["10"], true, by decide, by decide, by decide, by decide⟩

/-- The text of `0x10n` is `0x10` instead of `16`. -/
theorem sixteenBig_not_decimal :
    sixteenBig.spelling = "0x10n" ∧ numberText "0x10n" = "0x10" ∧
    Text.ofNat sixteenBig.value = "16" ∧
    ¬∀ l : IntegerLiteral, (Text.ofNat l.value).length ≤ digitLimit →
      numberText l.spelling = Text.ofNat l.value := by
  refine ⟨by decide, by decide, by decide, fun h => ?_⟩
  exact absurd (h sixteenBig (by decide)) (by decide)

end Script
end Debundle
