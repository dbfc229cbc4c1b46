import Debundle.Script.Literal

/-!
# Literals without a value

A string may spell a code point by its number, and a number beyond the last code point spells none.
Such a string is the only literal without a value.

* `Node.isBeyond`: an escape beyond the last code point.
* `Node.isVoid`: a string with such an escape, perhaps in parentheses.
* `Node.isOk_literalValue`, `Node.isOk_propertyKey`: all other expressions and keys can be read.
-/

namespace Debundle

@[simp] theorem isOk_ok {ε α : Type} (x : α) : (Except.ok x : Except ε α).isOk = true := rfl

@[simp] theorem isOk_error {ε α : Type} (e : ε) : (Except.error e : Except ε α).isOk = false := rfl

theorem isOk_map {ε α β : Type} (f : α → β) (x : Except ε α) : (f <$> x).isOk = x.isOk := by
  cases x <;> rfl

/-- A computation succeeds on a list if it succeeds on every item. -/
theorem isOk_mapM {ε α β : Type} (f : α → Except ε β) (as : List α) :
    (as.mapM f).isOk = as.all fun a => (f a).isOk := by
  induction as with
  | nil => rfl
  | cons a as ih =>
    rw [List.mapM_cons, List.all_cons, ← ih]
    cases f a with
    | error e => rfl
    | ok b => cases as.mapM f <;> rfl

namespace Script

/-- The number of the first code point that there is not. -/
def codePointLimit : Nat := 0x110000

theorem isOk_codePoint (n : Nat) : (codePoint n).isOk = decide (n < codePointLimit) := by
  unfold codePoint CodePoint.ofNat? codePointLimit
  by_cases h : n < 0x110000
  · rw [dif_pos h, decide_eq_true h]
    rfl
  · rw [dif_neg h, decide_eq_false h]
    rfl

/-- Whether an escape spells a number beyond the last code point. -/
def spellsBeyond (raw : Text) : Bool :=
  (escapeDigits? (raw.drop 1)).any fun digits => codePointLimit ≤ Text.readNat 16 digits

theorem isOk_unescape (raw : Text) : (unescape raw).isOk = !spellsBeyond raw := by
  unfold unescape spellsBeyond
  split
  · rename_i back c rest
    rw [List.drop_succ_cons, List.drop_zero]
    split
    · rename_i hline
      have hnone : escapeDigits? (c :: rest) = none := by
        have hx : c.is 'x' = false ∧ c.is 'u' = false := by
          simp only [CodePoint.is, Bool.or_eq_true, beq_iff_eq] at hline ⊢
          rcases hline with h | h <;> rw [h] <;> decide
        simp [escapeDigits?, hx]
      rw [hnone]
      rfl
    · cases escapeDigits? (c :: rest) with
      | none => rfl
      | some digits =>
        simp only [isOk_codePoint, Option.any_some]
        by_cases h : Text.readNat 16 digits < codePointLimit
        · simp [h]
        · simp [h, Nat.le_of_not_lt h]
  · rename_i hshort
    have hnone : escapeDigits? (raw.drop 1) = none := by
      rcases raw with _ | ⟨back, _ | ⟨c, rest⟩⟩
      · rfl
      · rfl
      · exact absurd rfl (hshort back c rest)
    rw [hnone]
    rfl

namespace Node

/-- Whether a piece of a string is an escape beyond the last code point. -/
def isBeyond (piece : Node) : Bool := piece.kind == .escapeSequence && spellsBeyond piece.text

theorem isOk_pieceValue (piece : Node) : (pieceValue piece).isOk = !piece.isBeyond := by
  unfold pieceValue isBeyond
  split
  · rename_i h
    rw [h]
    rfl
  · rename_i h
    rw [h, isOk_unescape]
    rfl
  · rename_i h
    rw [beq_eq_false_iff_ne.mpr h]
    rfl

theorem isOk_stringValue (n : Node) : n.stringValue.isOk = !n.children.any isBeyond := by
  have hpieces := isOk_mapM pieceValue n.children
  unfold stringValue
  rw [bind_pure_comp, isOk_map, hpieces, List.any_eq_not_all_not, Bool.not_not]
  simp only [isOk_pieceValue]

/-- Whether an expression is a literal without a value: a string with an escape beyond the last code
point, perhaps in parentheses. -/
def isVoid (n : Node) : Bool := n.unwrap.kind == .stringLiteral && n.unwrap.children.any isBeyond

theorem isOk_literalValue (n : Node) : n.literalValue.isOk = !n.isVoid := by
  unfold literalValue isVoid
  simp only
  split
  · rename_i h
    rw [isOk_map, isOk_stringValue, h]
    rfl
  · rename_i h
    rw [h]
    rfl
  · rename_i h _
    rw [beq_eq_false_iff_ne.mpr h]
    rfl

theorem isOk_propertyKey (n : Node) : n.propertyKey.isOk = !n.isVoid := by
  unfold propertyKey
  split
  · rename_i h
    have hkind : n.kind = .propertyIdentifier := by simpa using h
    have hunwrap : n.unwrap = n := by
      cases n
      simp only at hkind
      rw [unwrap, hkind, if_neg (by decide)]
    rw [isVoid, hunwrap, hkind]
    rfl
  · exact isOk_literalValue n

end Node

end Script
end Debundle
