import Debundle.Ranking
import Mathlib.Algebra.Order.Field.Rat
import Mathlib.Algebra.Order.GroupWithZero.Basic
import Mathlib.Algebra.Order.Ring.Cast
import Mathlib.Order.WithBot
import Mathlib.Tactic.Ring

/-!
# Comparing texts and numbers

Texts are ordered by code point.  Floating-point numbers are ordered as the rational numbers that
they stand for, with an infinity at either end; what is no number has no place among them.

* `Text.le_total`, `Text.le_trans`, `Text.le_antisymm`: the order of texts.
* `Binary64.rank`: where a number stands.
* `Binary64.exceeds_iff`: one number is above another if and only if it stands there.
-/

namespace Debundle

/-! ## Texts -/

namespace Text

theorem le_total (t u : Text) : t.le u = true ∨ u.le t = true := by
  induction t generalizing u with
  | nil => exact Or.inl rfl
  | cons c cs ih =>
    cases u with
    | nil => exact Or.inr rfl
    | cons d ds =>
      rw [le, le]
      rcases Nat.lt_trichotomy c.val d.val with h | h | h
      · exact Or.inl (if_pos h)
      · simpa [h] using ih ds
      · exact Or.inr (if_pos h)

theorem le_trans {t u v : Text} (htu : t.le u = true) (huv : u.le v = true) :
    t.le v = true := by
  induction t generalizing u v with
  | nil => rfl
  | cons c cs ih =>
    cases u with
    | nil => cases htu
    | cons d ds =>
      cases v with
      | nil => cases huv
      | cons e es =>
        simp only [le] at htu huv ⊢
        split at htu
        · split at huv
          · rw [if_pos (by omega)]
          · split at huv
            · cases huv
            · rw [if_pos (by omega)]
        · split at htu
          · cases htu
          · split at huv
            · rw [if_pos (by omega)]
            · split at huv
              · cases huv
              · rw [if_neg (by omega), if_neg (by omega)]
                exact ih htu huv

theorem le_antisymm {t u : Text} (htu : t.le u = true) (hut : u.le t = true) : t = u := by
  induction t generalizing u with
  | nil =>
    cases u with
    | nil => rfl
    | cons d ds => cases hut
  | cons c cs ih =>
    cases u with
    | nil => cases htu
    | cons d ds =>
      rw [le] at htu hut
      rcases Nat.lt_trichotomy c.val d.val with h | h | h
      · rw [if_neg (Nat.lt_asymm h), if_pos h] at hut
        cases hut
      · have hcd : c = d := by
          cases c
          cases d
          congr
        rw [hcd, if_neg (Nat.lt_irrefl _), if_neg (Nat.lt_irrefl _)] at htu hut
        rw [hcd, ih htu hut]
      · rw [if_neg (Nat.lt_asymm h), if_pos h] at htu
        cases htu

end Text

/-! ## Numbers -/

namespace Binary64

/-- The rational number that a mantissa, an exponent and a sign stand for. -/
def toRat (negative : Bool) (mantissa : Nat) (exponent : Int) : ℚ :=
  (if negative then -1 else 1) * mantissa * 2 ^ exponent

/-- Where a number stands; what is no number is put at the lower end. -/
def rank : Binary64 → WithBot (WithTop ℚ)
  | .finite negative mantissa exponent => ((toRat negative mantissa exponent : ℚ) : WithTop ℚ)
  | .infinite true => ⊥
  | .infinite false => (⊤ : WithTop ℚ)
  | .nan => ⊥

/-- Counted in units of a smaller power of two, a number is an integer. -/
theorem toRat_eq_scaled (negative : Bool) (mantissa : Nat) {exponent low : Int}
    (hlow : low ≤ exponent) :
    toRat negative mantissa exponent =
      ((if negative then -((mantissa * Nat.pow 2 (exponent - low).toNat : Nat) : Int)
        else (mantissa * Nat.pow 2 (exponent - low).toNat : Nat) : Int) : ℚ) * 2 ^ low := by
  have hpower : (2 : ℚ) ^ exponent = 2 ^ (exponent - low).toNat * 2 ^ low := by
    rw [← zpow_natCast, ← zpow_add₀ two_ne_zero]
    congr 1
    omega
  have hsize : ((mantissa * Nat.pow 2 (exponent - low).toNat : Nat) : ℚ) =
      mantissa * 2 ^ (exponent - low).toNat := by
    rw [Nat.pow_eq]
    push_cast
    rfl
  cases negative <;> simp only [toRat, hpower, if_true, Bool.false_eq_true, if_false,
    Int.cast_neg, Int.cast_natCast, hsize] <;> ring

/-- One number is above another if and only if it stands there. -/
theorem exceeds_iff {x y : Binary64} (hx : x ≠ .nan) (hy : y ≠ .nan) :
    x.exceeds y = true ↔ y.rank < x.rank := by
  cases x with
  | nan => exact absurd rfl hx
  | infinite a =>
    cases y with
    | nan => exact absurd rfl hy
    | infinite b => cases a <;> cases b <;> simp [exceeds, rank]
    | finite b n f =>
      cases a with
      | false => exact iff_of_true rfl (WithBot.coe_lt_coe.mpr (WithTop.coe_lt_top _))
      | true => exact iff_of_false Bool.false_ne_true not_lt_bot
  | finite a m e =>
    cases y with
    | nan => exact absurd rfl hy
    | infinite b => cases b <;> simp [exceeds, rank]
    | finite b n f =>
      rw [rank, rank, WithBot.coe_lt_coe, WithTop.coe_lt_coe,
        toRat_eq_scaled b n (Int.min_le_right e f), toRat_eq_scaled a m (Int.min_le_left e f),
        mul_lt_mul_iff_left₀ (zpow_pos two_pos _), Int.cast_lt]
      exact decide_eq_true_iff

end Binary64

end Debundle
