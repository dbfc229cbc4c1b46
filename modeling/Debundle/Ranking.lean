import Debundle.Data.Value

/-!
# Rankings

Where two candidates compete, the one that was there first stays unless the other one ranks
strictly above it.

* `prefer`: winner and loser of two candidates.
* `Value.same`: when two values are equal.
* `Value.exceeds?`: when one value ranks above another; values of different sorts cannot be
  compared.
-/

namespace Debundle

/-- Winner and loser of two candidates: the incumbent wins unless the challenger is above it. -/
def prefer {α : Type} (above : α → α → Bool) (incumbent challenger : α) : α × α :=
  if above challenger incumbent then (challenger, incumbent) else (incumbent, challenger)

/-- Whether one floating-point number is above another; what is no number is above nothing. -/
def Binary64.exceeds : Binary64 → Binary64 → Bool
  | .nan, _ => false
  | _, .nan => false
  | .infinite a, .infinite b => !a && b
  | .infinite a, .finite _ _ _ => !a
  | .finite _ _ _, .infinite b => b
  | .finite a m e, .finite b n f =>
    let low := min e f
    let value (negative : Bool) (mantissa : Nat) (exponent : Int) : Int :=
      let size := mantissa * Nat.pow 2 (exponent - low).toNat
      if negative then -(size : Int) else size
    value b n f < value a m e

namespace Scalar

/-- The integer that a truth value or a whole number is. -/
def integer? : Scalar → Option Int
  | .bool b => some (if b then 1 else 0)
  | .int n => some n
  | _ => none

/-- The exact floating-point value of a number; the exponent of an integer is zero. -/
def binary64? : Scalar → Option Binary64
  | .float x => some x
  | s => s.integer?.map fun n => .finite (n < 0) n.natAbs 0

/-- Whether one scalar is above another: numbers by size, texts by code point. -/
def exceeds? : Scalar → Scalar → Option Bool
  | .text a, .text b => some (!Text.le a b)
  | a, b => do return Binary64.exceeds (← a.binary64?) (← b.binary64?)

end Scalar

namespace Value

/-- Whether two values are equal: numbers by size, mappings whatever the order of their entries. -/
def same : Value → Value → Bool
  | .scalar a, .scalar b => a.sameKey b
  | .list a, .list b => sameList a b
  | .mapping a, .mapping b => a.length == b.length && sameEntries a b
  | _, _ => false
where
  /-- The same for lists of values. -/
  sameList : List Value → List Value → Bool
    | [], [] => true
    | a :: as, b :: bs => same a b && sameList as bs
    | _, _ => false
  /-- Whether all entries of one mapping are in another. -/
  sameEntries : List (Scalar × Value) → Mapping → Bool
    | [], _ => true
    | (key, a) :: rest, m =>
      (match m.get? key with
        | some b => same a b
        | none => false) && sameEntries rest m

/-- Whether one value is above another: lists by their first difference, a list above each of its
beginnings. -/
def exceeds? : Value → Value → Option Bool
  | .scalar a, .scalar b => a.exceeds? b
  | .list a, .list b => exceedsList? a b
  | _, _ => none
where
  /-- The same for lists of values. -/
  exceedsList? : List Value → List Value → Option Bool
    | [], _ => some false
    | _ :: _, [] => some true
    | a :: as, b :: bs =>
      if same a b then exceedsList? as bs else exceeds? a b

end Value

end Debundle
