import Debundle.Text.Basic

/-!
# Binary floating point

Numbers that are not integers are kept in the 64-bit binary format, as exact values: a finite
number is `± mantissa · 2 ^ exponent`.  Reading a decimal rounds to the nearest such value, and
a tie goes to the even mantissa.

* `Binary64.ofRatio`: the value nearest to a fraction.
* `Binary64.ofDecimal`: the value nearest to a decimal.
* `Binary64.integer?`: the integer that a value is.
-/

namespace Debundle

/-- A 64-bit binary floating-point number. -/
inductive Binary64 where
  /-- `± mantissa · 2 ^ exponent`. -/
  | finite (negative : Bool) (mantissa : Nat) (exponent : Int)
  /-- An infinity. -/
  | infinite (negative : Bool)
  /-- No number. -/
  | nan
deriving DecidableEq, Repr

namespace Binary64

/-- The smallest exponent. -/
def leastExponent : Int := -1074

/-- The largest exponent of a mantissa with 53 binary digits. -/
def greatestExponent : Int := 971

/-- A fraction divided by a power of two, as numerator and denominator. -/
def scale (num den : Nat) (exponent : Int) : Nat × Nat :=
  match exponent with
  | .ofNat n => (num, den * Nat.pow 2 n)
  | .negSucc n => (num * Nat.pow 2 (n + 1), den)

/-- A quotient rounded to the nearest integer, a tie to the even one. -/
def roundQuotient (num den : Nat) : Nat :=
  let q := num / den
  let r := num % den
  if den < 2 * r || (2 * r == den && q % 2 == 1) then q + 1 else q

/-- The exponent at which a fraction has 53 binary digits before the point, but no smaller than
the least one. -/
def exponentOf (num den : Nat) : Int :=
  let e : Int := (num.log2 : Int) - den.log2 - 52
  let (n, d) := scale num den e
  max (if n / d < Nat.pow 2 52 then e - 1 else e) leastExponent

/-- The value nearest to `± num / den`, for a positive denominator. -/
def ofRatio (negative : Bool) (num den : Nat) : Binary64 :=
  if num == 0 then .finite negative 0 leastExponent
  else
    let e := exponentOf num den
    let (n, d) := scale num den e
    let m := roundQuotient n d
    let (m, e) := if m == Nat.pow 2 53 then (Nat.pow 2 52, e + 1) else (m, e)
    if greatestExponent < e then .infinite negative else .finite negative m e

/-- The value nearest to `± digits · 10 ^ exponent`.  Beyond `10 ^ 400` and below `10 ^ -400` the
answer is known without computing the power. -/
def ofDecimal (negative : Bool) (digits : Nat) (exponent : Int) : Binary64 :=
  if digits == 0 then .finite negative 0 leastExponent
  else
    let size : Int := (Nat.toDigits 10 digits).length + exponent
    if 400 < size then .infinite negative
    else if size < -400 then .finite negative 0 leastExponent
    else
      match exponent with
      | .ofNat n => ofRatio negative (digits * Nat.pow 10 n) 1
      | .negSucc n => ofRatio negative digits (Nat.pow 10 (n + 1))

/-- The value of an integer. -/
def ofInt (n : Int) : Binary64 := ofRatio (n < 0) n.natAbs 1

/-- The integer that a value is, if it is one. -/
def integer? : Binary64 → Option Int
  | .finite negative m e =>
    let sign (n : Nat) : Int := if negative then -(n : Int) else n
    match e with
    | .ofNat n => some (sign (m * Nat.pow 2 n))
    | .negSucc n => if m % Nat.pow 2 (n + 1) == 0 then some (sign (m / Nat.pow 2 (n + 1))) else none
  | _ => none

end Binary64

/-! ## Reading decimals -/

namespace Text

/-- The digits at the front of a text and what follows them. -/
def spanDigits (t : Text) : Text × Text := (t.takeWhile CodePoint.isDigit, t.dropWhile CodePoint.isDigit)

/-- An exponent, if the text is one. -/
def readExponent? : Text → Option Int
  | [] => some 0
  | e :: rest =>
    if e.is 'e' || e.is 'E' then
      let (negative, digits) :=
        match rest with
        | s :: ds => if s.is '-' then (true, ds) else if s.is '+' then (false, ds) else (false, rest)
        | [] => (false, rest)
      if digits.isEmpty || !digits.all CodePoint.isDigit then none
      else
        let n : Int := readNat 10 digits
        some (if negative then -n else n)
    else none

/-- The number that a decimal such as `1.5e3` writes; a digit must stand on one side of the
point. -/
def readDecimal? (t : Text) : Option Binary64 :=
  let (negative, t) :=
    match t with
    | s :: rest => if s.is '-' then (true, rest) else if s.is '+' then (false, rest) else (false, t)
    | [] => (false, t)
  let (whole, rest) := spanDigits t
  let (fraction, rest) :=
    match rest with
    | p :: ds => if p.is '.' then spanDigits ds else ([], rest)
    | [] => ([], rest)
  if whole.isEmpty && fraction.isEmpty then none
  else do
    let e ← readExponent? rest
    return Binary64.ofDecimal negative (readNat 10 (whole ++ fraction)) (e - fraction.length)

end Text

end Debundle
