import Debundle.Decimal.Binary64

/-!
# The fewest digits that read back

A finite number is written with the fewest digits from which it can be read again, and of those
with the digits nearest to it.

* `Binary64.shortest`: these digits and their exponent.
* `Binary64.spelling`: the number as text.  The positional form is used from `10 ^ -4` up to
  `10 ^ 16`; it always has a point.  Outside, there is an exponent of at least two digits, with its
  sign.
-/

namespace Debundle.Binary64

/-- The number of decimal digits before the point of a fraction; not positive for fractions
below one, where it counts the zeros behind the point.  Tries `fuel` places. -/
def magnitude (num den : Nat) (fuel : Nat) : Int :=
  if den ≤ num then (Nat.toDigits 10 (num / den)).length
  else go num 0 fuel
where
  /-- Moves the point to the right until the fraction is at least one. -/
  go (num : Nat) (places : Nat) : Nat → Int
    | 0 => -places
    | fuel + 1 => if den ≤ num * 10 then -places else go (num * 10) (places + 1) fuel

/-- A fraction times a power of ten, rounded down. -/
def shifted (num den : Nat) (power : Int) : Nat :=
  match power with
  | .ofNat n => num * Nat.pow 10 n / den
  | .negSucc n => num / (den * Nat.pow 10 (n + 1))

/-- Twice the distance of a candidate from a fraction times a power of ten, over a common
denominator, is compared: whether the lower neighbour `low` is nearer than the upper one. -/
def lowerIsNearer (num den low : Nat) (power : Int) : Bool :=
  let (n, d) :=
    match power with
    | .ofNat k => (num * Nat.pow 10 k, den)
    | .negSucc k => (num, den * Nat.pow 10 (k + 1))
  let twice := 2 * n
  let middle := (2 * low + 1) * d
  twice < middle || (twice == middle && low % 2 == 0)

/-- The digits, as a number, and the exponent of the shortest decimal that reads back; grows the
number of digits, starting with `count`. -/
def search (mantissa : Nat) (exponent : Int) (num den : Nat) (size : Int) :
    Nat → Nat → Nat × Int
  | 0, count => (shifted num den (count - size), size - count)
  | fuel + 1, count =>
    let power : Int := count - size
    let low := shifted num den power
    let reads (digits : Nat) : Bool :=
      ofDecimal false digits (-power) == .finite false mantissa exponent
    match reads low, reads (low + 1) with
    | true, true => (if lowerIsNearer num den low power then low else low + 1, -power)
    | true, false => (low, -power)
    | false, true => (low + 1, -power)
    | false, false => search mantissa exponent num den size fuel (count + 1)

/-- The digits and the exponent of the shortest decimal that reads back as a positive number. -/
def shortest (mantissa : Nat) (exponent : Int) : Nat × Int :=
  let (den, num) := scale 1 mantissa exponent
  search mantissa exponent num den (magnitude num den 400) 17 1

/-- The text of digits with the point behind the first `point` of them. -/
def positional (digits : Text) (point : Int) : Text :=
  let zero := CodePoint.ofChar '0'
  match point with
  | .negSucc n => "0." ++ List.replicate (n + 1) zero ++ digits
  | .ofNat 0 => "0." ++ digits
  | .ofNat n =>
    if digits.length ≤ n then digits ++ List.replicate (n - digits.length) zero ++ ".0"
    else digits.take n ++ "." ++ digits.drop n

/-- The text of digits with an exponent. -/
def scientific (digits : Text) (exponent : Int) : Text :=
  let fraction : Text := if digits.length ≤ 1 then [] else "." ++ digits.drop 1
  let sign : Text := if exponent < 0 then "-" else "+"
  digits.take 1 ++ fraction ++ "e" ++ sign ++ Text.ofNatPadded 2 exponent.natAbs

/-- The number as text. -/
def spelling : Binary64 → Text
  | .nan => "nan"
  | .infinite negative => (if negative then "-" else "") ++ ("inf" : Text)
  | .finite negative mantissa exponent =>
    let sign : Text := if negative then "-" else ""
    if mantissa == 0 then sign ++ "0.0"
    else
      let (digits, power) := shortest mantissa exponent
      let all := Text.ofNat digits
      let point : Int := all.length + power
      let kept := Text.trimRight (·.is '0') all
      sign ++ (if -4 < point && point ≤ 16 then positional kept point else scientific kept (point - 1))

end Debundle.Binary64
