import Debundle.Data.Value
import Debundle.Yaml.Place

/-!
# What plain scalars stand for

A scalar that is written plainly and has no tag stands for a truth value, a number, a point in
time or nothing if it looks like one, and for a text otherwise.

* `Meaning`: what a scalar can stand for.
* `Meaning.ofPlain`: what a plain scalar looks like.
* `readBool`, `readInteger`, `readFloat`, `readTime`: the values of scalars.
-/

namespace Debundle.Yaml

/-- What a scalar can stand for. -/
inductive Meaning where
  | null
  | bool
  | int
  | float
  | time
  | text
  /-- The key under which a mapping takes in another one. -/
  | merge
  /-- The key for the value of a mapping as a whole. -/
  | default
deriving DecidableEq, Repr

/-! ## What scalars look like -/

/-- Whether a text is one of some words. -/
def isOneOf (words : List String) (t : Text) : Bool := words.any fun w => Text.ofString w == t

/-- Whether a text is not empty and all of a class. -/
def isAll (p : CodePoint → Bool) (t : Text) : Bool := !t.isEmpty && t.all p

/-- A text without its sign, and whether the sign is a minus. -/
def dropSign (t : Text) : Bool × Text :=
  match t with
  | c :: cs => if c.is '-' then (true, cs) else if c.is '+' then (false, cs) else (false, t)
  | [] => (false, t)

/-- A class of digits with the underscore. -/
def orUnderscore (p : CodePoint → Bool) (c : CodePoint) : Bool := p c || c.is '_'

/-- Whether a text is a digit of a class followed by decimal digits and underscores. -/
def isDigitsFrom (first : CodePoint → Bool) (t : Text) : Bool :=
  t.head?.any first && t.all (orUnderscore CodePoint.isDigit)

/-- Whether a text is a count of sixtieths: one or two digits below sixty. -/
def isSixtieth (t : Text) : Bool :=
  match t with
  | [c] => c.isDigit
  | [c, d] => 0x30 ≤ c.val && c.val ≤ 0x35 && d.isDigit
  | _ => false

/-- Whether a text is digits and then sixtieths, all between colons. -/
def isSexagesimal (first : CodePoint → Bool) (t : Text) : Bool :=
  match Text.split ':' t with
  | head :: next :: rest => isDigitsFrom first head && (next :: rest).all isSixtieth
  | _ => false

/-- A decimal digit other than zero. -/
def isNonZeroDigit (c : CodePoint) : Bool := c.isDigit && !c.is '0'

/-- Whether a text looks like an integer. -/
def looksInteger (t : Text) : Bool :=
  let t := (dropSign t).2
  (Text.startsWith t "0b" && isAll (orUnderscore CodePoint.isBinaryDigit) (t.drop 2))
    || (Text.startsWith t "0" && isAll (orUnderscore CodePoint.isOctalDigit) (t.drop 1))
    || t == Text.ofString "0"
    || isDigitsFrom isNonZeroDigit t
    || (Text.startsWith t "0x" && isAll (orUnderscore CodePoint.isHexDigit) (t.drop 2))
    || isSexagesimal isNonZeroDigit t

/-- A text before its exponent, if the exponent is one with a sign; all of it if there is none. -/
def beforeExponent? (t : Text) : Option Text :=
  let head := t.takeWhile fun c => !(c.is 'e' || c.is 'E')
  match t.drop head.length with
  | [] => some head
  | _ :: s :: digits =>
    if (s.is '-' || s.is '+') && isAll CodePoint.isDigit digits then some head else none
  | _ => none

/-- Whether a text has a point with digits in front, or digits behind a point in front. -/
def looksDecimal (signed : Bool) (t : Text) : Bool :=
  match beforeExponent? t with
  | none => false
  | some t =>
    let whole := t.takeWhile fun c => !c.is '.'
    match t.drop whole.length with
    | [] => false
    | _ :: fraction =>
      if whole.isEmpty then !signed && isDigitsFrom CodePoint.isDigit fraction
      else isDigitsFrom CodePoint.isDigit whole && fraction.all (orUnderscore CodePoint.isDigit)

/-- Whether a text is sixtieths with a point behind them. -/
def looksSexagesimalFloat (t : Text) : Bool :=
  let whole := t.takeWhile fun c => !c.is '.'
  match t.drop whole.length with
  | [] => false
  | _ :: fraction =>
    isSexagesimal CodePoint.isDigit whole && fraction.all (orUnderscore CodePoint.isDigit)

/-- Whether a text looks like a floating-point number. -/
def looksFloat (t : Text) : Bool :=
  let unsigned := (dropSign t).2
  looksDecimal (unsigned.length != t.length) unsigned
    || looksSexagesimalFloat unsigned
    || isOneOf [".inf", ".Inf", ".INF"] unsigned
    || isOneOf [".nan", ".NaN", ".NAN"] t

/-! ## Points in time -/

/-- The parts of a point in time as they are written. -/
structure TimeParts where
  /-- The year. -/
  year : Text
  /-- The month. -/
  month : Text
  /-- The day. -/
  day : Text
  /-- Hour, minute, second and fraction of a second. -/
  clock : Option (Text × Text × Text × Text)
  /-- Whether the zone is said, and then its sign, hours and minutes. -/
  zone : Option (Bool × Text × Text)

/-- Between `least` and `most` digits at the front of a text, and what follows them. -/
def digits? (least most : Nat) (t : Text) : Option (Text × Text) :=
  let found := (t.take most).takeWhile CodePoint.isDigit
  if least ≤ found.length then some (found, t.drop found.length) else none

/-- What follows a character. -/
def after? (ch : Char) (t : Text) : Option Text :=
  match t with
  | c :: cs => if c.is ch then some cs else none
  | [] => none

/-- Whether a code point is a space or a tab. -/
def isTab (c : CodePoint) : Bool := c.is ' ' || c.is '\t'

/-- The zone at the end of a point in time; none at all is no zone. -/
def zone? (t : Text) : Option (Option (Bool × Text × Text)) :=
  if t.isEmpty then some none
  else
    match t.dropWhile isTab with
    | [] => none
    | c :: rest =>
      if c.is 'Z' then if rest.isEmpty then some (some (false, [], [])) else none
      else if c.is '-' || c.is '+' then do
        let (hours, rest) ← digits? 1 2 rest
        if rest.isEmpty then return some (c.is '-', hours, [])
        else
          let (minutes, rest) ← digits? 2 2 (← after? ':' rest)
          if rest.isEmpty then return some (c.is '-', hours, minutes) else none
      else none

/-- The time of day behind a date, with its zone. -/
def clock? (t : Text) : Option ((Text × Text × Text × Text) × Option (Bool × Text × Text)) := do
  let t ←
    match t with
    | [] => none
    | c :: rest =>
      if c.is 'T' || c.is 't' then some rest else if isTab c then some (rest.dropWhile isTab) else none
  let (hour, t) ← digits? 1 2 t
  let (minute, t) ← digits? 2 2 (← after? ':' t)
  let (second, t) ← digits? 2 2 (← after? ':' t)
  let (fraction, t) :=
    match after? '.' t with
    | some t => (t.takeWhile CodePoint.isDigit, t.dropWhile CodePoint.isDigit)
    | none => ([], t)
  return ((hour, minute, second, fraction), ← zone? t)

/-- The parts of a point in time, if a text looks like one. -/
def timeParts? (t : Text) : Option TimeParts := do
  let (year, t) ← digits? 4 4 t
  let (month, t) ← digits? 1 2 (← after? '-' t)
  let (day, t) ← digits? 1 2 (← after? '-' t)
  if t.isEmpty then return ⟨year, month, day, none, none⟩
  else
    let (clock, zone) ← clock? t
    return ⟨year, month, day, some clock, zone⟩

/-- Whether a text looks like a point in time; a day alone is written with all its digits. -/
def looksTime (t : Text) : Bool :=
  match timeParts? t with
  | none => false
  | some p => p.clock.isSome || (p.month.length == 2 && p.day.length == 2)

/-! ## Meanings -/

/-- The words for truth values. -/
def boolWords : List String := [
  "yes", "Yes", "YES", "no", "No", "NO", "true", "True", "TRUE", "false", "False", "FALSE",
  "on", "On", "ON", "off", "Off", "OFF"]

/-- What a plain scalar looks like. -/
def Meaning.ofPlain (t : Text) : Meaning :=
  if isOneOf boolWords t then .bool
  else if looksFloat t then .float
  else if looksInteger t then .int
  else if t == Text.ofString "<<" then .merge
  else if t.isEmpty || isOneOf ["~", "null", "Null", "NULL"] t then .null
  else if looksTime t then .time
  else if t == Text.ofString "=" then .default
  else .text

/-! ## Values -/

/-- Truth values by their words in either case. -/
def readBool (t : Text) : Except Error Scalar :=
  let t := t.map CodePoint.toLower
  if isOneOf ["yes", "true", "on"] t then .ok (.bool true)
  else if isOneOf ["no", "false", "off"] t then .ok (.bool false)
  else .error (.notABool t)

/-- The number of decimal digits up to which integers are read. -/
def digitLimit : Nat := 4300

/-- The number that digits write in a base. -/
def readDigits (base : Nat) (p : CodePoint → Bool) (t : Text) : Except Error Nat :=
  if base == 10 && digitLimit < t.length && t.all p then .error (.tooManyDigits t.length)
  else if isAll p t then .ok (Text.readNat base t)
  else .error (.notAnInteger base t)

/-- The number that decimal numbers between colons write in base sixty. -/
def readSixtieths (parts : List Text) : Except Error Nat := do
  let ns ← parts.mapM (readDigits 10 CodePoint.isDigit)
  return Text.readDigits 60 ns

/-- The size of an integer. -/
def readMagnitude (t : Text) : Except Error Nat :=
  if t.isEmpty then .error .emptyInteger
  else if t == Text.ofString "0" then .ok 0
  else if Text.startsWith t "0b" then readDigits 2 CodePoint.isBinaryDigit (t.drop 2)
  else if Text.startsWith t "0x" then readDigits 16 CodePoint.isHexDigit (t.drop 2)
  else if Text.startsWith t "0" then readDigits 8 CodePoint.isOctalDigit t
  else if t.any (·.is ':') then readSixtieths (Text.split ':' t)
  else readDigits 10 CodePoint.isDigit t

/-- An integer: binary, octal, decimal, hexadecimal or in base sixty, with underscores anywhere. -/
def readInteger (t : Text) : Except Error Scalar := do
  let (negative, t) := dropSign (t.filter fun c => !c.is '_')
  let n ← readMagnitude t
  return .int (if negative then -(n : Int) else n)

/-- The digits of a decimal without its point, and how many of them stand behind the point. -/
def decimalDigits? (t : Text) : Option (Nat × Nat) :=
  let whole := t.takeWhile fun c => !c.is '.'
  let fraction := t.drop (whole.length + 1)
  if whole.all CodePoint.isDigit && fraction.all CodePoint.isDigit && !(whole ++ fraction).isEmpty then
    some (Text.readNat 10 (whole ++ fraction), fraction.length)
  else none

/-- The value of decimals between colons in base sixty, as numerator and denominator. -/
def sexagesimal? (parts : List Text) : Option (Nat × Nat) :=
  parts.foldlM (fun (num, den) part => do
    let (digits, places) ← decimalDigits? part
    return (num * 60 * Nat.pow 10 places + digits * den, den * Nat.pow 10 places)) (0, 1)

/-- The value without its sign of a text that stands for a floating-point number. -/
def readMagnitudeFloat? (negative : Bool) (t : Text) : Option Binary64 :=
  if t == Text.ofString ".inf" then some (.infinite negative)
  else if t == Text.ofString ".nan" then some .nan
  else if t.any (·.is ':') then
    (sexagesimal? (Text.split ':' t)).map fun (num, den) => Binary64.ofRatio negative num den
  else
    let signed : Text := if negative then "-" ++ t else t
    Text.readDecimal? signed

/-- A floating-point number. -/
def readFloat (t : Text) : Except Error Scalar :=
  let (negative, t) := dropSign ((t.filter fun c => !c.is '_').map CodePoint.toLower)
  if t.isEmpty then .error .emptyInteger
  else
    match readMagnitudeFloat? negative t with
    | some x => .ok (.float x)
    | none => .error (.notAFloat t)

/-- Whether a year has a 29th of February. -/
def isLeap (year : Nat) : Bool := year % 4 == 0 && (year % 100 != 0 || year % 400 == 0)

/-- The number of days of a month. -/
def daysOf (year month : Nat) : Nat :=
  if month == 2 then if isLeap year then 29 else 28
  else if [4, 6, 9, 11].contains month then 30
  else 31

/-- A day of the calendar. -/
def checkedDay (year month day : Nat) : Except Error Day :=
  if year == 0 then .error (.noSuchTime "year 0 is out of range")
  else if month == 0 || 12 < month then .error (.noSuchTime "month must be in 1..12")
  else if day == 0 || daysOf year month < day then
    .error (.noSuchTime "day is out of range for month")
  else .ok ⟨year, month, day⟩

/-- Minutes ahead of universal time. -/
def checkedZone (zone : Bool × Text × Text) : Except Error Int :=
  let (negative, hours, minutes) := zone
  let n : Int := Text.readNat 10 hours * 60 + Text.readNat 10 minutes
  let ahead := if negative then -n else n
  if n < minutesPerDay then .ok ahead
  else
    .error (.noSuchTime ("offset must be a timedelta strictly between -timedelta(hours=24) and "
      ++ "timedelta(hours=24), not " ++ Clock.deltaSpelling ahead))

/-- Millionths of a second from the digits behind the point; further digits are left out. -/
def micros (fraction : Text) : Nat :=
  let digits := fraction.take 6
  Text.readNat 10 digits * Nat.pow 10 (6 - digits.length)

/-- A point in time. -/
def readTime (t : Text) : Except Error Scalar := do
  match timeParts? t with
  | none => .error .notATime
  | some p =>
    let zone ← p.zone.mapM checkedZone
    let day ← checkedDay (Text.readNat 10 p.year) (Text.readNat 10 p.month) (Text.readNat 10 p.day)
    match p.clock with
    | none => return .time day none
    | some (hour, minute, second, fraction) =>
      let (h, m, s) := (Text.readNat 10 hour, Text.readNat 10 minute, Text.readNat 10 second)
      if 23 < h then .error (.noSuchTime "hour must be in 0..23")
      else if 59 < m then .error (.noSuchTime "minute must be in 0..59")
      else if 59 < s then .error (.noSuchTime "second must be in 0..59")
      else return .time day (some ⟨h, m, s, micros fraction, zone⟩)

end Debundle.Yaml
