import Debundle.Decimal.Shortest
import Debundle.Text.Quoted

/-!
# Values

Configuration files, module descriptions and reports are made of values: scalars, lists and
mappings.  A mapping keeps its entries in the order in which its keys first came, and a key is
never there twice.

* `Scalar`, `Value`: the values.
* `Scalar.sameKey`: when two scalars are one key.  A truth value is the same key as the number
  zero or one, and a whole number is the same key however it is written.
* `Value.isTruthy`: whether a value counts as given.
* `Scalar.display`, `Value.display`: a value as a message shows it, texts as they are.
* `Scalar.spelling`, `Value.spelling`: the same with texts between quotes.
* `Mapping.insert`: the entry under a key, replaced in place or added at the end.
-/

namespace Debundle

/-! ## Points in time -/

/-- A day of the calendar. -/
structure Day where
  /-- The year. -/
  year : Nat
  /-- The month, from one to twelve. -/
  month : Nat
  /-- The day of the month, from one on. -/
  day : Nat
deriving DecidableEq, Repr

/-- A time of day, and how far its clock is ahead of universal time if that is known. -/
structure Clock where
  /-- The hour, below 24. -/
  hour : Nat
  /-- The minute, below 60. -/
  minute : Nat
  /-- The second, below 60. -/
  second : Nat
  /-- Millionths of a second. -/
  micros : Nat
  /-- Minutes ahead of universal time. -/
  ahead : Option Int
deriving DecidableEq, Repr

/-! ## Values -/

/-- A value without parts. -/
inductive Scalar where
  /-- No value. -/
  | null
  /-- A truth value. -/
  | bool (b : Bool)
  /-- A whole number of any size. -/
  | int (n : Int)
  /-- A floating-point number. -/
  | float (x : Binary64)
  /-- A text. -/
  | text (t : Text)
  /-- A day, with a time of day if one is given. -/
  | time (day : Day) (clock : Option Clock)
deriving DecidableEq, Repr

/-- A value. -/
inductive Value where
  /-- A value without parts. -/
  | scalar (s : Scalar)
  /-- Several values in order. -/
  | list (items : List Value)
  /-- Values under keys. -/
  | mapping (entries : List (Scalar × Value))
deriving Repr

/-- The entries of a mapping. -/
abbrev Mapping := List (Scalar × Value)

instance : Coe Scalar Value := ⟨.scalar⟩

instance : Inhabited Value := ⟨.scalar .null⟩

namespace Scalar

/-- The scalar under which a key is filed: truth values and whole floating-point numbers become
integers. -/
def filed : Scalar → Scalar
  | .bool b => .int (if b then 1 else 0)
  | .float x =>
    match x.integer? with
    | some n => .int n
    | none => .float x
  | s => s

/-- Whether two scalars are one key. -/
def sameKey (a b : Scalar) : Bool := a.filed == b.filed

/-- Whether a scalar counts as given: not null, false, zero or empty. -/
def isTruthy : Scalar → Bool
  | .null => false
  | .bool b => b
  | .int n => n != 0
  | .float x => x.integer? != some 0
  | .text t => !t.isEmpty
  | .time _ _ => true

end Scalar

namespace Mapping

/-- The value under a key. -/
def get? (m : Mapping) (key : Scalar) : Option Value :=
  (m.find? fun e => e.1.sameKey key).map Prod.snd

/-- Puts a value under a key: in the place of the key if it is there, at the end otherwise. -/
def insert (key : Scalar) (value : Value) : Mapping → Mapping
  | [] => [(key, value)]
  | (k, v) :: m => if k.sameKey key then (k, value) :: m else (k, v) :: insert key value m

end Mapping

namespace Value

/-- Whether a value counts as given: a list or mapping does unless it is empty. -/
def isTruthy : Value → Bool
  | .scalar s => s.isTruthy
  | .list items => !items.isEmpty
  | .mapping entries => !entries.isEmpty

end Value

/-! ## Display -/

/-- The number of minutes of a day. -/
def minutesPerDay : Int := 24 * 60

/-- How far a clock is ahead, as hours and minutes with a sign. -/
def Clock.offsetText (ahead : Int) : Text :=
  let sign : Text := if ahead < 0 then "-" else "+"
  sign ++ Text.ofNatPadded 2 (ahead.natAbs / 60) ++ ":" ++ Text.ofNatPadded 2 (ahead.natAbs % 60)

/-- A number of minutes as a count of days and seconds, of which only the days may be negative. -/
def Clock.deltaSpelling (minutes : Int) : Text :=
  let days := minutes.fdiv minutesPerDay
  let seconds := (minutes.fmod minutesPerDay) * 60
  let parts : List Text :=
    (if days == 0 then [] else ["days=" ++ Text.ofInt days])
      ++ (if seconds == 0 then [] else ["seconds=" ++ Text.ofInt seconds])
  "datetime.timedelta(" ++ Text.join ", " parts ++ ")"

/-- How far a clock is ahead, as the expression that says it. -/
def Clock.offsetSpelling (ahead : Int) : Text :=
  if ahead == 0 then "datetime.timezone.utc"
  else "datetime.timezone(" ++ Clock.deltaSpelling ahead ++ ")"

namespace Scalar

/-- A point in time as a message shows it. -/
def displayTime (day : Day) (clock : Option Clock) : Text :=
  let date := Text.ofNatPadded 4 day.year ++ "-" ++ Text.ofNatPadded 2 day.month ++ "-"
    ++ Text.ofNatPadded 2 day.day
  match clock with
  | none => date
  | some c =>
    let fraction : Text := if c.micros == 0 then [] else "." ++ Text.ofNatPadded 6 c.micros
    date ++ " " ++ Text.ofNatPadded 2 c.hour ++ ":" ++ Text.ofNatPadded 2 c.minute ++ ":"
      ++ Text.ofNatPadded 2 c.second ++ fraction ++ (c.ahead.map Clock.offsetText).getD []

/-- A point in time as the expression that makes it. -/
def spellTime (day : Day) (clock : Option Clock) : Text :=
  let date := [day.year, day.month, day.day]
  match clock with
  | none => "datetime.date(" ++ Text.join ", " (date.map Text.ofNat) ++ ")"
  | some c =>
    let seconds :=
      if c.micros != 0 then [c.second, c.micros] else if c.second != 0 then [c.second] else []
    let zone : List Text :=
      match c.ahead with
      | some ahead => ["tzinfo=" ++ Clock.offsetSpelling ahead]
      | none => []
    "datetime.datetime("
      ++ Text.join ", " ((date ++ [c.hour, c.minute] ++ seconds).map Text.ofNat ++ zone) ++ ")"

/-- A scalar as a message shows it, a text as it is. -/
def display : Scalar → Text
  | .null => "None"
  | .bool true => "True"
  | .bool false => "False"
  | .int n => Text.ofInt n
  | .float x => x.spelling
  | .text t => t
  | .time day clock => displayTime day clock

/-- A scalar as a message shows it, a text between quotes. -/
def spelling : Scalar → Text
  | .text t => t.quoted
  | .time day clock => spellTime day clock
  | s => s.display

end Scalar

namespace Value

/-- A value as a message shows it, with every text between quotes. -/
def spelling : Value → Text
  | .scalar s => s.spelling
  | .list items => "[" ++ Text.join ", " (spellItems items) ++ "]"
  | .mapping entries => "\x7b" ++ Text.join ", " (spellEntries entries) ++ "\x7d"
where
  /-- The items of a list. -/
  spellItems : List Value → List Text
    | [] => []
    | v :: vs => v.spelling :: spellItems vs
  /-- The entries of a mapping. -/
  spellEntries : List (Scalar × Value) → List Text
    | [] => []
    | (k, v) :: es => (k.spelling ++ ": " ++ v.spelling) :: spellEntries es

/-- A value as a message shows it; a text that is the whole value stands as it is. -/
def display : Value → Text
  | .scalar s => s.display
  | v => v.spelling

end Value

end Debundle
