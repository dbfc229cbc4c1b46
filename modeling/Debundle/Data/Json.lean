import Debundle.Data.Sorting
import Debundle.Ranking

/-!
# Written values

How a report is written to a file: one item a line, two columns for each level, nothing escaped
that need not be.

Not every value can be written.  Points in time have no written form, an integer must not have too
many digits, and keys that are to be in order must be such that any two of them can be compared.
This is found out only when it is the turn of the part that cannot be written; what stands in front
of it is written before.

* `Text.jsonQuoted`: a text between double quotes.
* `Value.toJson`: a value over as many lines as it has items.
* `Value.sortKeys`: a value with the entries of every mapping in the order of their keys.
* `JsonFault`: why a value cannot be written.
* `JsonText`: the pieces in which a value is written, as far as it can be.
* `Value.jsonText`: those of a value.
-/

namespace Debundle

/-- One code point between double quotes: only quotes, backslashes and control characters are
escaped. -/
def CodePoint.jsonEscaped (c : CodePoint) : Text :=
  if c.is '"' then "\\\""
  else if c.is '\\' then "\\\\"
  else if c.is '\n' then "\\n"
  else if c.is '\r' then "\\r"
  else if c.is '\t' then "\\t"
  else if c.val == 0x8 then "\\b"
  else if c.val == 0xC then "\\f"
  else if c.val < 0x20 then "\\u" ++ Text.ofHex 4 c.val
  else [c]

/-- A text between double quotes. -/
def Text.jsonQuoted (t : Text) : Text := "\"" ++ t.flatMap CodePoint.jsonEscaped ++ "\""

/-- A floating-point number: with the fewest digits, infinities and the non-number in words. -/
def Binary64.toJson : Binary64 → Text
  | .infinite negative => if negative then "-Infinity" else "Infinity"
  | .nan => "NaN"
  | x => x.spelling

namespace Scalar

/-- A scalar in a written value; a point in time has no form in it. -/
def toJson : Scalar → Text
  | .null => "null"
  | .bool true => "true"
  | .bool false => "false"
  | .int n => Text.ofInt n
  | .float x => x.toJson
  | .text t => t.jsonQuoted
  | .time _ _ => []

/-- A key in a written value, always between quotes. -/
def toJsonKey : Scalar → Text
  | .text t => t.jsonQuoted
  | s => s.toJson.jsonQuoted

end Scalar

namespace Value

/-- The beginning of a line at a level. -/
def newLine (level : Nat) : Text := CodePoint.ofChar '\n' :: List.replicate (2 * level) ' '

/-- A value at a level of indentation. -/
def jsonAt (level : Nat) : Value → Text
  | .scalar s => s.toJson
  | .list [] => "[]"
  | .list (v :: vs) =>
    "[" ++ newLine (level + 1) ++ jsonAt (level + 1) v ++ jsonItems (level + 1) vs ++ newLine level
      ++ "]"
  | .mapping [] => "\x7b\x7d"
  | .mapping ((k, v) :: es) =>
    "\x7b" ++ newLine (level + 1) ++ k.toJsonKey ++ ": " ++ jsonAt (level + 1) v
      ++ jsonEntries (level + 1) es ++ newLine level ++ "\x7d"
where
  /-- The items of a list behind the first. -/
  jsonItems (level : Nat) : List Value → Text
    | [] => []
    | v :: vs => "," ++ newLine level ++ jsonAt level v ++ jsonItems level vs
  /-- The entries of a mapping behind the first. -/
  jsonEntries (level : Nat) : List (Scalar × Value) → Text
    | [] => []
    | (k, v) :: es =>
      "," ++ newLine level ++ k.toJsonKey ++ ": " ++ jsonAt level v ++ jsonEntries level es

/-- A value over as many lines as it has items, without a line end behind it. -/
def toJson (v : Value) : Text := jsonAt 0 v

end Value

/-! ## Keys in order -/

namespace Scalar

/-- Whether one key comes before another: numbers by size, texts by code point. -/
def precedes (a b : Scalar) : Bool := b.exceeds? a == some true

/-- Whether two keys can be compared: numbers with numbers, texts with texts, days with days, and
times of day if both clocks are ahead of universal time by a known amount or neither is. -/
def isComparable : Scalar → Scalar → Bool
  | .time _ none, .time _ none => true
  | .time _ (some c), .time _ (some d) => c.ahead.isSome == d.ahead.isSome
  | a, b => (b.exceeds? a).isSome

end Scalar

namespace Mapping

/-- Whether any two keys can be compared.  To put two or more keys in order each is compared with
others until all of them are connected, so a pair that cannot be compared always comes up. -/
def isSortable (m : Mapping) : Bool :=
  m.length ≤ 1 || m.all fun e => m.all fun e' => e.1.isComparable e'.1

/-- The entries in the order of their keys.  Points in time stay as they are, since no key of that
sort is written. -/
def sorted (m : Mapping) : Mapping := Sorting.sort (fun a b => a.1.precedes b.1) m

end Mapping

namespace Value

/-- A value with the entries of every mapping in the order of their keys. -/
def sortKeys : Value → Value
  | .scalar s => .scalar s
  | .list items => .list (sortItems items)
  | .mapping entries => .mapping (Mapping.sorted (sortEntries entries))
where
  /-- The items of a list, each sorted inside. -/
  sortItems : List Value → List Value
    | [] => []
    | v :: vs => v.sortKeys :: sortItems vs
  /-- The entries of a mapping, each sorted inside. -/
  sortEntries : List (Scalar × Value) → List (Scalar × Value)
    | [] => []
    | (k, v) :: es => (k, v.sortKeys) :: sortEntries es

/-- A value as it is written, with its keys in order if that is asked for. -/
def arranged (sorted : Bool) (v : Value) : Value := if sorted then v.sortKeys else v

end Value

/-! ## What cannot be written -/

/-- Why a value cannot be written. -/
inductive JsonFault where
  /-- A point in time has no written form. -/
  | time (day : Day) (clock : Option Clock)
  /-- A point in time is no key. -/
  | timeKey (day : Day) (clock : Option Clock)
  /-- Keys that are to be in order cannot be compared. -/
  | unordered
  /-- An integer has too many digits. -/
  | longInteger
deriving DecidableEq, Repr

/-- How many digits an integer may have that is written. -/
def JsonFault.digitLimit : Nat := 4300

/-- The sort of a point in time. -/
def JsonFault.timeSort (clock : Option Clock) : Text :=
  if clock.isSome then "datetime" else "date"

/-- What is said of a value that cannot be written. -/
def JsonFault.message : JsonFault → Text
  | .time _ clock => "Object of type " ++ timeSort clock ++ " is not JSON serializable"
  | .timeKey _ clock => "keys must be str, int, float, bool or None, not " ++ timeSort clock
  | .unordered => "keys of different sorts cannot be compared"
  | .longInteger =>
    "Exceeds the limit (4300 digits) for integer string conversion; "
      ++ "use sys.set_int_max_str_digits() to increase the limit"

namespace Scalar

/-- Why a scalar is no part of a written value, if it is none. -/
def jsonFault? : Scalar → Option JsonFault
  | .int n =>
    if JsonFault.digitLimit < (Text.ofNat n.natAbs).length then some .longInteger else none
  | .time day clock => some (.time day clock)
  | _ => none

/-- Why a scalar is no key in a written value, if it is none. -/
def jsonKeyFault? : Scalar → Option JsonFault
  | .time day clock => some (.timeKey day clock)
  | s => s.jsonFault?

end Scalar

/-! ## Pieces -/

/-- What is written of a value, piece by piece, and why it breaks off if it does. -/
structure JsonText where
  /-- The pieces. -/
  pieces : List Text
  /-- Why there are no more of them. -/
  fault : Option JsonFault
deriving DecidableEq, Repr

namespace JsonText

/-- Some pieces, and all is well. -/
def whole (pieces : List Text) : JsonText := ⟨pieces, none⟩

/-- Nothing, and this is why. -/
def broken (fault : JsonFault) : JsonText := ⟨[], some fault⟩

/-- One thing behind another, unless this one breaks off. -/
def append (front back : JsonText) : JsonText :=
  match front.fault with
  | some _ => front
  | none => ⟨front.pieces ++ back.pieces, back.fault⟩

instance : Append JsonText := ⟨append⟩

/-- A scalar, in one piece with what stands before it.  That a point in time has no form shows only
after this was written. -/
def ofScalar (front : Text) (s : Scalar) : JsonText :=
  match s.jsonFault? with
  | none => whole [front ++ s.toJson]
  | some (.time day clock) => ⟨[front], some (.time day clock)⟩
  | some fault => broken fault

/-- A key with the mark behind it, and before it what keeps it apart from the entry in front. -/
def ofKey (front : List Text) (k : Scalar) : JsonText :=
  match k.jsonKeyFault? with
  | none => whole (front ++ [k.toJsonKey, ": "])
  | some fault => broken fault

end JsonText

namespace Value

open JsonText

/-- A value at a level of indentation, whose keys have to be in order if `sorted`.  A scalar in a
list is one piece with what stands before it; in a mapping it is a piece of its own. -/
def piecesAt (sorted : Bool) (level : Nat) : Value → JsonText
  | .scalar s => ofScalar [] s
  | .list items =>
    if items.isEmpty then whole ["[]"]
    else
      itemPieces (level + 1) ("[" ++ newLine (level + 1)) items ++ whole [newLine level, "]"]
  | .mapping entries =>
    if entries.isEmpty then whole ["\x7b\x7d"]
    else
      whole ["\x7b", newLine (level + 1)]
        ++ (if sorted && !Mapping.isSortable entries then broken .unordered
          else entryPieces (level + 1) [] entries)
        ++ whole [newLine level, "\x7d"]
where
  /-- The items of a list behind what stands before the first of them. -/
  itemPieces (level : Nat) (front : Text) : List Value → JsonText
    | [] => whole []
    | v :: vs =>
      (match v with
        | .scalar s => ofScalar front s
        | v => whole [front] ++ piecesAt sorted level v)
        ++ itemPieces level ("," ++ newLine level) vs
  /-- The entries of a mapping behind what stands before the first of them. -/
  entryPieces (level : Nat) (front : List Text) : List (Scalar × Value) → JsonText
    | [] => whole []
    | (k, v) :: es =>
      ofKey front k ++ piecesAt sorted level v ++ entryPieces level ["," ++ newLine level] es

/-- What is written of a value. -/
def jsonText (sorted : Bool) (v : Value) : JsonText := piecesAt sorted 0 (v.arranged sorted)

end Value

end Debundle
