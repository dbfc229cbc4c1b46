import Debundle.Text.Basic

/-!
# UTF-8

Sources are parsed, cut and hashed as bytes, so every span is a pair of byte offsets.

* `Text.encode`: the bytes of a text; fails at the first surrogate.
* `Bytes.decode`: the text of well-formed bytes; a failure says which bytes are at fault and why.
* `Bytes.slice`: the bytes between two offsets.
-/

namespace Debundle

/-- A sequence of bytes. -/
abbrev Bytes := List UInt8

namespace CodePoint

/-- The number of bytes that UTF-8 uses for a code point. -/
def utf8Size (c : CodePoint) : Nat :=
  if c.val < 0x80 then 1 else if c.val < 0x800 then 2 else if c.val < 0x10000 then 3 else 4

/-- The bytes that UTF-8 uses for a code point. -/
def utf8 (c : CodePoint) : Bytes :=
  let n := c.val
  if n < 0x80 then [n.toUInt8]
  else if n < 0x800 then [(0xC0 + n / 0x40).toUInt8, (0x80 + n % 0x40).toUInt8]
  else if n < 0x10000 then
    [(0xE0 + n / 0x1000).toUInt8, (0x80 + n / 0x40 % 0x40).toUInt8, (0x80 + n % 0x40).toUInt8]
  else
    [(0xF0 + n / 0x40000).toUInt8, (0x80 + n / 0x1000 % 0x40).toUInt8,
      (0x80 + n / 0x40 % 0x40).toUInt8, (0x80 + n % 0x40).toUInt8]

theorem length_utf8 (c : CodePoint) : c.utf8.length = c.utf8Size := by
  simp only [utf8, utf8Size]
  split
  · rfl
  · split
    · rfl
    · split <;> rfl

end CodePoint

namespace Text

/-- The offset, in code points, of the first surrogate. -/
def surrogateAt? (t : Text) : Option Nat := t.findIdx? CodePoint.isSurrogate

/-- The bytes of a text, surrogates written like any other code point. -/
def bytes (t : Text) : Bytes := t.flatMap CodePoint.utf8

/-- The bytes of a text; a text with a surrogate has none, and the offset of the first one is
the error. -/
def encode (t : Text) : Except Nat Bytes :=
  match t.surrogateAt? with
  | some offset => .error offset
  | none => .ok t.bytes

/-- The number of bytes of a text. -/
def utf8Size : Text → Nat
  | [] => 0
  | c :: cs => c.utf8Size + utf8Size cs

theorem length_bytes (t : Text) : t.bytes.length = t.utf8Size := by
  induction t with
  | nil => rfl
  | cons c cs ih =>
    rw [bytes, List.flatMap_cons, List.length_append, CodePoint.length_utf8, utf8Size]
    exact congrArg (c.utf8Size + ·) ih

end Text

namespace Bytes

/-- Why bytes are not UTF-8. -/
inductive Flaw where
  /-- A byte that starts no character. -/
  | badStart
  /-- A byte that does not continue the character begun before it. -/
  | badContinuation
  /-- The bytes end inside a character. -/
  | truncated
deriving DecidableEq, Repr

/-- Bytes at fault: `size` bytes, the first of them `first`, at offset `start`. -/
structure DecodeError where
  /-- Offset of the first byte at fault. -/
  start : Nat
  /-- How many bytes are at fault. -/
  size : Nat
  /-- The first byte at fault. -/
  first : UInt8
  /-- What is wrong. -/
  flaw : Flaw
deriving DecidableEq, Repr

/-- Whether a byte continues a character. -/
def isTail (b : Nat) : Bool := 0x80 ≤ b && b ≤ 0xBF

/-- Whether `b` may follow the first byte `a` of a longer character: surrogates, numbers above
`0x10FFFF` and needlessly long forms are shut out here. -/
def isSecond (a b : Nat) : Bool :=
  isTail b && !(a == 0xE0 && b < 0xA0) && !(a == 0xED && 0xA0 ≤ b) && !(a == 0xF0 && b < 0x90)
    && !(a == 0xF4 && 0x90 ≤ b)

/-- One character at the front of `bytes`: the code point with its size, or the flaw with the
number of bytes at fault. -/
def decodeOne (a : Nat) (rest : List Nat) : Except (Nat × Flaw) (Nat × Nat) :=
  if a < 0x80 then .ok (a, 1)
  else if a < 0xC2 || 0xF4 < a then .error (1, .badStart)
  else
    match rest with
    | [] => .error (1, .truncated)
    | b :: rest =>
      if !isSecond a b then .error (1, .badContinuation)
      else if a < 0xE0 then .ok ((a - 0xC0) * 0x40 + (b - 0x80), 2)
      else
        match rest with
        | [] => .error (2, .truncated)
        | c :: rest =>
          if !isTail c then .error (2, .badContinuation)
          else if a < 0xF0 then
            .ok ((a - 0xE0) * 0x1000 + (b - 0x80) * 0x40 + (c - 0x80), 3)
          else
            match rest with
            | [] => .error (3, .truncated)
            | d :: _ =>
              if !isTail d then .error (3, .badContinuation)
              else
                .ok ((a - 0xF0) * 0x40000 + (b - 0x80) * 0x1000 + (c - 0x80) * 0x40 + (d - 0x80), 4)

/-- Decodes bytes at the given offset, `skip` of which belong to a character already read. -/
def decodeFrom (offset skip : Nat) : Bytes → Except DecodeError Text
  | [] => .ok []
  | byte :: rest =>
    match skip with
    | skip + 1 => decodeFrom (offset + 1) skip rest
    | 0 =>
      match decodeOne byte.toNat ((rest.take 3).map UInt8.toNat) with
      | .error (size, flaw) => .error ⟨offset, size, byte, flaw⟩
      | .ok (n, size) => do
        let text ← decodeFrom (offset + 1) (size - 1) rest
        return ((CodePoint.ofNat? n).getD default) :: text

/-- The text that bytes encode. -/
def decode (bytes : Bytes) : Except DecodeError Text := decodeFrom 0 0 bytes

/-- The bytes from offset `start` up to offset `stop`. -/
def slice (bytes : Bytes) (start stop : Nat) : Bytes := (bytes.drop start).take (stop - start)

/-- What is said of bytes that are not UTF-8. -/
def DecodeError.message (e : DecodeError) : Text :=
  let place : Text :=
    if e.size = 1 then "byte 0x" ++ Text.ofHex 2 e.first.toNat ++ " in position " ++ Text.ofNat e.start
    else
      "bytes in position " ++ Text.ofNat e.start ++ "-" ++ Text.ofNat (e.start + e.size - 1)
  let reason : Text :=
    match e.flaw with
    | .badStart => "invalid start byte"
    | .badContinuation => "invalid continuation byte"
    | .truncated => "unexpected end of data"
  "'utf-8' codec can't decode " ++ place ++ ": " ++ reason

end Bytes

end Debundle
