import Debundle.Text.Encoding
import Debundle.Text.Utf8

/-!
# File names

A file system names its files by bytes.  A text names a file by its UTF-8 bytes, and a byte that
is not part of any UTF-8 character is written in a text as the surrogate `0xDC00 + byte`, so that
every name of bytes has a text.

* `Text.nameBytes`: the bytes of a name; fails at a surrogate that stands for no byte.
* `Bytes.nameText`: the text of a name.
-/

namespace Debundle

/-- The byte that a surrogate stands for in a file name. -/
def CodePoint.escapedByte? (c : CodePoint) : Option UInt8 :=
  if 0xDC80 ≤ c.val && c.val ≤ 0xDCFF then some (c.val - 0xDC00).toUInt8 else none

/-- The surrogate that stands for a byte in a file name. -/
def CodePoint.ofEscapedByte (b : UInt8) : CodePoint := ⟨0xDC00 + b.toNat, by
  have := b.toNat_lt
  omega⟩

namespace Text

/-- The bytes of a file name that begins at offset `start`. -/
def nameBytesFrom (start : Nat) : Text → Except Unencodable Bytes
  | [] => .ok []
  | c :: rest =>
    if c.isSurrogate then
      match c.escapedByte? with
      | some b => return b :: (← nameBytesFrom (start + 1) rest)
      | none => .error (Encoding.utf8.gapAt start c rest)
    else return c.utf8 ++ (← nameBytesFrom (start + 1) rest)

/-- The bytes of a file name. -/
def nameBytes (t : Text) : Except Unencodable Bytes := nameBytesFrom 0 t

/-- The bytes of a content that begins at offset `start`. -/
def contentBytesFrom (start : Nat) : Text → Except Unencodable Bytes
  | [] => .ok []
  | c :: rest =>
    if c.isSurrogate then .error (Encoding.utf8.gapAt start c rest)
    else return c.utf8 ++ (← contentBytesFrom (start + 1) rest)

end Text

namespace Bytes

/-- The text of a file name, `skip` bytes of which belong to a character already read. -/
def nameTextFrom (skip : Nat) : Bytes → Text
  | [] => []
  | byte :: rest =>
    match skip with
    | skip + 1 => nameTextFrom skip rest
    | 0 =>
      match decodeOne byte.toNat ((rest.take 3).map UInt8.toNat) with
      | .error _ => CodePoint.ofEscapedByte byte :: nameTextFrom 0 rest
      | .ok (n, size) => (CodePoint.ofNat? n).getD default :: nameTextFrom (size - 1) rest

/-- The text of a file name. -/
def nameText (bytes : Bytes) : Text := nameTextFrom 0 bytes

end Bytes

end Debundle
