import Debundle.Text.Utf8

/-!
# Digests

Two modules are taken for the same when their sources have the same MD5 digest.  The digest is
computed as the standard lays it down: the message is padded to whole blocks of 64 bytes, and
each block is mixed into four words in 64 steps.

* `Digest.md5`: the four words for some bytes.
* `Digest.hex`: their bytes in hexadecimal.
* `Text.digest`: the digest of a text; a text that has no UTF-8 form has none.
-/

namespace Debundle.Digest

/-- The four words that a digest consists of. -/
structure State where
  /-- The first word. -/
  a : UInt32
  /-- The second word. -/
  b : UInt32
  /-- The third word. -/
  c : UInt32
  /-- The fourth word. -/
  d : UInt32
deriving DecidableEq, Repr

/-- The words at the beginning. -/
def initial : State := ⟨0x67452301, 0xefcdab89, 0x98badcfe, 0x10325476⟩

/-- By how much the steps of each of the four rounds rotate. -/
def rotations : List (List UInt32) := [[7, 12, 17, 22], [5, 9, 14, 20], [4, 11, 16, 23], [6, 10, 15, 21]]

/-- The constants that the steps add: the integer parts of `2 ^ 32 · |sin i|`. -/
def constants : List UInt32 := [
  0xd76aa478, 0xe8c7b756, 0x242070db, 0xc1bdceee, 0xf57c0faf, 0x4787c62a, 0xa8304613, 0xfd469501,
  0x698098d8, 0x8b44f7af, 0xffff5bb1, 0x895cd7be, 0x6b901122, 0xfd987193, 0xa679438e, 0x49b40821,
  0xf61e2562, 0xc040b340, 0x265e5a51, 0xe9b6c7aa, 0xd62f105d, 0x02441453, 0xd8a1e681, 0xe7d3fbc8,
  0x21e1cde6, 0xc33707d6, 0xf4d50d87, 0x455a14ed, 0xa9e3e905, 0xfcefa3f8, 0x676f02d9, 0x8d2a4c8a,
  0xfffa3942, 0x8771f681, 0x6d9d6122, 0xfde5380c, 0xa4beea44, 0x4bdecfa9, 0xf6bb4b60, 0xbebfbc70,
  0x289b7ec6, 0xeaa127fa, 0xd4ef3085, 0x04881d05, 0xd9d4d039, 0xe6db99e5, 0x1fa27cf8, 0xc4ac5665,
  0xf4292244, 0x432aff97, 0xab9423a7, 0xfc93a039, 0x655b59c3, 0x8f0ccc92, 0xffeff47d, 0x85845dd1,
  0x6fa87e4f, 0xfe2ce6e0, 0xa3014314, 0x4e0811a1, 0xf7537e82, 0xbd3af235, 0x2ad7d2bb, 0xeb86d391]

/-- A word rotated to the left. -/
def rotateLeft (x n : UInt32) : UInt32 := (x <<< n) ||| (x >>> (32 - n))

/-- What step `i` mixes out of three of the words. -/
def mix (i : Nat) (s : State) : UInt32 :=
  if i < 16 then (s.b &&& s.c) ||| (~~~s.b &&& s.d)
  else if i < 32 then (s.d &&& s.b) ||| (~~~s.d &&& s.c)
  else if i < 48 then s.b ^^^ s.c ^^^ s.d
  else s.c ^^^ (s.b ||| ~~~s.d)

/-- Which word of the block step `i` uses. -/
def wordIndex (i : Nat) : Nat :=
  if i < 16 then i
  else if i < 32 then (5 * i + 1) % 16
  else if i < 48 then (3 * i + 5) % 16
  else (7 * i) % 16

/-- One step: step number, constant and state. -/
def step (words : Array UInt32) (s : State) (k : UInt32 × Nat) : State :=
  let (constant, i) := k
  let rotation := ((rotations.getD (i / 16) []).getD (i % 4) 0)
  let sum := s.a + mix i s + constant + words.getD (wordIndex i) 0
  ⟨s.d, s.b + rotateLeft sum rotation, s.b, s.c⟩

/-- The words of a block, the least significant byte first. -/
def toWords : Bytes → List UInt32
  | w :: x :: y :: z :: rest =>
    (w.toUInt32 ||| (x.toUInt32 <<< 8) ||| (y.toUInt32 <<< 16) ||| (z.toUInt32 <<< 24))
      :: toWords rest
  | _ => []

/-- Mixes a block into the state. -/
def absorb (s : State) (block : Bytes) : State :=
  let words := (toWords block).toArray
  let t := constants.zipIdx.foldl (step words) s
  ⟨s.a + t.a, s.b + t.b, s.c + t.c, s.d + t.d⟩

/-- The `n` bytes of a number, the least significant first. -/
def littleEndian : Nat → Nat → Bytes
  | 0, _ => []
  | n + 1, value => (value % 256).toUInt8 :: littleEndian n (value / 256)

/-- A message filled up to whole blocks: a one bit, zeros, and the length in bits. -/
def padded (bytes : Bytes) : Bytes :=
  let size := bytes.length
  let zeros := (119 - size % 64) % 64
  bytes ++ [0x80] ++ List.replicate zeros 0 ++ littleEndian 8 (size * 8 % 0x10000000000000000)

/-- Mixes the first blocks of a message into the state, at most `count` of them. -/
def absorbBlocks : Nat → State → Bytes → State
  | 0, s, _ => s
  | count + 1, s, bytes => absorbBlocks count (absorb s (bytes.take 64)) (bytes.drop 64)

/-- The digest of some bytes. -/
def md5 (bytes : Bytes) : State :=
  let message := padded bytes
  absorbBlocks (message.length / 64) initial message

/-- The bytes of a digest in hexadecimal. -/
def hex (s : State) : Text :=
  ([s.a, s.b, s.c, s.d].flatMap fun w => littleEndian 4 w.toNat).flatMap fun byte =>
    Text.ofHex 2 byte.toNat

end Debundle.Digest

/-- The digest of a text in hexadecimal; the offset of the first surrogate if there is one. -/
def Debundle.Text.digest (t : Debundle.Text) : Except Nat Debundle.Text := do
  return Debundle.Digest.hex (Debundle.Digest.md5 (← t.encode))
