import Debundle.Text.Quoted

/-!
# Encodings

What is printed, and what names a file, is made of bytes in the end.  An encoding has bytes for some
characters and not for others, but always for those of ASCII.

* `Encoding`: the characters that have bytes, and what is said of the others.
* `Encoding.utf8`, `Encoding.unlimited`: all but the surrogates; all.
* `Unencodable`: characters without bytes, next to each other.
* `Encoding.gap?`: the first of them in a text.
* `Encoding.Covers`: all characters of a text have bytes.
-/

namespace Debundle

/-- An encoding of texts, by the characters that it has bytes for. -/
structure Encoding where
  /-- Its name. -/
  name : Text
  /-- Why it has no bytes for the other characters. -/
  reason : Text
  /-- Whether it has bytes for a character. -/
  has : CodePoint → Bool
  /-- It has bytes for the characters of ASCII. -/
  has_ascii : ∀ c : CodePoint, c.val < 0x80 → has c = true

/-- Characters next to each other that an encoding has no bytes for. -/
structure Unencodable where
  /-- The name of the encoding. -/
  encoding : Text
  /-- Why it has no bytes for them. -/
  reason : Text
  /-- The first of them. -/
  first : CodePoint
  /-- Its offset in code points. -/
  start : Nat
  /-- How many there are. -/
  size : Nat
deriving DecidableEq, Repr

/-- What is said of characters without bytes. -/
def Unencodable.message (u : Unencodable) : Text :=
  let place : Text :=
    if u.size = 1 then
      "character '" ++ u.first.numbered ++ "' in position " ++ Text.ofNat u.start
    else
      "characters in position " ++ Text.ofNat u.start ++ "-" ++ Text.ofNat (u.start + u.size - 1)
  "'" ++ u.encoding ++ "' codec can't encode " ++ place ++ ": " ++ u.reason

namespace Encoding

/-- The character at the front of a text, which is at offset `start`, with those right behind it that
have no bytes either. -/
def gapAt (e : Encoding) (start : Nat) (first : CodePoint) (rest : Text) : Unencodable :=
  ⟨e.name, e.reason, first, start, 1 + (rest.takeWhile fun c => !e.has c).length⟩

/-- The first characters without bytes in a text that begins at offset `start`. -/
def gapFrom? (e : Encoding) (start : Nat) : Text → Option Unencodable
  | [] => none
  | c :: rest => if e.has c then e.gapFrom? (start + 1) rest else some (e.gapAt start c rest)

/-- The first characters without bytes in a text. -/
def gap? (e : Encoding) (t : Text) : Option Unencodable := e.gapFrom? 0 t

/-- All characters of a text have bytes. -/
def Covers (e : Encoding) (t : Text) : Prop := ∀ c ∈ t, e.has c = true

instance (e : Encoding) (t : Text) : Decidable (e.Covers t) :=
  inferInstanceAs (Decidable (∀ c ∈ t, e.has c = true))

theorem gapFrom?_eq_none_iff {e : Encoding} {start : Nat} {t : Text} :
    e.gapFrom? start t = none ↔ e.Covers t := by
  induction t generalizing start with
  | nil => exact ⟨fun _ c hc => absurd hc List.not_mem_nil, fun _ => rfl⟩
  | cons c t ih =>
    rw [gapFrom?, Covers, List.forall_mem_cons]
    split
    · rename_i hc
      exact ih.trans ⟨fun ht => ⟨hc, ht⟩, fun h => h.2⟩
    · rename_i hc
      exact ⟨fun h => (by cases h), fun h => absurd h.1 hc⟩

/-- A text is covered if no characters without bytes are found in it. -/
theorem gap?_eq_none_iff {e : Encoding} {t : Text} : e.gap? t = none ↔ e.Covers t :=
  gapFrom?_eq_none_iff

/-- UTF-8 has bytes for all characters but the surrogates. -/
def utf8 : Encoding where
  name := "utf-8"
  reason := "surrogates not allowed"
  has c := !c.isSurrogate
  has_ascii c hc := by
    simp only [CodePoint.isSurrogate, Bool.not_eq_true', Bool.and_eq_false_iff, decide_eq_false_iff_not]
    left
    omega

/-- A text that is only kept may have any characters. -/
def unlimited : Encoding := ⟨[], [], fun _ => true, fun _ _ => rfl⟩

end Encoding

end Debundle
