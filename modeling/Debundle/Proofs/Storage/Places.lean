import Debundle.Proofs.Journal.Failures
import Debundle.Proofs.Path.Target
import Debundle.Proofs.Text.Decoding
import Debundle.Storage.Disk

/-!
# The place of a path

The system knows a path by its bytes.  A path has bytes if none of its code points is the null
character or a surrogate that stands for no byte.  As a slash is the only code point whose bytes
hold a slash, the pieces of the bytes are the bytes of the pieces.

Nothing on a disk leads elsewhere, so wherever a path can be followed at all, it leads to the place
that its names spell.

* `Bytes.nameBytes_nameText`: every name of bytes has a text.
* `Text.IsNameable`, `exists_systemPath_iff`: which paths the system knows.
* `Disk.placeAt`: the place that the names of a path spell.
* `Disk.create_eq_ok`, `Disk.openFile_eq_ok`, `Disk.move_eq_ok`, `Disk.removeFile_eq_ok`: what a
  step that succeeds does at that place.
* `Disk.placeAt_lead`: the place of components below a directory.
-/

namespace Debundle

/-! ## The bytes of a code point in a name -/

namespace CodePoint

/-- The bytes of a code point in a file name, none for a surrogate that stands for no byte. -/
def nameUnits (c : CodePoint) : Bytes :=
  if c.isSurrogate then c.escapedByte?.toList else c.utf8

/-- A code point that may stand in a path. -/
def IsNameable (c : CodePoint) : Prop :=
  c.val ≠ 0 ∧ (c.isSurrogate = true → c.escapedByte?.isSome = true)

instance (c : CodePoint) : Decidable c.IsNameable :=
  inferInstanceAs (Decidable (_ ∧ _))

theorem le_of_mem_utf8 {c : CodePoint} (hc : 0x80 ≤ c.val) {b : UInt8} (hb : b ∈ c.utf8) :
    0x80 ≤ b.toNat := by
  have hlt := c.isLt
  have hlarge : ∀ n : Nat, 0x80 ≤ n → n < 0x100 → 0x80 ≤ n.toUInt8.toNat := fun n hn hn' => by
    rwa [Bytes.toNat_toUInt8 hn']
  unfold utf8 at hb
  simp only [Nat.not_lt.mpr hc, if_false] at hb
  split at hb
  · simp only [List.mem_cons, List.not_mem_nil, or_false] at hb
    rcases hb with rfl | rfl <;> exact hlarge _ (by omega) (by omega)
  · split at hb
    · simp only [List.mem_cons, List.not_mem_nil, or_false] at hb
      rcases hb with rfl | rfl | rfl <;> exact hlarge _ (by omega) (by omega)
    · simp only [List.mem_cons, List.not_mem_nil, or_false] at hb
      rcases hb with rfl | rfl | rfl | rfl <;> exact hlarge _ (by omega) (by omega)

/-- A code point of ASCII is its own byte. -/
theorem nameUnits_of_lt {c : CodePoint} (hc : c.val < 0x80) : c.nameUnits = [c.val.toUInt8] := by
  have hsurrogate : c.isSurrogate = false := by
    simp only [isSurrogate, Bool.and_eq_false_iff, decide_eq_false_iff_not]
    omega
  rw [nameUnits, hsurrogate, if_neg Bool.false_ne_true, utf8, if_pos hc]

/-- The bytes of any other code point are none of ASCII. -/
theorem le_of_mem_nameUnits {c : CodePoint} (hc : 0x80 ≤ c.val) {b : UInt8}
    (hb : b ∈ c.nameUnits) : 0x80 ≤ b.toNat := by
  unfold nameUnits at hb
  split at hb
  · rw [Option.mem_toList, escapedByte?, Option.ite_none_right_eq_some] at hb
    obtain ⟨hrange, hb⟩ := hb
    obtain rfl := Option.some.inj hb
    simp only [Bool.and_eq_true, decide_eq_true_eq] at hrange
    rw [Bytes.toNat_toUInt8 (by omega)]
    omega
  · exact le_of_mem_utf8 hc hb

/-- A byte of ASCII belongs to the code point with its number. -/
theorem mem_nameUnits_iff {c : CodePoint} {b : UInt8} (hb : b.toNat < 0x80) :
    b ∈ c.nameUnits ↔ c.val = b.toNat := by
  rcases Nat.lt_or_ge c.val 0x80 with hc | hc
  · rw [nameUnits_of_lt hc, List.mem_singleton, ← UInt8.toNat_inj,
      Bytes.toNat_toUInt8 (Nat.lt_trans hc (by decide))]
    exact eq_comm
  · refine ⟨fun hmem => ?_, fun heq => ?_⟩
    · exact absurd (le_of_mem_nameUnits hc hmem) (Nat.not_le.mpr hb)
    · omega

theorem slash_mem_nameUnits_iff {c : CodePoint} :
    (0x2F : UInt8) ∈ c.nameUnits ↔ c = Path.slash := by
  rw [mem_nameUnits_iff (by decide)]
  refine ⟨fun h => ?_, fun h => h ▸ rfl⟩
  cases c
  cases h
  rfl

theorem IsNameable.nameUnits_ne_nil {c : CodePoint} (h : c.IsNameable) : c.nameUnits ≠ [] := by
  unfold nameUnits
  split
  · rename_i hsurrogate
    obtain ⟨b, hb⟩ := Option.isSome_iff_exists.mp (h.2 hsurrogate)
    rw [hb]
    exact List.cons_ne_nil b []
  · refine List.ne_nil_of_length_pos ?_
    rw [length_utf8, utf8Size]
    split
    · exact Nat.one_pos
    · split
      · exact Nat.two_pos
      · split <;> decide

end CodePoint

/-! ## The bytes of a path -/

namespace Text

/-- A text that the system knows as a path. -/
def IsNameable (t : Text) : Prop := ∀ c ∈ t, c.IsNameable

instance (t : Text) : Decidable t.IsNameable :=
  inferInstanceAs (Decidable (∀ c ∈ t, c.IsNameable))

/-- The bytes of a name. -/
def nameUnits (t : Text) : Bytes := t.flatMap CodePoint.nameUnits

variable {t u : Text}

theorem IsNameable.of_subset (hu : u.IsNameable) (h : t ⊆ u) : t.IsNameable :=
  fun c hc => hu c (h hc)

theorem IsNameable.append (ht : t.IsNameable) (hu : u.IsNameable) : (t ++ u).IsNameable :=
  List.forall_mem_append.mpr ⟨ht, hu⟩

theorem nameUnits_cons (c : CodePoint) (t : Text) :
    nameUnits (c :: t) = c.nameUnits ++ t.nameUnits := rfl

theorem nameUnits_append (t u : Text) : (t ++ u).nameUnits = t.nameUnits ++ u.nameUnits :=
  List.flatMap_append

theorem nameUnits_slash (t : Text) : nameUnits (Path.slash :: t) = 0x2F :: t.nameUnits := rfl

theorem IsNameable.nameUnits_ne_nil (ht : t.IsNameable) (hne : t ≠ []) : t.nameUnits ≠ [] := by
  obtain ⟨c, t, rfl⟩ := List.exists_cons_of_ne_nil hne
  exact fun hnil => (ht c List.mem_cons_self).nameUnits_ne_nil (List.append_eq_nil_iff.mp hnil).1

/-- Only a slash gives the byte of a slash. -/
theorem slash_mem_nameUnits_iff : (0x2F : UInt8) ∈ t.nameUnits ↔ Path.slash ∈ t := by
  simp only [nameUnits, List.mem_flatMap, CodePoint.slash_mem_nameUnits_iff, exists_eq_right]

/-- A name with the bytes of a text of ASCII is this text. -/
theorem IsNameable.eq_of_nameUnits_eq (ht : t.IsNameable) (hu : ∀ c ∈ u, c.val < 0x80)
    (h : t.nameUnits = u.nameUnits) : t = u := by
  induction t generalizing u with
  | nil =>
    cases u with
    | nil => rfl
    | cons d u =>
      rw [nameUnits_cons, CodePoint.nameUnits_of_lt (hu d List.mem_cons_self)] at h
      cases h
  | cons c t ih =>
    obtain ⟨hc, ht⟩ := List.forall_mem_cons.mp ht
    cases u with
    | nil => exact absurd (List.append_eq_nil_iff.mp h).1 hc.nameUnits_ne_nil
    | cons d u =>
      obtain ⟨hd, hrest⟩ := List.forall_mem_cons.mp hu
      rw [nameUnits_cons, nameUnits_cons, CodePoint.nameUnits_of_lt hd] at h
      -- the first byte is one of ASCII, so it is all that the first code point has
      have hbyte : d.val.toUInt8.toNat = d.val := Bytes.toNat_toUInt8 (Nat.lt_trans hd (by decide))
      have hmem : d.val.toUInt8 ∈ c.nameUnits := by
        obtain ⟨b, bs, hbs⟩ := List.exists_cons_of_ne_nil hc.nameUnits_ne_nil
        rw [hbs] at h
        rw [hbs, ← (List.cons.inj h).1]
        exact List.mem_cons_self
      have hval : c.val = d.val := by
        rw [← hbyte]
        exact (CodePoint.mem_nameUnits_iff (hbyte.symm ▸ hd)).mp hmem
      rw [CodePoint.nameUnits_of_lt (hval ▸ hd), hval] at h
      obtain rfl : c = d := by
        cases c
        cases d
        cases hval
        rfl
      rw [ih ht hrest (List.cons.inj h).2]

theorem nameBytesFrom_eq_ok_iff {start : Nat} {bytes : Bytes} :
    nameBytesFrom start t = .ok bytes ↔
      (∀ c ∈ t, c.isSurrogate = true → c.escapedByte?.isSome = true) ∧ bytes = t.nameUnits := by
  induction t generalizing start bytes with
  | nil =>
    rw [nameBytesFrom, Except.ok.injEq]
    exact ⟨fun h => ⟨fun c hc => absurd hc List.not_mem_nil, h.symm⟩, fun h => h.2.symm⟩
  | cons c t ih =>
    rw [nameBytesFrom, List.forall_mem_cons, nameUnits_cons, CodePoint.nameUnits]
    have hrest : ∀ units : Bytes,
        (nameBytesFrom (start + 1) t >>= fun rest => pure (units ++ rest)) = .ok bytes ↔
          (∀ c ∈ t, c.isSurrogate = true → c.escapedByte?.isSome = true) ∧
            bytes = units ++ nameUnits t := by
      intro units
      cases hrest : nameBytesFrom (start + 1) t with
      | error e =>
        refine ⟨fun h => (by cases h), fun h => ?_⟩
        rw [ih.mpr ⟨h.1, rfl⟩] at hrest
        cases hrest
      | ok rest =>
        obtain ⟨hall, rfl⟩ := ih.mp hrest
        refine ⟨fun h => ⟨hall, (Except.ok.inj h).symm⟩, fun h => ?_⟩
        rw [h.2]
        rfl
    split
    · rename_i hsurrogate
      cases hescaped : c.escapedByte? with
      | none => simp [hsurrogate]
      | some b => simpa [hsurrogate] using hrest [b]
    · rename_i hsurrogate
      simpa [hsurrogate] using hrest c.utf8

end Text

/-! ## The text of a name -/

/-- A byte outside of ASCII is written as a surrogate that stands for it. -/
theorem CodePoint.nameUnits_ofEscapedByte {b : UInt8} (hb : 0x80 ≤ b.toNat) :
    (ofEscapedByte b).escapedByte?.isSome = true ∧ (ofEscapedByte b).nameUnits = [b] := by
  have hlt := b.toNat_lt
  have hval : (ofEscapedByte b).val = 0xDC00 + b.toNat := rfl
  have hsurrogate : (ofEscapedByte b).isSurrogate = true := by
    simp only [isSurrogate, hval, Bool.and_eq_true, decide_eq_true_eq]
    omega
  have hescaped : (ofEscapedByte b).escapedByte? = some b := by
    rw [escapedByte?, hval, if_pos (by simp; omega), Nat.add_sub_cancel_left,
      Bytes.toUInt8_eq rfl]
  rw [nameUnits, if_pos hsurrogate, hescaped]
  exact ⟨rfl, rfl⟩

namespace Bytes

theorem nameTextFrom_skip (tail rest : Bytes) :
    nameTextFrom tail.length (tail ++ rest) = nameTextFrom 0 rest := by
  induction tail with
  | nil => rfl
  | cons b tail ih => exact ih

theorem nameTextFrom_spec (bytes : Bytes) :
    (∀ c ∈ nameTextFrom 0 bytes, c.isSurrogate = true → c.escapedByte?.isSome = true) ∧
      bytes = (nameTextFrom 0 bytes).nameUnits := by
  induction hlength : bytes.length using Nat.strongRecOn generalizing bytes with
  | ind length ih =>
    cases bytes with
    | nil => exact ⟨fun c hc => absurd hc List.not_mem_nil, rfl⟩
    | cons first rest =>
      rw [List.length_cons] at hlength
      rw [nameTextFrom]
      split
      · rename_i error hone
        -- a byte of ASCII is a character of its own
        have hfirst : 0x80 ≤ first.toNat := by
          by_contra hascii
          simp only [decodeOne, if_pos (Nat.lt_of_not_le hascii)] at hone
          cases hone
        obtain ⟨hescaped, hunits⟩ := CodePoint.nameUnits_ofEscapedByte hfirst
        obtain ⟨hall, hrest⟩ := ih rest.length (by omega) rest rfl
        refine ⟨List.forall_mem_cons.mpr ⟨fun _ => hescaped, hall⟩, ?_⟩
        rw [Text.nameUnits_cons, hunits, ← hrest]
        rfl
      · rename_i n size hone
        obtain ⟨c, tail, after, hc, rfl, hutf8, rfl, rfl⟩ := exists_utf8_of_decodeOne hone
        have hnumber : CodePoint.ofNat? c.val = some c := dif_pos c.isLt
        rw [List.length_append] at hlength
        obtain ⟨hall, hafter⟩ := ih after.length (by omega) after rfl
        rw [Nat.add_sub_cancel, nameTextFrom_skip, hnumber, Option.getD_some]
        refine ⟨List.forall_mem_cons.mpr ⟨fun h => ?_, hall⟩, ?_⟩
        · rw [hc] at h
          cases h
        · rw [Text.nameUnits_cons, CodePoint.nameUnits, if_neg (by rw [hc]; exact Bool.false_ne_true),
            hutf8, ← hafter]
          rfl

/-- Every name of bytes has a text. -/
theorem nameBytes_nameText (bytes : Bytes) : bytes.nameText.nameBytes = .ok bytes :=
  Text.nameBytesFrom_eq_ok_iff.mpr (nameTextFrom_spec bytes)

end Bytes

/-! ## Paths -/

/-- The bytes of a path are those of its code points. -/
theorem systemPath_eq_ok_iff {path : Text} {bytes : Bytes} :
    systemPath path = .ok bytes ↔ path.IsNameable ∧ bytes = path.nameUnits := by
  have hzero : (0 : UInt8) ∈ path.nameUnits ↔ ∃ c ∈ path, c.val = 0 := by
    simp only [Text.nameUnits, List.mem_flatMap]
    exact exists_congr fun c => and_congr_right fun _ => CodePoint.mem_nameUnits_iff (by decide)
  unfold systemPath Text.nameBytes
  cases hbytes : Text.nameBytesFrom 0 path with
  | error e =>
    refine ⟨fun h => (by cases h), fun h => ?_⟩
    rw [Text.nameBytesFrom_eq_ok_iff.mpr ⟨fun c hc => (h.1 c hc).2, rfl⟩] at hbytes
    cases hbytes
  | ok units =>
    obtain ⟨hall, rfl⟩ := Text.nameBytesFrom_eq_ok_iff.mp hbytes
    show (if path.nameUnits.contains 0 = true then Except.error StorageError.nullInPath
      else Except.ok path.nameUnits) = Except.ok bytes ↔ _
    split
    · rename_i hnull
      obtain ⟨c, hc, hnull⟩ := hzero.mp (List.contains_iff_mem.mp hnull)
      exact ⟨fun h => (by cases h), fun h => absurd hnull (h.1 c hc).1⟩
    · rename_i hnull
      rw [List.contains_iff_mem, hzero] at hnull
      exact ⟨fun h => ⟨fun c hc => ⟨fun hz => hnull ⟨c, hc, hz⟩, hall c hc⟩,
        (Except.ok.inj h).symm⟩, fun h => h.2 ▸ rfl⟩

theorem exists_systemPath_iff {path : Text} :
    (∃ bytes, systemPath path = .ok bytes) ↔ path.IsNameable :=
  ⟨fun ⟨_, h⟩ => (systemPath_eq_ok_iff.mp h).1, fun h => ⟨_, systemPath_eq_ok_iff.mpr ⟨h, rfl⟩⟩⟩

/-! ## Names between slashes -/

namespace Disk

theorem namesOf_slash (rest : Bytes) : namesOf (0x2F :: rest) = namesOf rest := by
  cases rest <;> simp [namesOf]

theorem namesOf_singleton {b : UInt8} (hb : b ≠ 0x2F) : namesOf [b] = [[b]] := by
  simp [namesOf, hb]

theorem namesOf_cons_slash {b : UInt8} (hb : b ≠ 0x2F) (rest : Bytes) :
    namesOf (b :: 0x2F :: rest) = [b] :: namesOf rest := by
  rw [namesOf, if_neg hb, if_pos rfl, namesOf_slash]

theorem namesOf_cons_cons {b c : UInt8} (hb : b ≠ 0x2F) (hc : c ≠ 0x2F) {rest name : Bytes}
    {names : List Bytes} (h : namesOf (c :: rest) = name :: names) :
    namesOf (b :: c :: rest) = (b :: name) :: names := by
  rw [namesOf, if_neg hb, if_neg hc, h]

theorem namesOf_ne_nil {b : UInt8} (hb : b ≠ 0x2F) (rest : Bytes) : namesOf (b :: rest) ≠ [] := by
  induction rest generalizing b with
  | nil => simp [namesOf_singleton hb]
  | cons c rest ih =>
    by_cases hc : c = 0x2F
    · simp [hc, namesOf_cons_slash hb]
    · obtain ⟨name, names, hnames⟩ := List.exists_cons_of_ne_nil (ih hc)
      simp [namesOf_cons_cons hb hc hnames]

/-- A slash ends the name before it. -/
theorem namesOf_append_slash (front back : Bytes) :
    namesOf (front ++ 0x2F :: back) = namesOf front ++ namesOf back := by
  induction front with
  | nil => exact namesOf_slash back
  | cons b front ih =>
    by_cases hb : b = 0x2F
    · rw [hb, List.cons_append, namesOf_slash, namesOf_slash, ih]
    · cases front with
      | nil =>
        rw [namesOf_singleton hb]
        exact namesOf_cons_slash hb back
      | cons c front =>
        by_cases hc : c = 0x2F
        · subst hc
          rw [List.cons_append, namesOf_slash, namesOf_slash] at ih
          calc namesOf (b :: 0x2F :: front ++ 0x2F :: back)
            _ = [b] :: namesOf (front ++ 0x2F :: back) := namesOf_cons_slash hb _
            _ = [b] :: (namesOf front ++ namesOf back) := by rw [ih]
            _ = namesOf (b :: 0x2F :: front) ++ namesOf back := by
              rw [namesOf_cons_slash hb, List.cons_append]
        · obtain ⟨name, names, hnames⟩ := List.exists_cons_of_ne_nil (namesOf_ne_nil hc front)
          rw [hnames] at ih
          rw [namesOf_cons_cons hb hc hnames]
          exact namesOf_cons_cons hb hc ih

/-- Bytes without a slash are one name. -/
theorem namesOf_of_notMem {name : Bytes} (hne : name ≠ []) (hname : (0x2F : UInt8) ∉ name) :
    namesOf name = [name] := by
  induction name with
  | nil => exact absurd rfl hne
  | cons b name ih =>
    rw [List.mem_cons, not_or] at hname
    cases name with
    | nil => exact namesOf_singleton (Ne.symm hname.1)
    | cons c name =>
      have hc : c ≠ 0x2F := fun h => hname.2 (h ▸ List.mem_cons_self)
      exact namesOf_cons_cons (Ne.symm hname.1) hc (ih (List.cons_ne_nil c name) hname.2)

/-! ## Following a path -/

/-- The place that the names of a path spell. -/
def placeAt (workingDirectory : Place) (path : Bytes) : Place :=
  (namesOf path).foldl follow (startOf workingDirectory path)

variable {d d' : Disk} {workingDirectory place directory : Place} {path : Bytes}

theorem walk_eq_ok {start : Place} {names : List Bytes} (h : d.walk start names = .ok place) :
    place = names.foldl follow start := by
  induction names generalizing start with
  | nil => exact (Except.ok.inj h).symm
  | cons name names ih =>
    rw [walk] at h
    split at h
    · cases h
    · cases h
    · split at h
      · cases h
      · exact ih h

theorem locate_eq_ok (h : d.locate workingDirectory path = .ok place) :
    place = placeAt workingDirectory path := by
  unfold locate at h
  split at h
  · cases h
  · split at h
    · cases h
    · exact walk_eq_ok h

theorem locateLast_eq_ok {name : Bytes}
    (h : d.locateLast workingDirectory path = .ok (directory, some name)) :
    directory ++ [name] = placeAt workingDirectory path := by
  unfold locateLast at h
  split at h
  · cases h
  · split at h
    · cases h
    · obtain ⟨reached, hwalk, h⟩ := exists_of_bind_eq_ok h
      split at h
      · cases h
      · cases h
      · split at h
        · cases h
        · rename_i last hlast
          split at h
          · cases h
          · rename_i hname
            split at h
            · cases h
            · cases h
              rw [Bool.or_eq_true, not_or, decide_eq_true_eq, decide_eq_true_eq] at hname
              rw [placeAt, ← List.dropLast_append_getLast? _ hlast, List.foldl_append,
                ← walk_eq_ok hwalk]
              simp [follow, hname.1, hname.2]

/-! ## Steps that succeed -/

theorem create_eq_ok {item : Item} (h : d.create workingDirectory path item = .ok d') :
    d.item? (placeAt workingDirectory path) = none ∧
      d' = d.put (placeAt workingDirectory path) item := by
  obtain ⟨⟨directory, _ | name⟩, hlast, h⟩ := exists_of_bind_eq_ok h
  · cases h
  · simp only [locateLast_eq_ok hlast] at h
    split at h
    · cases h
    · rename_i hnone
      exact ⟨hnone, (Except.ok.inj h).symm⟩

theorem openFile_eq_ok {content : Bytes}
    (h : d.openFile workingDirectory path content = .ok (d', place)) :
    place = placeAt workingDirectory path ∧ place ≠ [] ∧ d' = d.put place (.file content) := by
  obtain ⟨⟨directory, _ | name⟩, hlast, h⟩ := exists_of_bind_eq_ok h
  · cases h
  · simp only at h
    split at h
    · cases h
    · cases h
      exact ⟨locateLast_eq_ok hlast, by simp, rfl⟩

theorem move_eq_ok {target : Bytes}
    (h : d.move workingDirectory path target = .ok (d', place)) :
    place = placeAt workingDirectory target ∧ place ≠ [] ∧
      ∃ content, d.item? (placeAt workingDirectory path) = some (.file content) ∧
        d' = (d.erase (placeAt workingDirectory path)).put place (.file content) := by
  obtain ⟨source, hsource, h⟩ := exists_of_bind_eq_ok h
  obtain ⟨⟨directory, _ | name⟩, hlast, h⟩ := exists_of_bind_eq_ok h
  · cases h
  · simp only [locate_eq_ok hsource] at h
    split at h
    · cases h
    · cases h
    · cases h
    · rename_i content hitem _
      cases h
      exact ⟨locateLast_eq_ok hlast, by simp, content, hitem, rfl⟩

theorem removeFile_eq_ok (h : d.removeFile workingDirectory path = .ok d') :
    d' = d.erase (placeAt workingDirectory path) := by
  obtain ⟨source, hsource, h⟩ := exists_of_bind_eq_ok h
  rw [locate_eq_ok hsource] at h
  split at h
  · cases h
  · cases h
  · exact (Except.ok.inj h).symm

/-! ## Places below a directory -/

open Debundle.Path (IsPiece slash lead)

theorem namesOf_join {cs : List Text} (hne : cs ≠ []) (hcs : ∀ c ∈ cs, IsPiece c)
    (hnameable : ∀ c ∈ cs, c.IsNameable) :
    namesOf (Text.join [slash] cs).nameUnits = cs.map Text.nameUnits := by
  induction cs with
  | nil => exact absurd rfl hne
  | cons c cs ih =>
    obtain ⟨hc, hcs⟩ := List.forall_mem_cons.mp hcs
    obtain ⟨hname, hnameable⟩ := List.forall_mem_cons.mp hnameable
    have hone : namesOf c.nameUnits = [c.nameUnits] :=
      namesOf_of_notMem (hname.nameUnits_ne_nil hc.1) fun h =>
        hc.2 (Text.slash_mem_nameUnits_iff.mp h)
    rcases eq_or_ne cs [] with rfl | hrest
    · exact hone
    · rw [Text.join_cons c hrest, Text.nameUnits_append, Text.nameUnits_slash,
        namesOf_append_slash, hone, ih hrest hcs hnameable]
      rfl

theorem namesOf_lead (root : Text) (rest : Bytes) :
    namesOf ((lead root).nameUnits ++ rest) = namesOf root.nameUnits ++ namesOf rest := by
  have hslash : ∀ front : Text, namesOf ((front ++ [slash]).nameUnits ++ rest) =
      namesOf front.nameUnits ++ namesOf rest := fun front => by
    rw [Text.nameUnits_append, Text.nameUnits_slash, List.append_assoc, List.cons_append,
      namesOf_append_slash]
    rfl
  unfold lead
  split
  · rename_i hends
    rw [Bool.or_eq_true, List.isEmpty_iff, Text.endsWith, List.isSuffixOf_iff_suffix] at hends
    rcases hends with rfl | ⟨front, hfront⟩
    · rfl
    · have hfront : front ++ [slash] = root := hfront
      rw [← hfront, hslash, Text.nameUnits_append, Text.nameUnits_slash, namesOf_append_slash]
      simp [namesOf, Text.nameUnits]
  · exact hslash root

theorem startOf_lead {root : Text} (hroot : root.IsNameable) {rest : Bytes}
    (hrest : rest.head? ≠ some 0x2F) :
    startOf workingDirectory ((lead root).nameUnits ++ rest) =
      startOf workingDirectory root.nameUnits := by
  unfold startOf
  rcases eq_or_ne root [] with rfl | hne
  · rw [show (lead []).nameUnits ++ rest = rest from rfl, if_neg hrest]
    rfl
  · have hhead : ∀ more, (root.nameUnits ++ more).head? = root.nameUnits.head? := fun more => by
      obtain ⟨b, bs, hbs⟩ := List.exists_cons_of_ne_nil (hroot.nameUnits_ne_nil hne)
      rw [hbs]
      rfl
    unfold lead
    split
    · rw [hhead]
    · rw [Text.nameUnits_append, List.append_assoc, hhead]

theorem foldl_follow {names : List Bytes} (start : Place)
    (hnames : ∀ name ∈ names, name ≠ Text.bytes "." ∧ name ≠ Text.bytes "..") :
    names.foldl follow start = start ++ names := by
  induction names generalizing start with
  | nil => exact (List.append_nil start).symm
  | cons name names ih =>
    obtain ⟨hname, hnames⟩ := List.forall_mem_cons.mp hnames
    rw [List.foldl_cons, follow, if_neg hname.1, if_neg hname.2, ih _ hnames, List.append_assoc,
      List.singleton_append]

/-- Components that are names lead below the directory, one by one. -/
theorem placeAt_lead {root : Text} {cs : List Text} (hne : cs ≠ []) (hcs : ∀ c ∈ cs, IsName c)
    (hnameable : (lead root ++ Text.join [slash] cs).IsNameable) :
    placeAt workingDirectory (lead root ++ Text.join [slash] cs).nameUnits =
      placeAt workingDirectory root.nameUnits ++ cs.map Text.nameUnits := by
  have hpieces : ∀ c ∈ cs, IsPiece c := fun c hc => (hcs c hc).isPiece
  obtain ⟨hlead, hjoin⟩ := List.forall_mem_append.mp hnameable
  have hroot : root.IsNameable := fun c hc => hlead c (by
    unfold lead
    split
    · exact hc
    · exact List.mem_append_left _ hc)
  have hunits : ∀ c ∈ cs, c.IsNameable := fun c hc => by
    rw [← Text.split_join hne fun c hc => (hpieces c hc).2] at hc
    exact fun a ha => hjoin a (Text.mem_of_mem_split hc ha)
  have hstart : (Text.join [slash] cs).nameUnits.head? ≠ some 0x2F := by
    obtain ⟨a, u, -, -, hau, ha, -, -⟩ := Path.join_pieces hne hpieces
    rw [hau] at hjoin ⊢
    obtain ⟨b, bs, hbs⟩ :=
      List.exists_cons_of_ne_nil (hjoin a List.mem_cons_self).nameUnits_ne_nil
    rw [Text.nameUnits_cons, hbs, List.cons_append, List.head?_cons, ne_eq, Option.some_inj]
    rintro rfl
    exact ha (CodePoint.slash_mem_nameUnits_iff.mp (hbs ▸ List.mem_cons_self))
  have hnames : ∀ name ∈ cs.map Text.nameUnits, name ≠ Text.bytes "." ∧ name ≠ Text.bytes ".." := by
    refine List.forall_mem_map.mpr fun c hc => ⟨fun heq => ?_, fun heq => ?_⟩
    · exact (hcs c hc).2.1 ((hunits c hc).eq_of_nameUnits_eq (by decide) heq)
    · exact (hcs c hc).2.2.1 ((hunits c hc).eq_of_nameUnits_eq (by decide) heq)
  rw [placeAt, placeAt, Text.nameUnits_append, namesOf_lead, startOf_lead hroot hstart,
    namesOf_join hne hpieces hunits, List.foldl_append, foldl_follow _ hnames]

end Disk
end Debundle
