import Debundle.Proofs.Command.Overwriting
import Debundle.Proofs.Factory.Restoring
import Debundle.Proofs.Storage.Faults

/-!
# What is shown of modules

Of a module that was written its path is shown, with the size and the digest of its source, or how
many modules there were so far, or nothing.  All of these lines but the one with the path have
characters of ASCII only, so it is for the path alone that a line cannot be printed.

Which modules are shown depends on how many were before them that could be written.  Any module that
is accepted may be the first one, and the first one is shown if any is.

* `Text.IsAscii`, `digest_isAscii`: lines that can always be printed.
* `ShowsDetails`: whether modules are shown by their paths at all.
* `IsShowable`: the path of a module can be printed if it may come to this.
* `succeeds_announce`: then a module is shown.
* `yields_announce_error`: and otherwise it is not, if it is the first one.
-/

namespace Debundle

/-! ## Lines of ASCII -/

/-- All characters are in ASCII. -/
def Text.IsAscii (t : Text) : Prop := ∀ c ∈ t, c.val < 0x80

namespace Text

variable {t u : Text}

instance (t : Text) : Decidable t.IsAscii := inferInstanceAs (Decidable (∀ c ∈ t, c.val < 0x80))

theorem IsAscii.append (ht : t.IsAscii) (hu : u.IsAscii) : (t ++ u).IsAscii :=
  List.forall_mem_append.mpr ⟨ht, hu⟩

theorem IsAscii.covers (ht : t.IsAscii) (out : Encoding) : out.Covers t :=
  fun c hc => out.has_ascii c (ht c hc)

/-- Numerals are in ASCII up to base 16. -/
theorem toDigits_isAscii {base : Nat} (hbase : 1 < base) (hle : base ≤ 16) (n : Nat) :
    IsAscii ((Nat.toDigits base n).map CodePoint.ofChar) := by
  have hdigit : ∀ k < 16, (CodePoint.ofChar (Nat.digitChar k)).val < 0x80 := by decide
  induction n using Nat.strongRecOn with
  | ind n ih =>
    by_cases hn : n < base
    · rw [Nat.toDigits_of_lt_base hn]
      exact List.forall_mem_singleton.mpr (hdigit n (hn.trans_le hle))
    · rw [Nat.toDigits_of_base_le hbase (Nat.le_of_not_lt hn), List.map_append]
      refine IsAscii.append (ih _ (Nat.div_lt_self (by omega) hbase)) ?_
      exact List.forall_mem_singleton.mpr (hdigit _ ((Nat.mod_lt _ (by omega)).trans_le hle))

theorem ofNat_isAscii (n : Nat) : (ofNat n).IsAscii := toDigits_isAscii (by decide) (by decide) n

theorem ofHex_isAscii (width n : Nat) : (ofHex width n).IsAscii := by
  refine IsAscii.append (fun c hc => ?_) (toDigits_isAscii (by decide) (by decide) n)
  rw [List.eq_of_mem_replicate hc]
  decide

theorem digest_isAscii {source digest : Text} (h : source.digest = .ok digest) :
    digest.IsAscii := by
  obtain ⟨bytes, -, h⟩ := exists_of_bind_eq_ok h
  cases h
  intro c hc
  obtain ⟨byte, -, hc⟩ := List.mem_flatMap.mp hc
  exact ofHex_isAscii _ _ c hc

end Text

namespace Command

variable {σ : Type} {h : Host (StateM σ)} {out : Encoding} {o : Options} {root : Text}
  {m : SourceModule}

/-! ## What is shown -/

/-- Whether modules are shown by their paths, out of so many. -/
def ShowsDetails (o : Options) (total : Nat) : Prop :=
  o.verbosity = .verbose ∨
    o.verbosity = .normal ∧ (isSmall o total = true ∨ 0 < o.maxDetailedLogs)

/-- If modules are shown by their paths, the line with the path of this one can be printed, unless
it is refused and so never written. -/
def IsShowable (out : Encoding) (o : Options) (root : Text) (total : Nat) (m : SourceModule) :
    Prop :=
  ShowsDetails o total → ∀ target, targetFor o root m = .ok target →
    out.Covers ("✓ " ++ m.path.display)

instance decidableForallOk {ε α : Type} (x : Except ε α) (p : α → Prop) [DecidablePred p] :
    Decidable (∀ a, x = .ok a → p a) :=
  match x with
  | .error _ => isTrue nofun
  | .ok a => decidable_of_iff (p a) ⟨fun h _ ha => Except.ok.inj ha ▸ h, fun h => h a rfl⟩

instance (o : Options) (total : Nat) : Decidable (ShowsDetails o total) :=
  inferInstanceAs (Decidable (_ ∨ _ ∧ (_ ∨ _)))

instance (out : Encoding) (o : Options) (root : Text) (total : Nat) (m : SourceModule) :
    Decidable (IsShowable out o root total m) :=
  inferInstanceAs (Decidable (ShowsDetails o total → ∀ target, targetFor o root m = .ok target →
    out.Covers ("✓ " ++ m.path.display)))

theorem showsDetails_of_announcement {total number detailed : Nat}
    (h : announcement o total number detailed = .details) : ShowsDetails o total := by
  unfold announcement at h
  cases hverbosity : o.verbosity with
  | quiet => simp [hverbosity] at h
  | verbose => exact Or.inl hverbosity
  | normal =>
    simp only [hverbosity] at h
    split at h
    · rename_i hshown
      simp only [Bool.or_eq_true, decide_eq_true_eq] at hshown
      exact Or.inr ⟨hverbosity, hshown.imp_right fun hlt => (Nat.zero_le _).trans_lt hlt⟩
    · split at h <;> cases h

/-- The first module that is written is shown if any is. -/
theorem announcement_of_showsDetails {total : Nat} (h : ShowsDetails o total) (number : Nat) :
    announcement o total number 0 = .details := by
  unfold announcement
  obtain hverbosity | ⟨hverbosity, hshown⟩ := h
  · rw [hverbosity]
  · rw [← decide_eq_true_iff (p := 0 < o.maxDetailedLogs), ← Bool.or_eq_true] at hshown
    simp only [hverbosity, hshown, if_true]

/-! ## Lines that are printed -/

theorem succeeds_printLine (hh : h.IsFaithful out) {line : Text} (hline : out.Covers line) :
    Succeeds (printLine h line) fun _ => True := by
  have hcovers : out.Covers (line ++ "\n") :=
    List.forall_mem_append.mpr ⟨hline, Text.IsAscii.covers (by decide) out⟩
  refine Yields.bind_lift (hh.print _) fun r hr => ?_
  obtain rfl := hr.mpr hcovers
  exact succeeds_pure trivial

theorem yields_printLine_error (hh : h.IsFaithful out) {line : Text} (hline : ¬out.Covers line) :
    Yields (printLine h line).run fun r => ∃ e, r = .error e := by
  have hcovers : ¬out.Covers (line ++ "\n") := fun hall => hline (List.forall_mem_append.mp hall).1
  refine Yields.bind_lift (hh.print _) fun r hr => ?_
  cases r with
  | ok done => exact absurd (hr.mp rfl) hcovers
  | error e => exact fun _ => ⟨_, rfl⟩

theorem succeeds_printLines (hh : h.IsFaithful out) {lines : List Text}
    (hlines : ∀ line ∈ lines, out.Covers line) :
    Succeeds (lines.forM (printLine h)) fun _ => True := by
  induction lines with
  | nil => exact succeeds_pure trivial
  | cons line lines ih =>
    obtain ⟨hline, hlines⟩ := List.forall_mem_cons.mp hlines
    exact (succeeds_printLine hh hline).bind fun _ _ => ih hlines

/-- The line with the path of a module, and other ones behind it. -/
theorem exists_details {source : Text} (hscalar : source.IsScalar) (path : Text) :
    ∃ more, (ExceptT.mk (pure (details path source)) : Part (StateM σ) (List Text)) =
      pure (("✓ " ++ path) :: more) ∧ ∀ line ∈ more, line.IsAscii := by
  obtain ⟨digest, hdigest⟩ := exists_digest hscalar
  have hsize : Text.IsAscii ("  Size: " ++ Text.ofNat source.utf8Size ++ " bytes") :=
    (Text.IsAscii.append (by decide) (Text.ofNat_isAscii _)).append (by decide)
  have hhash : Text.IsAscii ("  Hash: " ++ digest) :=
    Text.IsAscii.append (by decide) (Text.digest_isAscii hdigest)
  have hrule : Text.IsAscii rule := by decide
  refine ⟨_, by rw [details, hdigest]; rfl, ?_⟩
  simp only [List.forall_mem_cons]
  exact ⟨hsize, hhash, hrule, fun line hline => absurd hline List.not_mem_nil⟩

/-! ## Modules that are shown -/

/-- A module that was written is shown. -/
theorem succeeds_announce (hh : h.IsFaithful out) {total : Nat} (number detailed : Nat)
    (hscalar : m.source.IsScalar)
    (hpath : ShowsDetails o total → out.Covers ("✓ " ++ m.path.display)) :
    Succeeds (announce h o total number detailed m.path.display m.source) fun _ => True := by
  unfold announce
  split
  · rename_i hdetails
    obtain ⟨more, hlines, hmore⟩ := @exists_details σ _ hscalar m.path.display
    have hcovers : ∀ line ∈ ("✓ " ++ m.path.display) :: more, out.Covers line :=
      List.forall_mem_cons.mpr ⟨hpath (showsDetails_of_announcement hdetails),
        fun line hline => (hmore line hline).covers out⟩
    rw [hlines, pure_bind]
    exact (succeeds_printLines hh hcovers).bind fun _ _ => succeeds_pure trivial
  · have hline : Text.IsAscii ("Progress: " ++ Text.ofNat number ++ "/" ++ Text.ofNat total
        ++ " modules written...") :=
      (((Text.IsAscii.append (by decide) (Text.ofNat_isAscii _)).append (by decide)).append
        (Text.ofNat_isAscii _)).append (by decide)
    exact (succeeds_printLine hh (hline.covers out)).bind fun _ _ => succeeds_pure trivial
  · exact succeeds_pure trivial

/-- The first module that was written breaks the writing off if the line with its path cannot be
printed. -/
theorem yields_announce_error (hh : h.IsFaithful out) {total : Nat} (number : Nat)
    (hscalar : m.source.IsScalar) (hshows : ShowsDetails o total)
    (hpath : ¬out.Covers ("✓ " ++ m.path.display)) :
    Yields (announce h o total number 0 m.path.display m.source).run fun r =>
      ∃ e, r = .error e := by
  obtain ⟨more, hlines, -⟩ := @exists_details σ _ hscalar m.path.display
  unfold announce
  rw [announcement_of_showsDetails hshows]
  simp only
  rw [hlines, pure_bind]
  have hprint : Yields ((("✓ " ++ m.path.display) :: more).forM (printLine h)).run fun r =>
      ∃ e, r = .error e :=
    (yields_printLine_error hh hpath).bind_part (fun e _ => ⟨e, rfl⟩) fun _ hok => by
      obtain ⟨e, he⟩ := hok
      cases he
  refine hprint.bind_part (fun e _ => ⟨e, rfl⟩) fun _ hok => ?_
  obtain ⟨e, he⟩ := hok
  cases he

theorem succeeds_announceSkipped (hh : h.IsFaithful out) (total detailed : Nat) :
    Succeeds (announceSkipped h o total detailed) fun _ => True := by
  unfold announceSkipped
  split
  · have hline : Text.IsAscii ("Skipped detailed logs for " ++ Text.ofNat (total - detailed)
        ++ " module(s). Use --verbose to see all.") :=
      (Text.IsAscii.append (by decide) (Text.ofNat_isAscii _)).append (by decide)
    exact succeeds_printLine hh (hline.covers out)
  · exact succeeds_pure trivial

end Command
end Debundle
