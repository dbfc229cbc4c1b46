import Debundle.Proofs.Data.Json
import Debundle.Proofs.Storage.Places
import Debundle.Proofs.Storage.Runs
import Debundle.Storage.World

/-!
# Writing a file on the machine

A file is written beside its place and then put there.  The temporary file is one that was not
there before, so until the last step nothing that stood anywhere is touched, and the last step
touches what it replaces.

The journal goes on as long as its file has a name; it loses it when its file is replaced.

* `World.Keeps`: what stood somewhere still stands there.
* `World.Stores`: the same with one file written.
* `World.leadsTo_writeText`: writing a file either keeps everything or stores the content.
-/

namespace Debundle

/-! ## Contents -/

theorem Text.contentBytesFrom_eq_ok_iff {t : Text} {start : Nat} {bytes : Bytes} :
    contentBytesFrom start t = .ok bytes ↔ t.IsScalar ∧ bytes = t.bytes := by
  induction t generalizing start bytes with
  | nil =>
    rw [contentBytesFrom, Except.ok.injEq]
    exact ⟨fun h => ⟨fun c hc => absurd hc List.not_mem_nil, h.symm⟩, fun h => h.2.symm⟩
  | cons c t ih =>
    rw [contentBytesFrom, IsScalar, List.forall_mem_cons, Text.bytes, List.flatMap_cons]
    split
    · rename_i hsurrogate
      exact ⟨fun h => (by cases h), fun h => by simp [h.1.1] at hsurrogate⟩
    · rename_i hsurrogate
      rw [Bool.not_eq_true] at hsurrogate
      cases hrest : contentBytesFrom (start + 1) t with
      | error e =>
        refine ⟨fun h => (by cases h), fun h => ?_⟩
        rw [ih.mpr ⟨h.1.2, rfl⟩] at hrest
        cases hrest
      | ok rest =>
        obtain ⟨hscalar, rfl⟩ := ih.mp hrest
        exact ⟨fun h => ⟨⟨hsurrogate, hscalar⟩, (Except.ok.inj h).symm⟩, fun h => h.2 ▸ rfl⟩

/-- A content has bytes if and only if it has no surrogate. -/
theorem contentBytes_eq_ok_iff {content : Text} {bytes : Bytes} :
    contentBytes content = .ok bytes ↔ content.IsScalar ∧ bytes = content.bytes := by
  rw [← @Text.contentBytesFrom_eq_ok_iff content 0, contentBytes]
  cases Text.contentBytesFrom 0 content with
  | error e => exact ⟨fun h => (by cases h), fun h => (by cases h)⟩
  | ok found => exact ⟨fun h => congrArg _ (Except.ok.inj h), fun h => congrArg _ (Except.ok.inj h)⟩

namespace Host

/-- Pieces have bytes if and only if the whole has, and then together they have those. -/
theorem encodePieces_eq_iff {pieces : List Text} {bytes : Bytes} :
    encodePieces pieces = (bytes, none) ↔ contentBytes pieces.flatten = .ok bytes := by
  induction pieces generalizing bytes with
  | nil =>
    rw [contentBytes_eq_ok_iff, encodePieces, Prod.mk.injEq]
    exact ⟨fun h => ⟨fun c hc => absurd hc List.not_mem_nil, h.1.symm⟩, fun h => ⟨h.2.symm, rfl⟩⟩
  | cons piece rest ih =>
    rw [contentBytes_eq_ok_iff, List.flatten_cons, encodePieces]
    split
    · rename_i e he
      refine ⟨fun h => (by cases h), fun h => ?_⟩
      have hpiece := h.1.of_subset (List.subset_append_left piece rest.flatten)
      rw [contentBytes_eq_ok_iff.mpr ⟨hpiece, rfl⟩] at he
      cases he
    · rename_i front hfront
      obtain ⟨hscalar, rfl⟩ := contentBytes_eq_ok_iff.mp hfront
      cases hrest : encodePieces rest with
      | mk more failure =>
        constructor
        · intro h
          cases h
          obtain ⟨hmore, rfl⟩ := contentBytes_eq_ok_iff.mp (ih.mp hrest)
          exact ⟨hscalar.append hmore, (Text.bytes_append _ _).symm⟩
        · rintro ⟨hall, rfl⟩
          have hmore := hall.of_subset (List.subset_append_right piece rest.flatten)
          rw [ih.mpr (contentBytes_eq_ok_iff.mpr ⟨hmore, rfl⟩)] at hrest
          cases hrest
          rw [Text.bytes_append]

/-- A value has bytes if and only if it can be written and its text has bytes. -/
theorem encodeJson_eq_iff {v : Value} {sorted : Bool} {bytes : Bytes} :
    encodeJson (v.jsonText sorted) = (bytes, none) ↔
      v.IsWritable sorted ∧ contentBytes (v.arranged sorted).toJson = .ok bytes := by
  obtain ⟨hfault, hflatten⟩ := v.jsonText_gives sorted
  rw [← hfault]
  have hsplit : encodeJson (v.jsonText sorted) = (bytes, none) ↔
      (v.jsonText sorted).fault = none ∧
        encodePieces (v.jsonText sorted).pieces = (bytes, none) := by
    unfold encodeJson
    cases encodePieces (v.jsonText sorted).pieces with
    | mk found failure =>
      cases failure <;> cases (v.jsonText sorted).fault <;> simp
  rw [hsplit, encodePieces_eq_iff]
  exact and_congr_right fun h => by rw [hflatten h]

end Host

namespace World

/-- The place that a path leads to. -/
def placeFor (s : Surroundings) (path : Text) : Place :=
  Disk.placeAt (placeOf s) path.nameUnits

/-! ## What stays -/

/-- What stood somewhere still stands there. -/
structure Keeps (w w' : World) : Prop where
  /-- Everything that stood somewhere still stands there. -/
  items : ∀ place item, w.disk.item? place = some item → w'.disk.item? place = some item
  /-- The journal is in the same file. -/
  journal : w'.journal = w.journal

/-- A file was written, and what stood elsewhere still stands there. -/
structure Stores (w w' : World) (place : Place) (content : Bytes) : Prop where
  /-- Everything that stood elsewhere still stands there. -/
  items : ∀ other item, other ≠ place → w.disk.item? other = some item →
    w'.disk.item? other = some item
  /-- The file has the content. -/
  stored : w'.disk.item? place = some (.file content)
  /-- The journal lost its name if its file was replaced. -/
  journal : w'.journal = if w.journal = some place then none else w.journal

variable {s : Surroundings} {w w' w'' : World}

theorem Keeps.refl (w : World) : w.Keeps w := ⟨fun _ _ h => h, rfl⟩

theorem Keeps.trans (h : w.Keeps w') (h' : w'.Keeps w'') : w.Keeps w'' :=
  ⟨fun place item hitem => h'.items place item (h.items place item hitem),
    h'.journal.trans h.journal⟩

theorem keeps_of_eq (hdisk : w'.disk = w.disk) (hjournal : w'.journal = w.journal) : w.Keeps w' :=
  ⟨fun _ _ h => hdisk.symm ▸ h, hjournal⟩

theorem Keeps.item?_eq_none (h : w.Keeps w') {place : Place}
    (hnone : w'.disk.item? place = none) : w.disk.item? place = none :=
  Option.eq_none_iff_forall_ne_some.mpr fun item hitem => by
    rw [h.items place item hitem] at hnone
    cases hnone

/-- A change at a place where nothing stood keeps everything. -/
theorem Keeps.of_change (h : w.Keeps w') {place : Place} (hnone : w.disk.item? place = none)
    (hother : ∀ other, other ≠ place → w''.disk.item? other = w'.disk.item? other)
    (hjournal : w''.journal = w'.journal) : w.Keeps w'' := by
  refine ⟨fun other item hitem => ?_, hjournal.trans h.journal⟩
  have hne : other ≠ place := by
    rintro rfl
    rw [hnone] at hitem
    cases hitem
  rw [hother other hne]
  exact h.items other item hitem

/-! ## Single steps -/

/-- A step that fails changes nothing but the number of steps. -/
theorem leadsTo_step {α : Type} {path : Text} {target : Option Text}
    {act : World → Bytes → Except Cause (α × World)} {Q : Except StorageError α → World → Prop}
    (hError : ∀ e, Q (.error e) { w with steps := w.steps + 1 })
    (hOk : ∀ a w', path.IsNameable →
      act { w with steps := w.steps + 1 } path.nameUnits = .ok (a, w') → Q (.ok a) w') :
    LeadsTo (step s path target act) w Q := by
  unfold LeadsTo step
  cases hpath : systemPath path with
  | error e => exact hError e
  | ok bytes =>
    obtain ⟨hnameable, rfl⟩ := systemPath_eq_ok_iff.mp hpath
    cases hrefuses : s.refuses w.steps with
    | some cause => exact hError _
    | none =>
      cases hact : act { w with steps := w.steps + 1 } path.nameUnits with
      | error cause => simpa only [hrefuses, hact] using hError _
      | ok result =>
        obtain ⟨a, w'⟩ := result
        simpa only [hrefuses, hact] using hOk a w' hnameable hact

theorem leadsTo_makeDirectory (path : Text) :
    LeadsTo ((host s).makeDirectory path) w fun _ w' => w.Keeps w' := by
  dsimp only [host]
  refine leadsTo_step (fun _ => keeps_of_eq rfl rfl) fun _ w' _ hact => ?_
  obtain ⟨d, hd, hw'⟩ := exists_of_bind_eq_ok hact
  obtain ⟨hnone, rfl⟩ := Disk.create_eq_ok hd
  cases hw'
  exact (Keeps.refl w).of_change hnone (fun other hne => Disk.item?_put_of_ne _ _ hne) rfl

theorem leadsTo_test (path : Text) (p : Item → Bool) :
    LeadsTo (test s path p) w fun _ w' => w' = w := by
  unfold LeadsTo test
  cases systemPath path with
  | error e => rfl
  | ok bytes =>
    simp only
    cases w.disk.lookUp (placeOf s) bytes <;> rfl

/-- A temporary file is one that was not there. -/
theorem leadsTo_createTemporary (directory : Text) :
    LeadsTo ((host s).createTemporary directory) w fun r w' =>
      w.Keeps w' ∧ ∀ path, r = .ok path → w.disk.item? (placeFor s path) = none := by
  -- whatever name is tried
  have hcreate : ∀ path : Text, LeadsTo
      (step s path none fun w bytes => do
        let disk ← w.disk.createFile (placeOf s) bytes
        return (path, { w with disk := disk })) w
      fun r w' => w.Keeps w' ∧ ∀ path, r = .ok path → w.disk.item? (placeFor s path) = none := by
    intro path
    refine leadsTo_step (fun _ => ⟨keeps_of_eq rfl rfl, fun _ h => by cases h⟩)
      fun _ w' _ hact => ?_
    obtain ⟨d, hd, hw'⟩ := exists_of_bind_eq_ok hact
    obtain ⟨hnone, rfl⟩ := Disk.create_eq_ok hd
    cases hw'
    refine ⟨(Keeps.refl w).of_change hnone (fun other hne => Disk.item?_put_of_ne _ _ hne) rfl,
      fun path h => ?_⟩
    cases h
    exact hnone
  exact hcreate _

theorem leadsTo_fill (path : Text) (content : Bytes) :
    LeadsTo ((host s).fill path content) w fun r w' =>
      (∀ other, other ≠ placeFor s path → w'.disk.item? other = w.disk.item? other) ∧
        w'.journal = w.journal ∧
        (r = .ok () → w'.disk.item? (placeFor s path) = some (.file content)) := by
  dsimp only [host]
  refine leadsTo_step (fun _ => ⟨fun _ _ => rfl, rfl, fun h => by cases h⟩) fun _ w' _ hact => ?_
  obtain ⟨⟨d, place⟩, hd, hw'⟩ := exists_of_bind_eq_ok hact
  obtain ⟨rfl, hne, rfl⟩ := Disk.openFile_eq_ok hd
  cases hw'
  exact ⟨fun other hother => Disk.item?_put_of_ne _ _ hother, rfl,
    fun _ => Disk.item?_put_self _ _ hne⟩

theorem leadsTo_remove (path : Text) :
    LeadsTo ((host s).remove path) w fun _ w' =>
      (∀ other, other ≠ placeFor s path → w'.disk.item? other = w.disk.item? other) ∧
        w'.journal = w.journal := by
  dsimp only [host, remove]
  refine leadsTo_step (fun _ => ⟨fun _ _ => rfl, rfl⟩) fun _ w' _ hact => ?_
  obtain ⟨d, hd, hw'⟩ := exists_of_bind_eq_ok hact
  cases hw'
  cases Disk.removeFile_eq_ok hd
  exact ⟨fun other hother => Disk.item?_erase_of_ne _ hother, rfl⟩

/-- A file that is moved takes its content to its new place. -/
theorem leadsTo_replace (path target : Text) :
    LeadsTo ((host s).replace path target) w fun r w' =>
      match r with
      | .error _ => w'.disk = w.disk ∧ w'.journal = w.journal
      | .ok () => target.IsNameable ∧
        (∀ other, other ≠ placeFor s path → other ≠ placeFor s target →
          w'.disk.item? other = w.disk.item? other) ∧
        w'.disk.item? (placeFor s target) = w.disk.item? (placeFor s path) ∧
        w'.journal = if w.journal = some (placeFor s target) then none else w.journal := by
  show LeadsTo (replace s path target) w _
  unfold replace
  cases htarget : systemPath target with
  | error e => exact ⟨rfl, rfl⟩
  | ok goal =>
    obtain ⟨hnameable, rfl⟩ := systemPath_eq_ok_iff.mp htarget
    refine leadsTo_step (fun _ => ⟨rfl, rfl⟩) fun _ w' _ hact => ?_
    obtain ⟨⟨d, place⟩, hd, hw'⟩ := exists_of_bind_eq_ok hact
    obtain ⟨rfl, hne, content, hitem, rfl⟩ := Disk.move_eq_ok hd
    cases hw'
    refine ⟨hnameable, fun other hpath htarget => ?_, ?_, rfl⟩
    · exact (Disk.item?_put_of_ne _ _ htarget).trans (Disk.item?_erase_of_ne _ hpath)
    · exact (Disk.item?_put_self _ _ hne).trans hitem.symm

/-- Lines go to the file of the journal. -/
theorem leadsTo_appendJournal (text : Text) :
    LeadsTo ((host s).appendJournal text) w fun _ w' =>
      (∀ other, w.journal ≠ some other → w'.disk.item? other = w.disk.item? other) ∧
        w'.journal = w.journal := by
  dsimp only [host]
  rw [leadsTo_modify]
  cases hjournal : w.journal with
  | none => exact ⟨fun _ _ => rfl, hjournal⟩
  | some place =>
    refine ⟨fun other hother => ?_, rfl⟩
    have hne : other ≠ place := fun h => hother (by rw [h])
    show (w.disk.appendAt place text.bytes).item? other = _
    unfold Disk.appendAt
    split
    · exact Disk.item?_put_of_ne _ _ hne
    · rfl

theorem leadsTo_note (setup : Setup) (entries : List Entry) :
    LeadsTo ((host s).note setup entries) w fun _ w' =>
      (∀ other, w.journal ≠ some other → w'.disk.item? other = w.disk.item? other) ∧
        w'.journal = w.journal := by
  unfold Host.note
  split
  · refine LeadsTo.bind (P := fun _ t => t.disk = w.disk ∧ t.journal = w.journal) ⟨rfl, rfl⟩
      fun _ t ht => ?_
    refine LeadsTo.bind (P := fun _ u => u = t) rfl fun _ u hu => ?_
    rw [hu, ← ht.1, ← ht.2]
    exact leadsTo_appendJournal _
  · exact ⟨fun _ _ => rfl, rfl⟩

theorem leadsTo_print (text : Text) :
    LeadsTo ((host s).print text) w fun _ w' => w.Keeps w' := by
  show LeadsTo (print s text) w _
  unfold print
  cases s.output.check text with
  | error e => exact Keeps.refl w
  | ok done => exact keeps_of_eq rfl rfl

/-! ## Directories -/

/-- Where directories are made, everything is kept. -/
theorem keeps_respected : (host s).Respects Keeps where
  refl := Keeps.refl
  trans h h' := h.trans h'
  makeDirectory path _ := leadsTo_makeDirectory path
  isPresent path _ := (leadsTo_test path _).mono fun _ _ h => h ▸ Keeps.refl _
  isDirectory path _ := (leadsTo_test path _).mono fun _ _ h => h ▸ Keeps.refl _

/-! ## Files -/

theorem leadsTo_publish {temporary path content : Text} {start : World}
    (hkeeps : start.Keeps w) (hnone : start.disk.item? (placeFor s temporary) = none) :
    LeadsTo ((host s).publish temporary path content) w fun r w' =>
      match r with
      | .error _ => start.Keeps w'
      | .ok () => path.IsNameable ∧ start.Stores w' (placeFor s path) content.bytes := by
  unfold Host.publish
  split
  · exact hkeeps
  · rename_i bytes hbytes
    obtain ⟨-, rfl⟩ := contentBytes_eq_ok_iff.mp hbytes
    refine (leadsTo_fill temporary _).bind fun r t ht => ?_
    obtain ⟨hother, hjournal, hfilled⟩ := ht
    have hfill : start.Keeps t := hkeeps.of_change hnone hother hjournal
    split
    · exact hfill
    · refine (leadsTo_replace temporary path).mono fun r u hu => ?_
      cases r with
      | error e => exact hfill.trans (keeps_of_eq hu.1 hu.2)
      | ok done =>
        obtain ⟨hnameable, hframe, hmoved, hlost⟩ := hu
        refine ⟨hnameable, fun other item hne hitem => ?_, hmoved.trans (hfilled rfl), ?_⟩
        · have htemporary : other ≠ placeFor s temporary := by
            rintro rfl
            rw [hnone] at hitem
            cases hitem
          rw [hframe other htemporary hne]
          exact hfill.items other item hitem
        · rw [hlost, hfill.journal]

/-- Writing a file either keeps everything or stores the content. -/
theorem leadsTo_writeText (path content : Text) :
    LeadsTo ((host s).writeText path content) w fun r w' =>
      match r with
      | .error _ => w.Keeps w'
      | .ok () => path.IsNameable ∧ w.Stores w' (placeFor s path) content.bytes := by
  refine (keeps_respected.ensureDirectory _ w).bind fun r t ht => ?_
  split
  · exact ht
  · refine (leadsTo_createTemporary _).bind fun r u hu => ?_
    split
    · exact ht.trans hu.1
    · rename_i temporary
      -- nothing stood there before the directories were made either
      have hnone := ht.item?_eq_none (hu.2 temporary rfl)
      refine (leadsTo_publish (ht.trans hu.1) hnone).bind fun r v hv => ?_
      split
      · exact hv
      · refine (?_ : LeadsTo (Host.discard _ _ _) v fun _ w' => w.Keeps w').bind fun _ _ h => h
        unfold Host.discard
        refine (leadsTo_remove temporary).bind fun r x hx => ?_
        split <;> exact hv.of_change hnone hx.1 hx.2

end World
end Debundle
