import Debundle.Proofs.Storage.Faults

/-!
# Writing is all or nothing

Any step on files may be refused, and a step that writes may break off in between and leave a part
of the content, or something else, in the file that it writes.  This only ever happens to a
temporary file, and where one was created it can be removed again: what was found on the way to it
was a directory, and no step takes a directory away.

So a write that fails leaves what was there, and perhaps directories that it made.  A write that
does not fail leaves besides this the whole content in the file.

* `World.frail`: a machine on which a write that fails may leave anything in the file.
* `Disk.Reachable`, `Disk.Reachable.locate`: a path can be followed as long as no directory is lost.
* `World.Drafts`: a temporary file, and nothing else, was added.
* `World.leadsTo_writeThrough`: what becomes of a write, from what becomes of the temporary file.
* `World.write_isWhole`: writing texts and values on a frail machine.
* `World.write_refused`: a write fails only if a step of it is refused.
-/

namespace Debundle

/-! ## Following a path again -/

namespace Disk

variable {d d' : Disk} {workingDirectory place start : Place} {path : Bytes}

/-- Where no directory stands is not the root. -/
theorem ne_root {found : Option Item} (h : d.item? place = found)
    (hfound : found ≠ some .directory) : place ≠ [] := by
  rintro rfl
  exact hfound (h.symm.trans (item?_nil d))

theorem item?_erase_self (d : Disk) (h : place ≠ []) : (d.erase place).item? place = none := by
  have hfind : ∀ l : List (Place × Item), find? place (l.filter fun e => e.1 ≠ place) = none := by
    intro l
    induction l with
    | nil => rfl
    | cons e rest ih => by_cases he : e.1 = place <;> simp_all [find?]
  rw [item?, if_neg h, erase, hfind]

/-- Where a directory was there still is one. -/
def KeepsDirectories (d d' : Disk) : Prop :=
  ∀ place, d.item? place = some .directory → d'.item? place = some .directory

/-- A path leads to a name in a directory. -/
def Reachable (d : Disk) (workingDirectory : Place) (path : Bytes) : Prop :=
  ∃ directory name, d.locateLast workingDirectory path = .ok (directory, some name)

theorem walk_append (d : Disk) (start : Place) (names more : List Bytes) :
    d.walk start (names ++ more) = d.walk start names >>= fun place => d.walk place more := by
  induction names generalizing start with
  | nil => rfl
  | cons name names ih =>
    rw [List.cons_append, walk, walk]
    split
    · rfl
    · rfl
    · split
      · rfl
      · exact ih _

theorem walk_of_keepsDirectories (hkeeps : d.KeepsDirectories d') {names : List Bytes}
    (h : d.walk start names = .ok place) : d'.walk start names = .ok place := by
  induction names generalizing start with
  | nil => exact h
  | cons name names ih =>
    rw [walk] at h ⊢
    split at h
    · cases h
    · cases h
    · rename_i hdirectory
      rw [hkeeps _ hdirectory]
      split at h
      · cases h
      · rename_i hlength
        rw [if_neg hlength]
        exact ih h

/-- What could be reached can be found as long as no directory is lost. -/
theorem Reachable.locate (h : d.Reachable workingDirectory path)
    (hkeeps : d.KeepsDirectories d') :
    d'.locate workingDirectory path = .ok (placeAt workingDirectory path) := by
  obtain ⟨directory, name, hlast⟩ := h
  have hplace := locateLast_eq_ok hlast
  unfold locateLast at hlast
  split at hlast
  · cases hlast
  · rename_i hempty
    split at hlast
    · cases hlast
    · rename_i hlong
      obtain ⟨reached, hwalk, hlast⟩ := exists_of_bind_eq_ok hlast
      split at hlast
      · cases hlast
      · cases hlast
      · rename_i hdirectory
        split at hlast
        · cases hlast
        · rename_i last hnames
          split at hlast
          · cases hlast
          · rename_i hname
            split at hlast
            · cases hlast
            · rename_i hlength
              cases hlast
              rw [Bool.or_eq_true, not_or, decide_eq_true_eq, decide_eq_true_eq] at hname
              -- the last name is followed from the directory that was reached
              have hstep : d'.walk directory [name] = .ok (directory ++ [name]) := by
                rw [walk, hkeeps _ hdirectory]
                simp only [if_neg hlength]
                rw [walk, follow, if_neg hname.1, if_neg hname.2]
              rw [Disk.locate, if_neg hempty, if_neg hlong,
                ← List.dropLast_append_getLast? name hnames, walk_append,
                walk_of_keepsDirectories hkeeps hwalk, ← hplace]
              exact hstep

theorem create_reachable {item : Item} (h : d.create workingDirectory path item = .ok d') :
    d.Reachable workingDirectory path := by
  obtain ⟨⟨directory, _ | name⟩, hlast, h⟩ := exists_of_bind_eq_ok h
  · cases h
  · exact ⟨directory, name, hlast⟩

/-- The content of a file that is found. -/
theorem contentOf_eq_ok {bytes : Bytes} (hlocate : d.locate workingDirectory path = .ok place)
    (hitem : d.item? place = some (.file bytes)) :
    d.contentOf workingDirectory path = .ok bytes := by
  have hlookUp : d.lookUp workingDirectory path = .ok (.file bytes) := by
    simp only [lookUp, hlocate, bind, Except.bind, hitem]
  rw [contentOf, hlookUp]
  rfl

/-- A file is moved to where a path leads, but not to a directory. -/
theorem move_reachable {target : Bytes}
    (h : d.move workingDirectory path target = .ok (d', place)) :
    d.Reachable workingDirectory target ∧ d.item? place ≠ some .directory := by
  obtain ⟨source, hsource, h⟩ := exists_of_bind_eq_ok h
  obtain ⟨⟨directory, _ | name⟩, hlast, h⟩ := exists_of_bind_eq_ok h
  · cases h
  · refine ⟨⟨directory, name, hlast⟩, ?_⟩
    simp only at h
    split at h
    · cases h
    · cases h
    · cases h
    · rename_i hnot
      cases h
      exact hnot

/-- A file that is moved is read at its new place, and it is gone from the old one. -/
theorem move_content {target bytes : Bytes}
    (h : d.move workingDirectory path target = .ok (d', place))
    (hitem : d.item? (placeAt workingDirectory path) = some (.file bytes)) :
    d'.contentOf workingDirectory target = .ok bytes ∧
      (∀ other, other ≠ placeAt workingDirectory target → other ≠ placeAt workingDirectory path →
        d'.item? other = d.item? other) ∧
      (placeAt workingDirectory path ≠ placeAt workingDirectory target →
        d'.item? (placeAt workingDirectory path) = none) := by
  obtain ⟨hreachable, hnot⟩ := move_reachable h
  obtain ⟨rfl, hne, content, hfile, rfl⟩ := move_eq_ok h
  cases hitem.symm.trans hfile
  have hroot : placeAt workingDirectory path ≠ [] := ne_root hitem (by simp)
  have hothers : ∀ other, other ≠ placeAt workingDirectory target →
      other ≠ placeAt workingDirectory path →
      ((d.erase (placeAt workingDirectory path)).put (placeAt workingDirectory target)
        (.file bytes)).item? other = d.item? other := fun other htarget hpath =>
    (item?_put_of_ne _ _ htarget).trans (item?_erase_of_ne _ hpath)
  refine ⟨contentOf_eq_ok (hreachable.locate fun other hdirectory => ?_) (item?_put_self _ _ hne),
    hothers, fun hpath => (item?_put_of_ne _ _ hpath).trans (item?_erase_self _ hroot)⟩
  -- neither the file that is moved nor what it replaces is a directory
  rw [hothers other]
  · exact hdirectory
  · rintro rfl
    exact hnot hdirectory
  · rintro rfl
    rw [hitem] at hdirectory
    cases hdirectory

theorem removeFile_ok {bytes : Bytes} (hlocate : d.locate workingDirectory path = .ok place)
    (hitem : d.item? place = some (.file bytes)) :
    d.removeFile workingDirectory path = .ok (d.erase place) := by
  simp only [removeFile, hlocate, bind, Except.bind, hitem]

end Disk

namespace World

/-! ## A machine on which writes break off -/

/-- Gives a file a content.  If this fails, the file may be left with anything in it, as it is told
by the number of the step. -/
def frailFill (s : Surroundings) (left : Nat → Option Bytes) (path : Text) (content : Bytes) :
    StateM World (Except StorageError Unit) := fun w =>
  match (host s).fill path content w with
  | (.ok (), w') => (.ok (), w')
  | (.error e, w') =>
    match left w.steps, w'.disk.item? (placeFor s path) with
    | some bytes, some (.file _) =>
      (.error e, { w' with disk := w'.disk.put (placeFor s path) (.file bytes) })
    | _, _ => (.error e, w')

/-- A machine on which any step may be refused, and on which a write that fails may leave anything
in the file that it writes. -/
def frail (s : Surroundings) (left : Nat → Option Bytes) : Host (StateM World) :=
  { host s with fill := frailFill s left }

variable {s : Surroundings} {left : Nat → Option Bytes} {t u v w : World} {temporary path : Text}
  {bytes : Bytes}

/-! ## What stays -/

/-- What stands at a place is what stood there, or a directory where nothing stood. -/
def KeptAt (w w' : World) (place : Place) : Prop :=
  w'.disk.item? place = w.disk.item? place ∨
    w.disk.item? place = none ∧ w'.disk.item? place = some .directory

/-- At most directories were added. -/
def AddsDirectories (w w' : World) : Prop := ∀ place, w.KeptAt w' place

theorem KeptAt.trans {w' w'' : World} {place : Place} (h : w.KeptAt w' place)
    (h' : w'.KeptAt w'' place) : w.KeptAt w'' place := by
  rcases h with h | ⟨hnone, hdirectory⟩
  · rcases h' with h' | ⟨hnone', hdirectory'⟩
    · exact Or.inl (h'.trans h)
    · exact Or.inr ⟨h ▸ hnone', hdirectory'⟩
  · rcases h' with h' | ⟨hnone', -⟩
    · exact Or.inr ⟨hnone, h'.trans hdirectory⟩
    · rw [hdirectory] at hnone'
      cases hnone'

theorem KeptAt.of_eq {w' w'' : World} {place : Place} (h : w.KeptAt w' place)
    (heq : w''.disk.item? place = w'.disk.item? place) : w.KeptAt w'' place :=
  h.trans (Or.inl heq)

/-- Where directories are made, at most directories are added. -/
theorem addsDirectories_respected : (frail s left).Respects AddsDirectories where
  refl _ _ := Or.inl rfl
  trans h h' place := (h place).trans (h' place)
  makeDirectory path w := by
    dsimp only [frail, host]
    refine leadsTo_step (fun _ _ => Or.inl rfl) fun _ w' _ hact place => ?_
    obtain ⟨d, hd, hw'⟩ := exists_of_bind_eq_ok hact
    obtain ⟨hnone, rfl⟩ := Disk.create_eq_ok hd
    cases hw'
    by_cases hplace : place = Disk.placeAt (placeOf s) path.nameUnits
    · rw [hplace]
      exact Or.inr ⟨hnone, Disk.item?_put_self _ _ (Disk.ne_root hnone (by simp))⟩
    · exact Or.inl (Disk.item?_put_of_ne _ _ hplace)
  isPresent path w := (leadsTo_test path _).mono fun _ _ h _ => Or.inl (h ▸ rfl)
  isDirectory path w := (leadsTo_test path _).mono fun _ _ h _ => Or.inl (h ▸ rfl)

/-! ## The temporary file -/

/-- A temporary file, and nothing else, was added, at a path where it is found again. -/
structure Drafts (s : Surroundings) (t u : World) (temporary : Text) : Prop where
  /-- The path has bytes. -/
  nameable : temporary.IsNameable
  /-- The path leads to a name in a directory. -/
  reachable : t.disk.Reachable (placeOf s) temporary.nameUnits
  /-- Nothing stood there. -/
  new : t.disk.item? (placeFor s temporary) = none
  /-- What stands elsewhere stood there. -/
  others : ∀ place, place ≠ placeFor s temporary → u.disk.item? place = t.disk.item? place
  /-- There is a file now. -/
  file : ∃ content, u.disk.item? (placeFor s temporary) = some (.file content)

namespace Drafts

theorem ne_root (h : Drafts s t u temporary) : placeFor s temporary ≠ [] :=
  Disk.ne_root h.new (by simp)

/-- No directory was where the temporary file is. -/
theorem keepsDirectories (h : Drafts s t u temporary) : t.disk.KeepsDirectories u.disk := by
  intro place hdirectory
  rw [h.others place fun hplace => ?_]
  · exact hdirectory
  · rw [hplace, h.new] at hdirectory
    cases hdirectory

/-- The temporary file may be given any content. -/
theorem put (h : Drafts s t u temporary) (bytes : Bytes)
    (hdisk : v.disk = u.disk.put (placeFor s temporary) (.file bytes)) :
    Drafts s t v temporary ∧ v.disk.item? (placeFor s temporary) = some (.file bytes) := by
  have hitem : v.disk.item? (placeFor s temporary) = some (.file bytes) := by
    rw [hdisk]
    exact Disk.item?_put_self _ _ h.ne_root
  refine ⟨⟨h.nameable, h.reachable, h.new, fun place hplace => ?_, bytes, hitem⟩, hitem⟩
  rw [hdisk, Disk.item?_put_of_ne _ _ hplace]
  exact h.others place hplace

/-- A step that leaves the disk as it is leaves the temporary file. -/
theorem of_eq (h : Drafts s t u temporary) (hdisk : v.disk = u.disk) : Drafts s t v temporary :=
  ⟨h.nameable, h.reachable, h.new, fun place hplace => hdisk ▸ h.others place hplace,
    hdisk ▸ h.file⟩

end Drafts

/-- The file at a path has a content, and what stands elsewhere stood there. -/
structure Fills (s : Surroundings) (t v : World) (path : Text) (bytes : Bytes) : Prop where
  /-- Whoever reads the file gets the content. -/
  content : ∃ units, systemPath path = .ok units ∧ v.disk.contentOf (placeOf s) units = .ok bytes
  /-- What stands elsewhere stood there. -/
  others : ∀ place, place ≠ placeFor s path → v.disk.item? place = t.disk.item? place

theorem leadsTo_createTemporary_drafts (directory : Text) :
    LeadsTo ((frail s left).createTemporary directory) t fun r u =>
      match r with
      | .error _ => u.disk = t.disk
      | .ok temporary => Drafts s t u temporary := by
  have hcreate : ∀ path : Text, LeadsTo
      (step s path none fun w bytes => do
        let disk ← w.disk.createFile (placeOf s) bytes
        return (path, { w with disk := disk })) t
      fun r u =>
        match r with
        | .error _ => u.disk = t.disk
        | .ok temporary => Drafts s t u temporary := by
    intro path
    refine leadsTo_step (fun _ => rfl) fun _ u hnameable hact => ?_
    obtain ⟨d, hd, hu⟩ := exists_of_bind_eq_ok hact
    obtain ⟨hnone, rfl⟩ := Disk.create_eq_ok hd
    cases hu
    exact ⟨hnameable, Disk.create_reachable hd, hnone, fun place hplace =>
      Disk.item?_put_of_ne _ _ hplace, [],
      Disk.item?_put_self _ _ (Disk.ne_root hnone (by simp))⟩
  exact hcreate _

theorem leadsTo_fill_drafts (h : Drafts s t u temporary) (content : Bytes) :
    LeadsTo ((frail s left).fill temporary content) u fun r v =>
      Drafts s t v temporary ∧
        (r = .ok () → v.disk.item? (placeFor s temporary) = some (.file content)) := by
  have hfill : LeadsTo ((host s).fill temporary content) u fun r v =>
      Drafts s t v temporary ∧
        (r = .ok () → v.disk.item? (placeFor s temporary) = some (.file content)) := by
    dsimp only [host]
    refine leadsTo_step (fun _ => ⟨h.of_eq rfl, fun hok => by cases hok⟩) fun _ v _ hact => ?_
    obtain ⟨⟨d, place⟩, hd, hv⟩ := exists_of_bind_eq_ok hact
    obtain ⟨rfl, -, rfl⟩ := Disk.openFile_eq_ok hd
    cases hv
    exact (h.put content rfl).imp_right fun hitem _ => hitem
  show LeadsTo (frailFill s left temporary content) u _
  unfold LeadsTo frailFill at *
  split
  · rename_i hrun
    rwa [hrun] at hfill
  · rename_i e v hrun
    rw [hrun] at hfill
    split
    · exact ⟨(hfill.1.put _ rfl).1, fun hok => by cases hok⟩
    · exact hfill

theorem leadsTo_replace_drafts (h : Drafts s t u temporary)
    (hitem : u.disk.item? (placeFor s temporary) = some (.file bytes)) (path : Text) :
    LeadsTo ((frail s left).replace temporary path) u fun r v =>
      match r with
      | .error _ => Drafts s t v temporary
      | .ok () => Fills s t v path bytes := by
  show LeadsTo (replace s temporary path) u _
  unfold replace
  cases htarget : systemPath path with
  | error e => exact h
  | ok goal =>
    obtain ⟨-, rfl⟩ := systemPath_eq_ok_iff.mp htarget
    refine leadsTo_step (fun _ => h.of_eq rfl) fun _ v _ hact => ?_
    obtain ⟨⟨d, place⟩, hd, hv⟩ := exists_of_bind_eq_ok hact
    obtain ⟨hcontent, hothers, hgone⟩ := Disk.move_content hd hitem
    cases hv
    refine ⟨⟨_, htarget, hcontent⟩, fun place hplace => ?_⟩
    by_cases htemporary : place = placeFor s temporary
    · rw [htemporary] at hplace ⊢
      exact (hgone hplace).trans h.new.symm
    · exact (hothers place hplace htemporary).trans (h.others place htemporary)

/-- The temporary file is removed, and nothing was changed. -/
theorem leadsTo_discard_drafts (h : Drafts s t u temporary) (reason : StorageError) :
    LeadsTo ((frail s left).discard temporary reason) u fun e v =>
      e = reason ∧ ∀ place, v.disk.item? place = t.disk.item? place := by
  have hremove : LeadsTo ((frail s left).remove temporary) u fun r v =>
      r = .ok () ∧ v.disk = u.disk.erase (placeFor s temporary) := by
    obtain ⟨content, hitem⟩ := h.file
    have hremoved := Disk.removeFile_ok (h.reachable.locate h.keepsDirectories) hitem
    show LeadsTo (remove s temporary) u _
    unfold LeadsTo remove step
    rw [systemPath_eq_ok_iff.mpr ⟨h.nameable, rfl⟩]
    simp only [hremoved]
    exact ⟨rfl, rfl⟩
  refine hremove.bind fun r v hv => ?_
  obtain ⟨rfl, hdisk⟩ := hv
  refine ⟨rfl, fun place => ?_⟩
  show v.disk.item? place = t.disk.item? place
  rw [hdisk]
  by_cases hplace : place = placeFor s temporary
  · rw [hplace, h.new]
    exact Disk.item?_erase_self _ h.ne_root
  · exact (Disk.item?_erase_of_ne _ hplace).trans (h.others place hplace)

/-! ## Writing -/

/-- A write is whole: if it fails, what was there is left and perhaps directories were made, and if
it does not, besides this the file has all of a content. -/
def IsWhole (s : Surroundings) (path : Text) (content : Bytes → Prop) (w : World)
    (r : Except StorageError Unit) (w' : World) : Prop :=
  match r with
  | .error _ => w.AddsDirectories w'
  | .ok () =>
    (∃ bytes units, content bytes ∧ systemPath path = .ok units ∧
      w'.disk.contentOf (placeOf s) units = .ok bytes) ∧
      ∀ place, place ≠ placeFor s path → w.KeptAt w' place

/-- The temporary file is put in its place with all of a content, or it is left where it is. -/
def Publishes (s : Surroundings) (t : World) (temporary path : Text) (content : Bytes → Prop)
    (r : Except StorageError Unit) (v : World) : Prop :=
  match r with
  | .error _ => Drafts s t v temporary
  | .ok () => ∃ bytes, content bytes ∧ Fills s t v path bytes

/-- What becomes of a write, if at first only the temporary file is touched, and if this file is put
in its place with all of the content or not at all. -/
theorem leadsTo_writeThrough {content : Bytes → Prop}
    {publish : Text → StateM World (Except StorageError Unit)}
    (hpublish : ∀ temporary t u, Drafts s t u temporary →
      LeadsTo (publish temporary) u (Publishes s t temporary path content)) :
    LeadsTo ((frail s left).writeThrough path publish) w (IsWhole s path content w) := by
  refine (addsDirectories_respected.ensureDirectory _ w).bind fun r t ht => ?_
  split
  · exact ht
  · refine (leadsTo_createTemporary_drafts _).bind fun r u hu => ?_
    split
    · exact fun place => (ht place).of_eq (congrArg (Disk.item? · place) hu)
    · rename_i temporary
      refine (hpublish temporary t u hu).bind fun r v hv => ?_
      split
      · obtain ⟨bytes, hbytes, hv⟩ := hv
        obtain ⟨units, hunits, hcontent⟩ := hv.content
        exact ⟨⟨bytes, units, hbytes, hunits, hcontent⟩, fun place hplace =>
          (ht place).of_eq (hv.others place hplace)⟩
      · rename_i reason
        exact (leadsTo_discard_drafts hv reason).bind fun e x hx place =>
          (ht place).of_eq (hx.2 place)

/-- A file that is filled with all of a content is put in its place, or it is left where it is. -/
theorem leadsTo_replace_publishes (h : Drafts s t u temporary)
    (hitem : u.disk.item? (placeFor s temporary) = some (.file bytes)) {content : Bytes → Prop}
    (hcontent : content bytes) :
    LeadsTo ((frail s left).replace temporary path) u (Publishes s t temporary path content) := by
  refine (leadsTo_replace_drafts h hitem path).mono fun r v hv => ?_
  cases r with
  | error e => exact hv
  | ok done => exact ⟨bytes, hcontent, hv⟩

theorem leadsTo_publish_drafts (h : Drafts s t u temporary) (path content : Text) :
    LeadsTo ((frail s left).publish temporary path content) u
      (Publishes s t temporary path fun bytes => contentBytes content = .ok bytes) := by
  unfold Host.publish
  split
  · exact h
  · rename_i bytes hbytes
    refine (leadsTo_fill_drafts h bytes).bind fun r v hv => ?_
    split
    · exact hv.1
    · exact leadsTo_replace_publishes hv.1 (hv.2 rfl) hbytes

/-- What stands in front of the part of a value that cannot be written is written to the temporary
file, and goes with it. -/
theorem leadsTo_publishJson_drafts (h : Drafts s t u temporary) (path : Text) (text : JsonText) :
    LeadsTo ((frail s left).publishJson temporary path text) u
      (Publishes s t temporary path fun bytes => Host.encodeJson text = (bytes, none)) := by
  unfold Host.publishJson
  cases htext : Host.encodeJson text with
  | mk bytes failure =>
    refine (leadsTo_fill_drafts h bytes).bind fun r v hv => ?_
    split
    · exact hv.1
    · cases failure with
      | some e => exact hv.1
      | none => exact leadsTo_replace_publishes hv.1 (hv.2 rfl) rfl

/-- Whatever is on a disk, whichever steps are refused there, and whatever a write that fails leaves
in the file that it writes: a text or a value that is written to a file is written as a whole or not
at all, and not at all if it cannot be written.  In the end there is no file that was not there
before, except the one that is written. -/
theorem write_isWhole (s : Surroundings) (left : Nat → Option Bytes) (w : World) (path : Text) :
    (∀ content, LeadsTo ((frail s left).writeText path content) w
      (IsWhole s path (fun bytes => contentBytes content = .ok bytes) w)) ∧
      ∀ v sorted, LeadsTo ((frail s left).writeJson path v sorted) w
        (IsWhole s path (fun bytes => v.IsWritable sorted ∧
          contentBytes (v.arranged sorted).toJson = .ok bytes) w) := by
  refine ⟨fun content => ?_, fun v sorted => ?_⟩
  · exact leadsTo_writeThrough fun temporary t u h => leadsTo_publish_drafts h path content
  · simp only [← Host.encodeJson_eq_iff]
    exact leadsTo_writeThrough fun temporary t u h => leadsTo_publishJson_drafts h path _

/-! ## Writes that succeed -/

theorem frailFill_fst (path : Text) (content : Bytes) (w : World) :
    (frailFill s left path content w).1 = ((host s).fill path content w).1 := by
  unfold frailFill
  split
  · rename_i hrun
    rw [hrun]
  · rename_i hrun
    rw [hrun]
    split <;> rfl

/-- What a write that fails leaves in a file does not change why it failed. -/
theorem frail_isFaithful (hworking : s.workingDirectory.IsNameable)
    (hnames : ∀ n, (s.temporaryName n).IsNameable) : (frail s left).IsFaithful s.output :=
  { host_isFaithful hworking hnames with
    fill := fun path content w => by
      show (fun r => FailsByForm r ↔ ¬path.IsNameable) (frailFill s left path content w).1
      rw [frailFill_fst]
      exact (host_isFaithful hworking hnames).fill path content w }

/-- A write fails only if a step of it is refused, provided that its path has bytes and that what is
written has. -/
theorem write_refused (hworking : s.workingDirectory.IsNameable)
    (hnames : ∀ n, (s.temporaryName n).IsNameable) (hpath : path.IsNameable) :
    (∀ content, content.IsScalar →
      Yields ((frail s left).writeText path content) (FailsIn fun e => e.isRefusal = true)) ∧
      ∀ v sorted, v.IsWritable sorted → (v.arranged sorted).toJson.IsScalar →
        Yields ((frail s left).writeJson path v sorted) (FailsIn fun e => e.isRefusal = true) :=
  have hfaithful := frail_isFaithful hworking hnames
  ⟨fun _ hcontent => hfaithful.writeText hpath hcontent,
    fun _ _ hv hcontent => hfaithful.writeJson hpath hv hcontent⟩

/-- A machine that refuses some steps of its own accord. -/
def plain (refuses : Nat → Option Cause) : Surroundings :=
  ⟨"/", fun n => List.replicate (n + 1) 't', refuses, false, "now", .utf8⟩

/-- Two integers as keys. -/
def numbered : Value := .mapping [(.int 10, .list []), (.int 9, .scalar (.text "x"))]

/-- An integer and a text as keys. -/
def mixed : Value := .mapping [(.int 10, .list []), (.text "9", .scalar (.text "x"))]

/-- What becomes of a value, with its keys in order, on an empty disk: whether it was written, and
what there is on the disk in the end. -/
def writeSorted (refuses : Nat → Option Cause) (v : Value) : Bool × List (Place × Item) :=
  let (r, w) := (frail (plain refuses) fun _ => some [0]).writeJson "/out/r.json" v true
    (ofDisk .empty)
  (r.isOk, w.disk.items)

/-- If nothing is refused, a value that can be written is written, in a directory that is made for
it.  If it cannot be written, or if one of the three steps behind the making of the directory is
refused, only the directory is there in the end. -/
theorem writeSorted_plain :
    writeSorted (fun _ => none) numbered =
      (true, [([Text.bytes "out"], .directory), ([Text.bytes "out", Text.bytes "r.json"],
        .file (Text.bytes "\x7b\n  \"9\": \"x\",\n  \"10\": []\n\x7d"))]) ∧
      writeSorted (fun _ => none) mixed = (false, [([Text.bytes "out"], .directory)]) ∧
      ∀ n ∈ [1, 2, 3], writeSorted (fun k => if k = n then some .denied else none) numbered =
        (false, [([Text.bytes "out"], .directory)]) := by
  decide +kernel

end World

end Debundle
