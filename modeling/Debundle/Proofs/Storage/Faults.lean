import Debundle.Proofs.Storage.Runs
import Debundle.Proofs.Storage.Writing

/-!
# Which failures a host may give

A step on files fails because the system refuses it, for reasons of its own, or because a path has
no bytes, and this the system is never asked about.  Of a host nothing else is known here: it may
refuse any step at any time.

Writing a file works on the path of the file and on paths that are made of its code points, so it
fails by the form of a path only if the path of the file has no bytes.

* `Host.FailsWithin`, `Host.FailsWithin.writeThrough`: writing a file fails only as its steps do.
* `FailsByForm`: a failure that is no refusal.
* `Host.IsFaithful`: a host that fails by form where a path has no bytes and nowhere else, and that
  prints what the encoding of the output covers.
* `Host.IsFaithful.writeText`, `Host.IsFaithful.writeJson`: so does writing a text or a value that
  has bytes.
* `Host.NeverRefuses`: a host that refuses nothing.
* `Host.NeverRefuses.writeText_iff`, `Host.NeverRefuses.writeJson_iff`: what is written there.
* `World.host_isFaithful`: the model of a machine is faithful.
-/

namespace Debundle

variable {σ α : Type}

/-! ## Paths above a path -/

namespace Text

theorem trimRight_subset (p : CodePoint → Bool) (t : Text) : trimRight p t ⊆ t := by
  intro c hc
  rw [trimRight, List.mem_reverse] at hc
  exact List.mem_reverse.mp ((List.dropWhile_sublist p).subset hc)

end Text

namespace Path

theorem directoryOf_subset (path : Text) : directoryOf path ⊆ path := by
  have hhead : (path.reverse.dropWhile (· != slash)).reverse ⊆ path :=
    Text.trimRight_subset (· != slash) path
  unfold directoryOf
  simp only
  split
  · exact hhead
  · exact List.Subset.trans (Text.trimRight_subset _ _) hhead

theorem ancestors_subset {fuel : Nat} {path ancestor : Text} (h : ancestor ∈ ancestors fuel path) :
    ancestor ⊆ path := by
  induction fuel generalizing path with
  | zero => exact absurd h List.not_mem_nil
  | succ fuel ih =>
    have habove : above path ⊆ path :=
      List.Subset.trans (directoryOf_subset _) (Text.trimRight_subset _ _)
    rw [ancestors] at h
    split at h
    · exact absurd h List.not_mem_nil
    · rcases List.mem_cons.mp h with rfl | h
      · exact habove
      · exact List.Subset.trans (ih h) habove

end Path

/-! ## Classes of failures -/

/-- A step fails only with failures of a class. -/
def FailsIn (E : StorageError → Prop) (r : Except StorageError α) : Prop := ∀ e, r = .error e → E e

theorem failsIn_ok {E : StorageError → Prop} (a : α) : FailsIn E (.ok a) := fun _ he => by cases he

theorem failsIn_error_iff {E : StorageError → Prop} {e : StorageError} :
    FailsIn E (.error e : Except StorageError α) ↔ E e :=
  ⟨fun hr => hr e rfl, fun he _ h => Except.error.inj h ▸ he⟩

/-- On paths of a class, the steps by which files are written fail only with failures of a class. -/
structure Host.FailsWithin (h : Host (StateM σ)) (A : Text → Prop) (E : StorageError → Prop) :
    Prop where
  makeDirectory : ∀ path, A path → Yields (h.makeDirectory path) (FailsIn E)
  createTemporary : ∀ directory, A directory → Yields (h.createTemporary directory) fun r =>
    FailsIn E r ∧ ∀ path, r = .ok path → A path
  fill : ∀ path content, A path → Yields (h.fill path content) (FailsIn E)
  replace : ∀ path target, A path → A target → Yields (h.replace path target) (FailsIn E)
  remove : ∀ path, A path → Yields (h.remove path) (FailsIn E)

namespace Host.FailsWithin

variable {h : Host (StateM σ)} {A : Text → Prop} {E : StorageError → Prop}

theorem ensureOne (hh : h.FailsWithin A E) {path : Text} (hpath : A path) :
    Yields (h.ensureOne path) (FailsIn E) := by
  refine (hh.makeDirectory path hpath).bind fun r hr => ?_
  split
  · exact yields_pure (failsIn_ok ())
  · refine (yields_true _).bind fun found _ => ?_
    split
    · exact yields_pure (failsIn_ok ())
    · exact yields_pure hr
  · exact yields_pure hr

theorem ensureAncestors (hh : h.FailsWithin A E) {paths : List Text}
    (hpaths : ∀ path ∈ paths, A path) : Yields (h.ensureAncestors paths) (FailsIn E) := by
  induction paths with
  | nil => exact yields_pure (failsIn_ok ())
  | cons path above ih =>
    obtain ⟨hpath, habove⟩ := List.forall_mem_cons.mp hpaths
    refine (yields_true _).bind fun found _ => ?_
    split
    · exact yields_pure (failsIn_ok ())
    · refine (ih habove).bind fun r hr => ?_
      split
      · exact yields_pure hr
      · refine (hh.ensureOne hpath).bind fun r hr => ?_
        split
        · exact yields_pure (failsIn_ok ())
        · exact yields_pure hr

theorem publish (hh : h.FailsWithin A E) {temporary path content : Text}
    (htemporary : A temporary) (hpath : A path) (hcontent : FailsIn E (contentBytes content)) :
    Yields (h.publish temporary path content) (FailsIn E) := by
  unfold Host.publish
  split
  · rename_i e he
    exact yields_pure (failsIn_error_iff.mpr (hcontent e he))
  · refine (hh.fill temporary _ htemporary).bind fun r hr => ?_
    split
    · exact yields_pure hr
    · exact hh.replace temporary path htemporary hpath

theorem publishJson (hh : h.FailsWithin A E) {temporary path : Text} {text : JsonText}
    (htemporary : A temporary) (hpath : A path)
    (htext : ∀ e, (encodeJson text).2 = some e → E e) :
    Yields (h.publishJson temporary path text) (FailsIn E) := by
  unfold Host.publishJson
  refine (hh.fill temporary _ htemporary).bind fun r hr => ?_
  split
  · exact yields_pure hr
  · split
    · rename_i e he
      exact yields_pure (failsIn_error_iff.mpr (htext e he))
    · exact hh.replace temporary path htemporary hpath

theorem discard (hh : h.FailsWithin A E) {temporary : Text} (htemporary : A temporary)
    {reason : StorageError} (hreason : E reason) : Yields (h.discard temporary reason) E := by
  refine (hh.remove temporary htemporary).bind fun r hr => ?_
  split
  · exact yields_pure hreason
  · exact yields_pure hreason
  · exact yields_pure (failsIn_error_iff.mp hr)

/-- Writing a file fails only in these ways as well, if the class of its path has the paths made of
the same code points. -/
theorem writeThrough (hh : h.FailsWithin A E) (hhere : A Path.here)
    (hsubset : ∀ t u : Text, t ⊆ u → A u → A t) {path : Text} (hpath : A path)
    {publish : Text → StateM σ (Except StorageError Unit)}
    (hpublish : ∀ temporary, A temporary → Yields (publish temporary) (FailsIn E)) :
    Yields (h.writeThrough path publish) (FailsIn E) := by
  have hdirectory : A (directoryFor path) := by
    unfold directoryFor
    simp only
    split
    · exact hhere
    · exact hsubset _ _ (Path.directoryOf_subset path) hpath
  have hensure : Yields (h.ensureDirectory (directoryFor path)) (FailsIn E) := by
    refine (hh.ensureAncestors fun ancestor hmem =>
      hsubset _ _ (Path.ancestors_subset hmem) hdirectory).bind fun r hr => ?_
    split
    · exact yields_pure hr
    · exact hh.ensureOne hdirectory
  refine hensure.bind fun r hr => ?_
  split
  · exact yields_pure hr
  · refine (hh.createTemporary _ hdirectory).bind fun r hr => ?_
    split
    · exact yields_pure (failsIn_error_iff.mpr (failsIn_error_iff.mp hr.1))
    · rename_i temporary
      have htemporary := hr.2 temporary rfl
      refine (hpublish temporary htemporary).bind fun r hr => ?_
      split
      · exact yields_pure (failsIn_ok ())
      · exact (hh.discard htemporary (failsIn_error_iff.mp hr)).bind fun e he =>
          yields_pure (failsIn_error_iff.mpr he)

theorem writeText (hh : h.FailsWithin A E) (hhere : A Path.here)
    (hsubset : ∀ t u : Text, t ⊆ u → A u → A t) {path content : Text} (hpath : A path)
    (hcontent : FailsIn E (contentBytes content)) :
    Yields (h.writeText path content) (FailsIn E) :=
  hh.writeThrough hhere hsubset hpath fun _ htemporary => hh.publish htemporary hpath hcontent

theorem writeJson (hh : h.FailsWithin A E) (hhere : A Path.here)
    (hsubset : ∀ t u : Text, t ⊆ u → A u → A t) {path : Text} (hpath : A path) {v : Value}
    {sorted : Bool} (htext : ∀ e, (encodeJson (v.jsonText sorted)).2 = some e → E e) :
    Yields (h.writeJson path v sorted) (FailsIn E) :=
  hh.writeThrough hhere hsubset hpath fun _ htemporary => hh.publishJson htemporary hpath htext

end Host.FailsWithin

/-! ## Failures by form -/

/-- A step failed without being refused. -/
def FailsByForm (r : Except StorageError α) : Prop := ∃ e, r = .error e ∧ e.isRefusal = false

theorem not_failsByForm_ok (a : α) : ¬FailsByForm (.ok a) := fun ⟨_, he, _⟩ => by cases he

theorem failsByForm_error_iff {e : StorageError} :
    FailsByForm (.error e : Except StorageError α) ↔ e.isRefusal = false :=
  ⟨fun ⟨_, he, h⟩ => Except.error.inj he ▸ h, fun h => ⟨e, rfl, h⟩⟩

theorem not_failsByForm_refused (cause : Cause) (path : Text) (target : Option Text) :
    ¬FailsByForm (.error (.refused cause path target) : Except StorageError α) := by
  rw [failsByForm_error_iff]
  exact Bool.noConfusion

/-- A path without bytes is no refusal. -/
theorem systemPath_isRefusal {path : Text} {e : StorageError} (h : systemPath path = .error e) :
    e.isRefusal = false := by
  unfold systemPath at h
  cases hbytes : path.nameBytes with
  | error run =>
    rw [hbytes] at h
    cases h
    rfl
  | ok bytes =>
    rw [hbytes] at h
    replace h : (if bytes.contains 0 = true then Except.error StorageError.nullInPath
      else Except.ok bytes) = Except.error e := h
    split at h
    · cases h
      rfl
    · cases h

theorem contentBytes_isRefusal {content : Text} {e : StorageError}
    (h : contentBytes content = .error e) : e.isRefusal = false := by
  unfold contentBytes at h
  cases hbytes : Text.contentBytesFrom 0 content with
  | error u =>
    rw [hbytes] at h
    cases h
    rfl
  | ok bytes =>
    rw [hbytes] at h
    cases h

/-- A value without bytes is no refusal. -/
theorem encodeJson_isRefusal {text : JsonText} {e : StorageError}
    (h : (Host.encodeJson text).2 = some e) : e.isRefusal = false := by
  have hpieces : ∀ pieces : List Text, (Host.encodePieces pieces).2 = some e →
      e.isRefusal = false := by
    intro pieces
    induction pieces with
    | nil => exact nofun
    | cons piece rest ih =>
      rw [Host.encodePieces]
      split
      · rename_i he
        rintro ⟨⟩
        exact contentBytes_isRefusal he
      · exact ih
  unfold Host.encodeJson at h
  cases hfailure : (Host.encodePieces text.pieces).2 with
  | some e' =>
    simp only [hfailure] at h
    cases h
    exact hpieces _ hfailure
  | none =>
    simp only [hfailure] at h
    cases hfault : text.fault with
    | none =>
      rw [hfault] at h
      cases h
    | some fault =>
      rw [hfault] at h
      cases h
      rfl

/-- What fails in no way at all does not fail. -/
theorem eq_ok_of_failsIn {r : Except StorageError Unit}
    (h : FailsIn (fun e => e.isRefusal = true) r) (h' : FailsIn (fun e => e.isRefusal = false) r) :
    r = .ok () := by
  cases r with
  | ok done => rfl
  | error e => cases (h e rfl).symm.trans (h' e rfl)

theorem failsIn_isRefusal_iff {r : Except StorageError α} :
    FailsIn (fun e => e.isRefusal = true) r ↔ ¬FailsByForm r := by
  cases r with
  | ok a => exact ⟨fun _ => not_failsByForm_ok a, fun _ => failsIn_ok a⟩
  | error e => rw [failsIn_error_iff, failsByForm_error_iff, Bool.not_eq_false]

/-- A text may be printed if it is covered. -/
theorem Encoding.check_eq_ok_iff {e : Encoding} {text : Text} :
    e.check text = .ok () ↔ e.Covers text := by
  rw [← gap?_eq_none_iff, check]
  cases e.gap? text <;> simp

/-- What a host must keep to: on files it fails by form where a path has no bytes, and nowhere else,
and it prints what the encoding of the output covers, and nothing else. -/
structure Host.IsFaithful (h : Host (StateM σ)) (out : Encoding) : Prop where
  /-- A directory is made at a path with bytes. -/
  makeDirectory : ∀ path, Yields (h.makeDirectory path) fun r => FailsByForm r ↔ ¬path.IsNameable
  /-- A temporary file in a directory with bytes has bytes as well. -/
  createTemporary : ∀ directory, directory.IsNameable →
    Yields (h.createTemporary directory) fun r =>
      ¬FailsByForm r ∧ ∀ path, r = .ok path → path.IsNameable
  /-- A file at a path with bytes is filled. -/
  fill : ∀ path content, Yields (h.fill path content) fun r => FailsByForm r ↔ ¬path.IsNameable
  /-- A file is moved between paths with bytes. -/
  replace : ∀ path target,
    Yields (h.replace path target) fun r => FailsByForm r ↔ ¬(path.IsNameable ∧ target.IsNameable)
  /-- A file at a path with bytes is removed. -/
  remove : ∀ path, Yields (h.remove path) fun r => FailsByForm r ↔ ¬path.IsNameable
  /-- A text that is covered is printed. -/
  print : ∀ text, Yields (h.print text) fun r => r = .ok () ↔ out.Covers text

namespace Host

variable {h : Host (StateM σ)} {out : Encoding}

/-- What holds if a temporary file was put in its place holds if a file was written. -/
theorem yields_of_publish {path : Text} {publish : Text → StateM σ (Except StorageError Unit)}
    {C : Prop} (hpublish : ∀ temporary, Yields (publish temporary) fun r => r = .ok () → C) :
    Yields (h.writeThrough path publish) fun r => r = .ok () → C := by
  refine (yields_true _).bind fun r _ => ?_
  split
  · exact yields_pure fun hok => by cases hok
  · refine (yields_true _).bind fun r _ => ?_
    split
    · exact yields_pure fun hok => by cases hok
    · refine (hpublish _).bind fun r hr => ?_
      split
      · exact yields_pure hr
      · exact (yields_true _).bind fun e _ => yields_pure fun hok => by cases hok

namespace IsFaithful

/-- On paths with bytes a faithful host fails only by refusing. -/
theorem failsWithin (hh : h.IsFaithful out) :
    h.FailsWithin Text.IsNameable fun e => e.isRefusal = true where
  makeDirectory path hpath := (hh.makeDirectory path).mono fun _ hr =>
    failsIn_isRefusal_iff.mpr fun hform => hr.mp hform hpath
  createTemporary directory hdirectory := (hh.createTemporary directory hdirectory).mono fun _ hr =>
    ⟨failsIn_isRefusal_iff.mpr hr.1, hr.2⟩
  fill path content hpath := (hh.fill path content).mono fun _ hr =>
    failsIn_isRefusal_iff.mpr fun hform => hr.mp hform hpath
  replace path target hpath htarget := (hh.replace path target).mono fun _ hr =>
    failsIn_isRefusal_iff.mpr fun hform => hr.mp hform ⟨hpath, htarget⟩
  remove path hpath := (hh.remove path).mono fun _ hr =>
    failsIn_isRefusal_iff.mpr fun hform => hr.mp hform hpath

/-- A file at a path with bytes is written, or the system refuses. -/
theorem writeText (hh : h.IsFaithful out) {path content : Text} (hpath : path.IsNameable)
    (hcontent : content.IsScalar) :
    Yields (h.writeText path content) (FailsIn fun e => e.isRefusal = true) := by
  refine hh.failsWithin.writeText (by decide) (fun _ _ hsubset hu => hu.of_subset hsubset) hpath ?_
  rw [contentBytes_eq_ok_iff.mpr ⟨hcontent, rfl⟩]
  exact failsIn_ok _

/-- The same of a value that can be written. -/
theorem writeJson (hh : h.IsFaithful out) {path : Text} {v : Value} {sorted : Bool}
    (hpath : path.IsNameable) (hv : v.IsWritable sorted)
    (hcontent : (v.arranged sorted).toJson.IsScalar) :
    Yields (h.writeJson path v sorted) (FailsIn fun e => e.isRefusal = true) := by
  refine hh.failsWithin.writeJson (by decide) (fun _ _ hsubset hu => hu.of_subset hsubset) hpath ?_
  rw [encodeJson_eq_iff.mpr ⟨hv, contentBytes_eq_ok_iff.mpr ⟨hcontent, rfl⟩⟩]
  exact fun e he => by cases he

/-- A file that is put in its place has a path with bytes. -/
theorem of_replace (hh : h.IsFaithful out) (temporary path : Text) :
    Yields (h.replace temporary path) fun r => r = .ok () → path.IsNameable := by
  refine (hh.replace temporary path).mono fun r hr hok => ?_
  by_contra hpath
  rw [hok] at hr
  exact not_failsByForm_ok () (hr.mpr fun hboth => hpath hboth.2)

/-- A file that is written has a path with bytes, and a content with bytes. -/
theorem of_writeText (hh : h.IsFaithful out) (path content : Text) :
    Yields (h.writeText path content) fun r =>
      r = .ok () → path.IsNameable ∧ content.IsScalar := by
  refine yields_of_publish fun temporary => ?_
  unfold Host.publish
  split
  · exact yields_pure fun hok => by cases hok
  · rename_i bytes hbytes
    refine (yields_true _).bind fun r _ => ?_
    split
    · exact yields_pure fun hok => by cases hok
    · exact (hh.of_replace temporary path).mono fun r hr hok =>
        ⟨hr hok, (contentBytes_eq_ok_iff.mp hbytes).1⟩

/-- The same of a value that is written. -/
theorem of_writeJson (hh : h.IsFaithful out) (path : Text) (v : Value) (sorted : Bool) :
    Yields (h.writeJson path v sorted) fun r => r = .ok () →
      path.IsNameable ∧ v.IsWritable sorted ∧ (v.arranged sorted).toJson.IsScalar := by
  refine yields_of_publish fun temporary => ?_
  unfold Host.publishJson
  cases htext : encodeJson (v.jsonText sorted) with
  | mk bytes failure =>
    refine (yields_true _).bind fun r _ => ?_
    split
    · exact yields_pure fun hok => by cases hok
    · cases failure with
      | some e => exact yields_pure fun hok => by cases hok
      | none =>
        obtain ⟨hv, hcontent⟩ := encodeJson_eq_iff.mp htext
        exact (hh.of_replace temporary path).mono fun r hr hok =>
          ⟨hr hok, hv, (contentBytes_eq_ok_iff.mp hcontent).1⟩

end IsFaithful

/-! ## Hosts that refuse nothing -/

/-- A host that refuses nothing. -/
def NeverRefuses (h : Host (StateM σ)) : Prop :=
  h.FailsWithin (fun _ => True) fun e => e.isRefusal = false

namespace NeverRefuses

theorem writeText (hn : h.NeverRefuses) (path content : Text) :
    Yields (h.writeText path content) (FailsIn fun e => e.isRefusal = false) :=
  FailsWithin.writeText hn trivial (fun _ _ _ _ => trivial) trivial fun _ =>
    contentBytes_isRefusal

theorem writeJson (hn : h.NeverRefuses) (path : Text) (v : Value) (sorted : Bool) :
    Yields (h.writeJson path v sorted) (FailsIn fun e => e.isRefusal = false) :=
  FailsWithin.writeJson hn trivial (fun _ _ _ _ => trivial) trivial fun _ => encodeJson_isRefusal

/-- On a faithful host that refuses nothing a text is written if and only if its path has bytes and
it has bytes itself. -/
theorem writeText_iff (hn : h.NeverRefuses) (hh : h.IsFaithful out) (path content : Text) :
    Yields (h.writeText path content) fun r =>
      r = .ok () ↔ path.IsNameable ∧ content.IsScalar := by
  intro s
  refine ⟨hh.of_writeText path content s, fun ⟨hpath, hcontent⟩ => ?_⟩
  exact eq_ok_of_failsIn (hh.writeText hpath hcontent s) (hn.writeText path content s)

/-- A value is written there if and only if its path has bytes and it can be written, with a text
that has bytes. -/
theorem writeJson_iff (hn : h.NeverRefuses) (hh : h.IsFaithful out) (path : Text) (v : Value)
    (sorted : Bool) :
    Yields (h.writeJson path v sorted) fun r => r = .ok () ↔
      path.IsNameable ∧ v.IsWritable sorted ∧ (v.arranged sorted).toJson.IsScalar := by
  intro s
  refine ⟨hh.of_writeJson path v sorted s, fun ⟨hpath, hv, hcontent⟩ => ?_⟩
  exact eq_ok_of_failsIn (hh.writeJson hpath hv hcontent s) (hn.writeJson path v sorted s)

end NeverRefuses

end Host

/-! ## The model of a machine -/

theorem Path.child_isNameable {directory name : Text} (hdirectory : directory.IsNameable)
    (hname : name.IsNameable) : (child directory name).IsNameable := by
  unfold child
  split
  · exact hname
  · split
    · exact hdirectory.append hname
    · exact (hdirectory.append (by decide)).append hname

theorem Path.mem_resolve {rooted : Bool} {cs : List Text} {c : Text} (h : c ∈ resolve rooted cs) :
    c ∈ cs ∨ c = up := by
  have hpush : ∀ (stack : List Text) (component : Text),
      c ∈ push rooted stack component → c ∈ stack ∨ c = component ∨ c = up := by
    intro stack component hc
    unfold push at hc
    split at hc
    · exact Or.inl hc
    · split at hc
      · exact (List.mem_cons.mp hc).symm.imp_right Or.inl
      · split at hc
        · split at hc
          · exact Or.inl hc
          · exact Or.inr (Or.inr (List.mem_singleton.mp hc))
        · split at hc
          · exact (List.mem_cons.mp hc).symm.imp_right Or.inr
          · exact Or.inl (List.mem_cons_of_mem _ hc)
  have hfold : ∀ (cs stack : List Text),
      c ∈ cs.foldl (push rooted) stack → c ∈ stack ∨ c ∈ cs ∨ c = up := by
    intro cs
    induction cs with
    | nil => exact fun stack hc => Or.inl hc
    | cons component cs ih =>
      intro stack hc
      rcases ih _ hc with hc | hc | hc
      · rcases hpush stack component hc with hc | hc | hc
        · exact Or.inl hc
        · exact Or.inr (Or.inl (hc ▸ List.mem_cons_self))
        · exact Or.inr (Or.inr hc)
      · exact Or.inr (Or.inl (List.mem_cons_of_mem _ hc))
      · exact Or.inr (Or.inr hc)
  rw [resolve, List.mem_reverse] at h
  exact (hfold cs [] h).resolve_left List.not_mem_nil

theorem Text.join_isNameable {ts : List Text} (hts : ∀ t ∈ ts, t.IsNameable) :
    (join [Path.slash] ts).IsNameable := by
  induction ts with
  | nil => exact fun c hc => absurd hc List.not_mem_nil
  | cons t ts ih =>
    obtain ⟨ht, hts⟩ := List.forall_mem_cons.mp hts
    rcases eq_or_ne ts [] with rfl | hne
    · exact ht
    · rw [join_cons t hne]
      exact ht.append (List.forall_mem_cons.mpr ⟨by decide, ih hts⟩)

theorem Path.normal_isNameable {path : Text} (h : path.IsNameable) : (normal path).IsNameable := by
  unfold normal
  simp only
  split
  · decide
  · refine Text.IsNameable.append (fun c hc => ?_) (Text.join_isNameable fun t ht => ?_)
    · rw [List.eq_of_mem_replicate hc]
      decide
    · rcases mem_resolve ht with ht | rfl
      · exact fun c hc => h c (Text.mem_of_mem_split ht hc)
      · decide

namespace World

variable {s : Surroundings}

theorem yields_step (path : Text) (target : Option Text)
    (act : World → Bytes → Except Cause (α × World)) :
    Yields (step s path target act) fun r => FailsByForm r ↔ ¬path.IsNameable := by
  intro w
  unfold LeadsTo step
  cases hpath : systemPath path with
  | error e =>
    have hform : FailsByForm (.error e : Except StorageError α) :=
      failsByForm_error_iff.mpr (systemPath_isRefusal hpath)
    refine ⟨fun _ hnameable => ?_, fun _ => hform⟩
    rw [systemPath_eq_ok_iff.mpr ⟨hnameable, rfl⟩] at hpath
    cases hpath
  | ok bytes =>
    have hnameable := (systemPath_eq_ok_iff.mp hpath).1
    have hnot : ∀ r : Except StorageError α, ¬FailsByForm r → (FailsByForm r ↔ ¬path.IsNameable) :=
      fun r hr => ⟨fun h => absurd h hr, fun h => absurd hnameable h⟩
    refine hnot _ ?_
    simp only
    split
    · exact not_failsByForm_refused _ _ _
    · split
      · exact not_failsByForm_refused _ _ _
      · exact not_failsByForm_ok _

theorem freshName_isNameable {d : Disk} {directory : Text} (hdirectory : directory.IsNameable)
    (hnames : ∀ n, (s.temporaryName n).IsNameable) (fuel n : Nat) :
    (freshName s d directory fuel n).IsNameable := by
  induction fuel generalizing n with
  | zero => exact Path.child_isNameable hdirectory (hnames n)
  | succ fuel ih =>
    rw [freshName]
    split
    · exact ih (n + 1)
    · exact Path.child_isNameable hdirectory (hnames n)

/-- The model of a machine is faithful, if its own paths have bytes. -/
theorem host_isFaithful (hworking : s.workingDirectory.IsNameable)
    (hnames : ∀ n, (s.temporaryName n).IsNameable) : (host s).IsFaithful s.output where
  makeDirectory path := yields_step path none _
  createTemporary directory hdirectory := by
    have hcreate : ∀ (w : World) (path : Text), path.IsNameable → LeadsTo
        (step s path none fun w bytes => do
          let disk ← w.disk.createFile (placeOf s) bytes
          return (path, { w with disk := disk })) w
        fun r _ => ¬FailsByForm r ∧ ∀ found, r = .ok found → found.IsNameable := by
      intro w path hpath
      refine ((yields_step path none _ w).mono fun r _ hr hform => hr.mp hform hpath).and ?_
      refine leadsTo_step (fun _ _ h => by cases h) fun a w' _ hact found hfound => ?_
      obtain ⟨d, -, hw'⟩ := exists_of_bind_eq_ok hact
      cases hw'
      cases hfound
      exact hpath
    exact fun w => hcreate w _ (freshName_isNameable
      (Path.normal_isNameable (Path.child_isNameable hworking hdirectory)) hnames _ _)
  fill path content := yields_step path none _
  replace path target := by
    dsimp only [host, World.replace]
    cases htarget : systemPath target with
    | error e =>
      have hform := systemPath_isRefusal htarget
      refine yields_pure ⟨fun _ hboth => ?_, fun _ => failsByForm_error_iff.mpr hform⟩
      rw [systemPath_eq_ok_iff.mpr ⟨hboth.2, rfl⟩] at htarget
      cases htarget
    | ok goal =>
      have hnameable := (systemPath_eq_ok_iff.mp htarget).1
      refine (yields_step path (some target) _).mono fun r hr => hr.trans (not_congr ?_)
      exact ⟨fun hpath => ⟨hpath, hnameable⟩, fun hboth => hboth.1⟩
  remove path := yields_step path none _
  print text := by
    dsimp only [host, World.print]
    rw [← Encoding.check_eq_ok_iff]
    cases s.output.check text with
    | error e => exact yields_pure Iff.rfl
    | ok done => exact fun _ => Iff.rfl

end World
end Debundle
