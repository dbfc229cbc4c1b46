import Debundle.Proofs.Session.BestPath

/-!
# Entries that are skipped

An entry of the table that is malformed is skipped, and the other entries are read all the same.
But nothing is undone.  An entry that is skipped before its factory was restored has not said
anything yet; one that is skipped later, over what it asks for, has claimed an id for its source and
has asked for some modules already, and the session remembers that.  So a module of the same content
may be known by the id of an entry that was skipped, and paths in other records may be those of a
module that has no record.

Here it is said when a skipped entry leaves no trace: at its turn, if the session knows all that it
says, and only then; in the end, if so at every turn, and only if the other entries lead to a
session that remembers all that it says.

* `entriesOf`, `keptEntries`: the entries of the table, and those that are not skipped.
* `unpackEntries`: the unpacking of a table with some entries.
* `LeavesNoTrace`: deleting the entries that are skipped changes nothing.
* `Session.Remembers`, `Session.Knows`: the session has heard of all that a module says.
* `Session.read_eq_self_iff`: when reading a module changes nothing.
* `leavesNoTrace_iff`: whether they leave no trace can be told from what the bundle shows.
* `leavesNoTrace_when_known`: when skipped entries leave no trace.
-/

namespace Debundle

open Debundle.Action Script

/-! ## The entries of the table -/

/-- The entries of the table of a bundle. -/
def entriesOf (source : Source) : List Node :=
  ((packedArguments? source.statements).bind List.head?).elim [] Node.parts

/-- Unpacks a bundle whose table has the given entries. -/
def unpackEntries (source : Source) (entries : List Node) : SessionStep (List SourceModule) :=
  if entries.isEmpty then return []
  else do
    readEntries source entries
    growForest (← Action.get).liveRecords
    let s ← Action.get
    return s.liveRecords.map s.moduleOf

theorem unpackPacked_eq (source : Source) :
    unpackPacked source = unpackEntries source (entriesOf source) := by
  unfold unpackPacked entriesOf
  cases (packedArguments? source.statements).bind List.head? with
  | none => rfl
  | some table => rfl

/-- Whether reading an entry gives no record, but the other entries are read all the same. -/
def isSkipped (s : Session) (source : Source) (entry : Node) : Bool :=
  match ((readEntry source entry).run s).result with
  | .ok none => true
  | .error (.flaw _) => true
  | _ => false

/-- The entries of the table that are not skipped. -/
def keptEntries (s : Session) (source : Source) : List Node :=
  (entriesOf source).filter fun entry => !isSkipped s source entry

/-- Deleting the entries that are skipped changes neither the modules that are given out nor the
session. -/
def LeavesNoTrace (s : Session) (source : Source) : Prop :=
  (unpackPacked source).Agrees (unpackEntries source (keptEntries s source)) s

instance (s : Session) (source : Source) : Decidable (LeavesNoTrace s source) :=
  inferInstanceAs (Decidable (Agrees _ _ _))

/-- Whether an entry that shows something is skipped. -/
def Glance.isSkipped : Glance → Bool
  | .nothing => true
  | .gaveUp => false
  | .module v => v.ending = .leftOut

/-- Whether an entry is skipped depends on what it shows, and not on the session. -/
theorem isSkipped_eq (s : Session) (source : Source) (entry : Node) :
    isSkipped s source entry = (glance source entry).isSkipped := by
  have h : (glance source entry).Leaves s ((readEntry source entry).run s).result
    ((readEntry source entry).run s).state := readEntry_leaves source entry
  unfold isSkipped
  cases hglance : glance source entry with
  | nothing =>
    rw [hglance] at h
    obtain ⟨-, hr | ⟨f, hr⟩⟩ := h <;> rw [hr] <;> rfl
  | gaveUp =>
    rw [hglance] at h
    obtain ⟨-, f, hr⟩ := h
    rw [hr]
    rfl
  | module v =>
    rw [hglance] at h
    obtain ⟨-, hr⟩ := h
    rw [Glance.isSkipped]
    cases hending : v.ending with
    | complete =>
      rw [hending] at hr
      rw [show _ = Except.ok (some (s.recordOf v (s.read v).2)) from hr]
      rfl
    | leftOut =>
      rw [hending] at hr
      obtain ⟨f, hr⟩ := hr
      rw [hr]
      rfl
    | gaveUp =>
      rw [hending] at hr
      obtain ⟨f, hr⟩ := hr
      rw [hr]
      rfl

namespace Session

variable {s t : Session} {v w : Sighting} {a : Ask} {id : Text}

/-! ## What a session remembers -/

/-- Nothing that a session has heard of is forgotten: digests keep their ids, and ids their having
an alias; referrers are only added, and scores only get better. -/
structure Grows (s t : Session) : Prop where
  hashes : ∀ d k, s.hashes.get? d = some k → t.hashes.get? d = some k
  aliases : ∀ x, (s.aliases.get? x).isSome → (t.aliases.get? x).isSome
  referrers : ∀ d k, k ∈ s.referrersOf d → k ∈ t.referrersOf d
  scores : ∀ d, (s.scores.get? d).getD 0 ≤ (t.scores.get? d).getD 0

theorem Grows.refl (s : Session) : s.Grows s :=
  ⟨fun _ _ h => h, fun _ h => h, fun _ _ h => h, fun _ => Nat.le_refl _⟩

theorem Grows.trans {u : Session} (hst : s.Grows t) (htu : t.Grows u) : s.Grows u where
  hashes d k h := htu.hashes d k (hst.hashes d k h)
  aliases x h := htu.aliases x (hst.aliases x h)
  referrers d k h := htu.referrers d k (hst.referrers d k h)
  scores d := Nat.le_trans (hst.scores d) (htu.scores d)

theorem claim_grows (s : Session) (digest rawId : Text) : s.Grows (s.claim digest rawId) where
  hashes d k h := by
    rw [claim, Table.get?_insertNew]
    split
    · rename_i hd
      rw [← hd, h, Option.getD_some]
    · exact h
  aliases x h := by
    rw [claim, Table.get?_insert]
    split
    · rfl
    · exact h
  referrers _ _ h := h
  scores _ := Nat.le_refl _

theorem ask_grows (order : List Text) (id : Text) (s : Session) (a : Ask) :
    s.Grows (s.ask order id a) := by
  have hst := ask_asked order id s a
  refine ⟨fun d k h => hst.hashes ▸ h, fun x h => hst.aliases ▸ h,
    fun d k h => hst.mem_referrersOf h, fun d => ?_⟩
  rw [hst.scores]
  split
  · exact Nat.le_max_left _ _
  · exact Nat.le_refl _

theorem askAll_grows (id : Text) (asks : List Ask) (s : Session) (found : Table Text) :
    s.Grows (askAll id asks s found).1 := by
  induction asks generalizing s found with
  | nil => exact .refl s
  | cons a rest ih => exact (ask_grows _ id s a).trans (ih _ _)

theorem read_grows (s : Session) (v : Sighting) : s.Grows (s.read v).1 :=
  (claim_grows s v.digest v.rawId).trans (askAll_grows _ _ _ _)

theorem read_grows_take (s : Session) (v : Sighting) : (s.read v).1.Grows (s.take v) := by
  unfold Session.take
  split
  · exact ⟨fun _ _ h => h, fun _ h => h, fun _ _ h => h, fun _ => Nat.le_refl _⟩
  · exact .refl _

theorem takeAll_grows (s : Session) (vs : List Sighting) : s.Grows (s.takeAll vs) := by
  induction vs generalizing s with
  | nil => exact .refl s
  | cons v rest ih => exact ((read_grows s v).trans (read_grows_take s v)).trans (ih (s.take v))

theorem takeAll_grows_unpacked (s : Session) (source : Source) :
    (s.takeAll (reading source).1).Grows (s.unpacked source) := by
  rw [takeAll_sameButForest_unpacked s source]
  exact ⟨fun _ _ h => h, fun _ h => h, fun _ _ h => h, fun _ => Nat.le_refl _⟩

/-- Taking sightings in leaves the forest as it is. -/
theorem forest_takeAll (vs : List Sighting) (s : Session) : (s.takeAll vs).forest = s.forest := by
  induction vs generalizing s with
  | nil => rfl
  | cons v rest ih =>
    have hread : (s.read v).1.forest = s.forest := (askAll_frame _ _ _ _).2.2.2
    have htake : (s.take v).forest = s.forest := by
      unfold Session.take
      split
      · exact hread
      · exact hread
    exact (ih (s.take v)).trans htake

/-- The session has heard of all that a module says, as far as it can be read: of its source and its
id, and of everything that it asks for by a path that is as good. -/
structure Remembers (s : Session) (v : Sighting) : Prop where
  digest : (s.hashes.get? v.digest).isSome
  rawId : (s.aliases.get? v.rawId).isSome
  asks : ∀ a ∈ v.asks, s.knownId v.digest v.rawId ∈ s.referrersOf a.dependency ∧
    a.score ≤ (s.scores.get? a.dependency).getD 0

/-- The session knows all that a module says: the alias of its id is that of its source, too. -/
structure Knows (s : Session) (v : Sighting) : Prop extends s.Remembers v where
  isKnown : s.aliases.get? v.rawId = some (s.knownId v.digest v.rawId)

theorem knownId_of_grows (hst : s.Grows t) {digest rawId : Text}
    (hdigest : (s.hashes.get? digest).isSome) :
    t.knownId digest rawId = s.knownId digest rawId := by
  obtain ⟨k, hk⟩ := Option.isSome_iff_exists.mp hdigest
  rw [knownId, knownId, hk, hst.hashes _ _ hk]

theorem Remembers.of_grows (hv : s.Remembers v) (hst : s.Grows t) : t.Remembers v where
  digest := by
    obtain ⟨k, hk⟩ := Option.isSome_iff_exists.mp hv.digest
    rw [hst.hashes _ _ hk, Option.isSome_some]
  rawId := hst.aliases _ hv.rawId
  asks a ha := by
    obtain ⟨hreferrer, hscore⟩ := hv.asks a ha
    rw [knownId_of_grows hst hv.digest]
    exact ⟨hst.referrers _ _ hreferrer, Nat.le_trans hscore (hst.scores _)⟩

/-- What a module asks for is remembered. -/
theorem remembers_askAll (id : Text) (asks : List Ask) (s : Session) (found : Table Text) :
    ∀ a ∈ asks, id ∈ (askAll id asks s found).1.referrersOf a.dependency ∧
      a.score ≤ ((askAll id asks s found).1.scores.get? a.dependency).getD 0 := by
  induction asks generalizing s found with
  | nil => exact fun a ha => absurd ha (by simp)
  | cons b rest ih =>
    intro a ha
    rcases List.mem_cons.mp ha with rfl | ha
    · have hst := ask_asked (s.referrersOf a.dependency) id s a
      have hgrows := askAll_grows id rest (s.ask (s.referrersOf a.dependency) id a)
        (found.insert a.dependency (s.finalPath a))
      refine ⟨hgrows.referrers _ _ ?_, Nat.le_trans ?_ (hgrows.scores _)⟩
      · rw [hst.referrers, if_pos rfl]
        exact mem_addReferrer.mpr (Or.inl rfl)
      · rw [hst.scores, if_pos rfl, Option.getD_some]
        exact Nat.le_max_right _ _
    · exact ih _ _ a ha

theorem hashes_claim (s : Session) (digest rawId : Text) :
    (s.claim digest rawId).hashes.get? digest = some (s.knownId digest rawId) := by
  rw [claim, Table.get?_insertNew, if_pos rfl]
  rfl

/-- A module that was read is remembered. -/
theorem remembers_read (s : Session) (v : Sighting) : (s.read v).1.Remembers v := by
  obtain ⟨hhashes, haliases, -⟩ :=
    askAll_frame (s.knownId v.digest v.rawId) v.asks (s.claim v.digest v.rawId) []
  have hdigest : (s.read v).1.hashes.get? v.digest = some (s.knownId v.digest v.rawId) := by
    rw [read, hhashes, hashes_claim]
  refine ⟨by rw [hdigest, Option.isSome_some], ?_, ?_⟩
  · rw [read, haliases, claim, Table.get?_insert_self, Option.isSome_some]
  · have hknown : (s.read v).1.knownId v.digest v.rawId = s.knownId v.digest v.rawId := by
      rw [knownId, hdigest, Option.getD_some]
    rw [hknown]
    exact remembers_askAll _ _ _ _

/-- Whatever was seen is remembered. -/
theorem remembers_takeAll (vs : List Sighting) (s : Session) :
    ∀ v ∈ vs, (s.takeAll vs).Remembers v := by
  induction vs generalizing s with
  | nil => exact fun v hv => absurd hv (by simp)
  | cons w rest ih =>
    intro v hv
    rcases List.mem_cons.mp hv with rfl | hv
    · exact ((remembers_read s v).of_grows (read_grows_take s v)).of_grows
        (takeAll_grows (s.take v) rest)
    · exact ih (s.take w) v hv

/-! ## Reading what is known -/

/-- Asking again, by a path that is not better, changes nothing. -/
theorem ask_eq_self (order : List Text) (hid : id ∈ s.referrersOf a.dependency)
    (hscore : a.score ≤ (s.scores.get? a.dependency).getD 0) : s.ask order id a = s := by
  have hreferrers : s.referrers.insert a.dependency
      (addReferrer id (s.referrersOf a.dependency)) = s.referrers := by
    rcases h : s.referrers.get? a.dependency with _ | ids
    · rw [referrersOf, h] at hid
      exact absurd hid (by simp)
    · have hids : s.referrersOf a.dependency = ids := by rw [referrersOf, h, Option.getD_some]
      rw [hids] at hid ⊢
      rw [addReferrer, if_pos (List.contains_iff_mem.mpr hid), Table.insert_of_get? h]
  have hpos : 0 < a.score := fileNameScore_pos a.path
  rcases h : s.scores.get? a.dependency with _ | best
  · rw [h, Option.getD_none] at hscore
    omega
  · rw [h, Option.getD_some] at hscore
    simp only [ask, h, if_neg (Nat.not_lt.mpr hscore)]
    rw [hreferrers]

theorem askAll_eq_self (asks : List Ask) (found : Table Text)
    (h : ∀ a ∈ asks, id ∈ s.referrersOf a.dependency ∧
      a.score ≤ (s.scores.get? a.dependency).getD 0) : (askAll id asks s found).1 = s := by
  induction asks generalizing found with
  | nil => rfl
  | cons a rest ih =>
    obtain ⟨hid, hscore⟩ := h a List.mem_cons_self
    rw [askAll, ask_eq_self _ hid hscore]
    exact ih _ fun b hb => h b (List.mem_cons_of_mem _ hb)

/-- Reading a module changes nothing if and only if the session knows all that it says. -/
theorem read_eq_self_iff : (s.read v).1 = s ↔ s.Knows v := by
  constructor
  · intro h
    have hremembers := remembers_read s v
    have haliases : (s.read v).1.aliases.get? v.rawId = some (s.knownId v.digest v.rawId) := by
      rw [read, (askAll_frame _ _ _ _).2.1, claim, Table.get?_insert_self]
    rw [h] at hremembers haliases
    exact ⟨hremembers, haliases⟩
  · intro h
    have hclaim : s.claim v.digest v.rawId = s := by
      rw [claim, Table.insert_of_get? h.isKnown, Table.insertNew, Table.has, if_pos h.digest]
    rw [read, hclaim]
    exact askAll_eq_self v.asks [] h.asks

/-- Every module that is left out says only what the session knows when its turn comes. -/
def SaysNothingNew (vs : List Sighting) (s : Session) : Prop :=
  ∀ before v after, vs = before ++ v :: after → v.ending = .leftOut → (s.takeAll before).Knows v

theorem SaysNothingNew.tail {vs : List Sighting} (h : SaysNothingNew (v :: vs) s) :
    SaysNothingNew vs (s.take v) := by
  intro before w after hvs hending
  exact h (v :: before) w after (by rw [hvs, List.cons_append]) hending

end Session

/-! ## When skipped entries leave no trace -/

section Trace

variable {s : Session} {source : Source}

/-- What reading an entry leaves if it is not skipped: a fault, or the record of a module. -/
theorem readEntry_leaves_kept {entry : Node} (hkept : isSkipped s source entry = false) :
    (readEntry source entry).Leaves s fun r t => (∃ f, r = .error (.fault f)) ∨
      ∃ v, glance source entry = .module v ∧ v.ending = .complete ∧ t = (s.read v).1 ∧
        r = .ok (some (s.recordOf v (s.read v).2)) := by
  rw [isSkipped_eq] at hkept
  refine (readEntry_leaves source entry).mono fun r t h => ?_
  cases hglance : glance source entry with
  | nothing =>
    rw [hglance] at hkept
    exact absurd hkept (by simp [Glance.isSkipped])
  | gaveUp =>
    rw [hglance] at h
    exact Or.inl h.2
  | module v =>
    rw [hglance] at h hkept
    obtain ⟨ht, hr⟩ := h
    cases hending : v.ending with
    | complete =>
      rw [hending] at hr
      exact Or.inr ⟨v, rfl, hending, ht, hr⟩
    | leftOut => exact absurd hending (by simpa [Glance.isSkipped] using hkept)
    | gaveUp =>
      rw [hending] at hr
      exact Or.inl hr

/-- What reading an entry leaves if it is skipped: the session as it was, or with what the module
that it shows says before it is left out. -/
theorem readEntry_leaves_skipped {entry : Node} (hskipped : isSkipped s source entry = true) :
    (readEntry source entry).Leaves s fun r t =>
      (r = .ok none ∨ ∃ f, r = .error (.flaw f)) ∧
        (glance source entry = .nothing ∧ t = s ∨
          ∃ v, glance source entry = .module v ∧ v.ending = .leftOut ∧ t = (s.read v).1) := by
  rw [isSkipped_eq] at hskipped
  refine (readEntry_leaves source entry).mono fun r t h => ?_
  cases hglance : glance source entry with
  | nothing =>
    rw [hglance] at h
    exact ⟨h.2, Or.inl ⟨rfl, h.1⟩⟩
  | gaveUp =>
    rw [hglance] at hskipped
    exact absurd hskipped (by simp [Glance.isSkipped])
  | module v =>
    rw [hglance] at h hskipped
    have hending : v.ending = .leftOut := by simpa [Glance.isSkipped] using hskipped
    obtain ⟨ht, hr⟩ := h
    rw [hending] at hr
    exact ⟨Or.inr hr, Or.inr ⟨v, rfl, hending, ht⟩⟩

/-- If an entry is skipped and leaves the session as it is, the others are read as if it were not
there. -/
theorem readEntries_cons_skipped {entry : Node} (rest : List Node)
    (hskipped : isSkipped s source entry = true)
    (hstate : ((readEntry source entry).run s).state = s) :
    (readEntries source (entry :: rest)).Agrees (readEntries source rest) s := by
  have hread : (readEntry source entry).Leaves s fun _ t => t = s := hstate
  refine agrees_of_leaves fun Q hQ => ?_
  rw [readEntries, leaves_bind, leaves_attempt]
  refine ((readEntry_leaves_skipped hskipped).and hread).mono fun r t h => ?_
  obtain ⟨⟨rfl | ⟨f, rfl⟩, -⟩, rfl⟩ := h
  · exact hQ
  · simp only [leaves_bind, leaves_say]
    exact hQ

/-- After an entry that is not skipped, entries that are read alike. -/
theorem readEntries_cons_kept {entry : Node} {rest rest' : List Node}
    (hkept : isSkipped s source entry = false)
    (hrest : ∀ v, glance source entry = .module v → v.ending = .complete →
      (readEntries source rest).Agrees (readEntries source rest') (s.take v)) :
    (readEntries source (entry :: rest)).Agrees (readEntries source (entry :: rest')) s := by
  refine agrees_of_leaves fun Q hQ => ?_
  rw [readEntries, leaves_bind, leaves_attempt] at hQ ⊢
  refine ((readEntry_leaves_kept hkept).and hQ).mono fun r t h => ?_
  obtain ⟨⟨f, rfl⟩ | ⟨v, hglance, hcomplete, rfl, rfl⟩, hQ⟩ := h
  · exact hQ
  · have htake : s.take v = (s.read v).1.withRecord (s.recordOf v (s.read v).2) := by
      rw [Session.take, if_pos hcomplete]
    simp only [leaves_bind, Session.register_leaves, ← htake] at hQ ⊢
    exact (hrest v hglance hcomplete).symm.leaves hQ

/-- If every module that is left out says nothing new, the entries are read as if those that are
skipped were not there. -/
theorem readEntries_filter_agrees (start : Session) (entries : List Node) {s : Session}
    (h : Session.SaysNothingNew (sightingsIn source entries).1 s) :
    (readEntries source entries).Agrees
      (readEntries source (entries.filter fun entry => !isSkipped start source entry)) s := by
  induction entries generalizing s with
  | nil => exact .refl _ s
  | cons entry rest ih =>
    have hsame : isSkipped start source entry = isSkipped s source entry := by
      rw [isSkipped_eq, isSkipped_eq]
    rw [List.filter_cons, hsame]
    unfold sightingsIn at h
    by_cases hskipped : isSkipped s source entry = true
    · rw [if_neg (by simp [hskipped])]
      obtain ⟨-, ⟨hglance, hstate⟩ | ⟨v, hglance, hending, hstate⟩⟩ :=
        readEntry_leaves_skipped hskipped
      · rw [hglance] at h
        exact (readEntries_cons_skipped rest hskipped hstate).trans (ih h)
      · -- the module says nothing new, so it leaves the session as it is
        rw [hglance] at h
        simp only [hending, reduceCtorEq, if_false] at h
        have hself : (s.read v).1 = s := Session.read_eq_self_iff.mpr (h [] v _ rfl hending)
        have htake : s.take v = s := by
          rw [Session.take, if_neg (by simp [hending]), hself]
        have hrest := h.tail
        rw [htake] at hrest
        exact (readEntries_cons_skipped rest hskipped (hstate.trans hself)).trans (ih hrest)
    · rw [if_pos (by simpa using hskipped)]
      refine readEntries_cons_kept (by simpa using hskipped) fun v hglance hcomplete => ?_
      rw [hglance] at h
      simp only [hcomplete, reduceCtorEq, if_false] at h
      exact ih h.tail

theorem reading_eq (source : Source) (h : entriesOf source ≠ []) :
    reading source = sightingsIn source (entriesOf source) := by
  unfold entriesOf at h ⊢
  unfold reading
  cases htable : (packedArguments? source.statements).bind List.head? with
  | none => exact absurd (by rw [htable]; rfl) h
  | some table =>
    rw [htable, Option.elim_some] at h
    simp only [Option.elim_some]
    rw [if_neg (by simpa using h)]

/-- The entries that are not skipped show what all of them show, less the modules that are left out,
and they are read as far. -/
theorem sightingsIn_filter (s : Session) (source : Source) (entries : List Node) :
    sightingsIn source (entries.filter fun entry => !isSkipped s source entry) =
      ((sightingsIn source entries).1.filter (·.ending ≠ .leftOut),
        (sightingsIn source entries).2) := by
  induction entries with
  | nil => rfl
  | cons entry rest ih =>
    rw [List.filter_cons, isSkipped_eq]
    cases hglance : glance source entry with
    | nothing =>
      rw [Glance.isSkipped, Bool.not_true, if_neg Bool.false_ne_true, ih, sightingsIn, hglance]
    | gaveUp =>
      rw [Glance.isSkipped, Bool.not_false, if_pos rfl, sightingsIn, sightingsIn, hglance]
      rfl
    | module v =>
      rw [Glance.isSkipped]
      cases hending : v.ending with
      | complete => simp [sightingsIn, hglance, hending, ih]
      | leftOut => simp [sightingsIn, hglance, hending, ih]
      | gaveUp => simp [sightingsIn, hglance, hending]

/-- A table that has an entry is unpacked by reading its entries. -/
theorem unpackEntries_agrees {entries entries' : List Node} (hne : entries ≠ [])
    (hne' : entries' ≠ [])
    (h : (readEntries source entries).Agrees (readEntries source entries') s) :
    (unpackEntries source entries).Agrees (unpackEntries source entries') s := by
  unfold unpackEntries
  rw [if_neg (by simpa using hne), if_neg (by simpa using hne')]
  exact Agrees.bind h (P := fun _ _ => True) trivial fun _ t _ => .refl _ t

/-- Unpacking takes what the entries show into the session, and then the forest grows. -/
theorem unpackEntries_state {entries : List Node} (hne : entries ≠ [])
    (hend : (sightingsIn source entries).2 = true) :
    ((unpackEntries source entries).run s).state =
      (s.takeAll (sightingsIn source entries).1).grown := by
  suffices h : (unpackEntries source entries).Leaves s fun _ t =>
    t = (s.takeAll (sightingsIn source entries).1).grown from h
  unfold unpackEntries
  rw [if_neg (by simpa using hne), leaves_bind]
  refine (readEntries_leaves source entries).mono fun r t h => ?_
  obtain ⟨rfl, hr⟩ := h
  rw [if_pos hend] at hr
  rw [hr]
  simp only [leaves_get_bind]
  exact Leaves.bind (P := fun _ t => t = (s.takeAll (sightingsIn source entries).1).grown) rfl
    (fun _ _ h => h) fun _ _ h => h

/-- Sessions that have the same forest, and the same one after it grew, are the same. -/
theorem Session.eq_of_grown_eq {t : Session} (hforest : s.forest = t.forest)
    (h : s.grown = t.grown) : s = t := by
  have hs : s.SameButForest s.grown := growForest_sameButForest _
  have ht : t.SameButForest t.grown := growForest_sameButForest _
  unfold SameButForest at hs ht
  calc s = { s.grown with forest := s.forest } := by rw [hs]
    _ = { t.grown with forest := t.forest } := by rw [h, hforest]
    _ = t := by rw [ht]

/-- If a bundle is read to the end, skipped entries leave no trace if and only if the modules that
are left out add nothing to what the others make of the session. -/
theorem leavesNoTrace_iff (hreadable : keptEntries s source ≠ [])
    (hend : (reading source).2 = true) :
    LeavesNoTrace s source ↔
      s.takeAll (reading source).1 =
        s.takeAll ((reading source).1.filter (·.ending ≠ .leftOut)) := by
  have hentries : entriesOf source ≠ [] := fun hnil => hreadable (by rw [keptEntries, hnil]; rfl)
  rw [reading_eq source hentries] at hend ⊢
  have hkept := sightingsIn_filter s source (entriesOf source)
  rw [← keptEntries] at hkept
  have hend' : (sightingsIn source (keptEntries s source)).2 = true := by rw [hkept, hend]
  constructor
  · intro h
    have hstate : ((unpackPacked source).run s).state =
      ((unpackEntries source (keptEntries s source)).run s).state := h.2
    rw [unpackPacked_eq, unpackEntries_state hentries hend, unpackEntries_state hreadable hend',
      hkept] at hstate
    refine Session.eq_of_grown_eq ?_ hstate
    rw [Session.forest_takeAll, Session.forest_takeAll]
  · intro h
    obtain ⟨hstate, hresult⟩ := readEntries_leaves (s := s) source (entriesOf source)
    obtain ⟨hstate', hresult'⟩ := readEntries_leaves (s := s) source (keptEntries s source)
    rw [if_pos hend] at hresult
    rw [if_pos hend'] at hresult'
    rw [LeavesNoTrace, unpackPacked_eq]
    refine unpackEntries_agrees hentries hreadable ⟨?_, ?_⟩
    · rw [hresult, hresult']
    · rw [hstate, hstate', hkept]
      exact h

/-- When skipped entries leave no trace.  At its turn, a skipped entry leaves the session as it is
if and only if the session knows all that it says before it is left out.  If this is so for all of
them, deleting them changes nothing.  In a bundle that is read to the end, deleting them changes
nothing if and only if the modules that are left out add nothing to what the others make of the
session; so those must lead to a session that remembers all that is said by modules that are left
out. -/
theorem leavesNoTrace_when_known (s : Session) (source : Source)
    (hreadable : keptEntries s source ≠ []) :
    (∀ entry ∈ entriesOf source, isSkipped s source entry = true →
      ∀ t, ((readEntry source entry).run t).state = t ↔
        ∀ v, glance source entry = .module v → t.Knows v) ∧
    (Session.SaysNothingNew (reading source).1 s → LeavesNoTrace s source) ∧
    ((reading source).2 = true → (LeavesNoTrace s source ↔
      s.takeAll (reading source).1 =
        s.takeAll ((reading source).1.filter (·.ending ≠ .leftOut)))) ∧
    (LeavesNoTrace s source → ∀ v ∈ (reading source).1, v.ending = .leftOut →
      ((unpackEntries source (keptEntries s source)).run s).state.Remembers v) := by
  refine ⟨fun entry _ hskipped t => ?_, fun h => ?_, leavesNoTrace_iff hreadable,
    fun h v hv _ => ?_⟩
  · have hread := readEntry_leaves (s := t) source entry
    rw [isSkipped_eq] at hskipped
    cases hglance : glance source entry with
    | nothing =>
      rw [hglance] at hread
      exact ⟨fun _ v hv => (nomatch hv), fun _ => hread.1⟩
    | gaveUp =>
      rw [hglance] at hskipped
      exact absurd hskipped (by simp [Glance.isSkipped])
    | module v =>
      rw [hglance] at hread
      rw [hread.1, Session.read_eq_self_iff]
      exact ⟨fun h w hw => Glance.module.inj hw ▸ h, fun h => h v rfl⟩
  · have hentries : entriesOf source ≠ [] := fun hnil => hreadable (by rw [keptEntries, hnil]; rfl)
    rw [reading_eq source hentries] at h
    rw [LeavesNoTrace, unpackPacked_eq]
    exact unpackEntries_agrees hentries hreadable (readEntries_filter_agrees s _ h)
  · have hunpacked : (s.unpacked source).Remembers v :=
      (Session.remembers_takeAll _ s v hv).of_grows (Session.takeAll_grows_unpacked s source)
    rw [← h.2]
    exact hunpacked

/-- A bundle with a module and, under the same id, a malformed copy of it. -/
def bundleWithCopy : Text :=
  "p(\x7b1:[function()\x7ba\x7d,\x7b\x7d],1:[function()\x7ba\x7d,5]\x7d,\x7b\x7d,[1])"

set_option maxRecDepth 100000 in
/-- The copy says nothing new, so it leaves no trace. -/
theorem copy_leavesNoTrace :
    ∃ source, (Source.parse bundleWithCopy).toOption = some source ∧
      keptEntries Session.empty source ≠ [] ∧
      (keptEntries Session.empty source).length < (entriesOf source).length ∧
      LeavesNoTrace Session.empty source := by
  have h : ((Source.parse bundleWithCopy).toOption.any fun source =>
      decide (keptEntries Session.empty source ≠ [] ∧
        (keptEntries Session.empty source).length < (entriesOf source).length ∧
        (reading source).2 = true ∧
        Session.empty.takeAll (reading source).1 =
          Session.empty.takeAll ((reading source).1.filter (·.ending ≠ .leftOut)))) = true := by
    decide +kernel
  obtain ⟨source, hsource, hkept, hskipped, hend, hsame⟩ : ∃ source,
      (Source.parse bundleWithCopy).toOption = some source ∧
        keptEntries Session.empty source ≠ [] ∧
        (keptEntries Session.empty source).length < (entriesOf source).length ∧
        (reading source).2 = true ∧
        Session.empty.takeAll (reading source).1 =
          Session.empty.takeAll ((reading source).1.filter (·.ending ≠ .leftOut)) := by
    simpa [Option.any_eq_true] using h
  obtain ⟨-, -, hiff, -⟩ := leavesNoTrace_when_known Session.empty source hkept
  exact ⟨source, hsource, hkept, hskipped, (hiff hend).mpr hsame⟩

/-- A bundle with a malformed module and, under another id, a module of the same content. -/
def bundleWithRival : Text :=
  "p(\x7b1:[function()\x7ba\x7d,5],2:[function()\x7ba\x7d,\x7b\x7d]\x7d,\x7b\x7d,[2])"

set_option maxRecDepth 100000 in
/-- The module is known, and given out, by the id of the one that was skipped. -/
theorem rival_not_leavesNoTrace :
    ∃ source, (Source.parse bundleWithRival).toOption = some source ∧
      keptEntries Session.empty source ≠ [] ∧ ¬LeavesNoTrace Session.empty source := by
  have h : ((Source.parse bundleWithRival).toOption.any fun source =>
      decide (keptEntries Session.empty source ≠ [] ∧ ¬LeavesNoTrace Session.empty source)) =
        true := by
    decide +kernel
  simpa [Option.any_eq_true] using h

end Trace
end Debundle
