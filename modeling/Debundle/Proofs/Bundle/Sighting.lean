import Debundle.Bundle.Packed
import Debundle.Proofs.Session.Asking
import Mathlib.Data.List.Induction

/-!
# What a packed bundle shows

What is read out of a bundle depends on the session only through ids and paths: which modules are
seen, which source each of them has, what it asks for, and where the reading goes wrong, is in the
bundle alone.  So unpacking is taken apart here into a part that looks at the bundle and a part
that takes what was seen, one sighting after the other, into the session.

A module that turns out to be malformed has been seen as far as it could be read, and what it asked
for until then is remembered.  If the reading is given up, nothing more of the bundle is seen, and
the forest does not grow.

* `Sighting`: what one module of a bundle shows.
* `reading`: what a bundle shows.
* `Session.take`: takes a sighting into a session.
* `Session.unpacked_eq`: unpacking takes what the bundle shows into the session, and lets the forest
  grow.
* `Session.after`: the session after some bundles.
* `Session.unpacked_induction`, `Session.after_induction`: what holds of the session after any
  bundles.
-/

namespace Debundle

open Debundle.Action Script

/-! ## Looking at a bundle -/

/-- How the reading of a module ends. -/
inductive Ending where
  /-- All of it could be read. -/
  | complete
  /-- It is malformed and left out. -/
  | leftOut
  /-- The reading of the bundle is given up. -/
  | gaveUp
deriving DecidableEq

/-- The result of a reading that ends in some way, if it gives a value when it is complete. -/
def Ending.Gives {α : Type} (x : α) : Ending → Except EntryError α → Prop
  | .complete, r => r = .ok x
  | .leftOut, r => ∃ f, r = .error (.flaw f)
  | .gaveUp, r => ∃ f, r = .error (.fault f)

/-- What one module of a bundle shows, as far as it can be read. -/
structure Sighting where
  /-- The id it has in the bundle. -/
  rawId : Text
  /-- Its source. -/
  source : Text
  /-- The digest of the source. -/
  digest : Text
  /-- The source has the digest. -/
  digest_eq : source.digest = .ok digest
  /-- What it asks for. -/
  asks : List Ask
  /-- How its reading ends. -/
  ending : Ending
deriving DecidableEq

/-- Whether a module only stands for one that is somewhere else. -/
def Sighting.isStub (v : Sighting) : Bool := v.source.all CodePoint.isBlank && v.asks.isEmpty

/-- The ids that a module mentions: its own, and those of the modules it asks for. -/
def Sighting.ids (v : Sighting) : List Text := v.rawId :: v.asks.map Ask.dependency

/-- What is found at one entry of the table. -/
inductive Glance where
  /-- Nothing that is remembered. -/
  | nothing
  /-- The reading is given up. -/
  | gaveUp
  /-- A module. -/
  | module (v : Sighting)

/-- The text of the key of a pair. -/
def keyText (pair : Node) : Except LiteralError (Option Text) :=
  match pair.part? .key with
  | none => .ok none
  | some key => key.propertyKey

/-- The id of a dependency. -/
def dependencyText (path : Text) (value : Option Node) : Except LiteralError Text :=
  match value with
  | none => .ok (syntheticId path)
  | some v => v.literalValue.map fun found => found.getD (syntheticId path)

/-- What some pairs ask for, up to the first one that cannot be read. -/
def asksOf : List Node → List Ask × Ending
  | [] => ([], .complete)
  | pair :: rest =>
    if pair.kind != .pair then ([], .leftOut)
    else
      match keyText pair with
      | .error _ => ([], .gaveUp)
      | .ok none => ([], .leftOut)
      | .ok (some path) =>
        match dependencyText path (pair.part? .value) with
        | .error _ => ([], .gaveUp)
        | .ok dependency => (⟨dependency, path⟩ :: (asksOf rest).1, (asksOf rest).2)

/-- What an object asks for. -/
def asksIn (object : Node) : List Ask × Ending :=
  if object.kind != .objectLiteral then ([], .leftOut) else asksOf object.parts

/-- A module with some id, source and dependencies. -/
def glanceAt (rawId source : Text) (object : Node) : Glance :=
  match h : source.digest with
  | .error _ => .gaveUp
  | .ok digest => .module ⟨rawId, source, digest, h, (asksIn object).1, (asksIn object).2⟩

/-- What one entry of the table shows. -/
def glance (source : Source) (entry : Node) : Glance :=
  if entry.kind != .pair then .nothing
  else
    match keyText entry with
    | .error _ => .gaveUp
    | .ok key =>
      match key.filter (!·.isEmpty), entryItems? (entry.part? .value) with
      | some rawId, some (factory, object) =>
        match restore (source.textOf factory) with
        | .ok restored => glanceAt rawId restored.source object
        | .error (.unedited _) => .gaveUp
        | .error _ => .nothing
      | _, _ => .nothing

/-- What some entries show, and whether they are read to the end. -/
def sightingsIn (source : Source) : List Node → List Sighting × Bool
  | [] => ([], true)
  | entry :: rest =>
    match glance source entry with
    | .nothing => sightingsIn source rest
    | .gaveUp => ([], false)
    | .module v =>
      if v.ending = .gaveUp then ([v], false)
      else (v :: (sightingsIn source rest).1, (sightingsIn source rest).2)

/-- What a bundle shows, and whether it has a table that is read to the end. -/
def reading (source : Source) : List Sighting × Bool :=
  match (packedArguments? source.statements).bind List.head? with
  | none => ([], false)
  | some table => if table.parts.isEmpty then ([], false) else sightingsIn source table.parts

/-! ## Taking sightings into a session -/

namespace Session

/-- The session after a module asked for its dependencies one by one, and the paths to record. -/
def askAll (id : Text) : List Ask → Session → Table Text → Session × Table Text
  | [], s, found => (s, found)
  | a :: rest, s, found =>
    askAll id rest (s.ask (s.referrersOf a.dependency) id a)
      (found.insert a.dependency (s.finalPath a))

/-- The session after a module was read, and the paths to record for what it asks for. -/
def read (s : Session) (v : Sighting) : Session × Table Text :=
  askAll (s.knownId v.digest v.rawId) v.asks (s.claim v.digest v.rawId) []

/-- The record of a module with some paths. -/
def recordOf (s : Session) (v : Sighting) (found : Table Text) : ModuleRecord :=
  ⟨v.rawId, s.knownId v.digest v.rawId, v.source, found,
    v.source.all CodePoint.isBlank && found.isEmpty⟩

/-- Takes a sighting into the session; only a module that was read completely gets a record. -/
def take (s : Session) (v : Sighting) : Session :=
  if v.ending = .complete then (s.read v).1.withRecord (s.recordOf v (s.read v).2) else (s.read v).1

/-- Takes sightings into the session. -/
def takeAll (s : Session) (vs : List Sighting) : Session := vs.foldl take s

/-- The session after the forest grew. -/
def grown (s : Session) : Session := ((growForest s.liveRecords).run s).state

/-- The session after a bundle. -/
def unpacked (s : Session) (source : Source) : Session := ((unpackPacked source).run s).state

/-- The session after some bundles. -/
def after (sources : List Source) : Session := sources.foldl unpacked empty

end Session

/-! ## Asking for several modules -/

namespace Session

/-- Asking for several modules leaves all but the records, the scores and the referrers as it was,
and no record comes or goes. -/
theorem askAll_frame (id : Text) (asks : List Ask) (s : Session) (found : Table Text) :
    (askAll id asks s found).1.hashes = s.hashes ∧
      (askAll id asks s found).1.aliases = s.aliases ∧
      (askAll id asks s found).1.modules.keys = s.modules.keys ∧
      (askAll id asks s found).1.forest = s.forest := by
  induction asks generalizing s found with
  | nil => exact ⟨rfl, rfl, rfl, rfl⟩
  | cons a rest ih =>
    have hst := ask_asked (s.referrersOf a.dependency) id s a
    obtain ⟨hhashes, haliases, hkeys, hforest⟩ := ih (s.ask (s.referrersOf a.dependency) id a)
      (found.insert a.dependency (s.finalPath a))
    exact ⟨hhashes.trans hst.hashes, haliases.trans hst.aliases, hkeys.trans hst.keys,
      hforest.trans hst.forest⟩

/-- What no visit changes is the same of every record after asking for several modules. -/
theorem map_modules_askAll {β : Type} {g : ModuleRecord → β} (hg : ∀ d p r, g (r.refresh d p) = g r)
    (id : Text) (asks : List Ask) (s : Session) (found : Table Text) (k : Text) :
    ((askAll id asks s found).1.modules.get? k).map g = (s.modules.get? k).map g := by
  induction asks generalizing s found with
  | nil => rfl
  | cons a rest ih =>
    have hst := ask_asked (s.referrersOf a.dependency) id s a
    rw [askAll, ih, hst.map_modules hg]

/-- There is a path to record for everything that is asked for. -/
theorem mem_keys_askAll (id : Text) (asks : List Ask) (s : Session) (found : Table Text)
    (d : Text) : d ∈ (askAll id asks s found).2.keys ↔
      d ∈ found.keys ∨ d ∈ asks.map Ask.dependency := by
  induction asks generalizing s found with
  | nil => simp [askAll]
  | cons a rest ih =>
    rw [askAll, ih, Table.mem_keys_insert, List.map_cons, List.mem_cons,
      or_comm (a := d = a.dependency), or_assoc]

end Session

/-! ## Reading is looking and taking -/

variable {s : Session}

theorem keyOf_leaves (pair : Node) (Q : Except EntryError (Option Text) → Session → Prop) :
    (keyOf pair).Leaves s Q ↔
      Q ((keyText pair).mapError fun e => .fault (.literal e)) s := by
  unfold keyOf keyText
  rcases pair.part? .key with _ | key <;> rfl

theorem dependencyId_leaves (path : Text) (value : Option Node)
    (Q : Except EntryError Text → Session → Prop) :
    (dependencyId path value).Leaves s Q ↔
      Q ((dependencyText path value).mapError fun e => .fault (.literal e)) s := by
  unfold dependencyId dependencyText
  rcases value with _ | v
  · rfl
  · simp only [literalEntry]
    rw [leaves_bind, leaves_ofExcept]
    rcases v.literalValue with e | found
    · rfl
    · rcases found with _ | id <;> rfl

/-- Reading what a module asks for. -/
theorem readPairs_leaves (id : Text) (pairs : List Node) (found : Table Text) :
    (readPairs id pairs found).Leaves s fun r t =>
      t = (Session.askAll id (asksOf pairs).1 s found).1 ∧
        (asksOf pairs).2.Gives (Session.askAll id (asksOf pairs).1 s found).2 r := by
  induction pairs generalizing s found with
  | nil => exact ⟨rfl, rfl⟩
  | cons pair rest ih =>
    unfold readPairs asksOf
    split
    · exact ⟨rfl, _, rfl⟩
    · rw [leaves_bind, keyOf_leaves]
      rcases keyText pair with e | key
      · exact ⟨rfl, _, rfl⟩
      · rcases key with _ | path
        · exact ⟨rfl, _, rfl⟩
        · simp only [Except.mapError]
          rw [leaves_bind, dependencyId_leaves]
          rcases dependencyText path (pair.part? .value) with e | dependency
          · exact ⟨rfl, _, rfl⟩
          · simp only [Except.mapError]
            rw [leaves_bind]
            exact (Session.resolveDependency_leaves (a := ⟨dependency, path⟩) id _).mpr (ih _)

theorem readDependencies_leaves (object : Node) (id : Text) :
    (readDependencies object id).Leaves s fun r t =>
      t = (Session.askAll id (asksIn object).1 s []).1 ∧
        (asksIn object).2.Gives (Session.askAll id (asksIn object).1 s []).2 r := by
  unfold readDependencies asksIn
  split
  · exact ⟨rfl, _, rfl⟩
  · exact readPairs_leaves id object.parts []

/-- What reading one entry leaves, by what the entry shows. -/
def Glance.Leaves (s : Session) (r : Except EntryError (Option ModuleRecord)) (t : Session) :
    Glance → Prop
  | .nothing => t = s ∧ (r = .ok none ∨ ∃ f, r = .error (.flaw f))
  | .gaveUp => t = s ∧ ∃ f, r = .error (.fault f)
  | .module v => t = (s.read v).1 ∧ v.ending.Gives (some (s.recordOf v (s.read v).2)) r

/-- Reading a module whose source is known. -/
theorem readModule_leaves (rawId text : Text) (object : Node) :
    (do
      let id ← (Session.canonicalId rawId text).mapError fun _ => EntryError.fault .noDigest
      let dependencies ← readDependencies object id
      let isStub := text.all CodePoint.isBlank && dependencies.isEmpty
      return some ⟨rawId, id, text, dependencies, isStub⟩ :
        EntryStep Session (Option ModuleRecord)).Leaves s
      fun r t => (glanceAt rawId text object).Leaves s r t := by
  rw [leaves_bind, leaves_mapError]
  unfold glanceAt
  split
  · rename_i e h
    rw [Session.canonicalId_leaves_error h]
    exact ⟨rfl, _, rfl⟩
  · rename_i digest h
    rw [Session.canonicalId_leaves h]
    simp only [Except.mapError]
    refine (readDependencies_leaves object _).bind ?_ ?_
    · rintro e t ⟨ht, hr⟩
      refine ⟨ht, ?_⟩
      rcases hending : (asksIn object).2 with _ | _ | _ <;> rw [hending] at hr
      · exact absurd hr (by simp [Ending.Gives])
      · obtain ⟨f, hf⟩ := hr
        exact ⟨f, by rw [Except.error.inj hf]⟩
      · obtain ⟨f, hf⟩ := hr
        exact ⟨f, by rw [Except.error.inj hf]⟩
    · rintro found t ⟨ht, hr⟩
      refine ⟨ht, ?_⟩
      rcases hending : (asksIn object).2 with _ | _ | _ <;> rw [hending] at hr
      · rw [Except.ok.inj hr]
        rfl
      · exact absurd hr (by simp [Ending.Gives])
      · exact absurd hr (by simp [Ending.Gives])

/-- Reading one entry. -/
theorem readEntry_leaves (source : Source) (entry : Node) :
    (readEntry source entry).Leaves s fun r t => (glance source entry).Leaves s r t := by
  unfold readEntry glance
  split
  · exact ⟨rfl, Or.inr ⟨_, rfl⟩⟩
  · rw [leaves_bind, keyOf_leaves]
    cases keyText entry with
    | error e => exact ⟨rfl, _, rfl⟩
    | ok key =>
      simp only [Except.mapError]
      cases key.filter (!·.isEmpty) with
      | none => exact ⟨rfl, Or.inr ⟨_, rfl⟩⟩
      | some rawId =>
        cases entryItems? (entry.part? .value) with
        | none => exact ⟨rfl, Or.inl rfl⟩
        | some items =>
          obtain ⟨factory, object⟩ := items
          simp only [restoreEntry, bind_assoc]
          rw [leaves_bind, leaves_ofExcept]
          cases restore (source.textOf factory) with
          | error e =>
            cases e with
            | unparsable e => exact ⟨rfl, Or.inr ⟨_, rfl⟩⟩
            | malformed f => exact ⟨rfl, Or.inr ⟨_, rfl⟩⟩
            | unedited e => exact ⟨rfl, _, rfl⟩
          | ok restored =>
            simp only [Except.mapError, pure_bind]
            rw [leaves_bind, leaves_sayAll]
            exact readModule_leaves rawId restored.source object

/-- Reading entries takes what they show into the session. -/
theorem readEntries_leaves (source : Source) (entries : List Node) :
    (readEntries source entries).Leaves s fun r t =>
      t = s.takeAll (sightingsIn source entries).1 ∧
        if (sightingsIn source entries).2 then r = .ok () else ∃ f, r = .error f := by
  induction entries generalizing s with
  | nil => exact ⟨rfl, rfl⟩
  | cons entry rest ih =>
    unfold readEntries sightingsIn
    rw [leaves_bind, leaves_attempt]
    refine (readEntry_leaves source entry).mono fun r t h => ?_
    cases hglance : glance source entry with
    | nothing =>
      rw [hglance] at h
      obtain ⟨rfl, rfl | ⟨f, rfl⟩⟩ := h
      · exact ih
      · simp only [leaves_bind, leaves_say]
        exact ih
    | gaveUp =>
      rw [hglance] at h
      obtain ⟨rfl, f, rfl⟩ := h
      exact ⟨rfl, f, rfl⟩
    | module v =>
      rw [hglance] at h
      obtain ⟨ht, hr⟩ := h
      cases hending : v.ending with
      | complete =>
        rw [hending] at hr
        rw [hr, ht]
        simp only [hending, reduceCtorEq, if_false, leaves_bind, Session.register_leaves]
        have htake : s.take v = (s.read v).1.withRecord (s.recordOf v (s.read v).2) := by
          rw [Session.take, if_pos hending]
        rw [← htake]
        exact ih
      | leftOut =>
        rw [hending] at hr
        obtain ⟨f, rfl⟩ := hr
        rw [ht]
        simp only [hending, reduceCtorEq, if_false, leaves_bind, leaves_say]
        have htake : s.take v = (s.read v).1 := by
          rw [Session.take, if_neg (by simp [hending])]
        rw [← htake]
        exact ih
      | gaveUp =>
        rw [hending] at hr
        obtain ⟨f, rfl⟩ := hr
        rw [ht]
        simp only [hending, if_true, leaves_bind, leaves_fail]
        refine ⟨?_, f, rfl⟩
        simp [Session.takeAll, Session.take, hending]

/-! ## The forest grows beside the rest -/

/-- Two sessions that differ in their forests at most. -/
def Session.SameButForest (s t : Session) : Prop := t = { s with forest := t.forest }

theorem Session.SameButForest.refl (s : Session) : s.SameButForest s := rfl

theorem Session.SameButForest.trans {s t u : Session} (hst : s.SameButForest t)
    (htu : t.SameButForest u) : s.SameButForest u := by
  unfold SameButForest at hst htu ⊢
  rw [htu, hst]

theorem onForest_sameButForest {α : Type} (a : Forest.Step α) :
    (Session.onForest a).Leaves s fun _ t => s.SameButForest t := by
  rw [Session.onForest, leaves_within]
  rfl

theorem requireEdge_sameButForest (current target path : Text) :
    (requireEdge current target path).Leaves s fun _ t => s.SameButForest t := by
  unfold requireEdge
  rw [leaves_bind, leaves_attempt]
  refine (onForest_sameButForest (Forest.require current target path)).mono fun r t h => ?_
  cases r with
  | ok _ => exact h
  | error e => cases e <;> exact h

theorem growEdges_sameButForest (current : Text) (edges : List (Text × Text)) :
    (growEdges current edges).Leaves s fun _ t => s.SameButForest t := by
  induction edges generalizing s with
  | nil => exact .refl s
  | cons edge rest ih =>
    unfold growEdges
    rw [leaves_get_bind]
    simp only
    split
    · rw [leaves_bind, leaves_say]
      exact ih
    · refine (requireEdge_sameButForest current _ edge.2).bind (fun _ _ h => h) ?_
      exact fun _ t h => ih.mono fun _ u hu => h.trans hu

theorem growForest_sameButForest (records : List ModuleRecord) :
    (growForest records).Leaves s fun _ t => s.SameButForest t := by
  induction records generalizing s with
  | nil => exact .refl s
  | cons r rest ih =>
    unfold growForest
    rw [leaves_bind, leaves_mapError]
    refine (onForest_sameButForest (Forest.ensureFile r.canonicalId r.canonicalId true)).mono
      fun result t h => ?_
    cases result with
    | error e => exact h
    | ok _ =>
      refine (growEdges_sameButForest r.canonicalId r.dependencies).bind
        (fun _ u hu => h.trans hu) ?_
      exact fun _ u hu => ih.mono fun _ w hw => (h.trans hu).trans hw

/-! ## Unpacking -/

namespace Session

/-- Unpacking takes what the bundle shows into the session, and then the forest grows, unless the
reading was given up. -/
theorem unpacked_eq (s : Session) (source : Source) :
    s.unpacked source =
      if (reading source).2 then (s.takeAll (reading source).1).grown
      else s.takeAll (reading source).1 := by
  suffices h : (unpackPacked source).Leaves s fun _ t => t =
      if (reading source).2 then (s.takeAll (reading source).1).grown
      else s.takeAll (reading source).1 from h
  unfold unpackPacked reading
  cases (packedArguments? source.statements).bind List.head? with
  | none => rfl
  | some table =>
    simp only
    by_cases hempty : table.parts.isEmpty = true
    · rw [if_pos hempty, if_pos hempty]
      rfl
    · rw [if_neg hempty, if_neg hempty, leaves_bind]
      refine (readEntries_leaves source table.parts).mono fun r t h => ?_
      obtain ⟨rfl, hr⟩ := h
      by_cases hfinished : (sightingsIn source table.parts).2 = true
      · rw [if_pos hfinished] at hr
        rw [hr, if_pos hfinished]
        simp only [leaves_get_bind]
        rw [leaves_bind]
        cases hgrow : ((growForest (s.takeAll (sightingsIn source table.parts).1).liveRecords).run
            (s.takeAll (sightingsIn source table.parts).1)).result with
        | ok x => simp only [Leaves, hgrow, grown]; rfl
        | error e => simp only [Leaves, hgrow, grown]
      · rw [if_neg hfinished] at hr
        obtain ⟨f, rfl⟩ := hr
        rw [if_neg hfinished]

/-- Unpacking takes what the bundle shows into the session, and changes nothing else but the
forest. -/
theorem takeAll_sameButForest_unpacked (s : Session) (source : Source) :
    (s.takeAll (reading source).1).SameButForest (s.unpacked source) := by
  rw [unpacked_eq]
  split
  · exact growForest_sameButForest _
  · exact .refl _

/-- What the bundles before show. -/
def history (sources : List Source) : List Sighting :=
  sources.flatMap fun source => (reading source).1

theorem after_append (sources : List Source) (source : Source) :
    after (sources ++ [source]) = (after sources).unpacked source := by
  rw [after, List.foldl_append]
  rfl

theorem history_append (sources : List Source) (source : Source) :
    history (sources ++ [source]) = history sources ++ (reading source).1 := by
  rw [history, List.flatMap_append, List.flatMap_singleton, ← history]

/-- What is preserved whatever is taken in and however the forest grows is preserved by a bundle. -/
theorem unpacked_induction {P : List Sighting → Session → Prop}
    (htake : ∀ vs s v, P vs s → P (vs ++ [v]) (s.take v))
    (hforest : ∀ vs s f, P vs s → P vs { s with forest := f }) {vs : List Sighting} {s : Session}
    (hs : P vs s) (source : Source) : P (vs ++ (reading source).1) (s.unpacked source) := by
  have htakeAll : ∀ ws vs s, P vs s → P (vs ++ ws) (s.takeAll ws) := by
    intro ws
    induction ws with
    | nil =>
      intro vs s h
      rwa [List.append_nil]
    | cons w ws ih =>
      intro vs s h
      rw [← List.singleton_append, ← List.append_assoc]
      exact ih _ _ (htake vs s w h)
  rw [takeAll_sameButForest_unpacked s source]
  exact hforest _ _ _ (htakeAll (reading source).1 vs s hs)

/-- What holds at the beginning, whatever is taken in and however the forest grows, holds after any
bundles, of all that they show. -/
theorem after_induction {P : List Sighting → Session → Prop} (hempty : P [] empty)
    (htake : ∀ vs s v, P vs s → P (vs ++ [v]) (s.take v))
    (hforest : ∀ vs s f, P vs s → P vs { s with forest := f }) (sources : List Source) :
    P (history sources) (after sources) := by
  induction sources using List.reverseRecOn with
  | nil => exact hempty
  | append_singleton sources source ih =>
    rw [after_append, history_append]
    exact unpacked_induction htake hforest ih source

end Session
end Debundle
