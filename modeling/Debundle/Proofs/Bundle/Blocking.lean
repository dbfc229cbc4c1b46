import Debundle.Proofs.Bundle.Definitions
import Debundle.Proofs.Bundle.Skipping
import Debundle.Proofs.Factory.Restoring
import Debundle.Proofs.Forest.Lookups
import Debundle.Proofs.Script.Literals
import Debundle.Proofs.Session.Aliases

/-!
# What stops the reading of a bundle

A module that is malformed is left out and the others are read all the same.  There is one thing
that stops everything: a literal without a value where an id or a path has to be read.  Restored
sources have digests, modules have ids that are not empty, and the forest can be grown by whatever
the modules ask for, so nothing else can.

* `isBlocked`: an entry of a table at which a literal without a value has to be read.
* `sightingsIn_complete`: the entries are read to the end if none of them is blocked.
* `unpackPacked_blocked`: unpacking a packed bundle fails if an entry is blocked, and then because
  of a literal without a value.
* `definition?_blocked`: a definition is read unless it is under a literal without a value.
* `modulesIn_blocked`: the same for the definitions of an AMD bundle.
-/

namespace Debundle

open Debundle.Action Script

/-! ## Literals that are read -/

theorem isOk_dependencyText (path : Text) (value : Option Node) :
    (dependencyText path value).isOk = !value.any Node.isVoid := by
  unfold dependencyText
  cases value with
  | none => rfl
  | some v => exact (isOk_map _ _).trans v.isOk_literalValue

/-- The pairs of an object, up to the first malformed one, hold a literal without a value. -/
def holdVoid : List Node → Bool
  | [] => false
  | pair :: rest =>
    pair.kind == .pair &&
      match keyText pair with
      | .error _ => true
      | .ok none => false
      | .ok (some _) => (pair.part? .value).any Node.isVoid || holdVoid rest

/-- Reading an entry comes upon a literal without a value: in its key, or, if its key is an id and
its factory can be restored, among what it asks for. -/
def isBlocked (source : Source) (entry : Node) : Bool :=
  entry.kind == .pair &&
    match keyText entry with
    | .error _ => true
    | .ok key =>
      match key.filter (!·.isEmpty), entryItems? (entry.part? .value) with
      | some _, some (factory, object) =>
        (restore (source.textOf factory)).isOk && object.kind == .objectLiteral &&
          holdVoid object.parts
      | _, _ => false

theorem asksOf_gaveUp_iff (pairs : List Node) :
    (asksOf pairs).2 = .gaveUp ↔ holdVoid pairs = true := by
  induction pairs with
  | nil => exact iff_of_false (fun h => by cases h) Bool.false_ne_true
  | cons pair rest ih =>
    unfold asksOf holdVoid
    by_cases hkind : pair.kind = .pair
    · rw [if_neg (by simp [hkind])]
      cases keyText pair with
      | error e => simp [hkind]
      | ok key =>
        cases key with
        | none => simp
        | some path =>
          have hvalue := isOk_dependencyText path (pair.part? .value)
          simp only [hkind, beq_self_eq_true, Bool.true_and, Bool.or_eq_true, ← ih]
          cases hdependency : dependencyText path (pair.part? .value) with
          | error e =>
            rw [hdependency] at hvalue
            have hvoid : (pair.part? .value).any Node.isVoid = true := by simpa using hvalue.symm
            exact iff_of_true rfl (Or.inl hvoid)
          | ok dependency =>
            rw [hdependency] at hvalue
            have hvoid : (pair.part? .value).any Node.isVoid = false := by simpa using hvalue.symm
            rw [hvoid, Bool.false_eq_true, false_or]
    · rw [if_pos (by simpa using hkind)]
      simp [hkind]

theorem asksIn_gaveUp_iff (object : Node) :
    (asksIn object).2 = .gaveUp ↔ object.kind = .objectLiteral ∧ holdVoid object.parts = true := by
  unfold asksIn
  by_cases hkind : object.kind = .objectLiteral
  · rw [if_neg (by simp [hkind]), asksOf_gaveUp_iff]
    simp [hkind]
  · rw [if_pos (by simpa using hkind)]
    simp [hkind]

/-! ## Entries -/

/-- How the reading of an entry ends, by what the entry shows. -/
def Glance.IsComplete : Glance → Prop
  | .nothing => True
  | .gaveUp => False
  | .module v => v.ending ≠ .gaveUp

theorem glance_isComplete_iff (source : Source) (entry : Node) :
    (glance source entry).IsComplete ↔ isBlocked source entry = false := by
  unfold glance isBlocked
  by_cases hkind : entry.kind = .pair
  · rw [if_neg (by simp [hkind])]
    simp only [hkind, beq_self_eq_true, Bool.true_and]
    cases keyText entry with
    | error e => exact iff_of_false id (by simp)
    | ok key =>
      simp only
      cases key.filter (!·.isEmpty) with
      | none => exact iff_of_true trivial rfl
      | some rawId =>
        cases entryItems? (entry.part? .value) with
        | none => exact iff_of_true trivial rfl
        | some items =>
          obtain ⟨factory, object⟩ := items
          obtain ⟨hedited, hscalar⟩ := restore_isScalar (source.textOf factory)
          simp only
          cases hrestore : restore (source.textOf factory) with
          | error e =>
            cases e with
            | unparsable e => exact iff_of_true trivial rfl
            | malformed f => exact iff_of_true trivial rfl
            | unedited e => exact absurd hrestore (hedited e)
          | ok restored =>
            obtain ⟨digest, hdigest⟩ := exists_digest (hscalar restored hrestore)
            have hmodule : (glanceAt rawId restored.source object).IsComplete ↔
                (asksIn object).2 ≠ .gaveUp := by
              unfold glanceAt
              split
              · rename_i e herror
                rw [hdigest] at herror
                cases herror
              · exact Iff.rfl
            simp only [hmodule, Ne, asksIn_gaveUp_iff]
            simp
  · rw [if_pos (by simpa using hkind)]
    simp [hkind, Glance.IsComplete]

/-- The entries are read to the end if none of them is blocked. -/
theorem sightingsIn_complete (source : Source) (entries : List Node) :
    (sightingsIn source entries).2 = !entries.any (isBlocked source) := by
  induction entries with
  | nil => rfl
  | cons entry rest ih =>
    have hentry := glance_isComplete_iff source entry
    unfold sightingsIn
    rw [List.any_cons]
    cases hglance : glance source entry with
    | nothing =>
      rw [hglance] at hentry
      rw [hentry.mp trivial, Bool.false_or]
      exact ih
    | gaveUp =>
      rw [hglance] at hentry
      have hblocked : isBlocked source entry = true := by simpa using mt hentry.mpr id
      rw [hblocked]
      rfl
    | module v =>
      rw [hglance] at hentry
      by_cases hending : v.ending = .gaveUp
      · have hblocked : isBlocked source entry = true := by
          simpa using mt hentry.mpr fun hcomplete => hcomplete hending
        simp only [hblocked, if_pos hending]
        rfl
      · simp only [hentry.mp hending, if_neg hending, Bool.false_or]
        exact ih

/-! ## Failures of the reading -/

/-- A literal without a value. -/
def Fault.IsLiteral (f : Fault) : Prop := ∃ e, f = .literal e

/-- A flaw of a module, or a literal without a value. -/
def EntryError.IsLocal : EntryError → Prop
  | .flaw _ => True
  | .fault f => f.IsLiteral

theorem literalEntry_isLocal {σ α : Type} (x : Except LiteralError α) :
    FailsOnly EntryError.IsLocal (literalEntry x : EntryStep σ α) := by
  refine .ofExcept fun e he => ?_
  cases x with
  | error e' =>
    cases he
    exact ⟨e', rfl⟩
  | ok a => cases he

theorem keyOf_isLocal (pair : Node) : FailsOnly EntryError.IsLocal (keyOf pair) := by
  unfold keyOf
  split
  · exact .pure _
  · exact literalEntry_isLocal _

theorem dependencyId_isLocal (path : Text) (value : Option Node) :
    FailsOnly EntryError.IsLocal (dependencyId path value) := by
  intro s
  rw [dependencyId_leaves]
  exact literalEntry_isLocal (dependencyText path value) s

theorem readPairs_isLocal (id : Text) (pairs : List Node) (found : Table Text) :
    FailsOnly EntryError.IsLocal (readPairs id pairs found) := by
  induction pairs generalizing found with
  | nil => exact .pure _
  | cons pair rest ih =>
    unfold readPairs
    refine .ite (.fail trivial) ((keyOf_isLocal pair).bind fun key => ?_)
    cases key with
    | none => exact .fail trivial
    | some path =>
      have hresolve (dependency : Text) : FailsOnly EntryError.IsLocal
          (Session.resolveDependency dependency (Path.normalRequire path) id) := fun s =>
        (Session.resolveDependency_leaves (a := ⟨dependency, path⟩) id _).mpr
          fun e he => by cases he
      refine (dependencyId_isLocal _ _).bind fun dependency => ?_
      exact (hresolve dependency).bind fun final => ih _

theorem readDependencies_isLocal (object : Node) (id : Text) :
    FailsOnly EntryError.IsLocal (readDependencies object id) :=
  .ite (.fail trivial) (readPairs_isLocal _ _ _)

theorem restoreEntry_isLocal {σ : Type} (code : Text) :
    FailsOnly EntryError.IsLocal (restoreEntry code : EntryStep σ Text) := by
  obtain ⟨hedited, -⟩ := restore_isScalar code
  refine FailsOnly.bind (.ofExcept fun e he => ?_) fun restored =>
    (FailsOnly.sayAll _).bind fun _ => .pure _
  cases hrestore : restore code with
  | ok restored =>
    rw [hrestore] at he
    cases he
  | error e' =>
    rw [hrestore] at he
    cases he
    cases e' with
    | unparsable e => trivial
    | malformed f => trivial
    | unedited e => exact absurd hrestore (hedited e)

/-- What is restored has bytes. -/
theorem isScalar_of_restoreEntry {σ : Type} {code : Text} {s : σ} {text : Text}
    (h : ((restoreEntry code : EntryStep σ Text).run s).result = .ok text) : text.IsScalar := by
  obtain ⟨-, hscalar⟩ := restore_isScalar code
  suffices hleaves : (restoreEntry code : EntryStep σ Text).Leaves s fun r _ =>
      ∀ text, r = .ok text → text.IsScalar from hleaves text h
  unfold restoreEntry
  rw [leaves_bind, leaves_ofExcept]
  cases hrestore : restore code with
  | error e => exact fun _ he => by cases he
  | ok restored =>
    rintro _ ⟨⟩
    exact hscalar restored hrestore

/-- An entry is malformed, or holds a literal without a value; nothing else can be wrong with it. -/
theorem readEntry_isLocal (source : Source) (entry : Node) :
    FailsOnly EntryError.IsLocal (readEntry source entry) := by
  unfold readEntry
  refine .ite (.fail trivial) ((keyOf_isLocal entry).bind fun key => ?_)
  cases key.filter (!·.isEmpty) with
  | none => exact .fail trivial
  | some rawId =>
    cases entryItems? (entry.part? .value) with
    | none => exact (FailsOnly.say _ _ _).bind fun _ => .pure _
    | some items =>
      obtain ⟨factory, object⟩ := items
      refine (restoreEntry_isLocal _).bind_of_ok fun s text htext => ?_
      obtain ⟨digest, hdigest⟩ := exists_digest (isScalar_of_restoreEntry htext)
      have hid : FailsOnly EntryError.IsLocal
          ((Session.canonicalId rawId text).mapError fun _ => EntryError.fault .noDigest) := by
        intro s
        rw [leaves_mapError, Session.canonicalId_leaves hdigest]
        exact fun e he => by cases he
      exact hid.bind fun id => (readDependencies_isLocal _ _).bind fun _ => .pure _

/-- Entries are read unless one of them holds a literal without a value. -/
theorem readEntries_isLiteral (source : Source) (entries : List Node) :
    FailsOnly Fault.IsLiteral (readEntries source entries) := by
  induction entries with
  | nil => exact .pure _
  | cons entry rest ih =>
    unfold readEntries
    refine FailsOnly.bind_of_ok (fun _ _ he => by cases he) fun s r hr => ?_
    have hresult : ((readEntry source entry).run s).result = r := Except.ok.inj hr
    cases r with
    | ok found =>
      cases found with
      | none => exact ih
      | some record =>
        have hregister : FailsOnly Fault.IsLiteral (Session.register record) := fun s =>
          (Session.register_leaves record _).mpr fun e he => by cases he
        exact hregister.bind fun _ => ih
    | error e =>
      cases e with
      | flaw flaw => exact (FailsOnly.say _ _ _).bind fun _ => ih
      | fault fault =>
        have hliteral : fault.IsLiteral := readEntry_isLocal source entry s _ hresult
        exact (FailsOnly.fail hliteral).bind fun _ => ih

/-! ## Ids -/

namespace Session

variable {s : Session} {vs : List Sighting} {source : Source}

theorem rawId_ne_nil_of_glance {entry : Node} {v : Sighting}
    (h : glance source entry = .module v) : v.rawId ≠ [] := by
  unfold glance at h
  split at h
  · cases h
  · split at h
    · cases h
    · split at h
      · rename_i rawId factory object hkey _
        have hne : rawId ≠ [] := by
          obtain ⟨-, hne⟩ := Option.filter_eq_some_iff.mp hkey
          simpa using hne
        split at h
        · unfold glanceAt at h
          split at h
          · cases h
          · cases h
            exact hne
        · cases h
        · cases h
      · cases h

/-- A module in the table of a bundle has an id. -/
theorem rawId_ne_nil_of_mem_sightingsIn (source : Source) (entries : List Node) :
    ∀ v ∈ (sightingsIn source entries).1, v.rawId ≠ [] := by
  induction entries with
  | nil => exact fun v hv => absurd hv List.not_mem_nil
  | cons entry rest ih =>
    unfold sightingsIn
    cases hglance : glance source entry with
    | nothing => exact ih
    | gaveUp => exact fun v hv => absurd hv List.not_mem_nil
    | module v =>
      have hv := rawId_ne_nil_of_glance hglance
      simp only
      split
      · exact List.forall_mem_singleton.mpr hv
      · exact List.forall_mem_cons.mpr ⟨hv, ih⟩

/-- A session that comes from modules with ids. -/
structure IsNamed (vs : List Sighting) (s : Session) : Prop where
  traced : Traced vs s
  declared : Declared vs s
  named : ∀ v ∈ vs, v.rawId ≠ []

theorem IsNamed.empty : IsNamed [] Session.empty where
  traced := .empty
  declared := fun _ _ h => by cases h
  named := fun _ h => absurd h List.not_mem_nil

theorem IsNamed.take (hs : IsNamed vs s) {w : Sighting} (hw : w.rawId ≠ []) :
    IsNamed (vs ++ [w]) (s.take w) where
  traced := hs.traced.take w
  declared := hs.declared.take hs.traced w
  named := List.forall_mem_append.mpr ⟨hs.named, List.forall_mem_singleton.mpr hw⟩

theorem IsNamed.takeAll (hs : IsNamed vs s) {ws : List Sighting} (hws : ∀ w ∈ ws, w.rawId ≠ []) :
    IsNamed (vs ++ ws) (s.takeAll ws) := by
  induction ws generalizing vs s with
  | nil =>
    rw [List.append_nil]
    exact hs
  | cons w ws ih =>
    obtain ⟨hw, hws⟩ := List.forall_mem_cons.mp hws
    rw [← List.singleton_append, ← List.append_assoc]
    exact ih (hs.take hw) hws

theorem IsNamed.withForest (hs : IsNamed vs s) (f : Forest) :
    IsNamed vs { s with forest := f } where
  traced := ⟨hs.traced.hashes, hs.traced.nodup, hs.traced.record⟩
  declared := hs.declared
  named := hs.named

/-- A module that a bundle shows has an id. -/
theorem rawId_ne_nil_of_mem_reading (source : Source) :
    ∀ v ∈ (reading source).1, v.rawId ≠ [] := by
  unfold reading
  cases (packedArguments? source.statements).bind List.head? with
  | none => exact fun v hv => absurd hv List.not_mem_nil
  | some table =>
    simp only
    split
    · exact fun v hv => absurd hv List.not_mem_nil
    · exact rawId_ne_nil_of_mem_sightingsIn _ _

/-- A bundle is unpacked. -/
theorem IsNamed.unpacked (hs : IsNamed vs s) (source : Source) :
    IsNamed (vs ++ (reading source).1) (s.unpacked source) := by
  rw [takeAll_sameButForest_unpacked s source]
  exact (hs.takeAll (rawId_ne_nil_of_mem_reading source)).withForest _

/-- Every module that is known has an id. -/
theorem IsNamed.canonicalId_ne_nil (hs : IsNamed vs s) {r : ModuleRecord} (hr : r ∈ s.liveRecords) :
    r.canonicalId ≠ [] := by
  obtain ⟨⟨k, hk⟩, -⟩ := hs.traced.mem_liveRecords.mp hr
  obtain ⟨hid, -⟩ := hs.declared k r hk
  obtain ⟨v, hv, hrawId⟩ := hs.traced.exists_rawId hk
  rw [hid, ← hrawId]
  exact hs.named v hv

end Session

/-! ## Growing the forest -/

theorem requireEdge_ok (current target path : Text) (s : Session) :
    (requireEdge current target path).Leaves s fun r _ => r = .ok () := by
  unfold requireEdge
  rw [leaves_bind, leaves_attempt, Session.onForest, leaves_within]
  refine (Forest.require_isFound current target path s.forest).mono fun r f h => ?_
  cases r with
  | ok _ => rfl
  | error e =>
    cases e with
    | missing id => exact absurd rfl (h _ rfl id)
    | _ => rfl

theorem growEdges_ok (current : Text) (edges : List (Text × Text)) (s : Session) :
    (growEdges current edges).Leaves s fun r _ => r = .ok () := by
  induction edges generalizing s with
  | nil => rfl
  | cons edge rest ih =>
    unfold growEdges
    rw [leaves_get_bind]
    simp only
    split
    · rw [leaves_bind, leaves_say]
      exact ih s
    · refine (requireEdge_ok current _ edge.2 s).bind (fun e t he => by cases he) ?_
      exact fun _ t _ => ih t

/-- The forest can be grown by modules that have ids, whatever they ask for. -/
theorem growForest_ok (records : List ModuleRecord) (hrecords : ∀ r ∈ records, r.canonicalId ≠ [])
    (s : Session) : (growForest records).Leaves s fun r _ => r = .ok () := by
  induction records generalizing s with
  | nil => rfl
  | cons record rest ih =>
    obtain ⟨hrecord, hrest⟩ := List.forall_mem_cons.mp hrecords
    unfold growForest
    rw [leaves_bind, leaves_mapError, Session.onForest, leaves_within]
    refine (Forest.ensureFile_ok hrecord record.canonicalId true s.forest).mono fun r f h => ?_
    rw [h]
    refine (growEdges_ok _ _ _).bind (fun e t he => by cases he) fun _ t _ => ih hrest t

/-! ## Unpacking -/

/-- How work ends: it is given up because of a literal without a value if it is blocked, and done
otherwise. -/
def FailsIf {α : Type} (blocked : Bool) (r : Except Fault α) : Prop :=
  match blocked with
  | true => ∃ e, r = .error (.literal e)
  | false => ∃ x, r = .ok x

theorem FailsIf.of_error {α : Type} {blocked : Bool} {f : Fault}
    (h : FailsIf blocked (.error f : Except Fault α)) : blocked = true ∧ f.IsLiteral := by
  cases blocked with
  | true =>
    obtain ⟨e, he⟩ := h
    exact ⟨rfl, e, Except.error.inj he⟩
  | false =>
    obtain ⟨x, hx⟩ := h
    cases hx

theorem FailsIf.of_ok {α : Type} {blocked : Bool} {x : α}
    (h : FailsIf blocked (.ok x : Except Fault α)) : blocked = false := by
  cases blocked with
  | true =>
    obtain ⟨e, he⟩ := h
    cases he
  | false => rfl

/-- A packed bundle is unpacked unless one of its entries is blocked, and then a literal without a
value is the reason. -/
theorem unpackPacked_blocked {s : Session} {vs : List Sighting} (hs : Session.IsNamed vs s)
    (source : Source) :
    (unpackPacked source).Leaves s fun r _ =>
      FailsIf ((entriesOf source).any (isBlocked source)) r := by
  rw [unpackPacked_eq, unpackEntries]
  generalize entriesOf source = entries
  by_cases hempty : entries = []
  · rw [hempty]
    exact ⟨[], rfl⟩
  · rw [if_neg (by simpa using hempty)]
    have hread := (readEntries_leaves source entries).and (readEntries_isLiteral source entries s)
    rw [leaves_bind]
    refine hread.mono fun r t ht => ?_
    obtain ⟨⟨rfl, hr⟩, hliteral⟩ := ht
    rw [sightingsIn_complete] at hr
    cases hblocked : entries.any (isBlocked source) with
    | true =>
      rw [hblocked] at hr
      obtain ⟨f, rfl⟩ := hr
      obtain ⟨e, rfl⟩ := hliteral f rfl
      exact ⟨e, rfl⟩
    | false =>
      rw [hblocked] at hr
      obtain rfl : r = .ok () := hr
      have hnamed := hs.takeAll (Session.rawId_ne_nil_of_mem_sightingsIn source entries)
      simp only [leaves_get_bind]
      refine (growForest_ok _ (fun r hr => hnamed.canonicalId_ne_nil hr) _).bind
        (fun e t he => by cases he) fun _ t _ => ?_
      rw [leaves_get_bind]
      exact ⟨_, rfl⟩

/-! ## Definitions -/

/-- A statement defines a module under a literal without a value. -/
def definesVoid (n : Node) : Bool := (definitionParts? n).any fun parts => parts.1.isVoid

theorem kind_of_definitionParts? {n path factory : Node}
    (h : definitionParts? n = some (path, factory)) : path.kind = .stringLiteral := by
  unfold definitionParts? at h
  simp only [Option.bind_eq_bind, Option.bind_eq_some_iff, guard, Option.pure_def] at h
  obtain ⟨_, -, call, -, _, -, callee, -, _, -, arguments, -, h⟩ := h
  split at h
  · obtain ⟨_, hkinds, h⟩ := Option.bind_eq_some_iff.mp h
    cases h
    split at hkinds
    · rename_i hboth
      simp only [Bool.and_eq_true, beq_iff_eq] at hboth
      exact hboth.1
    · cases hkinds
  · cases h

/-- Whether a statement defines a module is found unless it defines one under a literal without a
value. -/
theorem definition?_blocked (n : Node) :
    match definition? n with
    | .error _ => definesVoid n = true
    | .ok _ => definesVoid n = false := by
  have hn : (definition? n).isOk = !definesVoid n := by
    unfold definition? definesVoid
    cases hparts : definitionParts? n with
    | none => rfl
    | some parts =>
      obtain ⟨path, factory⟩ := parts
      have hkind := kind_of_definitionParts? hparts
      have hunwrap : path.unwrap = path := by
        rw [Node.unwrap_eq, hkind, if_neg (by decide)]
      simp only [bind_pure_comp]
      rw [isOk_map, Node.isOk_stringValue, Option.any_some, Node.isVoid, hunwrap, hkind]
      rfl
  cases hdefinition : definition? n with
  | error e => simpa [hdefinition, Except.isOk, Except.toBool] using hn.symm
  | ok found => simpa [hdefinition, Except.isOk, Except.toBool] using hn.symm

/-- The definitions of a bundle are unpacked unless one of them is under a literal without a
value. -/
theorem modulesIn_blocked (source : Source) (ns : List Node) :
    FailsIf (ns.any definesVoid) (modulesIn source ns) := by
  induction ns with
  | nil => exact ⟨[], rfl⟩
  | cons n ns ih =>
    have hn := definition?_blocked n
    unfold modulesIn
    cases hdefinition : definition? n with
    | error e =>
      rw [hdefinition] at hn
      rw [List.any_cons, hn, Bool.true_or]
      exact ⟨e, rfl⟩
    | ok found =>
      rw [hdefinition] at hn
      rw [List.any_cons, hn, Bool.false_or]
      cases found with
      | none => exact ih
      | some d =>
        obtain ⟨first, hfirst⟩ : ∃ first, modulesOf source d = .ok first := by
          obtain ⟨hedited, -⟩ := restore_isScalar (source.textOf d.factory)
          unfold modulesOf
          split
          · rename_i e he
            exact absurd he (hedited e)
          · exact ⟨_, rfl⟩
        simp only [hfirst]
        cases hrest : ns.any definesVoid with
        | true =>
          rw [hrest] at ih
          obtain ⟨e, he⟩ := ih
          exact ⟨e, by rw [he]; rfl⟩
        | false =>
          rw [hrest] at ih
          obtain ⟨ms, hms⟩ := ih
          exact ⟨first ++ ms, by rw [hms]; rfl⟩

/-- The shape of a script is found unless a statement before the first definition defines a module
under a literal without a value. -/
theorem hasDefinition_blocked (ns : List Node) :
    match hasDefinition ns with
    | .error _ => ns.any definesVoid = true
    | .ok false => ns.any definesVoid = false
    | .ok true => True := by
  induction ns with
  | nil => rfl
  | cons n ns ih =>
    have hn := definition?_blocked n
    unfold hasDefinition
    cases hdefinition : definition? n with
    | error e =>
      rw [hdefinition] at hn
      rw [List.any_cons, hn, Bool.true_or]
      rfl
    | ok found =>
      rw [hdefinition] at hn
      rw [List.any_cons, hn, Bool.false_or]
      cases found with
      | none => exact ih
      | some d => trivial

/-! ## Scripts -/

/-- Unpacking a script comes upon a literal without a value. -/
def Script.Source.isBlocked (source : Source) : Bool :=
  match packedArguments? source.statements with
  | some _ => (entriesOf source).any (Debundle.isBlocked source)
  | none => source.statements.any definesVoid

end Debundle
