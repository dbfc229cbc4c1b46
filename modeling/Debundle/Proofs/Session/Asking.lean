import Debundle.Proofs.Data.Tables
import Debundle.Proofs.Journal.Postcondition
import Debundle.Session.Dependency
import Mathlib.Data.List.Perm.Basic

/-!
# What the steps do to a session

Reading a module claims an id for its source, asks for its dependencies one by one, and takes in a
record.  Here these steps are given as functions from sessions to sessions, together with what is
under each id afterwards.

A path that is better than all before it is written into the records of earlier referrers.  Those
records are different ones, so the order in which they are visited does not matter.

* `Ask`: that a module asks for another by a path.
* `Session.claim`, `Session.knownId`: an id for a source.
* `Session.ask`, `Session.finalPath`: a dependency, with earlier referrers visited in some order.
* `Session.ask_perm`: the order does not matter.
* `Session.Asked`, `Session.ask_asked`: what is there afterwards.
* `Session.canonicalId_leaves`, `Session.resolveDependency_leaves`, `Session.register_leaves`: the
  steps do exactly this.
-/

namespace Debundle

open Debundle.Action

/-- That a module asks for another one by a path. -/
structure Ask where
  /-- The id of the module that is asked for. -/
  dependency : Text
  /-- The path as it is written. -/
  written : Text
deriving DecidableEq

namespace Ask

/-- The path in normal form, up to a file. -/
def path (a : Ask) : Text := completePath (Path.normalRequire a.written)

/-- How specific the path is. -/
def score (a : Ask) : Nat := fileNameScore a.path

end Ask

/-! ## Records -/

/-- A record with another path for a dependency that it has. -/
def ModuleRecord.refresh (dependency path : Text) (r : ModuleRecord) : ModuleRecord :=
  if (r.dependencies.get? dependency).getD [] = [] then r
  else { r with dependencies := r.dependencies.insert dependency path }

namespace ModuleRecord

variable (dependency path : Text) (r : ModuleRecord)

@[simp] theorem canonicalId_refresh : (r.refresh dependency path).canonicalId = r.canonicalId := by
  unfold refresh
  split <;> rfl

@[simp] theorem source_refresh : (r.refresh dependency path).source = r.source := by
  unfold refresh
  split <;> rfl

@[simp] theorem isStub_refresh : (r.refresh dependency path).isStub = r.isStub := by
  unfold refresh
  split <;> rfl

@[simp] theorem keys_refresh :
    (r.refresh dependency path).dependencies.keys = r.dependencies.keys := by
  unfold refresh
  split
  · rfl
  · rename_i hpath
    refine Table.keys_insert_of_mem path ?_
    rw [← Table.has_iff_mem_keys, Table.has]
    rcases hget : r.dependencies.get? dependency with _ | p
    · rw [hget] at hpath
      exact absurd rfl hpath
    · rfl

@[simp] theorem refresh_refresh :
    (r.refresh dependency path).refresh dependency path = r.refresh dependency path := by
  unfold refresh
  by_cases h : (r.dependencies.get? dependency).getD [] = []
  · simp [h]
  · simp [h, Table.insert_insert]

end ModuleRecord

namespace Session

variable {s : Session} {a : Ask} {ε : Type}

/-! ## An id for a source -/

/-- The id under which a source with a digest is known, and the given one if there is none. -/
def knownId (s : Session) (digest rawId : Text) : Text := (s.hashes.get? digest).getD rawId

/-- The session after an id was claimed for a source with a digest. -/
def claim (s : Session) (digest rawId : Text) : Session :=
  { s with
    hashes := s.hashes.insertNew digest rawId
    aliases := s.aliases.insert rawId (s.knownId digest rawId) }

theorem canonicalId_leaves {rawId source digest : Text} (hdigest : source.digest = .ok digest)
    (Q : Except Nat Text → Session → Prop) :
    (canonicalId rawId source).Leaves s Q ↔
      Q (.ok (s.knownId digest rawId)) (s.claim digest rawId) := by
  unfold canonicalId
  rw [leaves_bind, leaves_ofExcept, hdigest]
  simp only [leaves_get_bind]
  split <;> rfl

theorem canonicalId_leaves_error {rawId source : Text} {e : Nat} (h : source.digest = .error e)
    (Q : Except Nat Text → Session → Prop) :
    (canonicalId rawId source).Leaves s Q ↔ Q (.error e) s := by
  unfold canonicalId
  rw [leaves_bind, leaves_ofExcept, h]

/-! ## Visiting earlier referrers -/

/-- The ids of the modules that ask for a module. -/
def referrersOf (s : Session) (dependency : Text) : List Text :=
  (s.referrers.get? dependency).getD []

/-- Visits one referrer. -/
def refresh (dependency path : Text) (s : Session) (referrer : Text) : Session :=
  if s.isOutdated dependency referrer then s.setPath dependency path referrer else s

theorem refresh_of_none {dependency path referrer : Text}
    (h : s.modules.get? referrer = none) : s.refresh dependency path referrer = s := by
  rw [refresh, isOutdated, h, if_neg (by simp)]

theorem refresh_of_some {dependency path referrer : Text} {r : ModuleRecord}
    (h : s.modules.get? referrer = some r) : s.refresh dependency path referrer =
      { s with modules := s.modules.insert referrer (r.refresh dependency path) } := by
  rw [refresh, isOutdated, setPath, h, ModuleRecord.refresh]
  by_cases hout : (r.dependencies.get? dependency).getD [] = []
  · simp only [hout, bne_self_eq_false, Bool.false_eq_true, if_false, if_true]
    rw [Table.insert_of_get? h]
  · simp only [bne_iff_ne.mpr hout, if_true, if_neg hout]

/-- What is under an id after one referrer was visited. -/
theorem modules_refresh (dependency path referrer k : Text) :
    (s.refresh dependency path referrer).modules.get? k =
      if k = referrer then (s.modules.get? k).map (·.refresh dependency path)
      else s.modules.get? k := by
  rcases h : s.modules.get? referrer with _ | r
  · rw [refresh_of_none h]
    split
    · rename_i hk
      rw [hk, h, Option.map_none]
    · rfl
  · rw [refresh_of_some h, Table.get?_insert]
    split
    · rename_i hk
      rw [hk, h, Option.map_some]
    · rfl

/-- Two referrers can be visited in either order. -/
theorem refresh_right_comm (dependency path b c : Text) (s : Session) :
    (s.refresh dependency path b).refresh dependency path c =
      (s.refresh dependency path c).refresh dependency path b := by
  by_cases hbc : b = c
  · rw [hbc]
  · have hc : (s.refresh dependency path b).modules.get? c = s.modules.get? c := by
      rw [modules_refresh, if_neg (Ne.symm hbc)]
    have hb : (s.refresh dependency path c).modules.get? b = s.modules.get? b := by
      rw [modules_refresh, if_neg hbc]
    rcases h : s.modules.get? b with _ | r
    · rw [refresh_of_none h, refresh_of_none (hb.trans h)]
    · rcases h' : s.modules.get? c with _ | r'
      · rw [refresh_of_none h', refresh_of_none (hc.trans h')]
      · have hmem : c ∈ s.modules.keys := by
          rw [← Table.has_iff_mem_keys, Table.has, h', Option.isSome_some]
        rw [refresh_of_some (hc.trans h'), refresh_of_some (hb.trans h), refresh_of_some h,
          refresh_of_some h', Table.insert_comm hmem (Ne.symm hbc)]

/-- Visits referrers one after the other. -/
def refreshAll (dependency path : Text) (referrers : List Text) (s : Session) : Session :=
  referrers.foldl (refresh dependency path) s

theorem refreshAll_cons (dependency path referrer : Text) (rest : List Text) (s : Session) :
    s.refreshAll dependency path (referrer :: rest) =
      (s.refresh dependency path referrer).refreshAll dependency path rest := rfl

theorem backfill_leaves (dependency path : Text) (referrers : List Text)
    (Q : Except ε Unit → Session → Prop) :
    (backfill dependency path referrers).Leaves s Q ↔
      Q (.ok ()) (s.refreshAll dependency path referrers) := by
  induction referrers generalizing s with
  | nil => rfl
  | cons referrer rest ih =>
    unfold backfill
    rw [leaves_get_bind, refreshAll_cons, refresh]
    split
    · simp only [leaves_bind, say, leaves_say, leaves_set]
      exact ih
    · exact ih

/-- The order in which referrers are visited does not matter. -/
theorem refreshAll_perm (dependency path : Text) {order referrers : List Text}
    (h : order.Perm referrers) (s : Session) :
    s.refreshAll dependency path order = s.refreshAll dependency path referrers := by
  have : RightCommutative (refresh dependency path) :=
    ⟨fun s b c => refresh_right_comm dependency path b c s⟩
  exact h.foldl_eq s

/-- What is under an id after some referrers were visited. -/
theorem modules_refreshAll (dependency path : Text) (referrers : List Text) (k : Text) :
    (s.refreshAll dependency path referrers).modules.get? k =
      if k ∈ referrers then (s.modules.get? k).map (·.refresh dependency path)
      else s.modules.get? k := by
  induction referrers generalizing s with
  | nil => rfl
  | cons referrer rest ih =>
    rw [refreshAll_cons, ih, modules_refresh]
    by_cases hk : k = referrer
    · subst hk
      rcases s.modules.get? k with _ | r <;> simp
    · simp [hk]

/-- Visiting changes nothing but the records, and none comes or goes. -/
theorem refreshAll_frame (dependency path : Text) (referrers : List Text) (s : Session) :
    s.refreshAll dependency path referrers =
        { s with modules := (s.refreshAll dependency path referrers).modules } ∧
      (s.refreshAll dependency path referrers).modules.keys = s.modules.keys := by
  induction referrers generalizing s with
  | nil => exact ⟨rfl, rfl⟩
  | cons referrer rest ih =>
    rw [refreshAll_cons]
    rcases h : s.modules.get? referrer with _ | r
    · rw [refresh_of_none h]
      exact ih s
    · have hmem : referrer ∈ s.modules.keys := by
        rw [← Table.has_iff_mem_keys, Table.has, h, Option.isSome_some]
      rw [refresh_of_some h]
      obtain ⟨hframe, hkeys⟩ := ih { s with
        modules := s.modules.insert referrer (r.refresh dependency path) }
      exact ⟨hframe, hkeys.trans (Table.keys_insert_of_mem _ hmem)⟩

/-! ## Asking -/

/-- The path that is recorded for a dependency. -/
def finalPath (s : Session) (a : Ask) : Text :=
  match s.scores.get? a.dependency with
  | none => a.path
  | some best => extendPath a.path (max best a.score)

/-- The session after a module asked for a dependency.  If the path is better than all before it,
some earlier referrers get it, visited in the given order. -/
def ask (order : List Text) (id : Text) (s : Session) (a : Ask) : Session :=
  let scored := { s with scores := s.scores.insert a.dependency a.score }
  let settled :=
    match s.scores.get? a.dependency with
    | none => scored
    | some best =>
      if best < a.score then scored.refreshAll a.dependency (s.finalPath a) order else s
  { settled with
    referrers :=
      settled.referrers.insert a.dependency (addReferrer id (settled.referrersOf a.dependency)) }

theorem resolveDependency_leaves (id : Text) (Q : Except ε Text → Session → Prop) :
    (resolveDependency a.dependency (Path.normalRequire a.written) id).Leaves s Q ↔
      Q (.ok (s.finalPath a)) (s.ask (s.referrersOf a.dependency) id a) := by
  unfold resolveDependency ask finalPath
  rw [leaves_get_bind]
  rcases h : s.scores.get? a.dependency with _ | best
  · rfl
  · by_cases hlt : best < a.score
    · have hmax : max best a.score = a.score := Nat.max_eq_right (Nat.le_of_lt hlt)
      have hlt' : best < fileNameScore (completePath (Path.normalRequire a.written)) := hlt
      simp only [if_pos hlt, if_pos hlt', leaves_bind, leaves_modify, leaves_pure, backfill_leaves,
        hmax]
      rfl
    · have hmax : max best a.score = best := Nat.max_eq_left (Nat.le_of_not_lt hlt)
      have hlt' : ¬best < fileNameScore (completePath (Path.normalRequire a.written)) := hlt
      simp only [if_neg hlt, if_neg hlt', leaves_bind, leaves_modify, leaves_pure, hmax]
      rfl

/-- The order in which earlier referrers are visited does not matter. -/
theorem ask_perm {order order' : List Text} (h : order.Perm order') (id : Text) (s : Session)
    (a : Ask) : s.ask order id a = s.ask order' id a := by
  simp only [ask, refreshAll_perm a.dependency (s.finalPath a) h]

/-- Whether a path is better than all before it. -/
def Improves (s : Session) (a : Ask) : Prop :=
  ∃ best, s.scores.get? a.dependency = some best ∧ best < a.score

/-- What is there after asking: all but the records, the scores and the referrers is as it was, and
no record comes or goes. -/
structure Asked (order : List Text) (id : Text) (a : Ask) (s t : Session) : Prop where
  hashes : t.hashes = s.hashes
  aliases : t.aliases = s.aliases
  forest : t.forest = s.forest
  keys : t.modules.keys = s.modules.keys
  improved : s.Improves a → ∀ k, t.modules.get? k =
    if k ∈ order then (s.modules.get? k).map (·.refresh a.dependency (s.finalPath a))
    else s.modules.get? k
  kept : ¬s.Improves a → t.modules = s.modules
  scores : ∀ d, t.scores.get? d =
    if d = a.dependency then some (max ((s.scores.get? d).getD 0) a.score) else s.scores.get? d
  referrers : ∀ d, t.referrersOf d =
    if d = a.dependency then addReferrer id (s.referrersOf d) else s.referrersOf d

theorem ask_asked (order : List Text) (id : Text) (s : Session) (a : Ask) :
    Asked order id a s (s.ask order id a) := by
  have hreferrers : ∀ d, ((s.referrers.insert a.dependency
      (addReferrer id (s.referrersOf a.dependency))).get? d).getD [] =
        if d = a.dependency then addReferrer id (s.referrersOf d) else s.referrersOf d := by
    intro d
    rw [Table.get?_insert]
    split
    · rename_i hd
      rw [hd, Option.getD_some]
    · rfl
  rcases h : s.scores.get? a.dependency with _ | best
  · have hnot : ¬s.Improves a := by simp [Improves, h]
    have hask : s.ask order id a = { s with
        scores := s.scores.insert a.dependency a.score
        referrers := s.referrers.insert a.dependency
          (addReferrer id (s.referrersOf a.dependency)) } := by
      simp only [ask, h]
      rfl
    rw [hask]
    refine ⟨rfl, rfl, rfl, rfl, fun hi => absurd hi hnot, fun _ => rfl, fun d => ?_, hreferrers⟩
    rw [Table.get?_insert]
    split
    · rename_i hd
      rw [hd, h, Option.getD_none, Nat.max_eq_right (Nat.zero_le _)]
    · rfl
  · by_cases hlt : best < a.score
    · have hi : s.Improves a := ⟨best, h, hlt⟩
      obtain ⟨hframe, hkeys⟩ := refreshAll_frame a.dependency (s.finalPath a) order
        { s with scores := s.scores.insert a.dependency a.score }
      have hmodules := modules_refreshAll (s := { s with
        scores := s.scores.insert a.dependency a.score }) a.dependency (s.finalPath a) order
      simp only [ask, h, if_pos hlt]
      rw [hframe]
      refine ⟨rfl, rfl, rfl, hkeys, fun _ => hmodules, fun hnot => absurd hi hnot, fun d => ?_,
        hreferrers⟩
      rw [Table.get?_insert]
      split
      · rename_i hd
        rw [hd, h, Option.getD_some, Nat.max_eq_right (Nat.le_of_lt hlt)]
      · rfl
    · have hnot : ¬s.Improves a := by
        rintro ⟨b, hb, hlt'⟩
        rw [h, Option.some_inj] at hb
        exact hlt (hb ▸ hlt')
      simp only [ask, h, if_neg hlt]
      refine ⟨rfl, rfl, rfl, rfl, fun hi => absurd hi hnot, fun _ => rfl, fun d => ?_, hreferrers⟩
      split
      · rename_i hd
        rw [hd, h, Option.getD_some, Nat.max_eq_left (Nat.le_of_not_lt hlt)]
      · rfl

/-- What no visit changes is the same of every record after asking. -/
theorem Asked.map_modules {order : List Text} {id : Text} {t : Session} {β : Type}
    {g : ModuleRecord → β} (hst : Asked order id a s t) (hg : ∀ d p r, g (r.refresh d p) = g r)
    (k : Text) : (t.modules.get? k).map g = (s.modules.get? k).map g := by
  by_cases himproves : s.Improves a
  · rw [hst.improved himproves]
    split
    · rcases s.modules.get? k with _ | r <;> simp [hg]
    · rfl
  · rw [hst.kept himproves]

/-! ## Taking in a record -/

/-- The session with a record in it. -/
def withRecord (s : Session) (r : ModuleRecord) : Session :=
  { s with modules := s.modules.insert r.canonicalId (s.registered r) }

theorem register_leaves (r : ModuleRecord) (Q : Except ε ModuleRecord → Session → Prop) :
    (register r).Leaves s Q ↔ Q (.ok (s.registered r)) (s.withRecord r) := by
  unfold register
  rw [leaves_get_bind]
  rfl

end Session
end Debundle
