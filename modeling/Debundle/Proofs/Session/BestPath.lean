import Debundle.Proofs.Bundle.Sighting
import Debundle.Proofs.Path.Components

/-!
# The best path decides

For every dependency the session keeps the score of the best path by which it was ever asked for,
and all paths that are recorded for it have that score: a weaker path is extended when it comes, and
a better one is written into the records of all earlier referrers.  This holds after any bundles,
also if some of their modules were malformed, or the reading of a bundle was given up halfway, and
in whatever order the earlier referrers are visited.

* `fileNameScore_extendPath`: extending a path gives it the score.
* `Session.Current`: the paths in a table have the best scores.
* `Session.BestPaths`: the scores are the best ones, and all records are current.
* `Session.BestPaths.ask`, `Session.BestPaths.withRecord`: what one step preserves.
* `Session.Reaches`: bundles that are unpacked with any order of visits.
* `Session.after_bestPaths`: the best path decides after any bundles.
-/

namespace Debundle

open Script

/-! ## Scores -/

theorem fileNameScore_pos (path : Text) : 1 ≤ fileNameScore path := by
  unfold fileNameScore
  split
  · decide
  · split <;> decide

theorem fileNameScore_le (path : Text) : fileNameScore path ≤ 3 := by
  unfold fileNameScore
  split
  · decide
  · split <;> decide

theorem endsWith_append (path ending : Text) : Text.endsWith (path ++ ending) ending = true := by
  rw [Text.endsWith, List.isSuffixOf_iff_suffix]
  exact List.suffix_append path ending

/-- A path that ends with `.js` says which file it is. -/
theorem fileNameScore_js (path : Text) : fileNameScore (path ++ ".js") = 3 := by
  rw [fileNameScore, if_pos (endsWith_append path ".js")]

/-- A path that ends with `/index` says which file it is, but not its ending. -/
theorem fileNameScore_index (path : Text) : fileNameScore (path ++ "/index") = 2 := by
  have hindex : Text.endsWith (path ++ "/index") "index" = true := by
    have hsplit : path ++ Text.ofString "/index" = (path ++ "/") ++ Text.ofString "index" := by
      rw [List.append_assoc]
      rfl
    rw [hsplit]
    exact endsWith_append _ _
  have hjs : ¬Text.endsWith (path ++ "/index") ".js" = true := by
    rw [Text.endsWith, List.isSuffixOf_iff_suffix]
    rintro ⟨rest, hrest⟩
    have hlast := congrArg List.getLast? hrest
    rw [List.getLast?_append_of_ne_nil _ (by decide),
      List.getLast?_append_of_ne_nil _ (by decide)] at hlast
    exact absurd hlast (by decide)
  rw [fileNameScore, if_neg hjs, if_pos hindex]

/-- A path that is extended to a score has it. -/
theorem fileNameScore_extendPath {path : Text} {score : Nat} (hpath : fileNameScore path ≤ score)
    (hscore : score ≤ 3) : fileNameScore (extendPath path score) = score := by
  have hpos := fileNameScore_pos path
  unfold extendPath
  simp only [Bool.and_eq_true, decide_eq_true_iff]
  rcases Nat.lt_or_ge score 3 with hlt | hge
  · rw [if_neg (show ¬(3 ≤ score ∧ fileNameScore path < 3) by omega)]
    split
    · rw [fileNameScore_index]
      omega
    · omega
  · by_cases hjs : fileNameScore path < 3
    · rw [if_pos (show 3 ≤ score ∧ fileNameScore path < 3 by omega), fileNameScore_js]
      omega
    · rw [if_neg (show ¬(3 ≤ score ∧ fileNameScore path < 3) by omega),
        if_neg (show ¬(2 ≤ score ∧ fileNameScore path < 2) by omega)]
      omega

/-! ## Paths are not empty -/

theorem Ask.path_ne_nil (a : Ask) : a.path ≠ [] := by
  have hrequire : Path.normalRequire a.written ≠ [] := by
    unfold Path.normalRequire
    simp only
    split
    · simp [Path.normalKeepingSlash_ne_nil]
    · exact Path.normalKeepingSlash_ne_nil _
  unfold Ask.path completePath
  split
  · simp [hrequire]
  · exact hrequire

theorem extendPath_ne_nil {path : Text} (h : path ≠ []) (score : Nat) :
    extendPath path score ≠ [] := by
  unfold extendPath
  simp only
  split <;> split <;> simp [h]

/-! ## Best paths -/

namespace Session

variable {s : Session} {asked : List Ask} {a : Ask} {id : Text} {found : Table Text}

/-- The paths in the table of a referrer are known to the session, and have the best scores. -/
structure Current (s : Session) (referrer : Text) (paths : Table Text) : Prop where
  nodup : paths.keys.Nodup
  path : ∀ d p, paths.get? d = some p →
    p ≠ [] ∧ referrer ∈ s.referrersOf d ∧ s.scores.get? d = some (fileNameScore p)

/-- The best score of the paths by which a dependency was asked for. -/
def bestScore (asked : List Ask) (d : Text) : Option Nat :=
  ((asked.filter fun a => a.dependency = d).map Ask.score).max?

/-- The scores are those of the best paths, and all records are current. -/
structure BestPaths (asked : List Ask) (s : Session) : Prop where
  nodup : s.modules.keys.Nodup
  score : ∀ d, s.scores.get? d = bestScore asked d
  record : ∀ k r, s.modules.get? k = some r → r.canonicalId = k ∧ s.Current k r.dependencies

theorem BestPaths.empty : BestPaths [] Session.empty where
  nodup := List.nodup_nil
  score _ := rfl
  record k r h := absurd h (by simp [Session.empty, Table.get?])

theorem bestScore_append (asked : List Ask) (a : Ask) (d : Text) :
    bestScore (asked ++ [a]) d =
      if d = a.dependency then some (max ((bestScore asked d).getD 0) a.score)
      else bestScore asked d := by
  have hconcat : ∀ (l : List Nat) (n : Nat), (l ++ [n]).max? = some (max (l.max?.getD 0) n) := by
    intro l n
    cases l with
    | nil => simp
    | cons m l => rw [List.cons_append, List.max?_cons', List.foldl_append, List.max?_cons']; rfl
  unfold bestScore
  rw [List.filter_append, List.map_append]
  split
  · rename_i h
    rw [h]
    simp only [List.filter_cons, decide_true, if_true, List.filter_nil, List.map_cons, List.map_nil,
      hconcat]
  · rename_i h
    simp [Ne.symm h]

theorem bestScore_le {d : Text} {best : Nat} (h : bestScore asked d = some best) : best ≤ 3 := by
  obtain ⟨b, -, rfl⟩ := List.mem_map.mp (List.max?_mem h)
  exact fileNameScore_le b.path

theorem finalPath_ne_nil (s : Session) (a : Ask) : s.finalPath a ≠ [] := by
  unfold finalPath
  split
  · exact a.path_ne_nil
  · exact extendPath_ne_nil a.path_ne_nil _

/-- The path that is recorded has the best score. -/
theorem BestPaths.fileNameScore_finalPath (hs : BestPaths asked s) (a : Ask) :
    fileNameScore (s.finalPath a) = max ((s.scores.get? a.dependency).getD 0) a.score := by
  unfold finalPath
  rcases h : s.scores.get? a.dependency with _ | best
  · rw [Option.getD_none, Nat.max_eq_right (Nat.zero_le _)]
    rfl
  · have hbest : best ≤ 3 := bestScore_le ((hs.score a.dependency).symm.trans h)
    have hscore : a.score ≤ 3 := fileNameScore_le a.path
    exact fileNameScore_extendPath (Nat.le_max_right best a.score) (Nat.max_le.mpr ⟨hbest, hscore⟩)

theorem mem_addReferrer {k id : Text} {ids : List Text} :
    k ∈ addReferrer id ids ↔ k = id ∨ k ∈ ids := by
  unfold addReferrer
  split
  · rename_i h
    exact ⟨Or.inr, fun hk => hk.elim (fun heq => heq ▸ List.contains_iff_mem.mp h) fun hk => hk⟩
  · rw [List.mem_append, List.mem_singleton, or_comm]

theorem Asked.mem_referrersOf {order : List Text} {t : Session} (hst : Asked order id a s t)
    {k d : Text} (hk : k ∈ s.referrersOf d) : k ∈ t.referrersOf d := by
  rw [hst.referrers]
  split
  · exact mem_addReferrer.mpr (Or.inr hk)
  · exact hk

/-- Paths that are not worse than the one that came are still current. -/
theorem Asked.current {order : List Text} {t : Session} (hst : Asked order id a s t) {k : Text}
    {paths : Table Text} (hpaths : s.Current k paths)
    (hscore : ∀ p, paths.get? a.dependency = some p → a.score ≤ fileNameScore p) :
    t.Current k paths where
  nodup := hpaths.nodup
  path d p hp := by
    obtain ⟨hne, hk, hbest⟩ := hpaths.path d p hp
    refine ⟨hne, hst.mem_referrersOf hk, ?_⟩
    rw [hst.scores]
    split
    · rename_i hd
      rw [hbest, Option.getD_some, Nat.max_eq_left (hscore p (hd ▸ hp))]
    · exact hbest

/-- Paths are current with the one that is recorded. -/
theorem Asked.current_insert {order : List Text} {t : Session} (hst : Asked order id a s t)
    (hs : BestPaths asked s) {k : Text} {paths : Table Text} (hpaths : s.Current k paths)
    (hk : k ∈ t.referrersOf a.dependency) :
    t.Current k (paths.insert a.dependency (s.finalPath a)) where
  nodup := Table.nodup_keys_insert hpaths.nodup _ _
  path d p hp := by
    rw [Table.get?_insert] at hp
    split at hp
    · rename_i hd
      rw [← Option.some_inj.mp hp, hd]
      refine ⟨finalPath_ne_nil s a, hk, ?_⟩
      rw [hst.scores, if_pos rfl, hs.fileNameScore_finalPath]
    · rename_i hd
      obtain ⟨hne, hmem, hbest⟩ := hpaths.path d p hp
      exact ⟨hne, hst.mem_referrersOf hmem, by rw [hst.scores, if_neg hd, hbest]⟩

/-- A module that asks for a dependency, whatever the order in which earlier referrers are visited:
records that have another path get the better one, and all others are current as they are. -/
theorem BestPaths.ask (hs : BestPaths asked s) {order : List Text}
    (horder : order.Perm (s.referrersOf a.dependency)) (id : Text) :
    BestPaths (asked ++ [a]) (s.ask order id a) := by
  have hst := ask_asked order id s a
  refine ⟨hst.keys ▸ hs.nodup, fun d => ?_, fun k r hr => ?_⟩
  · rw [hst.scores, bestScore_append, hs.score]
  · by_cases himproves : s.Improves a
    · rw [hst.improved himproves] at hr
      split at hr
      · rename_i hk
        obtain ⟨old, hold, rfl⟩ := Option.map_eq_some_iff.mp hr
        obtain ⟨hid, hcurrent⟩ := hs.record k old hold
        refine ⟨(ModuleRecord.canonicalId_refresh _ _ old).trans hid, ?_⟩
        unfold ModuleRecord.refresh
        rcases hdep : old.dependencies.get? a.dependency with _ | p
        · rw [Option.getD_none, if_pos rfl]
          exact hst.current hcurrent fun p hp => absurd hp (by simp [hdep])
        · have hne := (hcurrent.path _ p hdep).1
          rw [Option.getD_some, if_neg hne]
          exact hst.current_insert hs hcurrent (hst.mem_referrersOf (horder.mem_iff.mp hk))
      · rename_i hk
        obtain ⟨hid, hcurrent⟩ := hs.record k r hr
        refine ⟨hid, hst.current hcurrent fun p hp => ?_⟩
        exact absurd (horder.mem_iff.mpr (hcurrent.path _ p hp).2.1) hk
    · rw [hst.kept himproves] at hr
      obtain ⟨hid, hcurrent⟩ := hs.record k r hr
      refine ⟨hid, hst.current hcurrent fun p hp => ?_⟩
      by_contra hlt
      exact himproves ⟨fileNameScore p, (hcurrent.path _ p hp).2.2, Nat.lt_of_not_le hlt⟩

/-- A record with current paths is taken in. -/
theorem BestPaths.withRecord (hs : BestPaths asked s) {r : ModuleRecord}
    (hr : s.Current r.canonicalId r.dependencies) : BestPaths asked (s.withRecord r) := by
  refine ⟨Table.nodup_keys_insert hs.nodup _ _, hs.score, fun k kept hkept => ?_⟩
  rw [Session.withRecord, Table.get?_insert] at hkept
  split at hkept
  · rename_i hk
    rw [← Option.some_inj.mp hkept, hk]
    unfold registered
    rcases hknown : s.modules.get? r.canonicalId with _ | known
    · exact ⟨rfl, hr.nodup, hr.path⟩
    · obtain ⟨hid, hcurrent⟩ := hs.record _ known hknown
      refine ⟨hid, Table.nodup_keys_insertAll hcurrent.nodup _, fun d p hp => ?_⟩
      have hp : (known.dependencies.insertAll r.dependencies).get? d = some p := hp
      rw [Table.get?_insertAll hr.nodup] at hp
      rcases Option.or_eq_some_iff.mp hp with hp | ⟨-, hp⟩
      · exact hr.path d p hp
      · exact hcurrent.path d p hp
  · obtain ⟨hid, hcurrent⟩ := hs.record k kept hkept
    exact ⟨hid, hcurrent.nodup, hcurrent.path⟩

/-- A module that asks for all its dependencies: the paths that it gets are current in the end,
also those for which it asks more than once. -/
theorem BestPaths.askAll (hs : BestPaths asked s) (hfound : s.Current id found) (asks : List Ask) :
    BestPaths (asked ++ asks) (askAll id asks s found).1 ∧
      (askAll id asks s found).1.Current id (askAll id asks s found).2 := by
  induction asks generalizing asked s found with
  | nil =>
    rw [List.append_nil]
    exact ⟨hs, hfound⟩
  | cons a rest ih =>
    have hst := ask_asked (s.referrersOf a.dependency) id s a
    have hmem : id ∈ (s.ask (s.referrersOf a.dependency) id a).referrersOf a.dependency := by
      rw [hst.referrers, if_pos rfl]
      exact mem_addReferrer.mpr (Or.inl rfl)
    rw [← List.singleton_append, ← List.append_assoc]
    exact ih (hs.ask (List.Perm.refl _) id) (hst.current_insert hs hfound hmem)

/-- A sighting is taken in, also one that could not be read completely. -/
theorem BestPaths.take (hs : BestPaths asked s) (v : Sighting) :
    BestPaths (asked ++ v.asks) (s.take v) := by
  have hclaim : BestPaths asked (s.claim v.digest v.rawId) :=
    ⟨hs.nodup, hs.score, fun k r hr =>
      ⟨(hs.record k r hr).1, (hs.record k r hr).2.nodup, (hs.record k r hr).2.path⟩⟩
  have hnone : (s.claim v.digest v.rawId).Current (s.knownId v.digest v.rawId) [] :=
    ⟨List.nodup_nil, fun d p hp => absurd hp (by simp [Table.get?])⟩
  obtain ⟨hread, hfound⟩ := hclaim.askAll hnone v.asks
  unfold Session.take
  split
  · exact hread.withRecord hfound
  · exact hread

/-! ## Any order of visits -/

/-- A module asks for its dependencies one by one, and each time earlier referrers are visited in
any order. -/
inductive AsksAll (id : Text) : List Ask → Session → Table Text → Session → Table Text → Prop where
  | nil (s : Session) (found : Table Text) : AsksAll id [] s found s found
  | cons {a : Ask} {rest : List Ask} {s t : Session} {found paths : Table Text} (order : List Text)
      (horder : order.Perm (s.referrersOf a.dependency))
      (hrest : AsksAll id rest (s.ask order id a) (found.insert a.dependency (s.finalPath a))
        t paths) :
      AsksAll id (a :: rest) s found t paths

theorem asksAll_iff {asks : List Ask} {t : Session} {paths : Table Text} :
    AsksAll id asks s found t paths ↔ askAll id asks s found = (t, paths) := by
  constructor
  · intro h
    induction h with
    | nil => rfl
    | cons order horder _ ih =>
      rw [askAll, ← ask_perm horder]
      exact ih
  · intro h
    induction asks generalizing s found with
    | nil =>
      obtain ⟨rfl, rfl⟩ := Prod.mk.inj h
      exact .nil s found
    | cons a rest ih => exact .cons _ (List.Perm.refl _) (ih h)

/-- A sighting is taken in, with any order of visits. -/
def Takes (v : Sighting) (s t : Session) : Prop :=
  ∃ u found, AsksAll (s.knownId v.digest v.rawId) v.asks (s.claim v.digest v.rawId) [] u found ∧
    t = if v.ending = .complete then u.withRecord (s.recordOf v found) else u

theorem takes_iff {v : Sighting} {t : Session} : Takes v s t ↔ t = s.take v := by
  constructor
  · rintro ⟨u, found, hasks, rfl⟩
    rw [asksAll_iff] at hasks
    rw [Session.take, read, hasks]
  · rintro rfl
    exact ⟨_, _, asksAll_iff.mpr rfl, rfl⟩

/-- Sightings are taken in, with any order of visits. -/
inductive TakesAll : List Sighting → Session → Session → Prop where
  | nil (s : Session) : TakesAll [] s s
  | cons {v : Sighting} {rest : List Sighting} {s t u : Session} (hv : Takes v s t)
      (hrest : TakesAll rest t u) : TakesAll (v :: rest) s u

theorem takesAll_iff {vs : List Sighting} {t : Session} : TakesAll vs s t ↔ t = s.takeAll vs := by
  constructor
  · intro h
    induction h with
    | nil => rfl
    | cons hv _ ih => rw [ih, takes_iff.mp hv, takeAll, takeAll, List.foldl_cons]
  · rintro rfl
    induction vs generalizing s with
    | nil => exact .nil s
    | cons v rest ih => exact .cons (takes_iff.mpr rfl) ih

/-- Bundles are unpacked one after the other, with any order of visits: what they show is taken in,
and then the forest grows, unless the reading was given up. -/
inductive Reaches : List Source → Session → Session → Prop where
  | nil (s : Session) : Reaches [] s s
  | cons {source : Source} {rest : List Source} {s t u : Session}
      (hsource : TakesAll (reading source).1 s t)
      (hrest : Reaches rest (if (reading source).2 then t.grown else t) u) :
      Reaches (source :: rest) s u

theorem reaches_iff {sources : List Source} {t : Session} :
    Reaches sources s t ↔ t = sources.foldl unpacked s := by
  constructor
  · intro h
    induction h with
    | nil => rfl
    | cons hsource _ ih =>
      rw [takesAll_iff] at hsource
      rw [ih, hsource, List.foldl_cons, unpacked_eq]
  · rintro rfl
    induction sources generalizing s with
    | nil => exact .nil s
    | cons source rest ih =>
      refine .cons (takesAll_iff.mpr rfl) ?_
      rw [List.foldl_cons, unpacked_eq]
      exact ih

/-! ## After any bundles -/

/-- What the modules in some bundles ask for, as far as they can be read. -/
def askedIn (sources : List Source) : List Ask := (history sources).flatMap Sighting.asks

/-- After any bundles the score of a dependency is that of the best path by which it was ever asked
for, and every path that is recorded for it has that score and a known referrer.  The session does
not depend on the order in which earlier referrers are visited. -/
theorem after_bestPaths (sources : List Source) :
    (∀ s, Reaches sources empty s ↔ s = after sources) ∧
      (∀ d, (after sources).scores.get? d = bestScore (askedIn sources) d) ∧
      ∀ k r, (k, r) ∈ (after sources).modules → ∀ d p, (d, p) ∈ r.dependencies →
        r.canonicalId ∈ (after sources).referrersOf d ∧
          (after sources).scores.get? d = some (fileNameScore p) := by
  have hbest : BestPaths (askedIn sources) (after sources) := by
    refine after_induction (P := fun vs s => BestPaths (vs.flatMap Sighting.asks) s)
      ?_ ?_ ?_ sources
    · exact .empty
    · intro vs s v hs
      rw [List.flatMap_append, List.flatMap_singleton]
      exact hs.take v
    · intro vs s f hs
      exact ⟨hs.nodup, hs.score, fun k r hr =>
        ⟨(hs.record k r hr).1, (hs.record k r hr).2.nodup, (hs.record k r hr).2.path⟩⟩
  refine ⟨fun s => reaches_iff, hbest.score, fun k r hr d p hp => ?_⟩
  obtain ⟨hid, hcurrent⟩ := hbest.record k r ((Table.mem_iff_get? hbest.nodup).mp hr)
  rw [hid]
  exact (hcurrent.path d p ((Table.mem_iff_get? hcurrent.nodup).mp hp)).2

end Session
end Debundle
