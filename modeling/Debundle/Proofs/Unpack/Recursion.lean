import Debundle.Proofs.Journal.Postcondition
import Debundle.Unpack.Work
import Mathlib.Data.Nat.Init

/-!
# The stack and the recursion

What is in a module is said most simply by recursion: a module whose path was looked at gives
nothing; any other one is given out if nothing is found in it, and otherwise gives what the modules
in it give, one after the other.  The stack works off the same modules in the same order, so it does
the same to the session at every step, and not only gives the same leaves in the end.

Neither of the two need come to an end.  Both therefore carry a bound, the stack on the number of
steps and the recursion on its depth, and what is compared is how they end if the bound suffices.

* `collect`: what an action gives for each of some modules, one after the other.
* `flatten`: the leaves of a module by recursion.
* `lookAt`: what both do first with a module.
* `Ends`, `EndsWith`: an action ends before its bound is reached.
* `run_collect_of_workOff`: what the stack does, the recursion does.
* `follows_collect`: what the recursion does, the stack does.
* `workOff_endsWith_iff`: the two together.
-/

namespace Debundle

open Debundle.Action

/-! ## The recursion -/

/-- What an action gives for each of some modules, one after the other. -/
def collect (f : SourceModule → UnpackStep (List SourceModule)) :
    List SourceModule → UnpackStep (List SourceModule)
  | [] => return []
  | m :: ms => do return (← f m) ++ (← collect f ms)

/-- The leaves of a module, found by recursion down to a depth. -/
def flatten : Nat → SourceModule → UnpackStep (List SourceModule)
  | 0, _ => Action.fail .exhausted
  | depth + 1, m => do
    if (← Action.get).hasSeen m.path then return []
    else
      Action.modify (·.mark m.path)
      match ← expand m with
      | [] => return [m]
      | first :: rest => collect (flatten depth) (first :: rest)

theorem collect_append (f : SourceModule → UnpackStep (List SourceModule))
    (ms ns : List SourceModule) :
    collect f (ms ++ ns) = do return (← collect f ms) ++ (← collect f ns) := by
  induction ms with
  | nil => simp [collect]
  | cons m ms ih =>
    simp only [List.cons_append, collect, ih, bind_assoc, pure_bind, List.append_assoc]

/-! ## One module -/

/-- What is found in a module, unless its path was looked at before. -/
def lookAt (m : SourceModule) : UnpackStep (Option (List SourceModule)) := do
  if (← Action.get).hasSeen m.path then return none
  else
    Action.modify (·.mark m.path)
    return some (← expand m)

/-- How the recursion goes on with what is found in a module. -/
def flattenFound (depth : Nat) (m : SourceModule) :
    Option (List SourceModule) → UnpackStep (List SourceModule)
  | none => return []
  | some [] => return [m]
  | some (first :: rest) => collect (flatten depth) (first :: rest)

/-- How the stack goes on with what is found in a module on top of it. -/
def workOffFound (fuel : Nat) (m : SourceModule) (stack : List SourceModule) :
    Option (List SourceModule) → UnpackStep (List SourceModule)
  | none => workOff fuel stack
  | some [] => do return m :: (← workOff fuel stack)
  | some (first :: rest) => workOff fuel (first :: rest ++ stack)

theorem flatten_succ (depth : Nat) (m : SourceModule) :
    flatten (depth + 1) m = lookAt m >>= flattenFound depth m := by
  simp only [flatten, lookAt, bind_assoc]
  refine bind_congr fun p => ?_
  split
  · rw [pure_bind]
    rfl
  · simp only [bind_assoc, pure_bind]
    refine bind_congr fun _ => bind_congr fun found => ?_
    cases found <;> rfl

theorem workOff_succ (fuel : Nat) (m : SourceModule) (stack : List SourceModule) :
    workOff (fuel + 1) (m :: stack) = lookAt m >>= workOffFound fuel m stack := by
  simp only [workOff, lookAt, bind_assoc]
  refine bind_congr fun p => ?_
  split
  · rw [pure_bind]
    rfl
  · simp only [bind_assoc, pure_bind]
    refine bind_congr fun _ => bind_congr fun found => ?_
    cases found <;> rfl

/-! ## How actions end -/

section Ends

variable {α β : Type} {a b : UnpackStep α} {f g : α → UnpackStep β} {p : Progress}

/-- An action does not end because its bound is reached. -/
def Ends (a : UnpackStep α) (p : Progress) : Prop := (a.run p).result ≠ .error .exhausted

/-- An action ends with an outcome, and not because its bound is reached. -/
def EndsWith (a : UnpackStep α) (p : Progress) (o : Outcome Progress Fault α) : Prop :=
  a.run p = o ∧ Ends a p

theorem run_bind_congr (hab : a.run p = b.run p)
    (hfg : ∀ x q entries, a.run p = ⟨.ok x, q, entries⟩ → (f x).run q = (g x).run q) :
    (a >>= f).run p = (b >>= g).run p := by
  rcases ha : a.run p with ⟨r, q, entries⟩
  have hb : b.run p = ⟨r, q, entries⟩ := by rw [← hab, ha]
  cases r with
  | error e => rw [run_bind_error ha, run_bind_error hb]
  | ok x => rw [run_bind_ok ha, run_bind_ok hb, hfg x q entries ha]

/-- Two actions in a row end if the first one does, and the second one does behind it. -/
theorem ends_bind :
    Ends (a >>= f) p ↔ Ends a p ∧ ∀ x q entries, a.run p = ⟨.ok x, q, entries⟩ → Ends (f x) q := by
  unfold Ends
  rcases ha : a.run p with ⟨r, q, entries⟩
  cases r with
  | error e => simp [run_bind_error ha]
  | ok x => simp [run_bind_ok ha]

end Ends

/-! ## From the stack to the recursion -/

section Stack

variable {m : SourceModule} {ms stack : List SourceModule} {p : Progress} {depth : Nat}

/-- Actions that do the same wherever the first one ends do the same for several modules. -/
theorem run_collect_congr {f g : SourceModule → UnpackStep (List SourceModule)}
    (hfg : ∀ m p, Ends (f m) p → (g m).run p = (f m).run p) (hends : Ends (collect f ms) p) :
    (collect g ms).run p = (collect f ms).run p := by
  induction ms generalizing p with
  | nil => rfl
  | cons m ms ih =>
    obtain ⟨hm, hms⟩ := ends_bind.mp hends
    refine run_bind_congr (hfg m p hm) fun x q entries hx => ?_
    rw [hfg m p hm] at hx
    exact run_bind_congr (ih (ends_bind.mp (hms x q entries hx)).1) fun _ _ _ _ => rfl

/-- A recursion that ends does the same one level deeper. -/
theorem run_flatten_succ (hends : Ends (flatten depth m) p) :
    (flatten (depth + 1) m).run p = (flatten depth m).run p := by
  induction depth generalizing m p with
  | zero => exact absurd rfl hends
  | succ depth ih =>
    rw [flatten_succ] at hends
    rw [flatten_succ, flatten_succ]
    refine run_bind_congr rfl fun found q entries hfound => ?_
    have hrest := (ends_bind.mp hends).2 found q entries hfound
    match found with
    | none => rfl
    | some [] => rfl
    | some (first :: rest) => exact run_collect_congr (fun _ _ h => ih h) hrest

theorem EndsWith.of_le {o : Outcome Progress Fault (List SourceModule)}
    (hends : EndsWith (flatten depth m) p o) {deeper : Nat} (hle : depth ≤ deeper) :
    EndsWith (flatten deeper m) p o := by
  induction deeper, hle using Nat.le_induction with
  | base => exact hends
  | succ deeper _ ih =>
    have hsame := run_flatten_succ ih.2
    refine ⟨hsame.trans ih.1, ?_⟩
    rw [Ends, hsame]
    exact ih.2

/-- If the stack is worked off, the recursion does the same, one module after the other. -/
theorem run_collect_of_workOff {fuel : Nat} (hends : Ends (workOff fuel stack) p) :
    (collect (flatten fuel) stack).run p = (workOff fuel stack).run p := by
  induction fuel generalizing stack p with
  | zero =>
    cases stack with
    | nil => rfl
    | cons m stack => exact absurd rfl hends
  | succ fuel ih =>
    cases stack with
    | nil => rfl
    | cons m stack =>
      -- what is below in the stack has fewer steps left than the recursion has levels
      have hdeeper : ∀ ms q, Ends (collect (flatten fuel) ms) q →
          (collect (flatten (fuel + 1)) ms).run q = (collect (flatten fuel) ms).run q :=
        fun ms q h => run_collect_congr (fun _ _ h => run_flatten_succ h) h
      have hends' : ∀ ms q, Ends (workOff fuel ms) q → Ends (collect (flatten fuel) ms) q := by
        intro ms q h
        rw [Ends, ih h]
        exact h
      rw [workOff_succ] at hends
      rw [workOff_succ, collect, flatten_succ, bind_assoc]
      refine run_bind_congr rfl fun found q entries hfound => ?_
      have hrest := (ends_bind.mp hends).2 found q entries hfound
      match found with
      | none =>
        simp only [flattenFound, pure_bind, List.nil_append, bind_pure]
        rw [hdeeper stack q (hends' stack q hrest)]
        exact ih hrest
      | some [] =>
        simp only [flattenFound, pure_bind, List.singleton_append]
        have hbelow := (ends_bind.mp hrest).1
        refine run_bind_congr ?_ fun _ _ _ _ => rfl
        rw [hdeeper stack q (hends' stack q hbelow)]
        exact ih hbelow
      | some (first :: rest) =>
        simp only [flattenFound, workOffFound] at hrest ⊢
        have hall := hends' _ q hrest
        rw [collect_append] at hall
        rw [← ih hrest, collect_append]
        refine run_bind_congr rfl fun x t entries hx => ?_
        have hbelow := (ends_bind.mp ((ends_bind.mp hall).2 x t entries hx)).1
        exact run_bind_congr (hdeeper stack t hbelow) fun _ _ _ _ => rfl

/-! ## From the recursion to the stack -/

/-- The stack does for the modules on top of it what an action does, in some number of steps, and
then goes on with what is below them. -/
def Follows (a : UnpackStep (List SourceModule)) (ms : List SourceModule) (p : Progress) : Prop :=
  ∃ n, ∀ fuel stack, (workOff (fuel + n) (ms ++ stack)).run p =
    (do return (← a) ++ (← workOff fuel stack) : UnpackStep (List SourceModule)).run p

/-- The stack follows the recursion into a module if it does so for the modules that are in it. -/
theorem follows_flatten
    (hinside : ∀ ms q, Ends (collect (flatten depth) ms) q →
      Follows (collect (flatten depth) ms) ms q)
    (hends : Ends (flatten (depth + 1) m) p) : Follows (flatten (depth + 1) m) [m] p := by
  rw [flatten_succ] at hends
  rw [flatten_succ]
  rcases hlook : (lookAt m).run p with ⟨r, q, entries⟩
  suffices hsteps : ∃ n, ∀ fuel stack found, r = .ok found →
      (workOffFound (fuel + n) m stack found).run q =
        (do return (← flattenFound depth m found) ++ (← workOff fuel stack) :
          UnpackStep (List SourceModule)).run q by
    obtain ⟨n, hn⟩ := hsteps
    refine ⟨n + 1, fun fuel stack => ?_⟩
    rw [← Nat.add_assoc, List.singleton_append, workOff_succ, bind_assoc]
    refine run_bind_congr rfl fun found t _ hfound => ?_
    obtain ⟨hr, rfl, -⟩ := Outcome.mk.inj (hlook.symm.trans hfound)
    exact hn fuel stack found hr
  match r with
  | .error e => exact ⟨0, fun _ _ _ heq => by cases heq⟩
  | .ok none =>
    refine ⟨0, fun fuel stack found heq => ?_⟩
    cases heq
    simp [workOffFound, flattenFound]
  | .ok (some []) =>
    refine ⟨0, fun fuel stack found heq => ?_⟩
    cases heq
    simp [workOffFound, flattenFound]
  | .ok (some (first :: rest)) =>
    obtain ⟨n, hn⟩ := hinside (first :: rest) q ((ends_bind.mp hends).2 _ q entries hlook)
    refine ⟨n, fun fuel stack found heq => ?_⟩
    cases heq
    exact hn fuel stack

/-- If the recursion ends for some modules, the stack follows it. -/
theorem follows_collect (hends : Ends (collect (flatten depth) ms) p) :
    Follows (collect (flatten depth) ms) ms p := by
  induction depth generalizing ms p with
  | zero =>
    cases ms with
    | nil => exact ⟨0, fun fuel stack => by simp [collect]⟩
    | cons m ms => exact absurd rfl (ends_bind.mp hends).1
  | succ depth ih =>
    induction ms generalizing p with
    | nil => exact ⟨0, fun fuel stack => by simp [collect]⟩
    | cons m ms ihms =>
      obtain ⟨hm, hms⟩ := ends_bind.mp hends
      obtain ⟨n, hn⟩ := follows_flatten (fun _ _ h => ih h) hm
      have hrest : ∃ k, ∀ x q entries, (flatten (depth + 1) m).run p = ⟨.ok x, q, entries⟩ →
          ∀ fuel stack, (workOff (fuel + k) (ms ++ stack)).run q =
            (do return (← collect (flatten (depth + 1)) ms) ++ (← workOff fuel stack) :
              UnpackStep (List SourceModule)).run q := by
        rcases hrun : (flatten (depth + 1) m).run p with ⟨r, q, entries⟩
        cases r with
        | error e => exact ⟨0, fun _ _ _ heq => by cases (Outcome.mk.inj heq).1⟩
        | ok x =>
          obtain ⟨k, hk⟩ := ihms (ends_bind.mp (hms x q entries hrun)).1
          refine ⟨k, fun x' q' _ heq => ?_⟩
          obtain ⟨-, rfl, -⟩ := Outcome.mk.inj heq
          exact hk
      obtain ⟨k, hk⟩ := hrest
      refine ⟨k + n, fun fuel stack => ?_⟩
      refine (congrArg (fun n => (workOff n (m :: (ms ++ stack))).run p)
        (Nat.add_assoc fuel k n).symm).trans ((hn (fuel + k) (ms ++ stack)).trans ?_)
      rw [collect, bind_assoc]
      refine run_bind_congr rfl fun x q entries hx => ?_
      refine (run_bind_congr (hk x q entries hx fuel stack) fun _ _ _ _ => rfl).trans ?_
      simp only [bind_assoc, pure_bind, List.append_assoc]

/-- A module is worked off with some outcome if and only if the recursion, however deep it may go
beyond some depth, has that outcome: the same leaves in the same order or the same failure, the same
paths looked at, the same session, and the same entries in the journal. -/
theorem workOff_endsWith_iff (m : SourceModule) (p : Progress)
    (o : Outcome Progress Fault (List SourceModule)) :
    (∃ fuel, EndsWith (workOff fuel [m]) p o) ↔
      ∃ depth, ∀ deeper ≥ depth, EndsWith (flatten deeper m) p o := by
  have hone : ∀ depth, collect (flatten depth) [m] = flatten depth m := by
    intro depth
    simp [collect]
  constructor
  · rintro ⟨fuel, hrun, hends⟩
    have hsame := run_collect_of_workOff hends
    rw [hone] at hsame
    refine ⟨fuel, fun deeper hdeeper => .of_le ⟨hsame.trans hrun, ?_⟩ hdeeper⟩
    rw [Ends, hsame]
    exact hends
  · rintro ⟨depth, hdepth⟩
    obtain ⟨hrun, hends⟩ := hdepth depth (Nat.le_refl depth)
    rw [← hone] at hrun hends
    obtain ⟨n, hn⟩ := follows_collect hends
    have hsame : (workOff (0 + n) [m]).run p = (collect (flatten depth) [m]).run p := by
      simpa [workOff] using hn 0 []
    refine ⟨0 + n, hsame.trans hrun, ?_⟩
    rw [Ends, hsame]
    exact hends

end Stack

end Debundle
