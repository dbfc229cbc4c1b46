import Debundle.Proofs.Journal.Postcondition

/-!
# How an action may fail

For most actions the ways in which they may fail do not depend on the state.  What an action made of
others may fail with is then found from its parts, without following the state through them.

* `exists_of_bind_eq_ok`: what a computation that succeeds came through.
* `Action.FailsOnly`: whatever the state, an action fails only with failures of some class.
* `Action.FailsOnly.bind`: two actions in a row.
-/

namespace Debundle

/-- The first step of a computation that succeeds succeeds. -/
theorem exists_of_bind_eq_ok {α β ε : Type} {x : Except ε α} {f : α → Except ε β} {b : β}
    (h : (x >>= f) = .ok b) : ∃ a, x = .ok a ∧ f a = .ok b := by
  cases x with
  | error e => cases h
  | ok a => exact ⟨a, rfl, h⟩

namespace Action

variable {σ ε α β : Type} {P : ε → Prop}

/-- Whatever the state, an action fails only with failures of a class. -/
def FailsOnly (P : ε → Prop) (a : Action σ ε α) : Prop :=
  ∀ s, a.Leaves s fun r _ => ∀ e, r = .error e → P e

namespace FailsOnly

theorem pure (x : α) : FailsOnly P (Pure.pure x : Action σ ε α) := fun _ _ he => by cases he

theorem get : FailsOnly P (Action.get : Action σ ε σ) := fun _ _ he => by cases he

theorem set (t : σ) : FailsOnly P (Action.set t : Action σ ε Unit) := fun _ _ he => by cases he

theorem modify (f : σ → σ) : FailsOnly P (Action.modify f : Action σ ε Unit) :=
  fun _ _ he => by cases he

theorem say (level : Level) (channel message : Text) :
    FailsOnly P (Action.say level channel message : Action σ ε Unit) := fun _ _ he => by cases he

theorem sayAll (entries : List Entry) : FailsOnly P (Action.sayAll entries : Action σ ε Unit) :=
  fun _ _ he => by cases he

theorem fail {e : ε} (h : P e) : FailsOnly P (Action.fail e : Action σ ε α) :=
  fun _ _ he => Except.error.inj he ▸ h

theorem ofExcept {x : Except ε α} (h : ∀ e, x = .error e → P e) :
    FailsOnly P (Action.ofExcept x : Action σ ε α) := fun _ => h

/-- Two actions in a row; of the second one only what follows results of the first one counts. -/
theorem bind_of_ok {a : Action σ ε α} {f : α → Action σ ε β} (ha : FailsOnly P a)
    (hf : ∀ s x, (a.run s).result = .ok x → FailsOnly P (f x)) : FailsOnly P (a >>= f) := by
  intro s
  have hresult : a.Leaves s fun r _ => r = (a.run s).result := rfl
  refine ((ha s).and hresult).bind (fun e t he e' he' => ?_) fun x t hx => ?_
  · exact he.1 e' (by rw [Except.error.inj he'])
  · exact hf s x hx.2.symm t

/-- Two actions in a row. -/
theorem bind {a : Action σ ε α} {f : α → Action σ ε β} (ha : FailsOnly P a)
    (hf : ∀ x, FailsOnly P (f x)) : FailsOnly P (a >>= f) :=
  ha.bind_of_ok fun _ x _ => hf x

theorem ite {c : Prop} [Decidable c] {a b : Action σ ε α} (ha : FailsOnly P a)
    (hb : FailsOnly P b) : FailsOnly P (if c then a else b) := by
  split
  · exact ha
  · exact hb

end FailsOnly

end Action
end Debundle
