import Debundle.Journal.Entry

/-!
# Actions

An action works on a state, may fail, and makes journal entries.  A failing action keeps the
changes it made before it failed: callers go on with the state as they find it.

* `Outcome`: the result, the state and the entries that an action leaves.
* `Action`: a function from a state to an outcome; a monad.
* `Action.attempt`: the failure of an action as a value.
* `Action.within`: an action on a part of the state.
* `Action.mapError`: an action with its failures described differently.
-/

namespace Debundle

/-- What an action leaves behind. -/
structure Outcome (σ ε α : Type) where
  /-- The result, or why there is none. -/
  result : Except ε α
  /-- The state afterwards. -/
  state : σ
  /-- What was noted on the way, the earliest first. -/
  entries : List Entry

/-- An action on a state. -/
def Action (σ ε α : Type) : Type := σ → Outcome σ ε α

namespace Action

variable {σ τ ε δ α β : Type}

/-- What an action does to a state. -/
def run (a : Action σ ε α) (s : σ) : Outcome σ ε α := a s

/-- Gives a value and does nothing. -/
protected def pure (x : α) : Action σ ε α := fun s => ⟨.ok x, s, []⟩

/-- Goes on with the result of an action, unless it failed. -/
protected def bind (a : Action σ ε α) (f : α → Action σ ε β) : Action σ ε β := fun s =>
  match a s with
  | ⟨.error e, s, entries⟩ => ⟨.error e, s, entries⟩
  | ⟨.ok x, s, entries⟩ =>
    match f x s with
    | ⟨result, s, more⟩ => ⟨result, s, entries ++ more⟩

instance : Monad (Action σ ε) where
  pure := Action.pure
  bind := Action.bind

instance : LawfulMonad (Action σ ε) := LawfulMonad.mk' (Action σ ε)
  (by
    intro α a
    funext s
    simp only [Functor.map, Action.bind, Function.comp, Action.pure]
    rcases h : a s with ⟨result, s, entries⟩
    cases result <;> simp)
  (by
    intro α β x f
    funext s
    simp [bind, pure, Action.bind, Action.pure])
  (by
    intro α β γ a f g
    funext s
    simp only [bind, Action.bind]
    rcases a s with ⟨result, s, entries⟩
    cases result with
    | error e => rfl
    | ok x =>
      simp only
      rcases f x s with ⟨result, s, more⟩
      cases result <;> simp [List.append_assoc])

@[simp] theorem run_pure (x : α) (s : σ) :
    (pure x : Action σ ε α).run s = ⟨.ok x, s, []⟩ := rfl

theorem run_bind_ok {a : Action σ ε α} {f : α → Action σ ε β} {s s' : σ} {x : α}
    {entries : List Entry} (h : a.run s = ⟨.ok x, s', entries⟩) :
    (a >>= f).run s =
      ⟨((f x).run s').result, ((f x).run s').state, entries ++ ((f x).run s').entries⟩ := by
  simp only [run, bind, Action.bind] at h ⊢
  rw [h]

theorem run_bind_error {a : Action σ ε α} {f : α → Action σ ε β} {s s' : σ} {e : ε}
    {entries : List Entry} (h : a.run s = ⟨.error e, s', entries⟩) :
    (a >>= f).run s = ⟨.error e, s', entries⟩ := by
  simp only [run, bind, Action.bind] at h ⊢
  rw [h]

/-- The state. -/
def get : Action σ ε σ := fun s => ⟨.ok s, s, []⟩

/-- Replaces the state. -/
def set (s : σ) : Action σ ε Unit := fun _ => ⟨.ok (), s, []⟩

/-- Changes the state. -/
def modify (f : σ → σ) : Action σ ε Unit := fun s => ⟨.ok (), f s, []⟩

/-- Changes the state and gives a value. -/
def update (f : σ → α × σ) : Action σ ε α := fun s =>
  let (x, s) := f s
  ⟨.ok x, s, []⟩

/-- Fails. -/
def fail (e : ε) : Action σ ε α := fun s => ⟨.error e, s, []⟩

/-- The value of a computation that may fail. -/
def ofExcept (x : Except ε α) : Action σ ε α := fun s => ⟨x, s, []⟩

/-- Adds entries that were made elsewhere. -/
def sayAll (entries : List Entry) : Action σ ε Unit := fun s => ⟨.ok (), s, entries⟩

/-- Makes an entry. -/
def say (level : Level) (channel message : Text) : Action σ ε Unit := sayAll [⟨level, channel, message⟩]

/-- The outcome of an action as a value; nothing is undone if it fails. -/
def attempt (a : Action σ ε α) : Action σ δ (Except ε α) := fun s =>
  match a s with
  | ⟨result, s, entries⟩ => ⟨.ok result, s, entries⟩

/-- An action with its failures described differently. -/
def mapError (f : ε → δ) (a : Action σ ε α) : Action σ δ α := fun s =>
  match a s with
  | ⟨result, s, entries⟩ => ⟨result.mapError f, s, entries⟩

/-- An action on a part of a larger state. -/
def within (part : τ → σ) (put : σ → τ → τ) (a : Action σ ε α) : Action τ ε α := fun t =>
  match a (part t) with
  | ⟨result, s, entries⟩ => ⟨result, put s t, entries⟩

/-- Does something for every item of a list, in order. -/
def each {γ : Type} (f : γ → Action σ ε Unit) : List γ → Action σ ε Unit
  | [] => pure ()
  | x :: xs => do
    f x
    each f xs

end Action

end Debundle
