import Debundle.Journal.Action

/-!
# What an action leaves behind

An action is judged by its result and by the state that it leaves; the journal entries do not
matter for what follows.  A failing action leaves a state as well, so a condition speaks about
both ways in which an action can end.

* `Action.Leaves`: the result and the state that an action leaves meet a condition.
* `Action.leaves_bind`: two actions in a row.
* `Action.Leaves.bind`: the same, from a condition on the state between them.
* `Action.Leaves.bind_ok`, `Action.Leaves.bind_exists_ok`: the same, if the first one succeeds.
* `Action.Agrees`: two actions leave the same result and the same state.
* `Action.Agrees.bind`: actions that agree, one after the other.
-/

namespace Debundle
namespace Action

variable {σ τ ε δ α β : Type}

/-- The result and the state that an action leaves meet a condition. -/
def Leaves (a : Action σ ε α) (s : σ) (Q : Except ε α → σ → Prop) : Prop :=
  Q (a.run s).result (a.run s).state

theorem Leaves.mono {a : Action σ ε α} {s : σ} {P Q : Except ε α → σ → Prop}
    (h : a.Leaves s P) (hPQ : ∀ r t, P r t → Q r t) : a.Leaves s Q :=
  hPQ _ _ h

theorem Leaves.and {a : Action σ ε α} {s : σ} {P Q : Except ε α → σ → Prop} (hP : a.Leaves s P)
    (hQ : a.Leaves s Q) : a.Leaves s fun r t => P r t ∧ Q r t :=
  ⟨hP, hQ⟩

/-- What an action leaves is all that there is to know about it. -/
theorem Leaves.iff {a : Action σ ε α} {s t : σ} {r : Except ε α}
    (h : a.Leaves s fun r' t' => r' = r ∧ t' = t) (Q : Except ε α → σ → Prop) :
    a.Leaves s Q ↔ Q r t := by
  obtain ⟨hr, ht⟩ := h
  rw [Leaves, hr, ht]

/-! ## Single actions -/

@[simp] theorem leaves_pure (x : α) (s : σ) (Q : Except ε α → σ → Prop) :
    (pure x : Action σ ε α).Leaves s Q ↔ Q (.ok x) s := Iff.rfl

@[simp] theorem leaves_get (s : σ) (Q : Except ε σ → σ → Prop) :
    (get : Action σ ε σ).Leaves s Q ↔ Q (.ok s) s := Iff.rfl

@[simp] theorem leaves_set (t s : σ) (Q : Except ε Unit → σ → Prop) :
    (set t : Action σ ε Unit).Leaves s Q ↔ Q (.ok ()) t := Iff.rfl

@[simp] theorem leaves_modify (f : σ → σ) (s : σ) (Q : Except ε Unit → σ → Prop) :
    (modify f : Action σ ε Unit).Leaves s Q ↔ Q (.ok ()) (f s) := Iff.rfl

@[simp] theorem leaves_fail (e : ε) (s : σ) (Q : Except ε α → σ → Prop) :
    (fail e : Action σ ε α).Leaves s Q ↔ Q (.error e) s := Iff.rfl

@[simp] theorem leaves_ofExcept (x : Except ε α) (s : σ) (Q : Except ε α → σ → Prop) :
    (ofExcept x : Action σ ε α).Leaves s Q ↔ Q x s := Iff.rfl

@[simp] theorem leaves_sayAll (entries : List Entry) (s : σ) (Q : Except ε Unit → σ → Prop) :
    (sayAll entries : Action σ ε Unit).Leaves s Q ↔ Q (.ok ()) s := Iff.rfl

@[simp] theorem leaves_say (level : Level) (channel message : Text) (s : σ)
    (Q : Except ε Unit → σ → Prop) :
    (say level channel message : Action σ ε Unit).Leaves s Q ↔ Q (.ok ()) s := Iff.rfl

/-! ## Actions inside actions -/

/-- Two actions in a row: the second one goes on where the first one ended, unless that failed. -/
@[simp] theorem leaves_bind (a : Action σ ε α) (f : α → Action σ ε β) (s : σ)
    (Q : Except ε β → σ → Prop) :
    (a >>= f).Leaves s Q ↔ a.Leaves s fun r t =>
      match r with
      | .error e => Q (.error e) t
      | .ok x => (f x).Leaves t Q := by
  rcases h : a.run s with ⟨r, t, entries⟩
  cases r with
  | error e => simp only [Leaves, run_bind_error h, h]
  | ok x => simp only [Leaves, run_bind_ok h, h]

/-- Two actions in a row, from a condition on what the first one leaves. -/
theorem Leaves.bind {a : Action σ ε α} {f : α → Action σ ε β} {s : σ}
    {P : Except ε α → σ → Prop} {Q : Except ε β → σ → Prop} (h : a.Leaves s P)
    (hError : ∀ e t, P (.error e) t → Q (.error e) t)
    (hOk : ∀ x t, P (.ok x) t → (f x).Leaves t Q) : (a >>= f).Leaves s Q := by
  rw [leaves_bind]
  refine h.mono fun r t hr => ?_
  cases r with
  | error e => exact hError e t hr
  | ok x => exact hOk x t hr

/-- Two actions in a row, the first of which succeeds with a known result. -/
theorem Leaves.bind_ok {a : Action σ ε α} {f : α → Action σ ε β} {s : σ} {x : α} {P : σ → Prop}
    {Q : Except ε β → σ → Prop} (h : a.Leaves s fun r t => r = .ok x ∧ P t)
    (hOk : ∀ t, P t → (f x).Leaves t Q) : (a >>= f).Leaves s Q := by
  refine h.bind (fun e t he => absurd he.1 (by simp)) fun y t hy => ?_
  obtain rfl : y = x := by simpa using hy.1
  exact hOk t hy.2

/-- Two actions in a row, the first of which succeeds. -/
theorem Leaves.bind_exists_ok {a : Action σ ε α} {f : α → Action σ ε β} {s : σ}
    {P : α → σ → Prop} {Q : Except ε β → σ → Prop}
    (h : a.Leaves s fun r t => ∃ x, r = .ok x ∧ P x t)
    (hOk : ∀ x t, P x t → (f x).Leaves t Q) : (a >>= f).Leaves s Q := by
  refine h.bind (fun e t he => ?_) fun y t hy => ?_
  · obtain ⟨x, hx, -⟩ := he
    exact absurd hx (by simp)
  · obtain ⟨x, hx, hP⟩ := hy
    obtain rfl : y = x := by simpa using hx
    exact hOk y t hP

/-- Going on with the state as it is. -/
theorem leaves_get_bind (f : σ → Action σ ε β) (s : σ) (Q : Except ε β → σ → Prop) :
    ((get : Action σ ε σ) >>= f).Leaves s Q ↔ (f s).Leaves s Q := by
  rw [leaves_bind, leaves_get]

@[simp] theorem leaves_attempt (a : Action σ ε α) (s : σ)
    (Q : Except δ (Except ε α) → σ → Prop) :
    (attempt a : Action σ δ (Except ε α)).Leaves s Q ↔ a.Leaves s fun r t => Q (.ok r) t :=
  Iff.rfl

@[simp] theorem leaves_mapError (f : ε → δ) (a : Action σ ε α) (s : σ)
    (Q : Except δ α → σ → Prop) :
    (mapError f a).Leaves s Q ↔ a.Leaves s fun r t => Q (r.mapError f) t := Iff.rfl

@[simp] theorem leaves_within (part : τ → σ) (put : σ → τ → τ) (a : Action σ ε α) (t : τ)
    (Q : Except ε α → τ → Prop) :
    (within part put a).Leaves t Q ↔ a.Leaves (part t) fun r s => Q r (put s t) := Iff.rfl

/-! ## Actions that agree -/

/-- Two actions leave the same result and the same state; what they note may differ. -/
def Agrees (a b : Action σ ε α) (s : σ) : Prop :=
  (a.run s).result = (b.run s).result ∧ (a.run s).state = (b.run s).state

instance [DecidableEq σ] [DecidableEq (Except ε α)] (a b : Action σ ε α) (s : σ) :
    Decidable (a.Agrees b s) :=
  inferInstanceAs (Decidable (_ ∧ _))

theorem Agrees.refl (a : Action σ ε α) (s : σ) : a.Agrees a s := ⟨rfl, rfl⟩

theorem Agrees.symm {a b : Action σ ε α} {s : σ} (h : a.Agrees b s) : b.Agrees a s :=
  ⟨h.1.symm, h.2.symm⟩

theorem Agrees.trans {a b c : Action σ ε α} {s : σ} (hab : a.Agrees b s) (hbc : b.Agrees c s) :
    a.Agrees c s :=
  ⟨hab.1.trans hbc.1, hab.2.trans hbc.2⟩

/-- Actions agree if what one of them leaves is known to be what the other one leaves. -/
theorem agrees_of_leaves {a b : Action σ ε α} {s : σ}
    (h : ∀ Q, b.Leaves s Q → a.Leaves s Q) : a.Agrees b s :=
  h (fun r t => r = (b.run s).result ∧ t = (b.run s).state) ⟨rfl, rfl⟩

theorem Agrees.leaves {a b : Action σ ε α} {s : σ} {Q : Except ε α → σ → Prop} (h : a.Agrees b s)
    (ha : a.Leaves s Q) : b.Leaves s Q := by
  unfold Leaves at ha ⊢
  rwa [← h.1, ← h.2]

/-- Actions that agree, followed by actions that agree wherever the first ones may succeed. -/
theorem Agrees.bind {a b : Action σ ε α} {f g : α → Action σ ε β} {s : σ}
    {P : Except ε α → σ → Prop} (h : a.Agrees b s) (ha : a.Leaves s P)
    (hfg : ∀ x t, P (.ok x) t → (f x).Agrees (g x) t) : (a >>= f).Agrees (b >>= g) s := by
  refine agrees_of_leaves fun Q hQ => ?_
  rw [leaves_bind] at hQ ⊢
  refine (ha.and (h.symm.leaves hQ)).mono fun r t hr => ?_
  cases r with
  | error e => exact hr.2
  | ok x => exact (hfg x t hr.1).symm.leaves hr.2

end Action
end Debundle
