import Debundle.Storage.Host

/-!
# What steps lead to

Steps that follow one another take the state that the ones before them left.  A condition speaks
about the result and about the state in the end, and a sequence is judged step by step.

* `LeadsTo`: the result of steps and the state they leave meet a condition.
* `LeadsTo.bind`: steps in a row, from a condition on what the first ones lead to.
* `LeadsTo.bind_part`, `LeadsTo.bind_lift`: the same for steps that may break off.
* `Yields`: the result meets a condition whatever the state.
* `Succeeds`: the same, and the steps do not break off.
* `Host.Respects`: what the steps preserve by which directories are made.
-/

namespace Debundle

variable {σ ε α β : Type}

/-- The result of steps and the state that they leave meet a condition. -/
def LeadsTo (x : StateM σ α) (s : σ) (Q : α → σ → Prop) : Prop := Q (x s).1 (x s).2

theorem LeadsTo.mono {x : StateM σ α} {s : σ} {P Q : α → σ → Prop} (h : LeadsTo x s P)
    (hPQ : ∀ a t, P a t → Q a t) : LeadsTo x s Q :=
  hPQ _ _ h

theorem LeadsTo.and {x : StateM σ α} {s : σ} {P Q : α → σ → Prop} (hP : LeadsTo x s P)
    (hQ : LeadsTo x s Q) : LeadsTo x s fun a t => P a t ∧ Q a t :=
  ⟨hP, hQ⟩

theorem leadsTo_modify (f : σ → σ) (s : σ) (Q : Unit → σ → Prop) :
    LeadsTo (modify f) s Q ↔ Q () (f s) := Iff.rfl

/-- Steps in a row, from a condition on what the first ones lead to. -/
theorem LeadsTo.bind {x : StateM σ α} {f : α → StateM σ β} {s : σ} {P : α → σ → Prop}
    {Q : β → σ → Prop} (h : LeadsTo x s P) (hf : ∀ a t, P a t → LeadsTo (f a) t Q) :
    LeadsTo (x >>= f) s Q :=
  h.mono hf

/-! ## Steps that may break off -/

theorem leadsTo_part_mk (r : Except ε α) (s : σ) (Q : Except ε α → σ → Prop) :
    LeadsTo (ExceptT.mk (pure r) : ExceptT ε (StateM σ) α).run s Q ↔ Q r s := Iff.rfl

/-- Steps that cannot break off, as some that may. -/
theorem leadsTo_part_lift (x : StateM σ α) (s : σ) (Q : Except ε α → σ → Prop) :
    LeadsTo (liftM x : ExceptT ε (StateM σ) α).run s Q ↔ LeadsTo x s fun a t => Q (.ok a) t :=
  Iff.rfl

/-- Steps in a row that may break off, from a condition on what the first ones lead to. -/
theorem LeadsTo.bind_part {x : ExceptT ε (StateM σ) α} {f : α → ExceptT ε (StateM σ) β} {s : σ}
    {P : Except ε α → σ → Prop} {Q : Except ε β → σ → Prop} (h : LeadsTo x.run s P)
    (hError : ∀ e t, P (.error e) t → Q (.error e) t)
    (hOk : ∀ a t, P (.ok a) t → LeadsTo (f a).run t Q) : LeadsTo (x >>= f).run s Q := by
  show LeadsTo (x.run >>= ExceptT.bindCont f) s Q
  refine h.bind fun r t hr => ?_
  cases r with
  | error e => exact hError e t hr
  | ok a => exact hOk a t hr

/-- The same if the first ones cannot break off. -/
theorem LeadsTo.bind_lift {x : StateM σ α} {f : α → ExceptT ε (StateM σ) β} {s : σ}
    {P : α → σ → Prop} {Q : Except ε β → σ → Prop} (h : LeadsTo x s P)
    (hf : ∀ a t, P a t → LeadsTo (f a).run t Q) :
    LeadsTo ((liftM x : ExceptT ε (StateM σ) α) >>= f).run s Q :=
  ((leadsTo_part_lift x s fun r t => ∃ a, r = .ok a ∧ P a t).mpr (h.mono fun a _ ha => ⟨a, rfl, ha⟩)
    ).bind_part (fun _ _ ⟨_, he, _⟩ => by cases he) fun _ t ⟨a, ha, hP⟩ =>
      Except.ok.inj ha ▸ hf a t hP

/-! ## Results alone -/

/-- Whatever the state, the result of steps meets a condition. -/
def Yields (x : StateM σ α) (Q : α → Prop) : Prop := ∀ s, LeadsTo x s fun a _ => Q a

theorem Yields.mono {x : StateM σ α} {P Q : α → Prop} (h : Yields x P) (hPQ : ∀ a, P a → Q a) :
    Yields x Q :=
  fun s => (h s).mono fun a _ => hPQ a

theorem Yields.and {x : StateM σ α} {P Q : α → Prop} (hP : Yields x P) (hQ : Yields x Q) :
    Yields x fun a => P a ∧ Q a :=
  fun s => (hP s).and (hQ s)

theorem yields_true (x : StateM σ α) : Yields x fun _ => True := fun _ => trivial

theorem yields_pure {a : α} {Q : α → Prop} (h : Q a) : Yields (pure a : StateM σ α) Q := fun _ => h

theorem Yields.bind {x : StateM σ α} {f : α → StateM σ β} {P : α → Prop} {Q : β → Prop}
    (h : Yields x P) (hf : ∀ a, P a → Yields (f a) Q) : Yields (x >>= f) Q :=
  fun s => (h s).bind fun a t ha => hf a ha t

theorem Yields.bind_part {x : ExceptT ε (StateM σ) α} {f : α → ExceptT ε (StateM σ) β}
    {P : Except ε α → Prop} {Q : Except ε β → Prop} (h : Yields x.run P)
    (hError : ∀ e, P (.error e) → Q (.error e)) (hOk : ∀ a, P (.ok a) → Yields (f a).run Q) :
    Yields (x >>= f).run Q :=
  fun s => (h s).bind_part (fun e _ he => hError e he) fun a t ha => hOk a ha t

theorem Yields.bind_lift {x : StateM σ α} {f : α → ExceptT ε (StateM σ) β} {P : α → Prop}
    {Q : Except ε β → Prop} (h : Yields x P) (hf : ∀ a, P a → Yields (f a).run Q) :
    Yields ((liftM x : ExceptT ε (StateM σ) α) >>= f).run Q :=
  fun s => (h s).bind_lift fun a t ha => hf a ha t

/-! ## Steps that do not break off -/

/-- Whatever the state, steps do not break off, and their result meets a condition. -/
def Succeeds (x : ExceptT ε (StateM σ) α) (Q : α → Prop) : Prop :=
  Yields x.run fun r => ∃ a, r = .ok a ∧ Q a

theorem Succeeds.mono {x : ExceptT ε (StateM σ) α} {P Q : α → Prop} (h : Succeeds x P)
    (hPQ : ∀ a, P a → Q a) : Succeeds x Q :=
  Yields.mono h fun _ ⟨a, hr, ha⟩ => ⟨a, hr, hPQ a ha⟩

theorem succeeds_pure {a : α} {Q : α → Prop} (h : Q a) :
    Succeeds (pure a : ExceptT ε (StateM σ) α) Q := fun _ => ⟨a, rfl, h⟩

theorem succeeds_lift {x : StateM σ α} {Q : α → Prop} (h : Yields x Q) :
    Succeeds (liftM x : ExceptT ε (StateM σ) α) Q := fun s => ⟨_, rfl, h s⟩

theorem Succeeds.bind {x : ExceptT ε (StateM σ) α} {f : α → ExceptT ε (StateM σ) β}
    {P : α → Prop} {Q : β → Prop} (h : Succeeds x P) (hf : ∀ a, P a → Succeeds (f a) Q) :
    Succeeds (x >>= f) Q := by
  refine Yields.bind_part h (fun e he => ?_) fun a ha => ?_
  · obtain ⟨_, he, -⟩ := he
    cases he
  · obtain ⟨b, hb, hP⟩ := ha
    cases hb
    exact hf a hP

/-! ## Making directories -/

/-- The steps by which directories are made lead from a state to one that is related to it. -/
structure Host.Respects (h : Host (StateM σ)) (R : σ → σ → Prop) : Prop where
  /-- A state is related to itself. -/
  refl : ∀ s, R s s
  /-- Steps in a row are related as one is. -/
  trans : ∀ {s t u}, R s t → R t u → R s u
  /-- Making a directory. -/
  makeDirectory : ∀ path s, LeadsTo (h.makeDirectory path) s fun _ t => R s t
  /-- Looking whether something is there. -/
  isPresent : ∀ path s, LeadsTo (h.isPresent path) s fun _ t => R s t
  /-- Looking whether a directory is there. -/
  isDirectory : ∀ path s, LeadsTo (h.isDirectory path) s fun _ t => R s t

namespace Host.Respects

variable {h : Host (StateM σ)} {R : σ → σ → Prop}

theorem ensureOne (hh : h.Respects R) (path : Text) (s : σ) :
    LeadsTo (h.ensureOne path) s fun _ t => R s t := by
  refine (hh.makeDirectory path s).bind fun r t ht => ?_
  split
  · exact ht
  · refine (hh.isDirectory path t).bind fun found u hu => ?_
    split <;> exact hh.trans ht hu
  · exact ht

theorem ensureAncestors (hh : h.Respects R) (paths : List Text) (s : σ) :
    LeadsTo (h.ensureAncestors paths) s fun _ t => R s t := by
  induction paths generalizing s with
  | nil => exact hh.refl s
  | cons path above ih =>
    refine (hh.isPresent path s).bind fun found t ht => ?_
    split
    · exact ht
    · refine (ih t).bind fun r u hu => ?_
      split
      · exact hh.trans ht hu
      · refine (hh.ensureOne path u).bind fun r v hv => ?_
        split <;> exact hh.trans ht (hh.trans hu hv)

theorem ensureDirectory (hh : h.Respects R) (path : Text) (s : σ) :
    LeadsTo (h.ensureDirectory path) s fun _ t => R s t := by
  refine (hh.ensureAncestors _ s).bind fun r t ht => ?_
  split
  · exact ht
  · exact (hh.ensureOne path t).mono fun _ u hu => hh.trans ht hu

end Host.Respects

end Debundle
