import Debundle.Proofs.Bundle.Blocking
import Debundle.Proofs.Unpack.Container

/-!
# What stops the unpacking

Whatever the inputs are, the unpacking ends with a list of modules, unless it runs on for ever or
comes upon a literal without a value.  Which modules it comes upon depends on all that was unpacked
before, so they are listed here step by step, beside the work itself.

* `SourceModule.isBlocked`: looking into a module comes upon a literal without a value.
* `lookedAt`, `lookedAtIn`: the modules that are looked at while a stack, and while all inputs, are
  worked off.
* `Accounts`: how the work ends, in terms of these modules.
* `unpackBundles_gives_iff`: what unpacking gives, and when it fails.
-/

namespace Debundle

open Debundle.Action Script

/-! ## One module -/

/-- Looking into a module comes upon a literal without a value. -/
def SourceModule.isBlocked (m : SourceModule) : Bool :=
  match Source.parse m.source with
  | .error _ => false
  | .ok source => source.isBlocked

/-- The session comes from modules with ids. -/
def Progress.IsNamed (p : Progress) : Prop :=
  ∃ vs, Session.IsNamed vs (p.session.getD Session.empty)

theorem Progress.isNamed_start : Progress.start.IsNamed := ⟨[], .empty⟩

/-- A module can be looked into unless it is blocked. -/
theorem expand_blocked (m : SourceModule) {p : Progress} (hp : p.IsNamed) :
    (expand m).Leaves p fun r q => q.IsNamed ∧ FailsIf m.isBlocked r := by
  cases hparse : Source.parse m.source with
  | error e =>
    rw [SourceModule.isBlocked, hparse]
    exact (expand_leaves_unparsable hparse _).mpr ⟨hp, [], rfl⟩
  | ok source =>
    have hm : m.isBlocked = source.isBlocked := by rw [SourceModule.isBlocked, hparse]
    cases hpacked : packedArguments? source.statements with
    | some arguments =>
      have hkind : BundleKind.ofStatements source.statements = .ok .packed := by
        rw [BundleKind.ofStatements, hpacked]
      obtain ⟨vs, hs⟩ := hp
      rw [expand_leaves hparse hkind, unpackKind, onSession, leaves_within, hm, Source.isBlocked,
        hpacked]
      exact ⟨⟨_, hs.unpacked source⟩, unpackPacked_blocked hs source⟩
    | none =>
      have hdefinitions := hasDefinition_blocked source.statements
      rw [hm, Source.isBlocked, hpacked]
      cases hfound : hasDefinition source.statements with
      | error e =>
        have hkind : BundleKind.ofStatements source.statements = .error e := by
          rw [BundleKind.ofStatements, hpacked, hfound]
          rfl
        rw [hfound] at hdefinitions
        rw [expand_leaves_error hparse hkind, hdefinitions]
        exact ⟨hp, e, rfl⟩
      | ok found =>
        rw [hfound] at hdefinitions
        cases found with
        | false =>
          have hkind : BundleKind.ofStatements source.statements = .ok .leaf := by
            rw [BundleKind.ofStatements, hpacked, hfound]
            rfl
          rw [expand_leaves hparse hkind, hdefinitions]
          exact ⟨hp, [], rfl⟩
        | true =>
          have hkind : BundleKind.ofStatements source.statements = .ok .amd := by
            rw [BundleKind.ofStatements, hpacked, hfound]
            rfl
          have hmodules := modulesIn_blocked source source.statements
          rw [expand_leaves hparse hkind]
          exact (unpackStatements_leaves source source.statements _).mpr ⟨hp, hmodules⟩

/-! ## A stack of modules -/

/-- The modules that are looked at while a stack is worked off in at most `fuel` steps. -/
def lookedAt : Nat → List SourceModule → Progress → List SourceModule
  | _, [], _ => []
  | 0, _ :: _, _ => []
  | fuel + 1, m :: stack, p =>
    if p.hasSeen m.path then lookedAt fuel stack p
    else
      let outcome := (expand m).run (p.mark m.path)
      m ::
        match outcome.result with
        | .error _ => []
        | .ok ms => lookedAt fuel (ms ++ stack) outcome.state

section

variable {fuel : Nat} {m : SourceModule} {stack : List SourceModule} {p : Progress}

theorem lookedAt_of_seen (hseen : p.hasSeen m.path = true) :
    lookedAt (fuel + 1) (m :: stack) p = lookedAt fuel stack p := by
  rw [lookedAt, if_pos hseen]

theorem lookedAt_of_error (hseen : ¬p.hasSeen m.path = true) {f : Fault}
    (h : ((expand m).run (p.mark m.path)).result = .error f) :
    lookedAt (fuel + 1) (m :: stack) p = [m] := by
  simp only [lookedAt, if_neg hseen, h]

theorem lookedAt_of_ok (hseen : ¬p.hasSeen m.path = true) {ms : List SourceModule}
    (h : ((expand m).run (p.mark m.path)).result = .ok ms) :
    lookedAt (fuel + 1) (m :: stack) p =
      m :: lookedAt fuel (ms ++ stack) ((expand m).run (p.mark m.path)).state := by
  simp only [lookedAt, if_neg hseen, h]

end

/-- How work ends in terms of the modules that were looked at: it is done, or given up because it
takes too long, if none of them is blocked, and otherwise given up because of a literal without a
value. -/
def Accounts {α : Type} (looked : List SourceModule) : Except Fault α → Prop
  | .ok _ => ∀ m ∈ looked, m.isBlocked = false
  | .error f =>
    (f = .exhausted ∧ ∀ m ∈ looked, m.isBlocked = false) ∨
      (f.IsLiteral ∧ ∃ m ∈ looked, m.isBlocked = true)

theorem Accounts.cons {α : Type} {looked : List SourceModule} {r : Except Fault α}
    {m : SourceModule} (hm : m.isBlocked = false) (h : Accounts looked r) :
    Accounts (m :: looked) r := by
  cases r with
  | ok x => exact List.forall_mem_cons.mpr ⟨hm, h⟩
  | error f =>
    rcases h with ⟨hf, h⟩ | ⟨hf, n, hn, hblocked⟩
    · exact Or.inl ⟨hf, List.forall_mem_cons.mpr ⟨hm, h⟩⟩
    · exact Or.inr ⟨hf, n, List.mem_cons_of_mem _ hn, hblocked⟩

theorem Accounts.append {α β : Type} {looked more : List SourceModule} {x : α} {r : Except Fault β}
    (h : Accounts looked (.ok x : Except Fault α)) (hr : Accounts more r) :
    Accounts (looked ++ more) r := by
  induction looked with
  | nil => exact hr
  | cons m looked ih =>
    obtain ⟨hm, h⟩ := List.forall_mem_cons.mp h
    exact (ih h).cons hm

/-- A stack is worked off. -/
theorem workOff_accounts (fuel : Nat) (stack : List SourceModule) {p : Progress} (hp : p.IsNamed) :
    (workOff fuel stack).Leaves p fun r q => q.IsNamed ∧ Accounts (lookedAt fuel stack p) r := by
  induction fuel generalizing stack p with
  | zero =>
    cases stack with
    | nil => exact ⟨hp, fun _ hm => absurd hm List.not_mem_nil⟩
    | cons m stack => exact ⟨hp, Or.inl ⟨rfl, fun _ hm => absurd hm List.not_mem_nil⟩⟩
  | succ fuel ih =>
    cases stack with
    | nil => exact ⟨hp, fun _ hm => absurd hm List.not_mem_nil⟩
    | cons m stack =>
      unfold workOff
      rw [leaves_get_bind]
      split
      · rename_i hseen
        rw [lookedAt_of_seen hseen]
        exact ih stack hp
      · rename_i hseen
        have hmarked : (p.mark m.path).IsNamed := hp
        have hexpand := (expand_blocked m hmarked).and (Q := fun r q =>
          ((expand m).run (p.mark m.path)).result = r ∧
            ((expand m).run (p.mark m.path)).state = q) ⟨rfl, rfl⟩
        rw [leaves_bind, leaves_modify]
        refine hexpand.bind ?_ ?_
        · rintro f q ⟨⟨hq, hfails⟩, hresult, -⟩
          rw [lookedAt_of_error hseen hresult]
          obtain ⟨hblocked, hliteral⟩ := hfails.of_error
          exact ⟨hq, Or.inr ⟨hliteral, m, List.mem_cons_self, hblocked⟩⟩
        · rintro ms q ⟨⟨hq, hfails⟩, hresult, rfl⟩
          rw [lookedAt_of_ok hseen hresult]
          have hrest := (ih (ms ++ stack) hq).mono
            fun r t h => And.intro h.1 (h.2.cons hfails.of_ok)
          cases ms with
          | nil => exact hrest.bind (fun f t h => h) fun leaves t h => h
          | cons first rest => exact hrest

/-! ## All inputs -/

/-- The modules that are looked at while an input is unpacked. -/
def lookedAtFor (fuel : Nat) (c : Candidate) (p : Progress) : List SourceModule :=
  match c.path, c.source with
  | .scalar path, .scalar (.text source) =>
    if p.hasSeen path then [] else lookedAt fuel [⟨path, source, c.id⟩] p
  | _, _ => []

/-- The modules that are looked at while inputs are unpacked one after the other. -/
def lookedAtIn (fuel : Nat) : List Value → Progress → List SourceModule
  | [], _ => []
  | .scalar .null :: rest, p => lookedAtIn fuel rest p
  | .mapping bundle :: rest, p =>
    let c := Candidate.ofMapping bundle
    if !c.path.isTruthy || !c.source.isTruthy then lookedAtIn fuel rest p
    else
      let outcome := (unpackCandidate fuel c).run p
      lookedAtFor fuel c p ++
        match outcome.result with
        | .error _ => []
        | .ok _ => lookedAtIn fuel rest outcome.state
  | _ :: _, _ => []

/-- An input is a mapping with texts for its path and its source. -/
def IsTextual (v : Value) : Prop :=
  ∃ bundle path text, v = .mapping bundle ∧ Describes bundle (.text path) text

theorem orEmpty_text (t : Text) : orEmpty (some (.scalar (.text t))) = .scalar (.text t) := by
  cases t <;> rfl

theorem unpackCandidate_accounts (fuel : Nat) {c : Candidate} {path : Scalar} {text : Text}
    (hpath : c.path = .scalar path) (hsource : c.source = .scalar (.text text)) {p : Progress}
    (hp : p.IsNamed) :
    (unpackCandidate fuel c).Leaves p fun r q => q.IsNamed ∧ Accounts (lookedAtFor fuel c p) r := by
  unfold unpackCandidate lookedAtFor
  simp only [hpath, hsource]
  rw [leaves_get_bind]
  split
  · exact ⟨hp, fun _ hm => absurd hm List.not_mem_nil⟩
  · exact workOff_accounts fuel _ hp

/-- Inputs are unpacked one after the other. -/
theorem unpackAll_accounts (fuel : Nat) {bundles : List Value} (h : ∀ v ∈ bundles, IsTextual v)
    {p : Progress} (hp : p.IsNamed) :
    (unpackAll fuel bundles).Leaves p fun r _ =>
      ∃ r', r = r'.mapError .fault ∧ Accounts (lookedAtIn fuel bundles p) r' := by
  induction bundles generalizing p with
  | nil => exact ⟨.ok [], rfl, fun _ hm => absurd hm List.not_mem_nil⟩
  | cons v rest ih =>
    obtain ⟨⟨bundle, path, text, rfl, hbundle⟩, hrest⟩ := List.forall_mem_cons.mp h
    have hpath : (Candidate.ofMapping bundle).path = .scalar (.text path) := by
      rw [Candidate.ofMapping, hbundle.path, orEmpty_text]
    have hsource : (Candidate.ofMapping bundle).source = .scalar (.text text) := by
      rw [Candidate.ofMapping, hbundle.source, orEmpty_text]
    rw [unpackAll, leaves_bind, leaves_ofExcept]
    · simp only [Candidate.ofValue]
      rw [lookedAtIn]
      split
      · rw [leaves_bind, leaves_say]
        exact ih hrest hp
      · rw [leaves_bind, leaves_mapError]
        have hcandidate := (unpackCandidate_accounts fuel hpath hsource hp).and (Q := fun r q =>
          ((unpackCandidate fuel (.ofMapping bundle)).run p).result = r ∧
            ((unpackCandidate fuel (.ofMapping bundle)).run p).state = q) ⟨rfl, rfl⟩
        refine hcandidate.mono fun r q hr => ?_
        obtain ⟨⟨hq, hr⟩, hresult, hstate⟩ := hr
        simp only [hresult, hstate]
        cases r with
        | error f =>
          refine ⟨.error f, rfl, ?_⟩
          rw [List.append_nil]
          exact hr
        | ok leaves =>
          refine (ih hrest hq).bind (fun f t hf => ?_) fun more t hmore => ?_
          · obtain ⟨r', hr', haccounts⟩ := hf
            exact ⟨r', hr', hr.append haccounts⟩
          · obtain ⟨r', hr', haccounts⟩ := hmore
            cases r' with
            | error f => cases hr'
            | ok more' => exact ⟨.ok (leaves ++ more), rfl, hr.append haccounts⟩
    · simp

/-- Inputs with texts for their paths and sources are unpacked, unless this takes for ever, if and
only if no module that is looked at is blocked, and if they are not, a literal without a value is
the reason. -/
theorem unpackBundles_gives_iff (fuel : Nat) (bundles : List Value)
    (hbundles : ∀ v ∈ bundles, IsTextual v)
    (hends : (unpackBundles fuel bundles).result ≠ .error (.fault .exhausted)) :
    ((∃ ms, (unpackBundles fuel bundles).result = .ok ms) ↔
      ∀ m ∈ lookedAtIn fuel bundles .start, m.isBlocked = false) ∧
    ∀ e, (unpackBundles fuel bundles).result = .error e → ∃ l, e = .fault (.literal l) := by
  obtain ⟨r, hr, haccounts⟩ := unpackAll_accounts fuel hbundles Progress.isNamed_start
  have hresult : (unpackBundles fuel bundles).result = (r.mapError .fault).map aggregate := by
    rw [unpackBundles, hr]
  rw [hresult] at hends ⊢
  cases r with
  | ok leaves => exact ⟨iff_of_true ⟨_, rfl⟩ haccounts, fun e he => by cases he⟩
  | error f =>
    rcases haccounts with ⟨rfl, -⟩ | ⟨⟨e, rfl⟩, m, hm, hblocked⟩
    · exact absurd rfl hends
    · have hnone : ¬∀ n ∈ lookedAtIn fuel bundles .start, n.isBlocked = false := fun hall =>
        absurd (hall m hm) (by rw [hblocked]; exact Bool.noConfusion)
      refine ⟨iff_of_false (by rintro ⟨ms, ⟨⟩⟩) hnone, fun e' he' => ⟨e, ?_⟩⟩
      exact (Except.error.inj he').symm

/-- A bundle with a malformed module, one that is no script, and an input without a path. -/
def flawedInputs : List Value :=
  let packed : Text := "p(\x7b1:[function()\x7bx\x7d,\x7b\x7d],2:3\x7d,\x7b\x7d,[1])"
  [.mapping [(.text "path", .scalar (.text "a.js")), (.text "source", .scalar (.text packed))],
    .mapping [(.text "path", .scalar (.text "b.js")), (.text "source", .scalar (.text ")"))],
    .mapping [(.text "path", .scalar (.text "")), (.text "source", .scalar (.text "y"))]]

set_option maxRecDepth 100000 in
/-- None of these flaws keeps the others from being unpacked. -/
theorem flawedInputs_gives :
    (∀ v ∈ flawedInputs, IsTextual v) ∧
      (unpackBundles 3 flawedInputs).result ≠ .error (.fault .exhausted) ∧
      ∃ ms, (unpackBundles 3 flawedInputs).result = .ok ms := by
  have htextual : ∀ v ∈ flawedInputs, IsTextual v := by
    simp only [flawedInputs, List.forall_mem_cons]
    exact ⟨⟨_, _, _, rfl, rfl, rfl⟩, ⟨_, _, _, rfl, rfl, rfl⟩, ⟨_, _, _, rfl, rfl, rfl⟩,
      List.forall_mem_nil _⟩
  have hends : (unpackBundles 3 flawedInputs).result ≠ .error (.fault .exhausted) := by
    have h : (unpackBundles 3 flawedInputs).result.isOk = true := by decide +kernel
    intro hexhausted
    rw [hexhausted] at h
    cases h
  have hlooked : ∀ m ∈ lookedAtIn 3 flawedInputs .start, m.isBlocked = false := by decide +kernel
  exact ⟨htextual, hends, (unpackBundles_gives_iff 3 flawedInputs htextual hends).1.mpr hlooked⟩

/-- The fault for which the unpacking was given up, if it was for one. -/
def BundleError.fault? : BundleError → Option Fault
  | .notAMapping _ => none
  | .fault f => some f

/-- A bundle that defines a module under a character beyond all code points. -/
def bundleBeyond : Value :=
  .mapping [(.text "path", .scalar (.text "b.js")),
    (.text "source", .scalar (.text "define('\\u\x7b110000\x7d.js',function()\x7bx\x7d)"))]

set_option maxRecDepth 100000 in
/-- The path of a module can be a literal without a value, and then nothing is unpacked. -/
theorem bundleBeyond_not_gives :
    ¬∀ (fuel : Nat) (bundles : List Value), (∀ v ∈ bundles, IsTextual v) →
      (unpackBundles fuel bundles).result ≠ .error (.fault .exhausted) →
      ∃ ms, (unpackBundles fuel bundles).result = .ok ms := by
  intro hall
  have hfails : (unpackBundles 2 [bundleBeyond]).result.mapError BundleError.fault? =
      .error (some (.literal .notACodePoint)) := by
    decide +kernel
  have htextual : ∀ v ∈ [bundleBeyond], IsTextual v :=
    List.forall_mem_singleton.mpr ⟨_, _, _, rfl, rfl, rfl⟩
  obtain ⟨ms, hms⟩ := hall 2 [bundleBeyond] htextual fun hexhausted => by
    rw [hexhausted] at hfails
    cases hfails
  rw [hms] at hfails
  cases hfails

end Debundle
