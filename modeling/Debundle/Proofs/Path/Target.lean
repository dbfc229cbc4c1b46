import Debundle.Path.Target
import Debundle.Proofs.Path.Components
import Mathlib.Data.List.Induction

/-!
# Where modules go

The path of a module is resolved to components, and the components are put behind the output
directory.  Resolving leaves nothing but names behind the leading `..`, so a path that is accepted
has only names; and as names hold no slash, the place below the directory is known by them.

* `Path.IsResolved`, `Path.isResolved_resolve`: what resolving leaves.
* `Path.componentsOf`, `Path.safeComponents?_eq`: which paths are accepted.
* `Path.lead`, `Path.foldl_child`: the place of components below a directory.
* `Path.safeJoin_eq_iff`: which paths have the same place.
-/

namespace Debundle

/-- No piece holds the separator. -/
theorem Text.notMem_of_mem_split {sep : CodePoint} {t piece : Text} (h : piece ∈ split sep t) :
    sep ∉ piece := by
  induction t generalizing piece with
  | nil =>
    rw [split, List.mem_singleton] at h
    rw [h]
    exact List.not_mem_nil
  | cons c cs ih =>
    rw [split] at h
    split at h
    · rcases List.mem_cons.mp h with rfl | h
      · exact List.not_mem_nil
      · exact ih h
    · rename_i hc
      split at h
      · rename_i hnil
        exact absurd hnil (split_ne_nil sep cs)
      · rename_i first pieces hpieces
        rcases List.mem_cons.mp h with rfl | h
        · rw [List.mem_cons, not_or]
          exact ⟨Ne.symm hc, ih (hpieces ▸ List.mem_cons_self)⟩
        · exact ih (hpieces ▸ List.mem_cons_of_mem _ h)

namespace Path

/-! ## Resolving -/

/-- Components of which only the first ones lead upwards, and none at the root. -/
def IsResolved (rooted : Bool) (cs : List Text) : Prop :=
  ∃ k names, cs = List.replicate k up ++ names ∧ (∀ c ∈ names, IsName c) ∧ (rooted = true → k = 0)

/-- The same for components that are kept with the last one first. -/
theorem push_stack {rooted : Bool} {k : Nat} {names : List Text} (hnames : ∀ c ∈ names, IsName c)
    (hrooted : rooted = true → k = 0) {c : Text} (hc : slash ∉ c) :
    ∃ k' names', push rooted (names ++ List.replicate k up) c = names' ++ List.replicate k' up ∧
      (∀ c ∈ names', IsName c) ∧ (rooted = true → k' = 0) := by
  unfold push
  split
  · exact ⟨k, names, rfl, hnames, hrooted⟩
  · rename_i hskip
    rw [Bool.or_eq_true, not_or, List.isEmpty_iff, beq_iff_eq] at hskip
    split
    · rename_i hname
      exact ⟨k, c :: names, rfl,
        List.forall_mem_cons.mpr ⟨⟨hskip.1, hskip.2, bne_iff_ne.mp hname, hc⟩, hnames⟩, hrooted⟩
    · -- the component leads upwards
      cases names with
      | nil =>
        cases k with
        | zero =>
          cases rooted with
          | true => exact ⟨0, [], rfl, hnames, hrooted⟩
          | false => exact ⟨1, [], rfl, hnames, fun h => by cases h⟩
        | succ k =>
          refine ⟨k + 2, [], ?_, hnames, fun h => absurd (hrooted h) (Nat.succ_ne_zero k)⟩
          simp [List.replicate_succ]
      | cons last below =>
        obtain ⟨hlast, hbelow⟩ := List.forall_mem_cons.mp hnames
        refine ⟨k, below, ?_, hbelow, hrooted⟩
        simp [hlast.2.2.1]

/-- Only names are left behind what leads upwards. -/
theorem isResolved_resolve {rooted : Bool} {cs : List Text} (hcs : ∀ c ∈ cs, slash ∉ c) :
    IsResolved rooted (resolve rooted cs) := by
  have hfold : ∀ (cs : List Text) (k : Nat) (names : List Text), (∀ c ∈ cs, slash ∉ c) →
      (∀ c ∈ names, IsName c) → (rooted = true → k = 0) →
      ∃ k' names', cs.foldl (push rooted) (names ++ List.replicate k up) =
          names' ++ List.replicate k' up ∧
        (∀ c ∈ names', IsName c) ∧ (rooted = true → k' = 0) := by
    intro cs
    induction cs with
    | nil => exact fun k names _ hnames hrooted => ⟨k, names, rfl, hnames, hrooted⟩
    | cons c cs ih =>
      intro k names hcs hnames hrooted
      obtain ⟨hc, hcs⟩ := List.forall_mem_cons.mp hcs
      obtain ⟨k', names', hpush, hnames', hrooted'⟩ := push_stack hnames hrooted hc
      rw [List.foldl_cons, hpush]
      exact ih k' names' hcs hnames' hrooted'
  obtain ⟨k, names, hstack, hnames, hrooted⟩ :=
    hfold cs 0 [] hcs (fun _ h => absurd h List.not_mem_nil) fun _ => rfl
  refine ⟨k, names.reverse, ?_, fun c hc => hnames c (List.mem_reverse.mp hc), hrooted⟩
  rw [resolve, show ([] : List Text) = [] ++ List.replicate 0 up from rfl, hstack,
    List.reverse_append, List.reverse_replicate]

theorem IsResolved.isPiece {rooted : Bool} {cs : List Text} (h : IsResolved rooted cs) :
    ∀ c ∈ cs, IsPiece c := by
  obtain ⟨k, names, rfl, hnames, -⟩ := h
  refine List.forall_mem_append.mpr ⟨fun c hc => ?_, fun c hc => (hnames c hc).isPiece⟩
  rw [List.eq_of_mem_replicate hc]
  exact isPiece_up

/-- Components that do not begin upwards are names. -/
theorem IsResolved.isName {rooted : Bool} {cs : List Text} (h : IsResolved rooted cs)
    (hhead : cs.head? ≠ some up) : ∀ c ∈ cs, IsName c := by
  obtain ⟨k, names, rfl, hnames, -⟩ := h
  cases k with
  | zero => exact hnames
  | succ k => exact absurd rfl hhead

theorem IsResolved.head?_ne_here {rooted : Bool} {cs : List Text} (h : IsResolved rooted cs) :
    cs.head? ≠ some here := by
  obtain ⟨k, names, rfl, hnames, -⟩ := h
  intro hhead
  cases k with
  | zero => exact (hnames here (List.mem_of_head? hhead)).2.1 rfl
  | succ k =>
    rw [List.replicate_succ, List.cons_append, List.head?_cons] at hhead
    exact absurd (Option.some.inj hhead) (by decide)

/-! ## Paths inside a directory -/

/-- The components that a path comes to, backslashes taken for slashes. -/
def componentsOf (relative : Text) : List Text :=
  let path := Text.replace '\\' slash relative
  resolve (leadingSlashes path != 0) (Text.split slash path)

theorem isResolved_componentsOf (relative : Text) :
    ∃ rooted, IsResolved rooted (componentsOf relative) :=
  ⟨_, isResolved_resolve fun _ hc => Text.notMem_of_mem_split hc⟩

theorem dropWhile_slashes (k : Nat) {cs : List Text} (hcs : ∀ c ∈ cs, IsPiece c) :
    (List.replicate k slash ++ Text.join [slash] cs).dropWhile (· == slash) =
      Text.join [slash] cs := by
  have hslashes : ∀ c ∈ List.replicate k slash, (c == slash) = true := fun c hc => by
    rw [List.eq_of_mem_replicate hc, beq_self_eq_true]
  rw [List.dropWhile_append_of_pos hslashes]
  rcases eq_or_ne cs [] with rfl | hne
  · rfl
  · obtain ⟨a, u, -, -, hau, ha, -, -⟩ := join_pieces hne hcs
    rw [hau, List.dropWhile_cons_of_neg (by simpa using ha)]

/-- Whether a written path is refused. -/
theorem isRefused_join {cs : List Text} (hne : cs ≠ []) (hcs : ∀ c ∈ cs, IsPiece c)
    (hhere : cs.head? ≠ some here) :
    ((Text.join [slash] cs).isEmpty || Text.join [slash] cs == here || Text.join [slash] cs == up ||
      Text.startsWith (Text.join [slash] cs) "../") = decide (cs.head? = some up) := by
  have hsplit := Text.split_join hne fun c hc => (hcs c hc).2
  have hprefix : Text.ofString "../" = up ++ [slash] := rfl
  have hnotEmpty : (Text.join [slash] cs).isEmpty = false := by
    obtain ⟨a, u, -, -, hau, -⟩ := join_pieces hne hcs
    rw [hau]
    rfl
  have hnotHere : (Text.join [slash] cs == here) = false := by
    refine beq_eq_false_iff_ne.mpr fun heq => hhere ?_
    rw [← hsplit, heq]
    rfl
  rw [hnotEmpty, hnotHere, Bool.false_or, Bool.false_or, Bool.eq_iff_iff, Bool.or_eq_true,
    beq_iff_eq, decide_eq_true_eq, Text.startsWith, List.isPrefixOf_iff_prefix, hprefix]
  constructor
  · rintro (heq | ⟨rest, heq⟩)
    · rw [← hsplit, heq]
      rfl
    · rw [← hsplit, ← heq, List.append_assoc, List.singleton_append,
        Text.split_append isPiece_up.2]
      rfl
  · intro hhead
    obtain ⟨rest, rfl⟩ := List.head?_eq_some_iff.mp hhead
    rcases eq_or_ne rest [] with rfl | hrest
    · exact Or.inl rfl
    · refine Or.inr ⟨Text.join [slash] rest, ?_⟩
      rw [Text.join_cons up hrest, List.append_assoc, List.singleton_append]

/-- What is left of a normal path without the slashes at its front. -/
theorem dropWhile_normal (path : Text) {cs : List Text}
    (hcs : resolve (leadingSlashes path != 0) (Text.split slash path) = cs)
    (hpieces : ∀ c ∈ cs, IsPiece c) :
    (normal path).dropWhile (· == slash) =
      if leadingSlashes path = 0 ∧ cs = [] then here else Text.join [slash] cs := by
  unfold normal
  simp only [hcs]
  rcases eq_or_ne cs [] with rfl | hne
  · cases hslashes : leadingSlashes path with
    | zero => rfl
    | succ k =>
      rw [if_neg (by simp [List.replicate_succ]), if_neg (by simp), dropWhile_slashes _ hpieces]
  · obtain ⟨a, u, -, -, hau, -⟩ := join_pieces hne hpieces
    rw [if_neg (by simp [hau]), if_neg (fun h => hne h.2), dropWhile_slashes _ hpieces]

/-- A path is accepted if it comes to something and does not begin upwards. -/
theorem safeComponents?_eq (relative : Text) :
    safeComponents? relative =
      if componentsOf relative = [] ∨ (componentsOf relative).head? = some up then none
      else some (componentsOf relative) := by
  obtain ⟨rooted, hresolved⟩ := isResolved_componentsOf relative
  have hpath := dropWhile_normal (Text.replace '\\' slash relative)
    (show _ = componentsOf relative from rfl) hresolved.isPiece
  unfold safeComponents?
  by_cases hne : componentsOf relative = []
  · simp only [hpath]
    rw [hne, if_pos (Or.inl rfl), if_pos]
    split
    · decide
    · decide
  · rw [if_neg (fun h => hne h.2)] at hpath
    simp only [hpath]
    rw [isRefused_join hne hresolved.isPiece hresolved.head?_ne_here,
      Text.split_join hne fun c hc => (hresolved.isPiece c hc).2]
    simp [hne]

/-- The components of a path that is accepted are names, and there is at least one. -/
theorem isName_of_safeComponents? {relative : Text} {cs : List Text}
    (h : safeComponents? relative = some cs) : cs ≠ [] ∧ ∀ c ∈ cs, IsName c := by
  rw [safeComponents?_eq] at h
  split at h
  · cases h
  · rename_i haccepted
    cases h
    rw [not_or] at haccepted
    obtain ⟨rooted, hresolved⟩ := isResolved_componentsOf relative
    exact ⟨haccepted.1, hresolved.isName haccepted.2⟩

/-! ## Places below a directory -/

/-- A directory with a slash behind it, if it needs one. -/
def lead (root : Text) : Text :=
  if root.isEmpty || Text.endsWith root "/" then root else root ++ "/"

theorem child_eq (root : Text) {c : Text} (hc : IsPiece c) : child root c = lead root ++ c := by
  have hstarts : Text.startsWith c "/" = false := by
    obtain ⟨a, u, rfl⟩ := List.exists_cons_of_ne_nil hc.1
    have ha : slash ≠ a := fun h => hc.2 (h ▸ List.mem_cons_self)
    show (slash == a && _) = false
    rw [beq_eq_false_iff_ne.mpr ha, Bool.false_and]
  unfold child lead
  rw [hstarts, if_neg Bool.false_ne_true]
  split <;> rfl

theorem lead_append (root : Text) {cs : List Text} (hne : cs ≠ []) (hcs : ∀ c ∈ cs, IsPiece c) :
    lead (root ++ Text.join [slash] cs) = root ++ Text.join [slash] cs ++ [slash] := by
  obtain ⟨a, u, v, b, hau, -, hvb, hb⟩ := join_pieces hne hcs
  have hends : Text.endsWith (root ++ Text.join [slash] cs) "/" = false := by
    rw [Text.endsWith, show Text.ofString "/" = [slash] from rfl, hvb, ← List.append_assoc,
      ← Bool.not_eq_true, List.isSuffixOf_iff_suffix]
    rintro ⟨w, hw⟩
    exact hb (by simpa using (List.append_inj_right' hw rfl).symm)
  have hempty : (root ++ Text.join [slash] cs).isEmpty = false := by
    rw [hau]
    simp
  unfold lead
  rw [hempty, hends, if_neg (by decide)]
  rfl

/-- The components stand behind the directory, with slashes between them. -/
theorem foldl_child (root : Text) {cs : List Text} (hne : cs ≠ []) (hcs : ∀ c ∈ cs, IsPiece c) :
    cs.foldl child root = lead root ++ Text.join [slash] cs := by
  induction cs using List.reverseRecOn with
  | nil => exact absurd rfl hne
  | append_singleton cs c ih =>
    obtain ⟨hcs, hc⟩ := List.forall_mem_append.mp hcs
    have hc := hc c (List.mem_singleton_self c)
    rw [List.foldl_append, List.foldl_cons, List.foldl_nil, child_eq _ hc]
    rcases eq_or_ne cs [] with rfl | hne
    · rfl
    · rw [ih hne hcs, lead_append _ hne hcs, Text.join_append hne (List.cons_ne_nil c [])]
      simp [Text.join]

/-- A path that is accepted has a place. -/
theorem safeJoin_eq_ok_iff {root relative target : Text} :
    safeJoin root relative = .ok target ↔
      ∃ cs, safeComponents? relative = some cs ∧ target = lead root ++ Text.join [slash] cs := by
  unfold safeJoin
  cases hcs : safeComponents? relative with
  | none => simp
  | some cs =>
    obtain ⟨hne, hnames⟩ := isName_of_safeComponents? hcs
    simp only [Except.ok.injEq, Option.some.injEq, exists_eq_left', foldl_child root hne
      fun c hc => (hnames c hc).isPiece]
    exact eq_comm

/-- Two paths have the same place if and only if they come to the same components. -/
theorem safeJoin_eq_iff {root path path' target target' : Text}
    (h : safeJoin root path = .ok target) (h' : safeJoin root path' = .ok target') :
    target = target' ↔ safeComponents? path = safeComponents? path' := by
  obtain ⟨cs, hcs, rfl⟩ := safeJoin_eq_ok_iff.mp h
  obtain ⟨cs', hcs', rfl⟩ := safeJoin_eq_ok_iff.mp h'
  obtain ⟨hne, hnames⟩ := isName_of_safeComponents? hcs
  obtain ⟨hne', hnames'⟩ := isName_of_safeComponents? hcs'
  rw [hcs, hcs', Option.some_inj]
  refine ⟨fun heq => ?_, fun heq => by rw [heq]⟩
  have hjoin := List.append_cancel_left heq
  rw [← Text.split_join hne fun c hc => (hnames c hc).2.2.2, hjoin,
    Text.split_join hne' fun c hc => (hnames' c hc).2.2.2]

end Path
end Debundle
