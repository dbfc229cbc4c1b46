import Debundle.Proofs.Path.Normal
import Debundle.Proofs.Storage.Faults
import Mathlib.Algebra.Order.BigOperators.Group.List
import Mathlib.Algebra.Order.Group.Nat

/-!
# Paths that stay inside a directory

Where a path leads can be said without its normal form: from a directory on, every component leads
to the next place, and `..` leads to the directory above.  A path from the root takes the directory
for the root, so there is nothing above it.

What the name of the directory itself is does not count.  A path that leaves a directory may come
back through its name; but from a directory of another name it does not, and a path is refused on
this ground alone.

* `Path.enter`, `Path.destination`: the place to which a path leads from a directory.
* `Path.placeOf`, `Path.foldl_enter`: the same place, read off the components that the path comes
  to.
* `Path.IsBelow`: a place inside a directory, other than the directory itself.
* `Path.safeJoin_confined`: the place of a path that is accepted, and which paths are refused.
-/

namespace Debundle
namespace Path

/-! ## Where a path leads -/

/-- One component leads from a place to the next one; the way up ends at `top`. -/
def enter (top place : List Text) (component : Text) : List Text :=
  if component = [] ∨ component = here then place
  else if component = up then if place = top then top else place.dropLast
  else place ++ [component]

/-- The components of a path, backslashes taken for slashes. -/
def segments (path : Text) : List Text := Text.split slash (Text.replace '\\' slash path)

/-- Whether a path begins at the root, backslashes taken for slashes. -/
def isRooted (path : Text) : Bool := Text.startsWith (Text.replace '\\' slash path) "/"

/-- The place to which a path leads from a directory, which a path from the root takes for the root.
-/
def destination (base : List Text) (path : Text) : List Text :=
  (segments path).foldl (enter (if isRooted path then base else [])) base

/-- A place inside a directory, other than the directory itself. -/
def IsBelow (base place : List Text) : Prop := ∃ names, names ≠ [] ∧ place = base ++ names

variable {rooted : Bool} {k : Nat} {names base cs : List Text} {c : Text} {relative : Text}

theorem enter_name (hc : IsName c) (top place : List Text) : enter top place c = place ++ [c] := by
  rw [enter, if_neg (not_or.mpr ⟨hc.1, hc.2.1⟩), if_neg hc.2.2.1]

theorem enter_up (top place : List Text) :
    enter top place up = if place = top then top else place.dropLast := by
  rw [enter, if_neg (by decide), if_pos rfl]

/-! ## The place of a stack of components -/

/-- The place that a stack of components stands for: as far above the directory as it leads upwards,
and from there on along its names. -/
def placeOf (base stack : List Text) : List Text :=
  base.take (base.length - stack.count up) ++ (stack.filter (· != up)).reverse

theorem placeOf_append (base : List Text) (hnames : ∀ c ∈ names, IsName c) (k : Nat) :
    placeOf base (names ++ List.replicate k up) = base.take (base.length - k) ++ names.reverse := by
  have hcount : names.count up = 0 := by
    rw [List.count_eq_zero]
    exact fun hmem => (hnames up hmem).2.2.1 rfl
  have hfilter : names.filter (· != up) = names := by
    rw [List.filter_eq_self]
    exact fun c hc => bne_iff_ne.mpr (hnames c hc).2.2.1
  have hups : (List.replicate k up).filter (· != up) = [] := by
    rw [List.filter_eq_nil_iff]
    intro c hc
    rw [List.eq_of_mem_replicate hc]
    decide
  rw [placeOf, List.count_append, hcount, List.count_replicate_self, Nat.zero_add,
    List.filter_append, hfilter, hups, List.append_nil]

/-- A stack without names leads upwards only. -/
theorem placeOf_replicate (base : List Text) (k : Nat) :
    placeOf base (List.replicate k up) = base.take (base.length - k) := by
  have hnil : ∀ c ∈ ([] : List Text), IsName c := fun c hc => absurd hc List.not_mem_nil
  rw [← List.nil_append (List.replicate k up), placeOf_append base hnil, List.reverse_nil,
    List.append_nil]

/-- Above as many directories as the stack leads upwards there is one more. -/
theorem dropLast_take_length_sub (base : List Text) (k : Nat) :
    (base.take (base.length - k)).dropLast = base.take (base.length - (k + 1)) := by
  rw [List.dropLast_eq_take, List.length_take, List.take_take]
  congr 1
  omega

/-- The way up is the same, whether it is gone or put on the stack. -/
theorem enter_placeOf_up (hnames : ∀ c ∈ names, IsName c) (hrooted : rooted = true → k = 0) :
    enter (if rooted then base else []) (placeOf base (names ++ List.replicate k up)) up =
      placeOf base (push rooted (names ++ List.replicate k up) up) := by
  rw [placeOf_append base hnames, enter_up]
  cases names with
  | nil =>
    rw [List.nil_append, List.reverse_nil, List.append_nil]
    cases rooted with
    | true =>
      obtain rfl := hrooted rfl
      simp [push, placeOf]
    | false =>
      have hpush : push false (List.replicate k up) up = List.replicate (k + 1) up :=
        (foldl_push_ups_start 1 k)
      have hplace : (if base.take (base.length - k) = [] then [] else
          (base.take (base.length - k)).dropLast) = (base.take (base.length - k)).dropLast := by
        split
        · rename_i hnil
          rw [hnil, List.dropLast_nil]
        · rfl
      rw [if_neg Bool.false_ne_true, hplace, hpush, dropLast_take_length_sub, placeOf_replicate]
  | cons last below =>
    -- the last name is taken back
    obtain ⟨hlast, hbelow⟩ := List.forall_mem_cons.mp hnames
    have hpush : push rooted (last :: below ++ List.replicate k up) up =
        below ++ List.replicate k up := by
      simp [push, hlast.2.2.1, show up ≠ [] from by decide, show up ≠ here from by decide]
    have hne : base.take (base.length - k) ++ (last :: below).reverse ≠
        if rooted then base else [] := by
      intro heq
      have hlength := congrArg List.length heq
      cases rooted with
      | true =>
        obtain rfl := hrooted rfl
        simp at hlength
      | false => simp at hlength
    rw [if_neg hne, hpush, placeOf_append base hbelow, List.reverse_cons, ← List.append_assoc,
      List.dropLast_concat]

/-- One more component leads to the same place, whether it is entered or put on the stack. -/
theorem enter_placeOf (hnames : ∀ c ∈ names, IsName c) (hrooted : rooted = true → k = 0)
    (hc : slash ∉ c) :
    enter (if rooted then base else []) (placeOf base (names ++ List.replicate k up)) c =
      placeOf base (push rooted (names ++ List.replicate k up) c) := by
  by_cases hskip : c = [] ∨ c = here
  · rw [enter, if_pos hskip, push.eq_def, if_pos (by simpa using hskip)]
  · by_cases hup : c = up
    · rw [hup]
      exact enter_placeOf_up hnames hrooted
    · rw [not_or] at hskip
      have hname : IsName c := ⟨hskip.1, hskip.2, hup, hc⟩
      rw [push_name hname, enter_name hname, ← List.cons_append, placeOf_append base hnames,
        placeOf_append base (List.forall_mem_cons.mpr ⟨hname, hnames⟩), List.reverse_cons,
        List.append_assoc]

/-- Components lead to the place of the stack on which they are put. -/
theorem foldl_enter (hcs : ∀ c ∈ cs, slash ∉ c) (hnames : ∀ c ∈ names, IsName c)
    (hrooted : rooted = true → k = 0) :
    cs.foldl (enter (if rooted then base else [])) (placeOf base (names ++ List.replicate k up)) =
      placeOf base (cs.foldl (push rooted) (names ++ List.replicate k up)) := by
  induction cs generalizing names k with
  | nil => rfl
  | cons c cs ih =>
    obtain ⟨hc, hcs⟩ := List.forall_mem_cons.mp hcs
    obtain ⟨k', names', hpush, hnames', hrooted'⟩ := push_stack hnames hrooted hc
    rw [List.foldl_cons, List.foldl_cons, enter_placeOf hnames hrooted hc, hpush]
    exact ih hcs hnames' hrooted'

/-! ## The place of a path -/

theorem isRooted_eq (path : Text) :
    isRooted path = (leadingSlashes (Text.replace '\\' slash path) != 0) := by
  rw [isRooted, Bool.eq_iff_iff, ← not_iff_not]
  simp [leadingSlashes_eq_zero_iff]

/-- The components that a path comes to tell where it leads: up as often as they say, and then along
the names.  The names are components of the path. -/
theorem exists_destination (relative : Text) :
    ∃ k names, componentsOf relative = List.replicate k up ++ names ∧ (∀ c ∈ names, IsName c) ∧
      (∀ c ∈ names, c ∈ segments relative) ∧
      ∀ base, destination base relative = base.take (base.length - k) ++ names := by
  have hsegments : ∀ c ∈ segments relative, slash ∉ c := fun _ hc => Text.notMem_of_mem_split hc
  have hresolved : IsResolved (isRooted relative)
      (resolve (isRooted relative) (segments relative)) := isResolved_resolve hsegments
  obtain ⟨k, names, hcomponents, hnames, -⟩ := hresolved
  refine ⟨k, names, ?_, hnames, fun c hc => ?_, fun base => ?_⟩
  · rw [← hcomponents, isRooted_eq]
    rfl
  · have hmem : c ∈ resolve (isRooted relative) (segments relative) := by
      rw [hcomponents]
      exact List.mem_append_right _ hc
    exact (mem_resolve hmem).resolve_right (hnames c hc).2.2.1
  · have hnil : ∀ c ∈ ([] : List Text), IsName c := fun c hc => absurd hc List.not_mem_nil
    have hfold : (segments relative).foldl (enter (if isRooted relative then base else []))
        (placeOf base ([] ++ List.replicate 0 up)) =
          placeOf base ((segments relative).foldl (push (isRooted relative))
            ([] ++ List.replicate 0 up)) :=
      foldl_enter hsegments hnil fun _ => rfl
    have hstack : (segments relative).foldl (push (isRooted relative)) [] =
        names.reverse ++ List.replicate k up := by
      rw [← List.reverse_inj, List.reverse_append, List.reverse_reverse, List.reverse_replicate]
      exact hcomponents
    have hbase : placeOf base [] = base := (placeOf_replicate base 0).trans (List.take_length)
    rw [List.nil_append, List.replicate_zero, hbase, hstack, placeOf_append base fun c hc =>
      hnames c (List.mem_reverse.mp hc), List.reverse_reverse] at hfold
    exact hfold

/-! ## Paths that are accepted -/

/-- There are no backslashes in the components of a path. -/
theorem backslash_notMem (h : c ∈ segments relative) : CodePoint.ofChar '\\' ∉ c := by
  intro hmem
  have hreplaced : CodePoint.ofChar '\\' ∈ Text.replace '\\' slash relative :=
    Text.mem_of_mem_split h hmem
  obtain ⟨a, -, ha⟩ := List.mem_map.mp hreplaced
  split at ha
  · exact absurd ha (by decide)
  · rename_i hne
    exact hne ha

/-- Some name is not a component of the path. -/
theorem exists_isName_notMem (relative : Text) :
    ∃ name, IsName name ∧ name ∉ segments relative := by
  let size := ((segments relative).map List.length).sum
  refine ⟨List.replicate (size + 3) 'a', ⟨?_, ?_, ?_, ?_⟩, fun hmem => ?_⟩
  · exact List.cons_ne_nil _ _
  · exact fun heq => absurd (congrArg List.length heq) (by simp [here, Text.ofString])
  · exact fun heq => absurd (congrArg List.length heq) (by simp [up, Text.ofString])
  · exact fun hslash => absurd (List.eq_of_mem_replicate hslash) (by decide)
  · have hle := List.le_sum_of_mem (List.mem_map_of_mem (f := List.length) hmem)
    rw [List.length_replicate] at hle
    omega

/-- Above a directory whose name the components do not have there is no way back into it. -/
theorem not_isBelow_of_up {name : Text} (base : List Text) (k : Nat) (hname : name ∉ names) :
    ¬IsBelow (base ++ [name])
      ((base ++ [name]).take ((base ++ [name]).length - (k + 1)) ++ names) := by
  rintro ⟨rest, -, heq⟩
  have htake : (base ++ [name]).take ((base ++ [name]).length - (k + 1)) =
      base.take (base.length - k) := by
    rw [List.length_append, List.length_singleton, Nat.add_sub_add_right,
      List.take_append_of_le_length (Nat.sub_le _ _)]
  have happend : base.take (base.length - k) ++ names =
      base.take (base.length - k) ++ (base.drop (base.length - k) ++ [name] ++ rest) := by
    rw [← htake, heq, htake, ← List.append_assoc, ← List.append_assoc, List.take_append_drop]
  rw [List.append_cancel_left happend] at hname
  refine hname ?_
  exact List.mem_append_left _ (List.mem_append_right _ (List.mem_singleton_self name))

/-- The place of a path that is accepted. -/
theorem safeJoin_of_names (root : Text) (hcomponents : componentsOf relative = cs) (hne : cs ≠ [])
    (hcs : ∀ c ∈ cs, IsName c) :
    safeJoin root relative = .ok (lead root ++ Text.join [slash] cs) := by
  refine safeJoin_eq_ok_iff.mpr ⟨cs, ?_, rfl⟩
  rw [safeComponents?_eq, hcomponents, if_neg]
  rintro (hnil | hhead)
  · exact hne hnil
  · exact (hcs up (List.mem_of_head? hhead)).2.2.1 rfl

/-- Paths that come to nothing or begin upwards are refused. -/
theorem safeJoin_of_not_names (root : Text)
    (h : componentsOf relative = [] ∨ (componentsOf relative).head? = some up) :
    safeJoin root relative = .error ⟨relative⟩ := by
  rw [safeJoin, safeComponents?_eq, if_pos h]

/-- A path is accepted or refused.  One that is accepted comes to names, at least one, and they
stand behind the directory; none of them holds a slash or a backslash, and from every directory on
the path leads along them.  One is refused if it leads from some directory to the directory itself
or out of it, and then it does so from every directory whose own name is not a component of the
path: only through this name is there a way back, as for `../out/x` from `out`, and the path is
refused all the same. -/
theorem safeJoin_confined (root relative : Text) :
    ((∃ cs, cs ≠ [] ∧ (∀ c ∈ cs, IsName c ∧ CodePoint.ofChar '\\' ∉ c) ∧
        safeJoin root relative = .ok (lead root ++ Text.join [slash] cs) ∧
        ∀ base, destination base relative = base ++ cs) ∨
      safeJoin root relative = .error ⟨relative⟩) ∧
    (safeJoin root relative = .error ⟨relative⟩ ↔
      ∃ base, (∀ c ∈ base, IsName c) ∧ ¬IsBelow base (destination base relative)) ∧
    ∀ base name, name ∉ segments relative →
      (safeJoin root relative = .error ⟨relative⟩ ↔
        ¬IsBelow (base ++ [name]) (destination (base ++ [name]) relative)) := by
  obtain ⟨k, names, hcomponents, hnames, hmem, hdestination⟩ := exists_destination relative
  obtain ⟨fresh, hfresh, hfreshMem⟩ := exists_isName_notMem relative
  by_cases haccepted : k = 0 ∧ names ≠ []
  · -- the path leads along the names
    obtain ⟨rfl, hne⟩ := haccepted
    have hdestination : ∀ base, destination base relative = base ++ names := fun base => by
      rw [hdestination, Nat.sub_zero, List.take_length]
    have hbelow : ∀ base, IsBelow base (destination base relative) := fun base =>
      ⟨names, hne, hdestination base⟩
    have hok := safeJoin_of_names root hcomponents hne hnames
    have hnotError : safeJoin root relative ≠ .error ⟨relative⟩ := by
      rw [hok]
      exact nofun
    refine ⟨Or.inl ⟨names, hne, fun c hc => ⟨hnames c hc, backslash_notMem (hmem c hc)⟩, hok,
      hdestination⟩, ?_, fun base name _ => ?_⟩
    · exact iff_of_false hnotError fun ⟨base, _, hnot⟩ => hnot (hbelow base)
    · exact iff_of_false hnotError (not_not_intro (hbelow _))
  · -- it ends at the directory or above it
    have hnotBelow : ∀ base name, name ∉ segments relative →
        ¬IsBelow (base ++ [name]) (destination (base ++ [name]) relative) := by
      intro base name hname
      rw [hdestination]
      cases k with
      | zero =>
        obtain rfl : names = [] := not_not.mp fun hne => haccepted ⟨rfl, hne⟩
        rintro ⟨rest, hrest, heq⟩
        rw [Nat.sub_zero, List.take_length, List.append_cancel_left_eq] at heq
        exact hrest heq.symm
      | succ k => exact not_isBelow_of_up base k fun h => hname (hmem name h)
    have herror : safeJoin root relative = .error ⟨relative⟩ := by
      refine safeJoin_of_not_names root ?_
      rw [hcomponents]
      cases k with
      | zero => exact Or.inl (not_not.mp fun hne => haccepted ⟨rfl, hne⟩)
      | succ k => exact Or.inr rfl
    refine ⟨Or.inr herror, iff_of_true herror ⟨[fresh], ?_, hnotBelow [] fresh hfreshMem⟩,
      fun base name hname => iff_of_true herror (hnotBelow base name hname)⟩
    exact fun c hc => List.mem_singleton.mp hc ▸ hfresh

/-- A path that leaves the directory and comes back through its name is refused, as from a directory
of another name it does not come back. -/
theorem safeJoin_confined_out :
    Text.ofString "w" ∉ segments "../out\\x.js" ∧
      safeJoin "out" "../out\\x.js" = .error ⟨"../out\\x.js"⟩ := by
  have hname : Text.ofString "w" ∉ segments "../out\\x.js" := by decide
  refine ⟨hname, ((safeJoin_confined "out" "../out\\x.js").2.2 [] "w" hname).mpr ?_⟩
  rintro ⟨names, -, heq⟩
  have hhead : (destination ["w"] "../out\\x.js").head? = some "w" := congrArg List.head? heq
  exact absurd hhead (by decide)

end Path
end Debundle
