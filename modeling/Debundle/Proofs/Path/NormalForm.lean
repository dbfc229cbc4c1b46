import Debundle.Proofs.Path.Confinement
import Debundle.Proofs.Forest.Placing

/-!
# Normal forms

A path in normal form says where it leads in the only way left: `.`, or up so many times and then
down along names, from the root down only.  The normal form of every path is such a path, and such a
path is its own normal form, so nothing changes when a path is normalised again.  Where a path leads
depends on what its components come to, and that does not change either.

A path that begins with `./` or `../` asks for a module beside the one that asks.  Its normal form
may begin with a name; the sign that it is relative is put back then, so the forest takes the path
as evidence about both modules.

* `Path.IsNormal`: the paths in normal form.
* `Path.isNormal_normalKeepingSlash`, `Path.IsNormal.normalKeepingSlash_eq`: the normal form of a
  path is one of these paths, and these paths are their own normal forms.
* `Path.arrival`, `Path.arrival_normalKeepingSlash`: a path and its normal form lead to one place.
* `Path.normalRequire_normalRequire`, `Path.startsWith_normalRequire`: the paths by which modules
  ask.
* `Path.normalKeepingSlash_keepsMeaning`: all of this.
-/

namespace Debundle
namespace Path

variable {path : Text} {cs names base : List Text} {rooted trailing : Bool} {k : Nat}

/-! ## Paths in normal form -/

/-- Paths in normal form: the directory itself, with a slash at its end or without; and a path up
and then down along names, or from the root down, with a slash at its end or without.  The slash of
the root alone is the one in front. -/
inductive IsNormal : Text → Prop
  | here : IsNormal "."
  | hereSlash : IsNormal "./"
  | root : IsNormal "/"
  | way (rooted : Bool) (k : Nat) (names : List Text) (trailing : Bool) :
    (rooted = true → k = 0) → (∀ c ∈ names, IsName c) → List.replicate k up ++ names ≠ [] →
    IsNormal ((if rooted then [slash] else []) ++
      Text.join [slash] (List.replicate k up ++ names) ++ if trailing then [slash] else [])

/-- Paths in normal form are written of components that come to nothing less. -/
theorem isNormal_iff : IsNormal path ↔
    ∃ rooted cs trailing, IsResolved rooted cs ∧ path = written rooted cs trailing := by
  have hnil : ∀ rooted, IsResolved rooted [] := fun _ =>
    ⟨0, [], rfl, fun _ hc => absurd hc List.not_mem_nil, fun _ => rfl⟩
  constructor
  · rintro (_ | _ | _ | ⟨rooted, k, names, trailing, hrooted, hnames, hne⟩)
    · exact ⟨false, [], false, hnil false, rfl⟩
    · exact ⟨false, [], true, hnil false, rfl⟩
    · exact ⟨true, [], false, hnil true, rfl⟩
    · refine ⟨rooted, _, trailing, ⟨k, names, rfl, hnames, hrooted⟩, ?_⟩
      have hshown : shown rooted (List.replicate k up ++ names) = List.replicate k up ++ names :=
        if_neg fun h => hne h.1
      rw [written, hshown]
      simp [hne]
  · rintro ⟨rooted, cs, trailing, ⟨k, names, rfl, hnames, hrooted⟩, rfl⟩
    by_cases hne : List.replicate k up ++ names = []
    · rw [hne]
      cases rooted <;> cases trailing
      exacts [.here, .hereSlash, .root, .root]
    · have hshown : shown rooted (List.replicate k up ++ names) = List.replicate k up ++ names :=
        if_neg fun h => hne h.1
      have hway := IsNormal.way rooted k names trailing hrooted hnames hne
      rw [written, hshown]
      simpa [hne] using hway

theorem isNormal_normalKeepingSlash (path : Text) : IsNormal (normalKeepingSlash path) :=
  isNormal_iff.mpr ⟨_, _, _, isResolved_resolve_split path, normalKeepingSlash_eq_written path⟩

/-! ## Resolving again -/

/-- Components that come to nothing less stay as they are. -/
theorem IsResolved.resolve_eq (h : IsResolved rooted cs) : resolve rooted cs = cs := by
  obtain ⟨k, names, rfl, hnames, hrooted⟩ := h
  have hups : (List.replicate k up).foldl (push rooted) [] = List.replicate k up := by
    cases rooted with
    | true =>
      rw [hrooted rfl]
      rfl
    | false => exact (foldl_push_ups_start k 0).trans (by rw [Nat.zero_add])
  rw [resolve, List.foldl_append, hups, foldl_push_names hnames, List.reverse_append,
    List.reverse_reverse, List.reverse_replicate]

/-- The components of a written path come to those of which it is written. -/
theorem resolve_split_written (h : IsResolved rooted cs) :
    resolve rooted (Text.split slash (written rooted cs trailing)) = cs := by
  have hempty : ∀ (b : Prop) [Decidable b] (stack : List Text),
      (if b then [[]] else []).foldl (push rooted) stack = stack := by
    intro b _ stack
    split <;> rfl
  have hshown : (if shown rooted cs = [] then [[]] else shown rooted cs).foldl (push rooted) [] =
      cs.foldl (push rooted) [] := by
    unfold shown
    split
    · rename_i hnil
      rw [hnil.1]
      rfl
    · split
      · rename_i hnil
        rw [hnil]
        rfl
      · rfl
  have hfirst := hempty (rooted = true) []
  rw [resolve, split_written h.isPiece, List.foldl_append, List.foldl_append, hfirst, hempty,
    hshown]
  exact h.resolve_eq

/-- A path in normal form is its own normal form. -/
theorem IsNormal.normalKeepingSlash_eq (h : IsNormal path) : normalKeepingSlash path = path := by
  obtain ⟨rooted, cs, trailing, hcs, rfl⟩ := isNormal_iff.mp h
  have hpieces := hcs.isPiece
  rw [normalKeepingSlash_eq_written, startsWith_written hpieces, endsWith_written hpieces,
    resolve_split_written hcs]
  by_cases hshown : shown rooted cs = []
  · simp [written, hshown]
  · have hroot : (rooted && cs.isEmpty) = false := by
      rw [Bool.and_eq_false_imp, List.isEmpty_eq_false_iff]
      exact fun hrooted hnil => hshown (shown_eq_nil_iff.mpr ⟨hrooted, hnil⟩)
    rw [hroot, Bool.or_false]

/-- A path and its normal form begin at one place, and their components come to the same. -/
theorem resolve_split_normalKeepingSlash (path : Text) :
    Text.startsWith (normalKeepingSlash path) "/" = Text.startsWith path "/" ∧
      resolve (Text.startsWith path "/") (Text.split slash (normalKeepingSlash path)) =
        resolve (Text.startsWith path "/") (Text.split slash path) := by
  have hresolved := isResolved_resolve_split path
  rw [normalKeepingSlash_eq_written]
  exact ⟨startsWith_written hresolved.isPiece, resolve_split_written hresolved⟩

/-! ## Where a path leads -/

/-- The place to which a path leads from a directory, component by component; a path that begins
with a slash begins at the root, and above the root there is nothing. -/
def arrival (base : List Text) (path : Text) : List Text :=
  (Text.split slash path).foldl (enter []) (if Text.startsWith path "/" then [] else base)

/-- Where a path leads depends on what its components come to. -/
theorem arrival_eq (base : List Text) (path : Text) :
    arrival base path = placeOf (if Text.startsWith path "/" then [] else base)
      (resolve (Text.startsWith path "/") (Text.split slash path)).reverse := by
  have hsplit : ∀ c ∈ Text.split slash path, slash ∉ c := fun _ hc => Text.notMem_of_mem_split hc
  have hnil : ∀ c ∈ ([] : List Text), IsName c := fun c hc => absurd hc List.not_mem_nil
  have hplace : ∀ base : List Text, placeOf base [] = base := fun base =>
    (placeOf_replicate base 0).trans List.take_length
  have hfold : ∀ (rooted : Bool) (base : List Text),
      (Text.split slash path).foldl (enter (if rooted then base else []))
          (placeOf base ([] ++ List.replicate 0 up)) =
        placeOf base ((Text.split slash path).foldl (push rooted) ([] ++ List.replicate 0 up)) :=
    fun _ _ => foldl_enter hsplit hnil fun _ => rfl
  simp only [List.nil_append, List.replicate_zero, hplace] at hfold
  rw [arrival, resolve, List.reverse_reverse]
  cases Text.startsWith path "/" with
  | true => exact hfold true []
  | false => exact hfold false base

/-- A path and its normal form lead to the same place. -/
theorem arrival_normalKeepingSlash (base : List Text) (path : Text) :
    arrival base (normalKeepingSlash path) = arrival base path := by
  obtain ⟨hstarts, hresolve⟩ := resolve_split_normalKeepingSlash path
  rw [arrival_eq, arrival_eq, hstarts, hresolve]

/-! ## Paths by which modules ask -/

/-- A path that begins with a point does not begin at the root. -/
theorem startsWith_slash_of_dot (h : Text.startsWith path "." = true) :
    Text.startsWith path "/" = false := by
  rw [Text.startsWith, List.isPrefixOf_iff_prefix] at h
  obtain ⟨rest, rfl⟩ := h
  rfl

/-- What begins with `./` or `../` begins with a point. -/
theorem startsWith_dot_of_relative
    (h : Text.startsWith path "./" = true ∨ Text.startsWith path "../" = true) :
    Text.startsWith path "." = true := by
  simp only [Text.startsWith, List.isPrefixOf_iff_prefix] at h ⊢
  rcases h with ⟨rest, rfl⟩ | ⟨rest, rfl⟩
  · exact ⟨"/" ++ rest, rfl⟩
  · exact ⟨"./" ++ rest, rfl⟩

/-- A point and a slash in front of a path do not change its normal form. -/
theorem normalKeepingSlash_relative (hroot : Text.startsWith path "/" = false) (hne : path ≠ []) :
    normalKeepingSlash ("./" ++ path) = normalKeepingSlash path := by
  have hslash : Text.ofString "./" = here ++ [slash] := rfl
  have hstarts : Text.startsWith ("./" ++ path) "/" = false := rfl
  have hends : Text.endsWith ("./" ++ path) "/" = Text.endsWith path "/" := by
    obtain ⟨v, b, rfl⟩ := (List.eq_nil_or_concat path).resolve_left hne
    simp [endsWith_slash, ← List.append_assoc]
  have hsplit : Text.split slash ("./" ++ path) = here :: Text.split slash path := by
    rw [hslash, List.append_assoc, List.singleton_append, Text.split_append (by decide)]
  rw [normalKeepingSlash_eq_written, normalKeepingSlash_eq_written path, hstarts, hends, hroot,
    hsplit, resolve, List.foldl_cons, push_here]
  rfl

/-- Normalising the path by which a module asks again changes nothing. -/
theorem normalRequire_normalRequire (path : Text) :
    normalRequire (normalRequire path) = normalRequire path := by
  have hnormal := (isNormal_normalKeepingSlash path).normalKeepingSlash_eq
  have hne := normalKeepingSlash_ne_nil path
  have hkept : ∀ t : Text, (Text.startsWith t "./" && !Text.startsWith t ".") = false := by
    intro t
    cases h : Text.startsWith t "./" with
    | false => rfl
    | true => rw [startsWith_dot_of_relative (Or.inl h)]; rfl
  unfold normalRequire
  simp only
  by_cases hrelative :
      (Text.startsWith path "./" && !Text.startsWith (normalKeepingSlash path) ".") = true
  · obtain ⟨hstarts, hdot⟩ := Bool.and_eq_true_iff.mp hrelative
    have hroot : Text.startsWith (normalKeepingSlash path) "/" = false := by
      rw [(resolve_split_normalKeepingSlash path).1]
      exact startsWith_slash_of_dot (startsWith_dot_of_relative (Or.inl hstarts))
    have hprefix : ∀ t : Text, Text.startsWith ("./" ++ t) "./" = true := fun t => by
      rw [Text.startsWith, List.isPrefixOf_iff_prefix]
      exact List.prefix_append _ _
    rw [if_pos hrelative, normalKeepingSlash_relative hroot hne, hnormal, hprefix, hdot]
    rfl
  · rw [if_neg hrelative, hnormal, hkept]
    rfl

/-- What leads upwards stays at the beginning, if nothing in front of it can be taken back. -/
theorem count_up_le_push (stack : List Text) (c : Text) :
    stack.count up ≤ (push false stack c).count up := by
  unfold push
  split
  · exact Nat.le_refl _
  · split
    · exact List.count_le_count_cons
    · split
      · exact Nat.zero_le _
      · split
        · exact List.count_le_count_cons
        · rename_i last below hlast
          rw [List.count_cons_of_ne (by simpa using hlast)]

theorem count_up_le_foldl_push (cs stack : List Text) :
    stack.count up ≤ (cs.foldl (push false) stack).count up := by
  induction cs generalizing stack with
  | nil => exact Nat.le_refl _
  | cons c cs ih => exact Nat.le_trans (count_up_le_push stack c) (ih _)

/-- The normal form of a path that begins upwards begins upwards. -/
theorem startsWith_normalKeepingSlash_up (h : Text.startsWith path "../" = true) :
    Text.startsWith (normalKeepingSlash path) "." = true := by
  have hroot := startsWith_slash_of_dot (startsWith_dot_of_relative (Or.inr h))
  obtain ⟨k, names, hresolve, hnames, -⟩ := isResolved_resolve_split path
  have hk : 0 < k := by
    have hslash : Text.ofString "../" = up ++ [slash] := rfl
    rw [Text.startsWith, List.isPrefixOf_iff_prefix, hslash] at h
    obtain ⟨rest, rfl⟩ := h
    have hcount := count_up_le_foldl_push (Text.split slash rest) [up]
    have hup : up ∉ names := fun hmem => (hnames up hmem).2.2.1 rfl
    rw [hroot, List.append_assoc, List.singleton_append, Text.split_append (by decide), resolve,
      List.foldl_cons, List.reverse_eq_iff] at hresolve
    rw [show push false [] up = [up] from rfl] at hresolve
    rw [hresolve, List.count_reverse, List.count_append, List.count_replicate_self,
      List.count_eq_zero_of_not_mem hup] at hcount
    simpa [Nat.one_le_iff_ne_zero, Nat.pos_iff_ne_zero] using hcount
  obtain ⟨k, rfl⟩ := Nat.exists_eq_add_of_lt hk
  rw [normalKeepingSlash_eq_written, hresolve, hroot, Nat.zero_add, List.replicate_succ,
    List.cons_append]
  cases List.replicate k up ++ names <;> rfl

/-- The path by which a module asks for another one beside it shows that it is relative. -/
theorem startsWith_normalRequire
    (h : Text.startsWith path "./" = true ∨ Text.startsWith path "../" = true) :
    Text.startsWith (normalRequire path) "." = true := by
  unfold normalRequire
  simp only
  by_cases hdot : Text.startsWith (normalKeepingSlash path) "." = true
  · rw [hdot, Bool.not_true, Bool.and_false, if_neg Bool.false_ne_true]
    exact hdot
  · have hhere : Text.startsWith path "./" = true :=
      h.resolve_right fun hup => hdot (startsWith_normalKeepingSlash_up hup)
    rw [hhere, Bool.eq_false_iff.mpr hdot]
    rfl

/-! ## Every path -/

/-- For every path: its normal form is a path in normal form, is its own normal form, and keeps a
slash at the end; from every directory both lead to the same place.  The path by which a module asks
is not changed by normalising it again; if it began with `./` or `../`, it begins with a point, and
the forest finds that it says something about the module that asks. -/
theorem normalKeepingSlash_keepsMeaning (path : Text) :
    normalKeepingSlash (normalKeepingSlash path) = normalKeepingSlash path ∧
    IsNormal (normalKeepingSlash path) ∧
    (Text.endsWith path "/" = true → Text.endsWith (normalKeepingSlash path) "/" = true) ∧
    (∀ base, arrival base (normalKeepingSlash path) = arrival base path) ∧
    normalRequire (normalRequire path) = normalRequire path ∧
    (Text.startsWith path "./" = true ∨ Text.startsWith path "../" = true →
      Text.startsWith (normalRequire path) "." = true ∧
        ∀ current target (f : Forest), (Forest.sides current target (normalRequire path)).Leaves f
          fun r _ => r ≠ .ok none) := by
  refine ⟨(isNormal_normalKeepingSlash path).normalKeepingSlash_eq,
    isNormal_normalKeepingSlash path, endsWith_normalKeepingSlash,
    fun base => arrival_normalKeepingSlash base path,
    normalRequire_normalRequire path, fun h => ?_⟩
  have hdot := startsWith_normalRequire h
  exact ⟨hdot, fun current target f => Forest.sides_relative hdot current target f⟩

/-- A path that comes back to the directory in which it begins, and goes down from there. -/
theorem roundabout_keepsMeaning : Text.startsWith "./a/..//b/" "./" = true ∧
    normalRequire "./a/..//b/" = "./b/" ∧ Text.startsWith (normalRequire "./a/..//b/") "." = true ∧
    arrival ["w"] (normalKeepingSlash "./a/..//b/") = ["w", "b"] := by
  have hstarts : Text.startsWith "./a/..//b/" "./" = true := by decide
  obtain ⟨-, -, -, harrival, -, hrelative⟩ := normalKeepingSlash_keepsMeaning "./a/..//b/"
  exact ⟨hstarts, by decide, (hrelative (Or.inl hstarts)).1, (harrival ["w"]).trans (by decide)⟩

end Path
end Debundle
