import Debundle.Proofs.Path.Target

/-!
# The components of a normal path

A path that is in normal form begins with all that leads upwards, and nothing but names follows; if
it begins with a slash, it has names alone.  A path that comes to nowhere else is `.`, or the slash.
So for every path it is known what stands in front of its last component.

* `Path.written`: a path with given components, from the root or not, perhaps with a slash at its
  end; `Path.split_written` gives the components back.
* `Path.normalKeepingSlash_eq_written`: the normal form of a path is written of what its components
  come to.
* `Path.split_normalKeepingSlash`: the components of the normal form of a path.
* `Path.exists_split_relative`: a relative path goes up, then down, and has something at its end.
* `Path.exists_split_dropLast`: in front of the last component, names follow what leads upwards.
-/

namespace Debundle
namespace Path

variable {path : Text} {cs : List Text}

/-! ## Slashes at the front -/

theorem leadingSlashes_eq_zero_iff : leadingSlashes path = 0 ↔ Text.startsWith path "/" = false := by
  cases path with
  | nil => exact iff_of_true rfl rfl
  | cons a t =>
    have hstarts : Text.startsWith (a :: t) "/" = (slash == a) := Bool.and_true _
    rw [hstarts, beq_eq_false_iff_ne]
    refine ⟨?_, fun ha => leadingSlashes_cons (Ne.symm ha) t⟩
    rintro h rfl
    cases t with
    | nil => exact absurd h (by decide)
    | cons b t =>
      rw [leadingSlashes, if_neg (by simp)] at h
      split at h <;> exact absurd h (by decide)

theorem leadingSlashes_le_two (path : Text) : leadingSlashes path ≤ 2 := by
  unfold leadingSlashes
  repeat' split
  all_goals decide

/-- A path of pieces does not begin with a slash. -/
theorem isPrefixOf_join (hcs : ∀ c ∈ cs, IsPiece c) (t : Text) :
    (slash :: t).isPrefixOf (Text.join [slash] cs) = false := by
  rcases eq_or_ne cs [] with rfl | hne
  · rfl
  · obtain ⟨a, u, -, -, hau, ha, -, -⟩ := join_pieces hne hcs
    rw [hau, List.isPrefixOf, beq_eq_false_iff_ne.mpr (Ne.symm ha), Bool.false_and]

/-! ## Slashes at both ends -/

theorem startsWith_slash (t : Text) : Text.startsWith t "/" = decide (t.head? = some slash) := by
  have hslash : Text.ofString "/" = [slash] := rfl
  cases t with
  | nil => rfl
  | cons a t => simp [Text.startsWith, hslash, List.isPrefixOf, eq_comm, beq_eq_decide]

theorem endsWith_slash (t : Text) : Text.endsWith t "/" = decide (t.getLast? = some slash) := by
  have hslash : Text.ofString "/" = [slash] := rfl
  rw [Text.endsWith, hslash, Bool.eq_iff_iff, List.isSuffixOf_iff_suffix, decide_eq_true_eq,
    List.getLast?_eq_some_iff]
  exact exists_congr fun _ => eq_comm

/-! ## Written paths -/

/-- The components that are written: a path to nowhere else that is not from the root is `.`. -/
def shown (rooted : Bool) (cs : List Text) : List Text :=
  if cs = [] ∧ rooted = false then [here] else cs

/-- A path in normal form: from the root or not, its components, and perhaps a slash at its end. -/
def written (rooted : Bool) (cs : List Text) (trailing : Bool) : Text :=
  (if rooted then [slash] else []) ++ Text.join [slash] (shown rooted cs) ++
    if trailing = true ∧ shown rooted cs ≠ [] then [slash] else []

variable {rooted trailing : Bool}

theorem isPiece_shown (hcs : ∀ c ∈ cs, IsPiece c) : ∀ c ∈ shown rooted cs, IsPiece c := by
  unfold shown
  split
  · exact fun c hc => List.mem_singleton.mp hc ▸ isPiece_here
  · exact hcs

/-- Nothing is written of the root alone. -/
theorem shown_eq_nil_iff : shown rooted cs = [] ↔ rooted = true ∧ cs = [] := by
  unfold shown
  cases rooted <;> by_cases hcs : cs = [] <;> simp [hcs]

/-- A written path begins with a slash if it is from the root. -/
theorem startsWith_written (hcs : ∀ c ∈ cs, IsPiece c) :
    Text.startsWith (written rooted cs trailing) "/" = rooted := by
  rw [startsWith_slash]
  cases rooted with
  | true => rfl
  | false =>
    have hne : shown false cs ≠ [] := fun h => Bool.false_ne_true (shown_eq_nil_iff.mp h).1
    obtain ⟨a, u, -, -, hau, ha, -, -⟩ := join_pieces hne (isPiece_shown hcs)
    simp [written, hau, ha]

/-- A written path ends with a slash if that is asked for, and if it is the root. -/
theorem endsWith_written (hcs : ∀ c ∈ cs, IsPiece c) :
    Text.endsWith (written rooted cs trailing) "/" = (trailing || (rooted && cs.isEmpty)) := by
  rw [endsWith_slash]
  by_cases hne : shown rooted cs = []
  · obtain ⟨rfl, rfl⟩ := shown_eq_nil_iff.mp hne
    cases trailing <;> rfl
  · have hroot : (rooted && cs.isEmpty) = false := by
      rw [Bool.and_eq_false_imp, List.isEmpty_eq_false_iff]
      exact fun hrooted hnil => hne (shown_eq_nil_iff.mpr ⟨hrooted, hnil⟩)
    obtain ⟨-, -, v, b, -, -, hvb, hb⟩ := join_pieces hne (isPiece_shown hcs)
    rw [hroot, Bool.or_false, written, hvb]
    cases trailing with
    | true => simp [hne]
    | false => simp [hb]

/-- The components of a written path. -/
theorem split_written (hcs : ∀ c ∈ cs, IsPiece c) :
    Text.split slash (written rooted cs trailing) =
      (if rooted then [[]] else []) ++ (if shown rooted cs = [] then [[]] else shown rooted cs) ++
        if trailing = true ∧ shown rooted cs ≠ [] then [[]] else [] := by
  have hjoin : Text.split slash (Text.join [slash] (shown rooted cs)) =
      if shown rooted cs = [] then [[]] else shown rooted cs := by
    split
    · rename_i hnil
      rw [hnil]
      rfl
    · rename_i hne
      exact Text.split_join hne fun c hc => (isPiece_shown hcs c hc).2
  have htail : Text.split slash (Text.join [slash] (shown rooted cs) ++
        if trailing = true ∧ shown rooted cs ≠ [] then [slash] else []) =
      (if shown rooted cs = [] then [[]] else shown rooted cs) ++
        if trailing = true ∧ shown rooted cs ≠ [] then [[]] else [] := by
    split
    · rw [Text.split_concat, hjoin]
    · rw [List.append_nil, List.append_nil, hjoin]
  rw [written, List.append_assoc, List.append_assoc, ← htail]
  cases rooted with
  | true => rw [if_pos rfl, if_pos rfl, List.singleton_append, Text.split, if_pos rfl]; rfl
  | false => rfl

/-! ## Normal paths -/

theorem isResolved_resolve_split (path : Text) : IsResolved (Text.startsWith path "/")
    (resolve (Text.startsWith path "/") (Text.split slash path)) :=
  isResolved_resolve fun _ hc => Text.notMem_of_mem_split hc

/-- The shortest path with the same meaning, with one slash at the front if it has any. -/
theorem normal_squeezed (path : Text) :
    (if Text.startsWith (normal path) "//" then slash :: (normal path).dropWhile (· == slash)
      else normal path) =
        written (Text.startsWith path "/")
          (resolve (Text.startsWith path "/") (Text.split slash path)) false := by
  have hrooted : (leadingSlashes path != 0) = Text.startsWith path "/" := by
    rw [Bool.eq_iff_iff, ← not_iff_not]
    simp [leadingSlashes_eq_zero_iff]
  have hpieces := (isResolved_resolve_split path).isPiece
  have hslashes : Text.ofString "//" = [slash, slash] := rfl
  unfold normal
  simp only [hrooted]
  generalize hcs : resolve (Text.startsWith path "/") (Text.split slash path) = cs at hpieces
  have hdrop : (Text.join [slash] cs).dropWhile (· == slash) = Text.join [slash] cs :=
    dropWhile_slashes 0 hpieces
  have hfront := isPrefixOf_join hpieces
  have hempty : (Text.join [slash] cs).isEmpty = decide (cs = []) := by
    rcases eq_or_ne cs [] with rfl | hne
    · rfl
    · obtain ⟨a, u, -, -, hau, -⟩ := join_pieces hne hpieces
      rw [hau]
      simp [hne]
  have hle := leadingSlashes_le_two path
  rw [← hrooted]
  generalize leadingSlashes path = k at hle
  obtain rfl | rfl | rfl : k = 0 ∨ k = 1 ∨ k = 2 := by omega
  · rcases eq_or_ne cs [] with rfl | hne
    · rfl
    · simp [hempty, hne, written, shown, Text.startsWith, hslashes, hfront]
  · simp [written, shown, Text.startsWith, hslashes, hfront]
  · simp [written, shown, Text.startsWith, hslashes, List.replicate_succ, hdrop]

/-- The normal form of a path. -/
theorem normalKeepingSlash_eq_written (path : Text) : normalKeepingSlash path =
    written (Text.startsWith path "/") (resolve (Text.startsWith path "/") (Text.split slash path))
      (Text.endsWith path "/") := by
  rcases eq_or_ne path [] with rfl | hne
  · rfl
  have hpieces := (isResolved_resolve_split path).isPiece
  unfold normalKeepingSlash
  rw [if_neg (by simpa using hne)]
  simp only [normal_squeezed, endsWith_written hpieces, Bool.false_or]
  generalize Text.startsWith path "/" = rooted
  generalize resolve rooted (Text.split slash path) = cs
  cases Text.endsWith path "/" with
  | false => rfl
  | true =>
    have hslash : Text.ofString "/" = [slash] := rfl
    have hshown : (rooted && cs.isEmpty) = decide (shown rooted cs = []) := by
      rw [Bool.eq_iff_iff, Bool.and_eq_true, List.isEmpty_iff, decide_eq_true_eq, shown_eq_nil_iff]
    rw [hshown, written, written, hslash]
    by_cases h : shown rooted cs = [] <;> simp [h]

/-- The components of the normal form of a path that does not end with a slash. -/
theorem split_normalKeepingSlash (hends : Text.endsWith path "/" = false) :
    ∃ cs, IsResolved (Text.startsWith path "/") cs ∧
      Text.split slash (normalKeepingSlash path) =
        if Text.startsWith path "/" then [] :: if cs = [] then [[]] else cs
        else if cs = [] then [here] else cs := by
  have hresolved := isResolved_resolve_split path
  refine ⟨_, hresolved, ?_⟩
  rw [normalKeepingSlash_eq_written, split_written hresolved.isPiece, hends]
  cases Text.startsWith path "/" with
  | true => simp [shown]
  | false => simp [shown]; split <;> simp_all

/-- A relative path goes up some levels, then down through directories, and then comes the last
component, which may be anything. -/
theorem exists_split_relative (hends : Text.endsWith path "/" = false)
    (hroot : Text.startsWith path "/" = false) :
    ∃ ups dirs base,
      Text.split slash (normalKeepingSlash path) = List.replicate ups up ++ dirs ++ [base] ∧
        ∀ c ∈ dirs, IsName c := by
  obtain ⟨cs, ⟨k, names, rfl, hnames, -⟩, hsplit⟩ := split_normalKeepingSlash hends
  rw [hroot, if_neg Bool.false_ne_true] at hsplit
  rcases names.eq_nil_or_concat with rfl | ⟨dirs, base, rfl⟩
  · cases k with
    | zero => exact ⟨0, [], here, hsplit, by simp⟩
    | succ k =>
      refine ⟨k, [], up, ?_, by simp⟩
      rw [hsplit, if_neg (by simp [List.replicate_succ]), List.append_nil, List.append_nil,
        List.replicate_succ']
  · refine ⟨k, dirs, base, ?_, fun c hc => hnames c (by simp [hc])⟩
    rw [hsplit, if_neg (by simp), List.concat_eq_append, List.append_assoc]

/-- In front of the last component of a path stand, behind what leads upwards, components that do not
lead anywhere else; the one in front of a slash at the root is empty. -/
theorem exists_split_dropLast (hends : Text.endsWith path "/" = false) :
    ∃ ups dirs,
      (Text.split slash (normalKeepingSlash path)).dropLast = List.replicate ups up ++ dirs ∧
        ∀ c ∈ dirs, c ≠ here ∧ c ≠ up := by
  cases hroot : Text.startsWith path "/" with
  | false =>
    obtain ⟨ups, dirs, base, hsplit, hdirs⟩ := exists_split_relative hends hroot
    rw [hsplit, List.dropLast_concat]
    exact ⟨ups, dirs, rfl, fun c hc => ⟨(hdirs c hc).2.1, (hdirs c hc).2.2.1⟩⟩
  | true =>
    obtain ⟨cs, ⟨k, names, rfl, hnames, hk⟩, hsplit⟩ := split_normalKeepingSlash hends
    obtain rfl : k = 0 := hk hroot
    refine ⟨0, _, rfl, fun c hc => ?_⟩
    have hmem := List.dropLast_subset _ hc
    rw [hsplit, hroot, if_pos rfl, List.replicate_zero, List.nil_append] at hmem
    have hempty : ([] : Text) ≠ here ∧ ([] : Text) ≠ up := by decide
    rcases List.mem_cons.mp hmem with rfl | hmem
    · exact hempty
    · split at hmem
      · rw [List.mem_singleton.mp hmem]
        exact hempty
      · exact ⟨(hnames c hmem).2.1, (hnames c hmem).2.2.1⟩

end Path
end Debundle
