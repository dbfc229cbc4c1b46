import Debundle.Path.Location
import Mathlib.Data.List.Basic

/-!
# Paths and their components

A path that is written out of components can be taken apart again, as long as the components hold
no slash.  So what the normal form of a path is, and what its directory is, can be said in terms
of components.

* `Text.split_join`: joining and splitting.
* `IsName`: what a file or directory can be called.
* `Path.IsPiece`: what can stand between two slashes.
* `Path.normalKeepingSlash_join`: the normal form of a path in terms of its components.
* `Path.directoryOf_join`: the directory of a path in terms of its components.
-/

namespace Debundle

/-! ## Joining and splitting -/

namespace Text

variable {sep : CodePoint}

theorem split_of_notMem {t : Text} (ht : sep ∉ t) : split sep t = [t] := by
  induction t with
  | nil => rfl
  | cons c cs ih =>
    rw [List.mem_cons, not_or] at ht
    rw [split, if_neg (Ne.symm ht.1), ih ht.2]

theorem split_append {t : Text} (ht : sep ∉ t) (u : Text) :
    split sep (t ++ sep :: u) = t :: split sep u := by
  induction t with
  | nil => rw [List.nil_append, split, if_pos rfl]
  | cons c cs ih =>
    rw [List.mem_cons, not_or] at ht
    rw [List.cons_append, split, if_neg (Ne.symm ht.1), ih ht.2]

theorem join_cons {ts : List Text} (t : Text) (hts : ts ≠ []) :
    join [sep] (t :: ts) = t ++ sep :: join [sep] ts := by
  obtain ⟨u, us, rfl⟩ := List.exists_cons_of_ne_nil hts
  rw [join, List.append_assoc, List.singleton_append]

theorem join_append {ts us : List Text} (hts : ts ≠ []) (hus : us ≠ []) :
    join [sep] (ts ++ us) = join [sep] ts ++ sep :: join [sep] us := by
  induction ts with
  | nil => exact absurd rfl hts
  | cons t ts ih =>
    rcases eq_or_ne ts [] with rfl | hne
    · rw [List.singleton_append, join_cons t hus, join]
    · rw [List.cons_append, join_cons t (by simp [hne]), ih hne, join_cons t hne, List.append_assoc,
        List.cons_append]

/-- What was joined comes apart again. -/
theorem split_join {ts : List Text} (hne : ts ≠ []) (hts : ∀ t ∈ ts, sep ∉ t) :
    split sep (join [sep] ts) = ts := by
  induction ts with
  | nil => exact absurd rfl hne
  | cons t ts ih =>
    have ht := hts t List.mem_cons_self
    rcases eq_or_ne ts [] with rfl | hne
    · rw [join, split_of_notMem ht]
    · rw [join_cons t hne, split_append ht, ih hne fun u hu => hts u (List.mem_cons_of_mem _ hu)]

/-- A separator at the end makes an empty last piece. -/
theorem split_concat (t : Text) : split sep (t ++ [sep]) = split sep t ++ [[]] := by
  induction t with
  | nil => simp [split]
  | cons c cs ih =>
    rw [List.cons_append, split, split, ih]
    split
    · rfl
    · rcases h : split sep cs with _ | ⟨p, ps⟩
      · exact absurd h (split_ne_nil sep cs)
      · rfl

/-- Splitting takes nothing in. -/
theorem mem_of_mem_split {c : CodePoint} {t piece : Text} (hpiece : piece ∈ split sep t)
    (hc : c ∈ piece) : c ∈ t := by
  induction t generalizing piece with
  | nil =>
    rw [split, List.mem_singleton] at hpiece
    exact hpiece ▸ hc
  | cons a as ih =>
    rw [split] at hpiece
    split at hpiece
    · rcases List.mem_cons.mp hpiece with rfl | hpiece
      · exact absurd hc List.not_mem_nil
      · exact List.mem_cons_of_mem _ (ih hpiece hc)
    · split at hpiece
      · rename_i hnil
        exact absurd hnil (split_ne_nil sep as)
      · rename_i p ps hps
        rcases List.mem_cons.mp hpiece with rfl | hpiece
        · rcases List.mem_cons.mp hc with rfl | hc
          · exact List.mem_cons_self
          · exact List.mem_cons_of_mem _ (ih (hps ▸ List.mem_cons_self) hc)
        · exact List.mem_cons_of_mem _ (ih (hps ▸ List.mem_cons_of_mem _ hpiece) hc)

end Text

/-! ## Names -/

/-- A name that a file or directory can have: not empty, not one of the two that stand for other
directories, and without a slash. -/
def IsName (t : Text) : Prop := t ≠ [] ∧ t ≠ Path.here ∧ t ≠ Path.up ∧ Path.slash ∉ t

instance (t : Text) : Decidable (IsName t) := inferInstanceAs (Decidable (_ ∧ _))

/-- What can stand between two slashes. -/
def Path.IsPiece (t : Text) : Prop := t ≠ [] ∧ Path.slash ∉ t

instance (t : Text) : Decidable (Path.IsPiece t) := inferInstanceAs (Decidable (_ ∧ _))

theorem IsName.isPiece {t : Text} (ht : IsName t) : Path.IsPiece t := ⟨ht.1, ht.2.2.2⟩

namespace Path

theorem isPiece_here : IsPiece here := by decide

theorem isPiece_up : IsPiece up := by decide

/-! ## Resolving -/

theorem push_name {rooted : Bool} {stack : List Text} {c : Text} (hc : IsName c) :
    push rooted stack c = c :: stack := by
  simp [push, hc.1, hc.2.1, hc.2.2.1]

theorem push_here (rooted : Bool) (stack : List Text) : push rooted stack here = stack := by
  unfold push
  rw [if_pos (by decide)]

theorem foldl_push_names {rooted : Bool} {names : List Text} (hnames : ∀ c ∈ names, IsName c)
    (stack : List Text) : names.foldl (push rooted) stack = names.reverse ++ stack := by
  induction names generalizing stack with
  | nil => rfl
  | cons c cs ih =>
    rw [List.foldl_cons, push_name (hnames c List.mem_cons_self),
      ih fun d hd => hnames d (List.mem_cons_of_mem _ hd), List.reverse_cons, List.append_assoc,
      List.singleton_append]

/-- Going up takes names back. -/
theorem foldl_push_ups {rooted : Bool} (k : Nat) {stack : List Text}
    (hstack : ∀ c ∈ stack, IsName c) (hk : k ≤ stack.length) : (List.replicate k up).foldl (push rooted) stack = stack.drop k := by
  induction k generalizing stack with
  | zero => rfl
  | succ k ih =>
    cases stack with
    | nil => simp at hk
    | cons c cs =>
      have hpush : push rooted (c :: cs) up = cs := by
        have hc : c ≠ up := (hstack c List.mem_cons_self).2.2.1
        simp [push, hc, show up ≠ [] from by decide, show up ≠ here from by decide]
      rw [List.replicate_succ, List.foldl_cons, hpush, List.drop_succ_cons]
      exact ih (fun d hd => hstack d (List.mem_cons_of_mem _ hd)) (by simpa using hk)

/-- Going up from where nothing can be taken back stays in front. -/
theorem foldl_push_ups_start (k n : Nat) :
    (List.replicate k up).foldl (push false) (List.replicate n up) = List.replicate (n + k) up := by
  induction k generalizing n with
  | zero => rfl
  | succ k ih =>
    have hpush : push false (List.replicate n up) up = List.replicate (n + 1) up := by
      cases n with
      | zero => rfl
      | succ n =>
        simp [push, List.replicate_succ, show up ≠ [] from by decide,
          show up ≠ here from by decide]
    rw [List.replicate_succ, List.foldl_cons, hpush, ih, Nat.add_right_comm, Nat.add_assoc]

/-! ## Paths of pieces -/

/-- A normal form is never empty. -/
theorem normalKeepingSlash_ne_nil (path : Text) : normalKeepingSlash path ≠ [] := by
  have hnormal : normal path ≠ [] := by
    unfold normal
    simp only
    split
    · decide
    · rename_i h
      simpa using h
  unfold normalKeepingSlash
  split
  · decide
  · simp only
    split <;> split <;> simp [hnormal]


/-- A slash at the end is kept. -/
theorem endsWith_normalKeepingSlash {path : Text} (h : Text.endsWith path "/" = true) :
    Text.endsWith (normalKeepingSlash path) "/" = true := by
  have hne : path.isEmpty = false := by
    cases path with
    | nil => exact absurd h (by decide)
    | cons a as => rfl
  have hslash : ∀ t : Text,
      Text.endsWith (if !Text.endsWith t "/" then t ++ "/" else t) "/" = true := by
    intro t
    split
    · rw [Text.endsWith, List.isSuffixOf_iff_suffix]
      exact List.suffix_append _ _
    · rename_i hends
      simpa using hends
  rw [normalKeepingSlash, if_neg (by simp [hne])]
  simp only [h, Bool.true_and]
  exact hslash _

/-- A path of pieces begins with one and ends with one. -/
theorem join_pieces {ts : List Text} (hne : ts ≠ []) (hts : ∀ t ∈ ts, IsPiece t) :
    ∃ a u v b, Text.join [slash] ts = a :: u ∧ a ≠ slash ∧ Text.join [slash] ts = v ++ [b] ∧
      b ≠ slash := by
  induction ts with
  | nil => exact absurd rfl hne
  | cons t ts ih =>
    have ht := hts t List.mem_cons_self
    obtain ⟨a, u, rfl⟩ := List.exists_cons_of_ne_nil ht.1
    have ha : a ≠ slash := by
      rintro rfl
      exact ht.2 List.mem_cons_self
    rcases eq_or_ne ts [] with rfl | hne
    · refine ⟨a, u, (a :: u).dropLast, (a :: u).getLast ht.1, rfl, ha,
        (List.dropLast_append_getLast ht.1).symm, fun hb => ht.2 ?_⟩
      rw [← hb]
      exact List.getLast_mem ht.1
    · obtain ⟨-, -, v, b, -, -, hv, hb⟩ := ih hne fun t h => hts t (List.mem_cons_of_mem _ h)
      refine ⟨a, u ++ slash :: Text.join [slash] ts, (a :: u) ++ slash :: v, b, ?_, ha, ?_, hb⟩
      · rw [Text.join_cons _ hne, List.cons_append]
      · simp [Text.join_cons _ hne, hv]

theorem endsWith_join {ts : List Text} (hne : ts ≠ []) (hts : ∀ t ∈ ts, IsPiece t) :
    Text.endsWith (Text.join [slash] ts) "/" = false := by
  obtain ⟨-, -, v, b, -, -, hvb, hb⟩ := join_pieces hne hts
  have hslash : Text.ofString "/" = [slash] := rfl
  rw [Text.endsWith, hslash, hvb, ← Bool.not_eq_true, List.isSuffixOf_iff_suffix]
  rintro ⟨w, hw⟩
  exact hb (by simpa using (List.append_inj_right' hw rfl).symm)

theorem leadingSlashes_cons {a : CodePoint} (ha : a ≠ slash) (t : Text) :
    leadingSlashes (a :: t) = 0 := by
  cases t with
  | nil => rw [leadingSlashes, if_neg (by simpa using ha)]
  | cons b t => rw [leadingSlashes, if_pos (by simpa using ha)]

/-- The normal form of a path of pieces that come to other pieces. -/
theorem normalKeepingSlash_join {ts ds : List Text} (hne : ts ≠ []) (hts : ∀ t ∈ ts, IsPiece t)
    (hds : ds ≠ []) (hpieces : ∀ t ∈ ds, IsPiece t) (hresolve : resolve false ts = ds) :
    normalKeepingSlash (Text.join [slash] ts) = Text.join [slash] ds := by
  have hsplit := Text.split_join hne fun t ht => (hts t ht).2
  obtain ⟨a, u, -, -, hau, ha, -, -⟩ := join_pieces hne hts
  obtain ⟨a', u', -, -, hau', ha', -, -⟩ := join_pieces hds hpieces
  have hnormal : normal (Text.join [slash] ts) = Text.join [slash] ds := by
    have hzero : leadingSlashes (Text.join [slash] ts) = 0 := by
      rw [hau, leadingSlashes_cons ha]
    simp only [normal, hzero, hsplit, bne_self_eq_false, hresolve, List.replicate_zero,
      List.nil_append]
    rw [if_neg (by simp [hau'])]
  have hends := endsWith_join hne hts
  have hstarts : Text.startsWith (Text.join [slash] ds) "//" = false := by
    have hslashes : Text.ofString "//" = [slash, slash] := rfl
    rw [Text.startsWith, hslashes, hau', List.isPrefixOf, beq_eq_false_iff_ne.mpr (Ne.symm ha'),
      Bool.false_and]
  rw [normalKeepingSlash, if_neg (by simp [hau]), hnormal]
  simp only [hstarts, hends]
  simp

/-- The directory of a path is what its other components make. -/
theorem directoryOf_join {ts : List Text} (hne : ts ≠ []) (hts : ∀ t ∈ ts, IsPiece t) {base : Text}
    (hbase : IsPiece base) :
    directoryOf (Text.join [slash] (ts ++ [base])) = Text.join [slash] ts := by
  obtain ⟨a, u, v, b, hau, ha, hvb, hb⟩ := join_pieces hne hts
  have hhead : ((Text.join [slash] (ts ++ [base])).reverse.dropWhile (· != slash)).reverse =
      Text.join [slash] ts ++ [slash] := by
    have hdrop : ∀ c ∈ base.reverse, (c != slash) = true := by
      intro c hc
      rw [List.mem_reverse] at hc
      simpa using fun h : c = slash => hbase.2 (h ▸ hc)
    rw [Text.join_append hne (by simp), Text.join, List.reverse_append, List.reverse_cons,
      List.append_assoc, List.dropWhile_append_of_pos hdrop, List.singleton_append,
      List.dropWhile_cons_of_neg (by simp), List.reverse_cons, List.reverse_reverse]
  unfold directoryOf
  simp only [hhead]
  rw [if_neg (by simp [hau, ha]), Text.trimRight, hvb, List.reverse_append, List.reverse_append]
  simp [hb]

end Path
end Debundle
