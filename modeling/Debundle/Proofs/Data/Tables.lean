import Debundle.Data.Table
import Mathlib.Data.List.Nodup

/-!
# More on tables

What is under a text after each way of putting something into a table.  A table that was filled by
putting has every text once, and then looking up and being in the list are the same.

* `Table.get?_insert`, `Table.get?_insertNew`: looking up after putting.
* `Table.insert_comm`: putting under two texts that are there, in either order.
* `Table.mem_keys_insert`, `Table.mem_keys_insertAll`: the texts after putting.
* `Table.mem_iff_get?`: in a table that has every text once.
* `Table.get?_insertAll`: looking up after putting a whole table.
* `Table.map_insert`: putting, and changing all values by one rule.
* `Table.insertAll_insertAll`: putting a whole table twice is putting it once.
-/

namespace Debundle
namespace Table

variable {α : Type} {t more : Table α} {key other : Text} {value : α}

/-! ## Looking up -/

theorem get?_insert (t : Table α) (key other : Text) (value : α) :
    (insert key value t).get? other = if other = key then some value else t.get? other := by
  split
  · rename_i h
    rw [h, get?_insert_self]
  · rename_i h
    rw [get?_insert_of_ne t value h]

theorem get?_insertNew (t : Table α) (key other : Text) (value : α) :
    (insertNew key value t).get? other =
      if other = key then some ((t.get? key).getD value) else t.get? other := by
  unfold insertNew has
  rcases hkey : t.get? key with _ | v
  · rw [Option.isSome_none, if_neg (by simp), get?_insert, Option.getD_none]
  · rw [Option.isSome_some, if_pos rfl, Option.getD_some]
    split
    · rename_i h
      rw [h, hkey]
    · rfl

theorem get?_eq_none_iff (t : Table α) (key : Text) : t.get? key = none ↔ key ∉ t.keys := by
  rw [← has_iff_mem_keys, has, ← Option.isNone_iff_eq_none]
  simp

@[simp] theorem insert_insert (t : Table α) (key : Text) (u v : α) :
    insert key u (insert key v t) = insert key u t := by
  induction t with
  | nil => simp [insert]
  | cons e rest ih =>
    obtain ⟨k, w⟩ := e
    by_cases hk : k = key
    · simp [insert, hk]
    · simp [insert, hk, ih]

/-- Putting what is there changes nothing. -/
theorem insert_of_get? (h : t.get? key = some value) : insert key value t = t := by
  induction t with
  | nil => simp [get?] at h
  | cons e rest ih =>
    obtain ⟨k, w⟩ := e
    rw [get?] at h
    by_cases hk : k = key
    · rw [if_pos hk, Option.some_inj] at h
      rw [insert, if_pos hk, h]
    · rw [if_neg hk] at h
      rw [insert, if_neg hk, ih h]

/-- Putting under two texts that are there, in either order. -/
theorem insert_comm {u v : α} (hkey : key ∈ t.keys) (hne : key ≠ other) :
    insert key u (insert other v t) = insert other v (insert key u t) := by
  induction t with
  | nil => simp [keys] at hkey
  | cons e rest ih =>
    obtain ⟨k, w⟩ := e
    by_cases hk : k = key
    · subst hk
      simp [insert, hne]
    · have hrest : key ∈ keys rest := by
        simpa [keys, Ne.symm hk] using hkey
      by_cases ho : k = other
      · subst ho
        simp [insert, hk]
      · simp [insert, hk, ho, ih hrest]

/-- Changing all values by one rule commutes with putting. -/
theorem map_insert {β : Type} (f : α → β) (key : Text) (value : α) (t : Table α) :
    (insert key value t).map (fun e => (e.1, f e.2)) =
      insert key (f value) (t.map fun e => (e.1, f e.2)) := by
  induction t with
  | nil => rfl
  | cons e rest ih =>
    obtain ⟨k, v⟩ := e
    by_cases hk : k = key
    · simp [insert, hk]
    · simp only [insert, if_neg hk, List.map_cons, ih]

theorem get?_map {β : Type} (f : α → β) (t : Table α) (key : Text) :
    get? (t.map fun e => (e.1, f e.2)) key = (t.get? key).map f := by
  induction t with
  | nil => rfl
  | cons e rest ih =>
    obtain ⟨k, v⟩ := e
    by_cases hk : k = key
    · simp [get?, hk]
    · simp only [List.map_cons, get?, if_neg hk, ih]

theorem get?_append (t more : Table α) (key : Text) :
    get? (t ++ more) key = (t.get? key).or (more.get? key) := by
  induction t with
  | nil => rfl
  | cons e rest ih =>
    obtain ⟨k, v⟩ := e
    by_cases hk : k = key
    · simp [get?, hk]
    · simp only [List.cons_append, get?, if_neg hk, ih]

/-- A text that is not in the first part of a table is put into the second. -/
theorem insert_append_of_notMem (hkey : key ∉ t.keys) (value : α) (more : Table α) :
    insert key value (t ++ more) = t ++ insert key value more := by
  induction t with
  | nil => rfl
  | cons e rest ih =>
    obtain ⟨k, v⟩ := e
    obtain ⟨hk, hrest⟩ : key ≠ k ∧ key ∉ keys rest := by simpa [keys] using hkey
    rw [List.cons_append, insert, if_neg (Ne.symm hk), ih hrest, List.cons_append]

/-! ## The texts of a table -/

theorem mem_keys_insert : other ∈ (insert key value t).keys ↔ other = key ∨ other ∈ t.keys := by
  by_cases hkey : key ∈ t.keys
  · rw [keys_insert_of_mem value hkey]
    exact ⟨Or.inr, fun h => h.elim (fun heq => heq ▸ hkey) id⟩
  · rw [keys_insert_of_not_mem value hkey, List.mem_append, List.mem_singleton, or_comm]

theorem mem_keys_insertAll (t more : Table α) :
    key ∈ (t.insertAll more).keys ↔ key ∈ t.keys ∨ key ∈ more.keys := by
  unfold insertAll
  induction more generalizing t with
  | nil => simp [keys]
  | cons e rest ih =>
    have hcons : key ∈ keys (e :: rest) ↔ key = e.1 ∨ key ∈ keys rest := by simp [keys]
    rw [List.foldl_cons, ih, mem_keys_insert, hcons, or_comm (a := key = e.1), or_assoc]

/-- Putting under texts that are all there adds none. -/
theorem keys_insertAll_of_subset (h : more.keys ⊆ t.keys) : (t.insertAll more).keys = t.keys := by
  unfold insertAll
  induction more generalizing t with
  | nil => rfl
  | cons e rest ih =>
    have hfirst : e.1 ∈ t.keys := h (by simp [keys])
    have hkeys := keys_insert_of_mem e.2 hfirst
    rw [List.foldl_cons, ih, hkeys]
    rw [hkeys]
    exact fun k hk => h (List.mem_cons_of_mem _ hk)

/-! ## Tables that have every text once -/

theorem nodup_keys_insert (ht : t.keys.Nodup) (key : Text) (value : α) :
    (insert key value t).keys.Nodup := by
  by_cases hkey : key ∈ t.keys
  · rw [keys_insert_of_mem value hkey]
    exact ht
  · rw [keys_insert_of_not_mem value hkey]
    exact List.nodup_append.mpr ⟨ht, by simp, by
      rintro a ha b hb rfl
      exact hkey (List.mem_singleton.mp hb ▸ ha)⟩

theorem nodup_keys_insertAll (ht : t.keys.Nodup) (more : Table α) :
    (t.insertAll more).keys.Nodup := by
  unfold insertAll
  induction more generalizing t with
  | nil => exact ht
  | cons e rest ih => exact ih (nodup_keys_insert ht e.1 e.2)

theorem mem_of_get? (h : t.get? key = some value) : (key, value) ∈ t := by
  induction t with
  | nil => simp [get?] at h
  | cons e rest ih =>
    obtain ⟨k, v⟩ := e
    rw [get?] at h
    split at h
    · rename_i hk
      rw [hk, Option.some_inj.mp h]
      exact List.mem_cons_self
    · exact List.mem_cons_of_mem _ (ih h)

/-- Looking up finds what is in the table. -/
theorem mem_iff_get? (ht : t.keys.Nodup) : (key, value) ∈ t ↔ t.get? key = some value := by
  refine ⟨fun h => ?_, mem_of_get?⟩
  induction t with
  | nil => simp at h
  | cons e rest ih =>
    obtain ⟨k, v⟩ := e
    have hnodup : k ∉ keys rest ∧ (keys rest).Nodup := by simpa [keys] using ht
    rw [get?]
    rcases List.mem_cons.mp h with heq | hrest
    · obtain ⟨rfl, rfl⟩ := Prod.mk.inj heq
      rw [if_pos rfl]
    · have hne : k ≠ key := by
        rintro rfl
        exact hnodup.1 (List.mem_map_of_mem hrest)
      rw [if_neg hne, ih hnodup.2 hrest]

/-- What is found after putting a whole table came with it or was there. -/
theorem get?_insertAll (hmore : more.keys.Nodup) (t : Table α) (key : Text) :
    (t.insertAll more).get? key = (more.get? key).or (t.get? key) := by
  unfold insertAll
  induction more generalizing t with
  | nil => rfl
  | cons e rest ih =>
    obtain ⟨k, v⟩ := e
    have hnodup : k ∉ keys rest ∧ (keys rest).Nodup := by simpa [keys] using hmore
    rw [List.foldl_cons, ih hnodup.2, get?_insert, get?]
    by_cases hk : k = key
    · subst hk
      rw [(get?_eq_none_iff rest k).mpr hnodup.1, if_pos rfl, if_pos rfl]
      rfl
    · rw [if_neg (Ne.symm hk), if_neg hk]

/-- Of the values that are put under one text the last one stays. -/
theorem get?_insertAll_reverse (t more : Table α) (key : Text) :
    (t.insertAll more).get? key = (get? more.reverse key).or (t.get? key) := by
  unfold insertAll
  induction more generalizing t with
  | nil => rfl
  | cons e rest ih =>
    obtain ⟨k, v⟩ := e
    rw [List.foldl_cons, ih, get?_insert, List.reverse_cons, get?_append, Option.or_assoc]
    by_cases hk : k = key
    · simp [get?, hk]
    · simp [get?, hk, Ne.symm hk]

/-- A table that has every text once is known by its texts, in order, and what is under them. -/
theorem eq_of_keys_eq {u : Table α} (ht : t.keys.Nodup) (hkeys : u.keys = t.keys)
    (hget : ∀ key, u.get? key = t.get? key) : u = t := by
  induction t generalizing u with
  | nil => exact List.map_eq_nil_iff.mp hkeys
  | cons e rest ih =>
    obtain ⟨k, v⟩ := e
    rcases u with _ | ⟨⟨k', v'⟩, more⟩
    · simp [keys] at hkeys
    · obtain ⟨rfl, hrest⟩ : k' = k ∧ keys more = keys rest := by simpa [keys] using hkeys
      obtain ⟨hnot, hnodup⟩ : k' ∉ keys rest ∧ (keys rest).Nodup := by simpa [keys] using ht
      have hv : v' = v := by simpa [get?] using hget k'
      have hsame : more = rest := by
        refine ih hnodup hrest fun key => ?_
        by_cases hk : k' = key
        · subst hk
          rw [(get?_eq_none_iff rest k').mpr hnot, (get?_eq_none_iff more k').mpr (hrest ▸ hnot)]
        · simpa [get?, hk] using hget key
      rw [hv, hsame]

/-- Putting a whole table twice is putting it once. -/
theorem insertAll_insertAll (ht : t.keys.Nodup) (more : Table α) :
    (t.insertAll more).insertAll more = t.insertAll more := by
  have hsub : more.keys ⊆ (t.insertAll more).keys :=
    fun _ hk => (mem_keys_insertAll t more).mpr (Or.inr hk)
  refine eq_of_keys_eq (nodup_keys_insertAll ht more) (keys_insertAll_of_subset hsub) fun key => ?_
  rw [get?_insertAll_reverse, get?_insertAll_reverse]
  rcases get? more.reverse key with _ | v <;> rfl

end Table
end Debundle
