import Debundle.Text.Basic

/-!
# Tables

A table holds values under texts and keeps the order in which the texts first came.  Putting a
value under a text that is there replaces the value in its place.

* `Table.get?`, `Table.insert`, `Table.keys`: looking up, putting, and the texts in order.
* `Table.insertNew`: putting a value only if there is none.
* `Table.get?_insert_self`, `Table.get?_insert_of_ne`, `Table.keys_insert_of_mem`,
  `Table.keys_insert_of_not_mem`: what putting does to the values and to the order.
-/

namespace Debundle

/-- Values under texts, in the order in which the texts first came. -/
abbrev Table (α : Type) := List (Text × α)

namespace Table

variable {α : Type}

/-- The value under a text. -/
def get? (t : Table α) (key : Text) : Option α :=
  match t with
  | [] => none
  | (k, v) :: rest => if k = key then some v else get? rest key

/-- Whether there is a value under a text. -/
def has (t : Table α) (key : Text) : Bool := (t.get? key).isSome

/-- The texts in order. -/
def keys (t : Table α) : List Text := t.map Prod.fst

/-- Puts a value under a text: in its place if it is there, at the end otherwise. -/
def insert (key : Text) (value : α) : Table α → Table α
  | [] => [(key, value)]
  | (k, v) :: rest => if k = key then (k, value) :: rest else (k, v) :: insert key value rest

/-- Puts a value under a text unless there is one. -/
def insertNew (key : Text) (value : α) (t : Table α) : Table α :=
  if t.has key then t else t.insert key value

/-- Puts all entries of another table, in order. -/
def insertAll (t more : Table α) : Table α := more.foldl (fun t e => insert e.1 e.2 t) t

@[simp] theorem get?_insert_self (t : Table α) (key : Text) (value : α) :
    (insert key value t).get? key = some value := by
  induction t with
  | nil => simp [insert, get?]
  | cons e rest ih =>
    obtain ⟨k, v⟩ := e
    by_cases h : k = key <;> simp [insert, get?, h, ih]

theorem get?_insert_of_ne (t : Table α) {key other : Text} (value : α) (h : other ≠ key) :
    (insert key value t).get? other = t.get? other := by
  induction t with
  | nil => simp [insert, get?, Ne.symm h]
  | cons e rest ih =>
    obtain ⟨k, v⟩ := e
    by_cases hk : k = key
    · simp [insert, get?, hk, Ne.symm h]
    · simp [insert, if_neg hk, get?, ih]

theorem has_iff_mem_keys (t : Table α) (key : Text) : t.has key = true ↔ key ∈ t.keys := by
  induction t with
  | nil => simp [has, get?, keys]
  | cons e rest ih =>
    obtain ⟨k, v⟩ := e
    by_cases h : k = key
    · simp [has, get?, keys, h]
    · simp only [has, get?, h, if_false, keys, List.map_cons, List.mem_cons] at ih ⊢
      rw [ih]
      simp [Ne.symm h]

theorem keys_insert_of_mem {t : Table α} {key : Text} (value : α) (h : key ∈ t.keys) :
    (insert key value t).keys = t.keys := by
  induction t with
  | nil => simp [keys] at h
  | cons e rest ih =>
    obtain ⟨k, v⟩ := e
    by_cases hk : k = key
    · simp [insert, keys, hk]
    · simp only [keys, List.map_cons, List.mem_cons] at h
      have h' : key ∈ keys rest := h.resolve_left fun e => hk e.symm
      simp only [insert, hk, if_false, keys, List.map_cons] at ih ⊢
      rw [ih h']

theorem keys_insert_of_not_mem {t : Table α} {key : Text} (value : α) (h : key ∉ t.keys) :
    (insert key value t).keys = t.keys ++ [key] := by
  induction t with
  | nil => simp [insert, keys]
  | cons e rest ih =>
    obtain ⟨k, v⟩ := e
    simp only [keys, List.map_cons, List.mem_cons, not_or] at h
    have hk : ¬k = key := fun e => h.1 e.symm
    simp only [insert, hk, if_false, keys, List.map_cons, List.cons_append] at ih ⊢
    rw [ih h.2]

end Table

end Debundle
