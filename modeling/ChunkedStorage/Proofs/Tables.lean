import Mathlib.Data.List.Basic

/-!
# Tables

Lists of keys with values, in which the first value of a key holds: what is found after an entry is put in front
(`lookup_cons_eq`), after a key is taken out (`lookup_filter_ne`), and after the values of a key are changed
(`lookup_map_at`).
-/

namespace ChunkedStorage.Tables

variable {κ ν : Type} [BEq κ] [LawfulBEq κ] [DecidableEq κ]

theorem lookup_cons_eq (table : List (κ × ν)) (key : κ) (value : ν) (k : κ) :
    ((key, value) :: table).lookup k = if k = key then some value else table.lookup k := by
  rw [List.lookup_cons]
  by_cases hk : k = key
  · simp [hk]
  · rw [beq_false_of_ne hk, if_neg hk]

theorem lookup_filter_ne (table : List (κ × ν)) (key k : κ) :
    (table.filter fun e => e.1 ≠ key).lookup k = if k = key then none else table.lookup k := by
  induction table with
  | nil => simp
  | cons e rest ih =>
    obtain ⟨key', value⟩ := e
    by_cases hkey : key' = key
    · subst hkey
      rw [List.filter_cons_of_neg (by simp), ih, lookup_cons_eq]
      split <;> rfl
    · rw [List.filter_cons_of_pos (by simpa using hkey), lookup_cons_eq, lookup_cons_eq, ih]
      by_cases hk : k = key'
      · simp [hk, hkey]
      · simp [hk]

theorem lookup_map_at (table : List (κ × ν)) (key : κ) (change : ν → ν) (k : κ) :
    (table.map fun e => if e.1 = key then (e.1, change e.2) else e).lookup k =
      if k = key then (table.lookup key).map change else table.lookup k := by
  induction table with
  | nil => simp
  | cons e rest ih =>
    obtain ⟨key', value⟩ := e
    rw [List.map_cons]
    by_cases hkey : key' = key
    · subst hkey
      rw [if_pos rfl, lookup_cons_eq, lookup_cons_eq, lookup_cons_eq, ih]
      by_cases hk : k = key'
      · simp [hk]
      · simp [hk]
    · rw [if_neg hkey, lookup_cons_eq, lookup_cons_eq, lookup_cons_eq, ih]
      by_cases hk : k = key'
      · simp [hk, hkey]
      · simp [hk, Ne.symm hkey]

end ChunkedStorage.Tables
