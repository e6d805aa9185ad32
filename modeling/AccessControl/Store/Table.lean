/-!
Tables of rows in order of insertion, one row to a key.
-/

namespace AccessControl

class Keyed (ρ : Type) where
  key : ρ → String

open Keyed (key)

structure Table (ρ : Type) [Keyed ρ] where
  rows : List ρ
  nodup : (rows.map key).Nodup
deriving DecidableEq

namespace Table

variable {ρ : Type} [Keyed ρ]

def empty : Table ρ := ⟨[], by simp⟩

/-- A row takes the place of the row with its key, or stands last. -/
def upsert (row : ρ) : List ρ → List ρ
  | [] => [row]
  | r :: rest => if key r = key row then row :: rest else r :: upsert row rest

theorem mem_map_key_upsert {row : ρ} {rows : List ρ} {k : String} :
    k ∈ (upsert row rows).map key ↔ k = key row ∨ k ∈ rows.map key := by
  induction rows with
  | nil => simp [upsert]
  | cons r rest ih =>
    by_cases h : key r = key row
    · simp [upsert, h]
    · simp only [upsert, h, if_false, List.map_cons, List.mem_cons, ih]
      exact or_left_comm

theorem nodup_upsert {row : ρ} {rows : List ρ} (h : (rows.map key).Nodup) :
    ((upsert row rows).map key).Nodup := by
  induction rows with
  | nil => simp [upsert]
  | cons r rest ih =>
    rw [List.map_cons, List.nodup_cons] at h
    by_cases hk : key r = key row
    · rw [upsert, if_pos hk, List.map_cons, List.nodup_cons, ← hk]
      exact h
    · rw [upsert, if_neg hk, List.map_cons, List.nodup_cons, mem_map_key_upsert]
      exact ⟨not_or.2 ⟨hk, h.1⟩, ih h.2⟩

def insert (t : Table ρ) (row : ρ) : Table ρ :=
  ⟨upsert row t.rows, nodup_upsert t.nodup⟩

def filter (t : Table ρ) (p : ρ → Bool) : Table ρ :=
  ⟨t.rows.filter p, t.nodup.sublist (t.rows.filter_sublist.map key)⟩

def get? (t : Table ρ) (k : String) : Option ρ :=
  t.rows.find? fun r => key r = k

def contains (t : Table ρ) (k : String) : Bool :=
  (t.get? k).isSome

def erase (t : Table ρ) (k : String) : Table ρ :=
  t.filter fun r => key r ≠ k

end Table

end AccessControl
