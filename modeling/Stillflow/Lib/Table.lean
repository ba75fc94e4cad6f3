import Stillflow.Lib.Keyed

/-!
Tables with a primary key: lists of rows in insertion order in which no key occurs twice.
-/

namespace Lib

class HasKey (ρ : Type) (κ : outParam Type) where
  key : ρ → κ

structure Table (ρ : Type) {κ : Type} [HasKey ρ κ] where
  rows : List ρ
  nodup : (rows.map HasKey.key).Nodup

namespace Table

open HasKey

variable {ρ κ : Type} [HasKey ρ κ]

def empty : Table ρ := ⟨[], List.nodup_nil⟩

def map (table : Table ρ) (f : ρ → ρ) (h : ∀ row, key (f row) = key row) : Table ρ where
  rows := table.rows.map f
  nodup := by
    rw [List.map_map, funext h (f := key ∘ f)]
    exact table.nodup

@[simp] theorem rows_map (table : Table ρ) (f : ρ → ρ) (h : ∀ row, key (f row) = key row) :
    (table.map f h).rows = table.rows.map f := rfl

variable [DecidableEq κ] {table : Table ρ}

def find? (table : Table ρ) (k : κ) : Option ρ := table.rows.find? (key · == k)

theorem find?_eq_some {k : κ} {row : ρ} :
    table.find? k = some row ↔ row ∈ table.rows ∧ key row = k :=
  Keyed.find?_eq_some_iff key table.nodup

theorem find?_eq_none {k : κ} : table.find? k = none ↔ ∀ row ∈ table.rows, key row ≠ k := by
  simp [find?]

theorem key_of_find? {k : κ} {row : ρ} (h : table.find? k = some row) :
    key row = k := (find?_eq_some.mp h).2

theorem find?_map (table : Table ρ) (f : ρ → ρ) (h : ∀ row, key (f row) = key row) (k : κ) :
    (table.map f h).find? k = (table.find? k).map f := by
  unfold find?
  rw [rows_map, List.find?_map]
  congr 2
  funext row
  rw [Function.comp_apply, h]

/-- An update of the one row with the given key. -/
def modify (table : Table ρ) (k : κ) (f : ρ → ρ) (h : ∀ row, key (f row) = key row) : Table ρ :=
  table.map (fun row => if key row = k then f row else row) fun row => by
    split
    · exact h row
    · rfl

theorem find?_modify (table : Table ρ) (k : κ) (f : ρ → ρ) (h : ∀ row, key (f row) = key row)
    (k' : κ) :
    (table.modify k f h).find? k' = if k' = k then (table.find? k').map f else table.find? k' := by
  rw [modify, find?_map]
  cases hrow : table.find? k' with
  | none => simp
  | some row =>
    rw [Option.map_some, key_of_find? hrow]
    split <;> rfl

/-- Appends a row unless its key is taken. -/
def insert? (table : Table ρ) (row : ρ) : Option (Table ρ) :=
  if h : table.find? (key row) = none then
    some {
      rows := table.rows ++ [row]
      nodup := by
        rw [List.map_append, List.map_singleton, List.nodup_append]
        refine ⟨table.nodup, List.nodup_singleton _, ?_⟩
        intro k hk k' hk' heq
        rw [List.mem_singleton] at hk'
        obtain ⟨row', hmem, hkey⟩ := List.mem_map.mp hk
        exact find?_eq_none.mp h row' hmem (by rw [hkey, heq, hk']) }
  else none

theorem insert?_eq_some {table' : Table ρ} {row : ρ} :
    table.insert? row = some table' ↔
      table.find? (key row) = none ∧ table'.rows = table.rows ++ [row] := by
  unfold insert?
  split_ifs with h
  · rw [Option.some.injEq]
    constructor
    · rintro rfl
      exact ⟨h, rfl⟩
    · intro hrows
      cases table'
      exact (Table.mk.injEq _ _ _ _).mpr hrows.2.symm
  · exact ⟨fun heq => (by cases heq), fun hrows => absurd hrows.1 h⟩

theorem find?_insert? {table' : Table ρ} {row : ρ} (h : table.insert? row = some table') (k : κ) :
    table'.find? k = if k = key row then some row else table.find? k := by
  obtain ⟨hnone, hrows⟩ := insert?_eq_some.mp h
  split_ifs with hk
  · rw [hk, find?_eq_some, hrows]
    exact ⟨List.mem_append_right _ (List.mem_singleton_self row), rfl⟩
  · unfold find?
    rw [hrows, List.find?_append, List.find?_singleton]
    have hne : (key row == k) = false := beq_false_of_ne (Ne.symm hk)
    rw [hne]
    cases List.find? _ table.rows <;> rfl

end Table

end Lib
