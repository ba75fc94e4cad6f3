import Stillflow.Lib.Keyed
import Stillflow.Core.Fields
import Stillflow.Engine.Error

/-! The engine's ordinal index over a schema and the policy that selects it. -/

namespace Stillflow.Engine

open Stillflow.Core Stillflow.Plan Lib.Keyed List

def useIndex (fieldCount servedLookups : Nat) : Bool :=
  let eighthThreshold := fieldCount / 8
  let threshold := if eighthThreshold < 32 then 32 else eighthThreshold
  servedLookups ≥ threshold

/-- `Vec::dedup_by_key` on the column id: later neighbours with an equal key are dropped. -/
def dedupByKey : List (ColumnId × Nat) → List (ColumnId × Nat)
  | [] => []
  | [entry] => [entry]
  | entry :: next :: rest =>
    if entry.1 = next.1 then dedupByKey (entry :: rest) else entry :: dedupByKey (next :: rest)
termination_by entries => entries.length

/-- Column ids with their positions, sorted by id, first occurrence kept. -/
def buildOrdinals (fields : List LogicalField) : List (ColumnId × Nat) :=
  dedupByKey ((fields.zipIdx.map fun entry => (entry.1.id, entry.2)).mergeSort
    fun a b => a.1 ≤ b.1)

/-- `binary_search_by_key` on the sorted table, with the ordinal of the entry it finds. -/
def searchOrdinal (entries : List (ColumnId × Nat)) (id : ColumnId) : Option Nat :=
  (entries.find? (·.1 == id)).map (·.2)

theorem dedupByKey_of_nodup {entries : List (ColumnId × Nat)}
    (h : (entries.map (·.1)).Nodup) : dedupByKey entries = entries := by
  induction entries with
  | nil => simp [dedupByKey]
  | cons entry entries ih =>
    cases entries with
    | nil => simp [dedupByKey]
    | cons next rest =>
      rw [map_cons, nodup_cons] at h
      have hne : entry.1 ≠ next.1 := by
        intro heq
        exact h.1 (by simp [heq])
      rw [dedupByKey, if_neg hne, ih h.2]

theorem find?_zipIdx (fields : List LogicalField) (id : ColumnId) (k : Nat) :
    ((fields.zipIdx k).map fun entry => (entry.1.id, entry.2)).find? (·.1 == id) =
      (fields.findIdx? (·.id == id)).map fun i => (id, k + i) := by
  induction fields generalizing k with
  | nil => simp
  | cons f fs ih =>
    by_cases hf : f.id = id
    · simp [hf, findIdx?_cons]
    · simp [hf, findIdx?_cons, ih, Function.comp_def, Nat.add_assoc, Nat.add_comm 1]

/-- On a schema with unique column ids the index finds the position the linear scan finds. -/
theorem searchOrdinal_buildOrdinals {fields : List LogicalField}
    (hn : (fields.map (·.id)).Nodup) (id : ColumnId) :
    searchOrdinal (buildOrdinals fields) id = fields.findIdx? (·.id == id) := by
  set pairs := fields.zipIdx.map fun entry => (entry.1.id, entry.2) with hpairs
  have hkeys : pairs.map (·.1) = fields.map (·.id) := by
    rw [hpairs, map_map]
    change fields.zipIdx.map (LogicalField.id ∘ Prod.fst) = _
    rw [← map_map, zipIdx_map_fst]
  have hsorted : (pairs.mergeSort fun a b => a.1 ≤ b.1).Perm pairs := mergeSort_perm _ _
  have hnodup : (pairs.map (·.1)).Nodup := hkeys ▸ hn
  have hnodup' := (hsorted.map (·.1)).nodup_iff.mpr hnodup
  rw [searchOrdinal, buildOrdinals, ← hpairs, dedupByKey_of_nodup hnodup',
    find?_perm Prod.fst hsorted hnodup', hpairs, find?_zipIdx, Option.map_map]
  simp [Function.comp_def]

/-- The index resolves a column to the field the linear scan resolves it to. -/
theorem searchOrdinal_getElem? {fields : List LogicalField}
    (hn : (fields.map (·.id)).Nodup) (id : ColumnId) :
    (searchOrdinal (buildOrdinals fields) id).bind (fields[·]?) = findColumn fields id := by
  rw [searchOrdinal_buildOrdinals hn, findColumn, find?_eq_bind_findIdx?_getElem?]

end Stillflow.Engine
