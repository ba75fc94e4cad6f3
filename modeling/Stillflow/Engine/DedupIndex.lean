import Stillflow.Engine.Error

/-!
The temporary deduplication index of one run: a table keyed by rule and key bytes that keeps the
ordinal of the first row with each key.
-/

namespace Stillflow.Engine

open Stillflow.Core Stillflow.Plan Lib.Fallible

def maxSnapshotRows : Nat := 1000000000

structure DedupKey where
  nodeId : Uuid
  ruleOrdinal : Nat
  keyBytes : List UInt8
  deriving DecidableEq

/-- The rows of the `dedup_index` table in insertion order. -/
abbrev DedupIndex := List (DedupKey × Nat)

inductive DedupInsert where
  | inserted (firstSourceRowOrdinal : Nat)
  | duplicate (firstSourceRowOrdinal : Nat)
  deriving DecidableEq

def storageLimit : EngineError := .boundExceeded "verification storage limit exceeded"

/-- `ON CONFLICT DO NOTHING` and the read of the stored ordinal. `fault` is the database's own
refusal, if any. -/
def insertFirst (fault : Option EngineError) (index : DedupIndex) (key : DedupKey)
    (ordinal : Nat) : Except EngineError (DedupIndex × DedupInsert) := do
  require (key.keyBytes ≠ []) EngineError.storage
  require (key.keyBytes.length ≤ 64 * 1024) storageLimit
  require (index.length < maxSnapshotRows) storageLimit
  require (ordinal < 2 ^ 63) EngineError.storage
  match fault, index.lookup key with
  | some error, _ => .error error
  | none, none => return (index ++ [(key, ordinal)], .inserted ordinal)
  | none, some first => return (index, .duplicate first)

theorem insertFirst_eq_ok {fault : Option EngineError} {index index' : DedupIndex}
    {key : DedupKey} {ordinal : Nat} {result : DedupInsert}
    (h : insertFirst fault index key ordinal = .ok (index', result)) :
    (index.lookup key = none ∧ index' = index ++ [(key, ordinal)] ∧ result = .inserted ordinal) ∨
      ∃ first, index.lookup key = some first ∧ index' = index ∧ result = .duplicate first := by
  obtain ⟨_, -, h⟩ := of_bind h
  obtain ⟨_, -, h⟩ := of_bind h
  obtain ⟨_, -, h⟩ := of_bind h
  obtain ⟨_, -, hmatch⟩ := of_bind h
  cases fault with
  | some error => cases hmatch
  | none =>
    cases hlookup : index.lookup key with
    | none =>
      rw [hlookup] at hmatch
      cases hmatch
      exact .inl ⟨rfl, rfl, rfl⟩
    | some first =>
      rw [hlookup] at hmatch
      cases hmatch
      exact .inr ⟨first, rfl, rfl, rfl⟩

end Stillflow.Engine
