import Stillflow.Lib.Loop

/-! Bisection for the last position that passes a fallible probe. -/

namespace Lib

open Lib.Fallible

variable {ε : Type}

def bisectLoop (probe : Nat → Except ε Bool) : Loop (Nat × Nat) Nat ε where
  step ends :=
    if ends.1 < ends.2 then do
      let mid := ends.1 + (ends.2 - ends.1 + 1) / 2
      let passes ← probe mid
      return .inl (if passes then (mid, ends.2) else (ends.1, mid - 1))
    else .ok (.inr ends.1)
  size ends := ends.2 - ends.1
  size_lt {ends next} h := by
    split_ifs at h with hlt
    · obtain ⟨passes, -, h⟩ := of_bind h
      cases h
      cases passes <;> simp <;> omega
    · cases h

/-- The largest passing position between `low` and `high`, `low` being known to pass. -/
def bisect (probe : Nat → Except ε Bool) (low high : Nat) : Except ε Nat :=
  (bisectLoop probe).run (low, high)

variable {probe : Nat → Except ε Bool} {low high k : Nat}

/-- What the search keeps. -/
structure Bracket (probe : Nat → Except ε Bool) (low high : Nat) (ends : Nat × Nat) : Prop where
  low_le : low ≤ ends.1
  le : ends.1 ≤ ends.2
  le_high : ends.2 ≤ high
  passes : probe ends.1 = .ok true
  fails : ends.2 = high ∨ probe (ends.2 + 1) = .ok false

theorem Bracket.step {ends next : Nat × Nat} (h : Bracket probe low high ends)
    (hstep : (bisectLoop probe).step ends = .ok (.inl next)) : Bracket probe low high next := by
  unfold bisectLoop at hstep
  dsimp only at hstep
  split_ifs at hstep with hlt
  · obtain ⟨passes, hprobe, hstep⟩ := of_bind hstep
    cases hstep
    have hlow := h.low_le
    have hhigh := h.le_high
    cases passes with
    | true => exact ⟨by simp; omega, by simp; omega, hhigh, hprobe, h.fails⟩
    | false =>
      refine ⟨hlow, by simp; omega, by simp; omega, h.passes, .inr ?_⟩
      have hmid : ends.1 + (ends.2 - ends.1 + 1) / 2 - 1 + 1 =
          ends.1 + (ends.2 - ends.1 + 1) / 2 := by omega
      simp only [Bool.false_eq_true, if_false, hmid]
      exact hprobe
  · cases hstep

/-- The position found passes, and the next one fails. -/
theorem bisect_eq_ok (hle : low ≤ high) (hlow : probe low = .ok true)
    (h : bisect probe low high = .ok k) :
    low ≤ k ∧ k ≤ high ∧ probe k = .ok true ∧ (k = high ∨ probe (k + 1) = .ok false) := by
  refine (bisectLoop probe).run_invariant (Bracket probe low high)
    (fun k => low ≤ k ∧ k ≤ high ∧ probe k = .ok true ∧ (k = high ∨ probe (k + 1) = .ok false))
    (fun hends hstep => hends.step hstep) (fun {ends r} hends hbreak => ?_)
    ⟨le_rfl, hle, le_rfl, hlow, .inl rfl⟩ h
  unfold bisectLoop at hbreak
  dsimp only at hbreak
  split_ifs at hbreak with hlt
  · obtain ⟨passes, -, hbreak⟩ := of_bind hbreak
    cases hbreak
  · cases hbreak
    have hsame : ends.1 = ends.2 := by
      have := hends.le
      omega
    refine ⟨hends.low_le, hsame ▸ hends.le_high, hends.passes, ?_⟩
    rw [hsame]
    exact hends.fails

end Lib
