import Stillflow.Lib.Fallible

/-! Loops that pass a state from iteration to iteration until they break. -/

namespace Lib

open Lib.Fallible

/-- One iteration: fail, continue with a smaller state, or break with a result. -/
structure Loop (σ ρ ε : Type) where
  step : σ → Except ε (σ ⊕ ρ)
  size : σ → Nat
  size_lt : ∀ {s s'}, step s = .ok (.inl s') → size s' < size s

namespace Loop

variable {σ ρ ε : Type} (L : Loop σ ρ ε)

private def runFuel : (n : Nat) → (s : σ) → L.size s < n → Except ε ρ
  | 0, _, h => absurd h (Nat.not_lt_zero _)
  | n + 1, s, h =>
    match hs : L.step s with
    | .error e => .error e
    | .ok (.inr r) => .ok r
    | .ok (.inl s') => runFuel n s' (Nat.lt_of_lt_of_le (L.size_lt hs) (Nat.le_of_lt_succ h))

def run (s : σ) : Except ε ρ := L.runFuel (L.size s + 1) s (Nat.lt_succ_self _)

private theorem runFuel_eq (n m : Nat) (s : σ) (hn : L.size s < n) (hm : L.size s < m) :
    L.runFuel n s hn = L.runFuel m s hm := by
  induction n generalizing m s with
  | zero => omega
  | succ n ih =>
    obtain ⟨m, rfl⟩ : ∃ k, m = k + 1 := ⟨m - 1, by omega⟩
    unfold runFuel
    split
    · rfl
    · rfl
    · exact ih _ _ _ _

theorem run_eq (s : σ) :
    L.run s = L.step s >>= fun r => Sum.elim L.run .ok r := by
  unfold run
  rw [runFuel]
  split
  · rename_i e hs
    rw [hs, error_bind]
  · rename_i r hs
    rw [hs, ok_bind]
    rfl
  · rename_i s' hs
    refine (L.runFuel_eq _ (L.size s' + 1) _ _ (Nat.lt_succ_self _)).trans ?_
    rw [hs, ok_bind]
    rfl

theorem run_of_error {s : σ} {e : ε} (hs : L.step s = .error e) : L.run s = .error e := by
  rw [run_eq, hs, error_bind]

theorem run_of_break {s : σ} {r : ρ} (hs : L.step s = .ok (.inr r)) : L.run s = .ok r := by
  rw [run_eq, hs, ok_bind]
  rfl

theorem run_of_continue {s s' : σ} (hs : L.step s = .ok (.inl s')) : L.run s = L.run s' := by
  rw [run_eq, hs, ok_bind]
  rfl

/-- Invariant rule: what every iteration preserves holds when the loop breaks. -/
theorem run_invariant (I : σ → Prop) (Q : ρ → Prop)
    (hstep : ∀ {s s'}, I s → L.step s = .ok (.inl s') → I s')
    (hbreak : ∀ {s r}, I s → L.step s = .ok (.inr r) → Q r)
    {s : σ} {r : ρ} (hI : I s) (h : L.run s = .ok r) : Q r := by
  induction hn : L.size s using Nat.strong_induction_on generalizing s with
  | _ n ih =>
    cases hs : L.step s with
    | error e =>
      rw [L.run_of_error hs] at h
      cases h
    | ok x =>
      cases x with
      | inr r' =>
        rw [L.run_of_break hs] at h
        cases h
        exact hbreak hI hs
      | inl s' =>
        rw [L.run_of_continue hs] at h
        exact ih _ (hn ▸ L.size_lt hs) (hstep hI hs) h rfl

/-- Progress rule: a loop none of whose iterations fails under an invariant returns. -/
theorem run_progress (I : σ → Prop)
    (hstep : ∀ {s}, I s → (∃ s', L.step s = .ok (.inl s') ∧ I s') ∨ ∃ r, L.step s = .ok (.inr r))
    {s : σ} (hI : I s) : ∃ r, L.run s = .ok r := by
  induction hn : L.size s using Nat.strong_induction_on generalizing s with
  | _ n ih =>
    rcases hstep hI with ⟨s', hs, hI'⟩ | ⟨r, hs⟩
    · rw [L.run_of_continue hs]
      exact ih _ (hn ▸ L.size_lt hs) hI' rfl
    · exact ⟨r, L.run_of_break hs⟩

end Loop

end Lib
