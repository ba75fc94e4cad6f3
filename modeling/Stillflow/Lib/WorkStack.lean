import Stillflow.Lib.Fallible

/-!
Loops driven by an explicit work stack: pop a task, act on the accumulator, push the tasks it
spawns.
-/

namespace Lib.WorkStack

open Lib.Fallible

variable {τ σ ε : Type}

/-- One iteration of a stack loop, with the measure that every iteration decreases. The tasks
spawned by `visit` are listed from the top of the stack down. -/
structure Walk (τ σ ε : Type) where
  visit : τ → σ → Except ε (List τ × σ)
  size : τ → Nat
  size_pos : ∀ t, 0 < size t
  size_lt : ∀ {t s ts s'}, visit t s = .ok (ts, s') → (ts.map size).sum < size t

namespace Walk

variable (W : Walk τ σ ε)

def stackSize (stack : List τ) : Nat := (stack.map W.size).sum

@[simp] theorem stackSize_cons (t : τ) (ts : List τ) :
    W.stackSize (t :: ts) = W.size t + W.stackSize ts := by
  simp [stackSize]

@[simp] theorem stackSize_append (ts us : List τ) :
    W.stackSize (ts ++ us) = W.stackSize ts + W.stackSize us := by
  simp [stackSize]

private def runFuel : Nat → List τ → σ → Except ε σ
  | _, [], s => .ok s
  | 0, _ :: _, s => .ok s
  | fuel + 1, t :: ts, s => do
    let (spawned, s') ← W.visit t s
    runFuel fuel (spawned ++ ts) s'

/-- Run the loop until the stack is empty or an iteration fails. -/
def run (stack : List τ) (s : σ) : Except ε σ := W.runFuel (W.stackSize stack) stack s

private theorem runFuel_eq (n m : Nat) (stack : List τ) (s : σ)
    (hn : W.stackSize stack ≤ n) (hm : W.stackSize stack ≤ m) :
    W.runFuel n stack s = W.runFuel m stack s := by
  induction n generalizing m stack s with
  | zero =>
    cases stack with
    | nil => simp [runFuel]
    | cons t ts =>
      have := W.size_pos t
      simp at hn
      omega
  | succ n ih =>
    cases stack with
    | nil => simp [runFuel]
    | cons t ts =>
      have ht := W.size_pos t
      rw [stackSize_cons] at hn hm
      obtain ⟨m, rfl⟩ : ∃ k, m = k + 1 := ⟨m - 1, by omega⟩
      cases hv : W.visit t s with
      | error e => simp [runFuel, hv]
      | ok r =>
        obtain ⟨spawned, s'⟩ := r
        have hlt : W.stackSize spawned < W.size t := W.size_lt hv
        simp only [runFuel, hv, ok_bind]
        apply ih <;> rw [stackSize_append] <;> omega

@[simp] theorem run_nil (s : σ) : W.run [] s = .ok s := by
  simp [run, runFuel]

theorem run_cons (t : τ) (ts : List τ) (s : σ) :
    W.run (t :: ts) s = W.visit t s >>= fun r => W.run (r.1 ++ ts) r.2 := by
  have ht := W.size_pos t
  obtain ⟨n, hn⟩ : ∃ n, W.stackSize (t :: ts) = n + 1 := ⟨W.size t + W.stackSize ts - 1, by
    rw [stackSize_cons]; omega⟩
  rw [run, hn, runFuel]
  cases hv : W.visit t s with
  | error e => rfl
  | ok r =>
    obtain ⟨spawned, s'⟩ := r
    have hlt : W.stackSize spawned < W.size t := W.size_lt hv
    rw [stackSize_cons] at hn
    exact W.runFuel_eq _ _ _ _ (by rw [stackSize_append]; omega) le_rfl

/-- A stack segment runs to completion before the segment below it is touched. -/
theorem run_append (ts us : List τ) (s : σ) :
    W.run (ts ++ us) s = W.run ts s >>= W.run us := by
  induction hn : W.stackSize ts using Nat.strong_induction_on generalizing ts s with
  | _ n ih =>
    cases ts with
    | nil => simp
    | cons t ts =>
      rw [List.cons_append, run_cons, run_cons, bind_assoc]
      cases hv : W.visit t s with
      | error e => rfl
      | ok r =>
        obtain ⟨spawned, s'⟩ := r
        have hlt : W.stackSize spawned < W.size t := W.size_lt hv
        rw [stackSize_cons] at hn
        have hsize : W.stackSize (spawned ++ ts) < n := by
          rw [stackSize_append]
          omega
        rw [ok_bind, ok_bind, ← List.append_assoc]
        exact ih _ hsize _ _ rfl

theorem run_cons_eq (t : τ) (ts : List τ) (s : σ) :
    W.run (t :: ts) s = W.run [t] s >>= W.run ts := by
  simpa using W.run_append [t] ts s

theorem run_singleton (t : τ) (s : σ) :
    W.run [t] s = W.visit t s >>= fun r => W.run r.1 r.2 := by
  simpa using W.run_cons t [] s

/-- What was on the stack of a completed loop completes by itself, from some accumulator. -/
theorem run_of_mem {stack : List τ} {s s₁ : σ} {t : τ} (h : W.run stack s = .ok s₁)
    (ht : t ∈ stack) : ∃ s' s₁', W.run [t] s' = .ok s₁' := by
  obtain ⟨above, below, rfl⟩ := List.append_of_mem ht
  rw [run_append] at h
  obtain ⟨s', -, h⟩ := of_bind h
  rw [run_cons_eq] at h
  obtain ⟨s₁', h, -⟩ := of_bind h
  exact ⟨s', s₁', h⟩

/-- Lockstep simulation: a second loop that spawns related tasks and succeeds wherever the first
one does also runs to completion. -/
theorem run_of_simulation {τ' σ' ε' : Type} {W : Walk τ σ ε} (W' : Walk τ' σ' ε')
    (T : τ → τ' → Prop) (R : σ → σ' → Prop)
    (hstep : ∀ {t t' s s' ts s₁}, T t t' → R s s' → W.visit t s = .ok (ts, s₁) →
      ∃ ts' s₁', W'.visit t' s' = .ok (ts', s₁') ∧ List.Forall₂ T ts ts' ∧ R s₁ s₁')
    {stack : List τ} {stack' : List τ'} {s s₁ : σ} {s' : σ'} (hT : List.Forall₂ T stack stack')
    (hR : R s s') (h : W.run stack s = .ok s₁) : ∃ s₁', W'.run stack' s' = .ok s₁' ∧ R s₁ s₁' := by
  induction hn : W.stackSize stack using Nat.strong_induction_on generalizing stack stack' s s' with
  | _ n ih =>
    cases hT with
    | nil =>
      obtain rfl : s = s₁ := by simpa using h
      exact ⟨s', by simp, hR⟩
    | @cons t t' ts ts' ht hts =>
      rw [run_cons, bind_eq_ok] at h
      obtain ⟨⟨spawned, s₂⟩, hv, hrun⟩ := h
      obtain ⟨spawned', s₂', hv', hspawned, hR'⟩ := hstep ht hR hv
      have hlt : W.stackSize spawned < W.size t := W.size_lt hv
      have hsize : W.stackSize (spawned ++ ts) < n := by
        rw [stackSize_append]
        rw [stackSize_cons] at hn
        omega
      obtain ⟨s₁', hrun', hR₁⟩ := ih _ hsize (List.rel_append hspawned hts) hR' hrun rfl
      exact ⟨s₁', by rw [run_cons, hv', ok_bind]; exact hrun', hR₁⟩

end Walk
end Lib.WorkStack
