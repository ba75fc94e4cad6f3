import Mathlib

/-! Machines that answer every input. -/

namespace Lib

structure Machine (σ α ρ : Type) where
  step : σ → α → ρ × σ

namespace Machine

variable {σ α ρ : Type} (M : Machine σ α ρ)

def answer (s : σ) (a : α) : ρ := (M.step s a).1

def next (s : σ) (a : α) : σ := (M.step s a).2

def run : σ → List α → σ
  | s, [] => s
  | s, a :: rest => run (M.next s a) rest

def trace : σ → List α → List (σ × α)
  | _, [] => []
  | s, a :: rest => (s, a) :: trace (M.next s a) rest

theorem run_append (s : σ) (xs ys : List α) : M.run s (xs ++ ys) = M.run (M.run s xs) ys := by
  induction xs generalizing s with
  | nil => rfl
  | cons a xs ih => exact ih (M.next s a)

theorem trace_append (s : σ) (xs ys : List α) :
    M.trace s (xs ++ ys) = M.trace s xs ++ M.trace (M.run s xs) ys := by
  induction xs generalizing s with
  | nil => rfl
  | cons a xs ih => exact congrArg (List.cons (s, a)) (ih (M.next s a))

theorem exists_of_trace_eq {s : σ} {inputs : List α} {before after : List (σ × α)} {e : σ × α}
    (h : M.trace s inputs = before ++ e :: after) :
    ∃ xs ys, inputs = xs ++ e.2 :: ys ∧ before = M.trace s xs ∧ e.1 = M.run s xs ∧
      after = M.trace (M.next e.1 e.2) ys := by
  induction before generalizing s inputs with
  | nil =>
    cases inputs with
    | nil => cases h
    | cons a rest =>
      cases h
      exact ⟨[], rest, rfl, rfl, rfl, rfl⟩
  | cons e' before ih =>
    cases inputs with
    | nil => cases h
    | cons a rest =>
      rw [trace, List.cons_append, List.cons.injEq] at h
      obtain ⟨xs, ys, hinputs, hbefore, hstate, hafter⟩ := ih h.2
      refine ⟨a :: xs, ys, by rw [hinputs, List.cons_append], ?_, hstate, hafter⟩
      rw [trace, ← h.1, hbefore]

variable {M}

theorem run_invariant {Inv : σ → Prop} (hstep : ∀ s a, Inv s → Inv (M.next s a)) {s : σ}
    (h : Inv s) (inputs : List α) : Inv (M.run s inputs) := by
  induction inputs generalizing s with
  | nil => exact h
  | cons a rest ih => exact ih (hstep s a h)

theorem trace_invariant {Inv : σ → Prop} (hstep : ∀ s a, Inv s → Inv (M.next s a)) {s : σ}
    (h : Inv s) {inputs : List α} {e : σ × α} (he : e ∈ M.trace s inputs) : Inv e.1 := by
  obtain ⟨before, after, heq⟩ := List.append_of_mem he
  obtain ⟨xs, -, -, -, hstate, -⟩ := M.exists_of_trace_eq heq
  rw [hstate]
  exact run_invariant hstep h xs

end Machine

end Lib
