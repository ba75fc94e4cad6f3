import Stillflow.Lib.Machine

/-! Calls that run as sequences of atomic statements on a shared state, in any interleaving. -/

namespace Lib

open List

structure Concurrent (σ ι π : Type) where
  start : ι → π
  /-- The next statement of a call, `none` once it has returned. -/
  step : σ → ι → π → Option (σ × π)

structure Pool (σ ι π : Type) where
  shared : σ
  calls : List (ι × π)

inductive Move (ι : Type) where
  | invoke (call : ι)
  | advance (index : Nat)

namespace Concurrent

variable {σ ι π : Type} (C : Concurrent σ ι π)

def move (pool : Pool σ ι π) : Move ι → Pool σ ι π
  | .invoke call => { pool with calls := pool.calls ++ [(call, C.start call)] }
  | .advance index =>
    match pool.calls[index]? with
    | none => pool
    | some (call, phase) =>
      match C.step pool.shared call phase with
      | none => pool
      | some (shared, phase') => ⟨shared, pool.calls.set index (call, phase')⟩

def machine : Machine (Pool σ ι π) (Move ι) Unit := ⟨fun pool move => ((), C.move pool move)⟩

/-- What one move can do. -/
inductive Moved (pool : Pool σ ι π) : Move ι → Pool σ ι π → Prop where
  | idle {m} : Moved pool m pool
  | invoked {call} : Moved pool (.invoke call) ⟨pool.shared, pool.calls ++ [(call, C.start call)]⟩
  | advanced {index call phase shared phase'} (hcall : pool.calls[index]? = some (call, phase))
      (hstep : C.step pool.shared call phase = some (shared, phase')) :
    Moved pool (.advance index) ⟨shared, pool.calls.set index (call, phase')⟩

variable {C} {pool : Pool σ ι π}

theorem moved_next (pool : Pool σ ι π) (m : Move ι) : C.Moved pool m (C.machine.next pool m) := by
  change C.Moved pool m (C.move pool m)
  cases m with
  | invoke call => exact .invoked
  | advance index =>
    cases hcall : pool.calls[index]? with
    | none =>
      simp only [move, hcall]
      exact .idle
    | some entry =>
      cases hstep : C.step pool.shared entry.1 entry.2 with
      | none =>
        simp only [move, hcall, hstep]
        exact .idle
      | some result =>
        simp only [move, hcall, hstep]
        exact .advanced hcall hstep

theorem related_next {R : σ → σ → Prop} (hrefl : R pool.shared pool.shared)
    (hstep : ∀ {index : Nat} {call phase s' phase'}, pool.calls[index]? = some (call, phase) →
      C.step pool.shared call phase = some (s', phase') → R pool.shared s') (m : Move ι) :
    R pool.shared (C.machine.next pool m).shared := by
  have hmoved := moved_next (C := C) pool m
  generalize C.machine.next pool m = after at hmoved
  cases hmoved with
  | idle => exact hrefl
  | invoked => exact hrefl
  | advanced hcall hstatement => exact hstep hcall hstatement

theorem next_advance {index : Nat} {call : ι} {phase : π} {s' : σ} {phase' : π}
    (hcall : pool.calls[index]? = some (call, phase))
    (hstep : C.step pool.shared call phase = some (s', phase')) :
    (C.machine.next pool (.advance index)).shared = s' := by
  change (C.move pool (.advance index)).shared = s'
  simp only [move, hcall, hstep]

/-- The shared state is as required, and so is what each call in its phase relies on. -/
structure Valid (I : σ → Prop) (L : σ → ι → π → Prop) (pool : Pool σ ι π) : Prop where
  shared : I pool.shared
  calls : ∀ {index : Nat} {call : ι} {phase : π}, pool.calls[index]? = some (call, phase) →
    L pool.shared call phase

variable (C) in
/-- Allowed statements keep the invariant, establish the assertion of the phase they lead to and keep
the assertions of the other calls. -/
structure Outline (Allowed : Pool σ ι π → Move ι → Prop) (I : σ → Prop) (L : σ → ι → π → Prop) :
    Prop where
  start : ∀ {s} (call : ι), I s → L s call (C.start call)
  own : ∀ {pool : Pool σ ι π} {index : Nat} {call phase s' phase'},
    Allowed pool (.advance index) → pool.calls[index]? = some (call, phase) → I pool.shared →
    L pool.shared call phase → C.step pool.shared call phase = some (s', phase') →
      I s' ∧ L s' call phase'
  others : ∀ {pool : Pool σ ι π} {index position : Nat} {call phase s' phase' call₂ phase₂},
    Allowed pool (.advance index) → pool.calls[index]? = some (call, phase) → position ≠ index →
    pool.calls[position]? = some (call₂, phase₂) → I pool.shared → L pool.shared call phase →
    L pool.shared call₂ phase₂ → C.step pool.shared call phase = some (s', phase') →
      L s' call₂ phase₂

section Rules

variable {Allowed : Pool σ ι π → Move ι → Prop} {I : σ → Prop} {L : σ → ι → π → Prop}
  {moves : List (Move ι)}

theorem valid_nil {s : σ} (h : I s) : Valid I L (⟨s, []⟩ : Pool σ ι π) :=
  ⟨h, fun hcall => by cases hcall⟩

theorem Outline.next (O : C.Outline Allowed I L) (h : Valid I L pool) {m : Move ι}
    (hallowed : Allowed pool m) : Valid I L (C.machine.next pool m) := by
  have hmoved := moved_next (C := C) pool m
  generalize C.machine.next pool m = after at hmoved
  cases hmoved with
  | idle => exact h
  | @invoked call =>
    refine ⟨h.shared, ?_⟩
    intro index call' phase hcall
    rw [getElem?_append] at hcall
    split at hcall
    · exact h.calls hcall
    · obtain ⟨_, heq⟩ := List.getElem?_eq_some_iff.mp hcall
      rw [List.getElem_singleton] at heq
      cases heq
      exact O.start call h.shared
  | @advanced index call phase shared phase' hown hstep =>
    have hcallOwn := h.calls hown
    have hafter := O.own hallowed hown h.shared hcallOwn hstep
    refine ⟨hafter.1, ?_⟩
    intro position call' phase'' hcall
    rw [getElem?_set] at hcall
    split at hcall
    · split at hcall
      · cases hcall
        exact hafter.2
      · cases hcall
    · rename_i hne
      exact O.others hallowed hown (Ne.symm hne) hcall h.shared hcallOwn (h.calls hcall) hstep

theorem Outline.run (O : C.Outline Allowed I L) (h : Valid I L pool)
    (hallowed : ∀ e ∈ C.machine.trace pool moves, Allowed e.1 e.2) :
    Valid I L (C.machine.run pool moves) := by
  induction moves generalizing pool with
  | nil => exact h
  | cons m rest ih =>
    apply ih
    · exact O.next h (hallowed (pool, m) (mem_cons_self ..))
    · intro e he
      exact hallowed e (mem_cons_of_mem _ he)

theorem Outline.related (O : C.Outline Allowed I L) {R : σ → σ → Prop} (hrefl : ∀ s, R s s)
    (htrans : ∀ {s s' s''}, R s s' → R s' s'' → R s s'')
    (hstep : ∀ {s call phase s' phase'}, I s → L s call phase →
      C.step s call phase = some (s', phase') → R s s') (h : Valid I L pool)
    (hallowed : ∀ e ∈ C.machine.trace pool moves, Allowed e.1 e.2) :
    R pool.shared (C.machine.run pool moves).shared := by
  induction moves generalizing pool with
  | nil => exact hrefl _
  | cons m rest ih =>
    have hnext := O.next h (hallowed (pool, m) (mem_cons_self ..))
    have hlater := ih hnext fun e he => hallowed e (mem_cons_of_mem _ he)
    refine htrans (related_next (hrefl _) ?_ m) hlater
    intro index call phase s' phase' hcall hstatement
    exact hstep h.shared (h.calls hcall) hstatement

/-- What holds of every call that starts once the shared state satisfies `K`, if `K` lasts. -/
theorem Outline.later (O : C.Outline Allowed I L) {K : σ → Prop} {G : ι → π → Prop}
    (hkept : ∀ {s call phase s' phase'}, I s → L s call phase →
      C.step s call phase = some (s', phase') → K s → K s')
    (hstart : ∀ call, G call (C.start call))
    (hown : ∀ {s call phase s' phase'}, I s → K s → G call phase →
      C.step s call phase = some (s', phase') → G call phase')
    {n : Nat} (h : Valid I L pool) (hK : K pool.shared)
    (hlate : ∀ {index : Nat} {call phase}, n ≤ index → pool.calls[index]? = some (call, phase) →
      G call phase) (hallowed : ∀ e ∈ C.machine.trace pool moves, Allowed e.1 e.2)
    {index : Nat} {call : ι} {phase : π} (hindex : n ≤ index)
    (hcall : (C.machine.run pool moves).calls[index]? = some (call, phase)) : G call phase := by
  induction moves generalizing pool with
  | nil => exact hlate hindex hcall
  | cons m rest ih =>
    have hnext := O.next h (hallowed (pool, m) (mem_cons_self ..))
    refine ih hnext ?_ ?_ (fun e he => hallowed e (mem_cons_of_mem _ he)) hcall
    · have hrelated := @related_next _ _ _ C pool (fun s s' => K s → K s') id
        (fun hcall hstep => hkept h.shared (h.calls hcall) hstep) m
      exact hrelated hK
    · intro position call' phase' hposition hcall'
      have hmoved := moved_next (C := C) pool m
      generalize C.machine.next pool m = after at hmoved hcall'
      cases hmoved with
      | idle => exact hlate hposition hcall'
      | invoked =>
        rw [getElem?_append] at hcall'
        split at hcall'
        · exact hlate hposition hcall'
        · obtain ⟨_, heq⟩ := List.getElem?_eq_some_iff.mp hcall'
          rw [List.getElem_singleton] at heq
          cases heq
          exact hstart _
      | @advanced index' moving old shared phase'' hmoving hstep =>
        rw [getElem?_set] at hcall'
        split at hcall'
        · rename_i heq
          split at hcall'
          · cases hcall'
            have hbefore := hlate (heq ▸ hposition) hmoving
            exact hown h.shared hK hbefore hstep
          · cases hcall'
        · exact hlate hposition hcall'

end Rules

end Concurrent

end Lib
