import Stillflow.Lib.Fallible

/-! Fallible code that edits a state in place. -/

namespace Lib.InPlace

open Lib.Fallible

variable {σ ε α : Type} {s : σ}

abbrev InPlace (σ ε α : Type) := ExceptT ε (StateM σ) α

/-- A check or a lookup that writes nothing. -/
def attempt (x : Except ε α) : InPlace σ ε α := ExceptT.mk (pure x)

/-- The answer of a call, and the state it leaves behind. -/
def call (m : InPlace σ ε α) (s : σ) : Except ε α × σ := Id.run (StateT.run (ExceptT.run m) s)

theorem call_modify_bind (f : σ → σ) (k : PUnit → InPlace σ ε α) :
    call (modify f >>= k) s = call (k ()) (f s) := rfl

theorem call_get_bind (k : σ → InPlace σ ε α) : call (get >>= k) s = call (k s) s := rfl

theorem call_attempt_bind {β : Type} (x : Except ε β) (k : β → InPlace σ ε α) :
    call (attempt x >>= k) s = match x with
      | .ok b => call (k b) s
      | .error e => (.error e, s) := by
  cases x <;> rfl

/-- The call commits the outcome's state, or fails without a trace. -/
def Amounts (m : InPlace σ ε Unit) (s : σ) : Except ε σ → Prop
  | .ok s' => call m s = (.ok (), s')
  | .error e => call m s = (.error e, s)

theorem Amounts.attempt_bind {x : Except ε α} {f : α → InPlace σ ε Unit} {g : α → Except ε σ}
    (h : ∀ a, x = .ok a → Amounts (f a) s (g a)) : Amounts (attempt x >>= f) s (x >>= g) := by
  cases x with
  | error e => rfl
  | ok a => exact h a rfl

theorem Amounts.attempt (x : Except ε Unit) : Amounts (attempt x) s (x >>= fun _ => .ok s) := by
  cases x <;> rfl

theorem Amounts.get_bind {f : σ → InPlace σ ε Unit} {r : Except ε σ} (h : Amounts (f s) s r) :
    Amounts (get >>= f) s r := by
  cases r <;> exact h

theorem Amounts.modify (f : σ → σ) : Amounts (ε := ε) (modify f) s (.ok (f s)) := rfl

theorem Amounts.pure : Amounts (ε := ε) (pure ()) s (.ok s) := rfl

theorem Amounts.throw (e : ε) : Amounts (throw e) s (.error e) := rfl

/-- A failed call is invisible afterwards. -/
theorem Amounts.unchanged {m : InPlace σ ε Unit} {r : Except ε σ} (h : Amounts m s r) {e : ε}
    (he : (call m s).1 = .error e) : (call m s).2 = s := by
  cases r with
  | ok s' =>
    rw [show call m s = _ from h] at he
    cases he
  | error e' => rw [show call m s = _ from h]

theorem Amounts.committed {m : InPlace σ ε Unit} {r : Except ε σ} (h : Amounts m s r) :
    (call m s).2 = s ∨ r = .ok (call m s).2 := by
  cases r with
  | ok s' => exact .inr (by rw [show call m s = _ from h])
  | error e => exact .inl (by rw [show call m s = _ from h])

end Lib.InPlace
