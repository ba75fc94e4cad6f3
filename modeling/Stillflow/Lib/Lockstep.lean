import Stillflow.Lib.Fallible

/-!
Two fallible computations in lockstep: they fail with the same error, or both return, with related
values.
-/

namespace Lib

open Lib.Fallible List

universe u

variable {α α' β β' ε : Type} {γ : Type u}

inductive Lockstep (R : α → β → Prop) : Except ε α → Except ε β → Prop
  | ok {a : α} {b : β} (h : R a b) : Lockstep R (.ok a) (.ok b)
  | error (e : ε) : Lockstep R (.error e) (.error e)

namespace Lockstep

variable {R : α → β → Prop} {S : α' → β' → Prop} {x : Except ε α} {y : Except ε β}

theorem refl {R : α → α → Prop} (h : ∀ a, R a a) (x : Except ε α) :
    Lockstep R x x := by
  cases x with
  | error e => exact .error e
  | ok a => exact .ok (h a)

theorem bind (h : Lockstep R x y) {f : α → Except ε α'} {g : β → Except ε β'}
    (hf : ∀ a b, R a b → Lockstep S (f a) (g b)) : Lockstep S (x >>= f) (y >>= g) := by
  cases h with
  | error e => exact .error e
  | ok hab => exact hf _ _ hab

theorem bind_same (x : Except ε α) {f : α → Except ε α'} {g : α → Except ε β'}
    (h : ∀ a, Lockstep S (f a) (g a)) : Lockstep S (x >>= f) (x >>= g) := by
  cases x with
  | error e => exact .error e
  | ok a => exact h a

theorem foldlM {f : α → γ → Except ε α} {g : β → γ → Except ε β}
    (hf : ∀ a b c, R a b → Lockstep R (f a c) (g b c)) {a : α} {b : β} (h : R a b) (l : List γ) :
    Lockstep R (l.foldlM f a) (l.foldlM g b) := by
  induction l generalizing a b with
  | nil => exact .ok h
  | cons c l ih =>
    rw [foldlM_cons, foldlM_cons]
    exact (hf a b c h).bind fun _ _ hab => ih hab

theorem foldlM_forall₂ {T : α' → β' → Prop} {f : α → α' → Except ε α} {g : β → β' → Except ε β}
    (hf : ∀ a b c d, R a b → T c d → Lockstep R (f a c) (g b d)) {l : List α'} {l' : List β'}
    (hl : Forall₂ T l l') {a : α} {b : β} (h : R a b) :
    Lockstep R (l.foldlM f a) (l'.foldlM g b) := by
  induction hl generalizing a b with
  | nil => exact .ok h
  | cons hcd _ ih =>
    rw [foldlM_cons, foldlM_cons]
    exact (hf _ _ _ _ h hcd).bind fun _ _ hab => ih hab

theorem mapM_forall₂ {T : α' → β' → Prop} {f : α' → Except ε α} {g : β' → Except ε β}
    (hf : ∀ c d, T c d → Lockstep R (f c) (g d)) {l : List α'} {l' : List β'}
    (hl : Forall₂ T l l') : Lockstep (Forall₂ R) (l.mapM f) (l'.mapM g) := by
  induction hl with
  | nil => exact .ok .nil
  | cons hcd _ ih =>
    rw [mapM_cons, mapM_cons]
    exact (hf _ _ hcd).bind fun _ _ hab => ih.bind fun _ _ hrest => .ok (.cons hab hrest)

theorem exists_right (h : Lockstep R x y) {a : α} (hx : x = .ok a) : ∃ b, y = .ok b ∧ R a b := by
  cases h with
  | error e => cases hx
  | ok hab =>
    cases hx
    exact ⟨_, rfl, hab⟩

theorem of_eq_ok (h : Lockstep R x y) {a : α} {b : β} (hx : x = .ok a) (hy : y = .ok b) :
    R a b := by
  obtain ⟨b', hb, hab⟩ := h.exists_right hx
  cases hy.symm.trans hb
  exact hab

theorem antisymm [PartialOrder α] {x y : Except ε α} (h : Lockstep (· ≤ ·) x y)
    (h' : Lockstep (· ≤ ·) y x) : x = y := by
  cases h with
  | error e => rfl
  | ok hab =>
    cases h' with
    | ok hba => rw [le_antisymm hab hba]

end Lockstep

theorem foldlM_eq_mapM {f : γ → Except ε β} (g : α → β → α) (l : List γ) (a : α) :
    (l.foldlM (fun a c => do let b ← f c; return g a b) a) =
      (do let bs ← l.mapM f; return bs.foldl g a) := by
  induction l generalizing a with
  | nil => rfl
  | cons c l ih =>
    rw [foldlM_cons, mapM_cons]
    cases f c with
    | error e => rfl
    | ok b =>
      refine (ih (g a b)).trans ?_
      cases l.mapM f <;> rfl

end Lib
