import Mathlib

/-! Rewriting rules for `Except` programs, stated on whole computations rather than on `do` text. -/

namespace Lib.Fallible

open List

variable {ε ε' α β : Type} {x : Except ε α} {f : α → Except ε β} {l : List α}

@[simp] theorem pure_eq_ok (a : α) : (pure a : Except ε α) = .ok a := rfl

@[simp] theorem ok_bind (a : α) (f : α → Except ε β) : (.ok a : Except ε α) >>= f = f a := rfl

@[simp] theorem error_bind (e : ε) (f : α → Except ε β) :
    (.error e : Except ε α) >>= f = .error e := rfl

@[simp] theorem bind_ok (x : Except ε α) : (x >>= fun a => .ok a) = x := by
  cases x <;> rfl

theorem bind_eq_ok {b : β} : x >>= f = .ok b ↔ ∃ a, x = .ok a ∧ f a = .ok b := by
  cases x <;> simp

theorem of_bind {b : β} (h : x >>= f = .ok b) : ∃ a, x = .ok a ∧ f a = .ok b := bind_eq_ok.mp h

@[simp] theorem exists_unit_iff {p : Unit → Prop} : (∃ u, p u) ↔ p () :=
  ⟨fun ⟨_, h⟩ => h, fun h => ⟨(), h⟩⟩

theorem exists_of_isOk (h : x.isOk = true) : ∃ a, x = .ok a := by
  cases x with
  | error e => cases h
  | ok a => exact ⟨a, rfl⟩

theorem exists_of_map_toOption {f : α → β} {b : β} (h : x.toOption.map f = some b) :
    ∃ a, x = .ok a ∧ f a = b := by
  cases x with
  | error e => cases h
  | ok a => exact ⟨a, rfl, Option.some.inj h⟩

theorem bind_eq_error {e : ε} :
    x >>= f = .error e ↔ x = .error e ∨ ∃ a, x = .ok a ∧ f a = .error e := by
  cases x <;> simp

theorem bind_ne_error {e : ε} (hx : x ≠ .error e) (hf : ∀ a, x = .ok a → f a ≠ .error e) :
    x >>= f ≠ .error e := by
  cases x with
  | error e' => exact fun h => hx (by cases h; rfl)
  | ok a => exact hf a rfl

/-- A check of the source: succeed with `()` or stop with the given error. -/
def require (p : Prop) [Decidable p] (e : ε) : Except ε Unit := if p then .ok () else .error e

@[simp] theorem require_eq_ok {p : Prop} {_ : Decidable p} {e : ε} {u : Unit} :
    require p e = .ok u ↔ p := by
  unfold require
  split_ifs with hp <;> simp [hp]

@[simp] theorem require_eq_error {p : Prop} {_ : Decidable p} {e e' : ε} :
    require p e = .error e' ↔ ¬ p ∧ e = e' := by
  unfold require
  split_ifs with hp <;> simp [hp]

theorem require_congr {p q : Prop} [Decidable p] [Decidable q] {e : ε} (h : p ↔ q) :
    require p e = require q e := by
  unfold require
  by_cases hp : p
  · rw [if_pos hp, if_pos (h.mp hp)]
  · rw [if_neg hp, if_neg (mt h.mpr hp)]

@[simp] theorem mapError_eq_ok {f : ε → ε'} {a : α} : x.mapError f = .ok a ↔ x = .ok a := by
  cases x <;> simp [Except.mapError]

/-- What holds of a result, if there is one. -/
def Yields (x : Except ε α) (P : α → Prop) : Prop := ∀ a, x = .ok a → P a

theorem yields_bind {P : β → Prop} (h : ∀ a, Yields (f a) P) : Yields (x >>= f) P := by
  intro b hb
  obtain ⟨a, -, hfa⟩ := of_bind hb
  exact h a b hfa

theorem yields_pure {a : α} {P : α → Prop} (h : P a) : Yields (pure a : Except ε α) P := by
  intro b hb
  cases hb
  exact h

theorem foldlM_invariant {f : β → α → Except ε β} (P : β → Prop)
    (hstep : ∀ {b a b'}, a ∈ l → P b → f b a = .ok b' → P b') {b b' : β} (hP : P b)
    (h : l.foldlM f b = .ok b') : P b' := by
  induction l generalizing b with
  | nil =>
    cases h
    exact hP
  | cons a l ih =>
    rw [foldlM_cons] at h
    obtain ⟨mid, hmid, hrest⟩ := of_bind h
    exact ih (fun ha => hstep (mem_cons_of_mem _ ha)) (hstep (by simp) hP hmid) hrest

theorem length_of_mapM_ok {l' : List β} (h : l.mapM f = .ok l') : l'.length = l.length := by
  induction l generalizing l' with
  | nil =>
    cases h
    rfl
  | cons a l ih =>
    rw [mapM_cons] at h
    obtain ⟨b, -, h⟩ := of_bind h
    obtain ⟨rest, hrest, h⟩ := of_bind h
    cases h
    rw [length_cons, ih hrest, length_cons]

theorem forall₂_of_mapM_ok {l' : List β} (h : l.mapM f = .ok l') :
    Forall₂ (fun a b => f a = .ok b) l l' := by
  induction l generalizing l' with
  | nil =>
    cases h
    exact .nil
  | cons a l ih =>
    rw [mapM_cons] at h
    obtain ⟨b, hb, h⟩ := of_bind h
    obtain ⟨rest, hrest, h⟩ := of_bind h
    cases h
    exact .cons hb (ih hrest)

theorem exists_of_forall₂_right {R : α → β → Prop} {xs : List α} {ys : List β}
    (h : Forall₂ R xs ys) {y : β} (hy : y ∈ ys) : ∃ x ∈ xs, R x y := by
  induction h with
  | nil => cases hy
  | cons hhead _ ih =>
    rcases mem_cons.mp hy with rfl | hy
    · exact ⟨_, mem_cons_self, hhead⟩
    · obtain ⟨x, hx, hR⟩ := ih hy
      exact ⟨x, mem_cons_of_mem _ hx, hR⟩

theorem forall₂_of_mapM_some {f : α → Option β} {l' : List β} (h : l.mapM f = some l') :
    Forall₂ (fun a b => f a = some b) l l' := by
  induction l generalizing l' with
  | nil =>
    cases h
    exact .nil
  | cons a l ih =>
    rw [mapM_cons] at h
    obtain ⟨b, hb, h⟩ := Option.bind_eq_some_iff.mp h
    obtain ⟨rest, hrest, h⟩ := Option.bind_eq_some_iff.mp h
    cases h
    exact .cons hb (ih hrest)

theorem eq_map_of_forall₂ {f : α → β} {xs : List α} {ys : List β}
    (h : Forall₂ (fun a b => f a = b) xs ys) : ys = xs.map f := by
  induction h with
  | nil => rfl
  | cons hhead _ ih => rw [map_cons, hhead, ← ih]

theorem forall₂_trans {γ : Type} {R : α → β → Prop} {S : β → γ → Prop} {T : α → γ → Prop}
    (hT : ∀ a b c, R a b → S b c → T a c) {xs : List α} {ys : List β} {zs : List γ}
    (hR : Forall₂ R xs ys) (hS : Forall₂ S ys zs) : Forall₂ T xs zs := by
  induction hR generalizing zs with
  | nil =>
    cases hS
    exact .nil
  | cons hab _ ih =>
    cases hS with
    | cons hbc hrest => exact .cons (hT _ _ _ hab hbc) (ih hrest)

end Lib.Fallible
