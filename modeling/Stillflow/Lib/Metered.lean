import Stillflow.Lib.Fallible

/-! Two runs of one program that differ in a limit only. -/

namespace Lib

open Lib.Fallible

/-- The invariant of the ample run, what it takes to fit the tight limit, and its fault. -/
structure Meter (σ ε : Type) where
  inv : σ → Prop
  fits : σ → Prop
  fault : ε

namespace Meter

variable {σ ε α β : Type} (M : Meter σ ε)

/-- The tight program is the ample one with a tighter limit, from this state. -/
structure Result (stateOf : α → σ) (before : σ) (tight : Except ε α) (a : α) : Prop where
  inv : M.inv (stateOf a)
  fits_before : M.fits (stateOf a) → M.fits before
  ok : M.fits (stateOf a) → tight = .ok a
  fault : M.fits before → ¬ M.fits (stateOf a) → tight = .error M.fault

def Metered (stateOf : α → σ) (before : σ) (tight ample : Except ε α) : Prop :=
  M.inv before → ∀ a, ample = .ok a → M.Result stateOf before tight a

variable {M} {stateOf : α → σ}

theorem Metered.same {before : σ} {x : Except ε α}
    (h : ∀ a, x = .ok a → M.inv before → M.inv (stateOf a) ∧ (M.fits (stateOf a) ↔ M.fits before)) :
    M.Metered stateOf before x x := by
  intro hinv a ha
  obtain ⟨hafter, hfits⟩ := h a ha hinv
  exact ⟨hafter, hfits.mp, fun _ => ha, fun hb hn => absurd (hfits.mpr hb) hn⟩

theorem Metered.bind {stateOf' : β → σ} {before : σ} {tight ample : Except ε α}
    {f g : α → Except ε β} (h : M.Metered stateOf before tight ample)
    (hfg : ∀ a, ample = .ok a → M.Metered stateOf' (stateOf a) (f a) (g a)) :
    M.Metered stateOf' before (tight >>= f) (ample >>= g) := by
  intro hinv b hb
  obtain ⟨a, ha, hb⟩ := of_bind hb
  have hfirst := h hinv a ha
  have hsecond := hfg a ha hfirst.inv b hb
  refine ⟨hsecond.inv, fun hfits => hfirst.fits_before (hsecond.fits_before hfits), ?_, ?_⟩
  · intro hfits
    rw [hfirst.ok (hsecond.fits_before hfits), ok_bind]
    exact hsecond.ok hfits
  · intro hbefore hnot
    by_cases hmid : M.fits (stateOf a)
    · rw [hfirst.ok hmid, ok_bind]
      exact hsecond.fault hmid hnot
    · rw [hfirst.fault hbefore hmid, error_bind]

theorem Metered.foldlM {f g : α → β → Except ε α} {l : List β} {a : α}
    (h : ∀ a b, b ∈ l → M.Metered stateOf (stateOf a) (f a b) (g a b)) :
    M.Metered stateOf (stateOf a) (l.foldlM f a) (l.foldlM g a) := by
  induction l generalizing a with
  | nil => exact .same fun _ ha hinv => by cases ha; exact ⟨hinv, Iff.rfl⟩
  | cons b rest ih =>
    rw [List.foldlM_cons, List.foldlM_cons]
    refine (h a b List.mem_cons_self).bind fun a' _ => ?_
    exact ih fun a b hb => h a b (List.mem_cons_of_mem _ hb)

/-- The tight run succeeds with the ample run's result exactly when that result fits. -/
theorem Metered.ok_iff {before : σ} {tight ample : Except ε α} {a : α}
    (h : M.Metered stateOf before tight ample) (hinv : M.inv before) (hbefore : M.fits before)
    (ha : ample = .ok a) : tight = .ok a ↔ M.fits (stateOf a) := by
  have hresult := h hinv a ha
  refine ⟨fun hok => ?_, hresult.ok⟩
  by_contra hnot
  rw [hresult.fault hbefore hnot] at hok
  cases hok

end Meter

end Lib
