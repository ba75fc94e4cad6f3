import Stillflow.Lib.Fallible

/-! The states a fallible left fold goes through. -/

namespace Lib.Visits

open Lib.Fallible List

variable {σ α ε : Type} {f : σ → α → Except ε σ} {s s' : σ} {l : List α}

/-- The visits of a fold, up to and including the one that fails. -/
def visits (f : σ → α → Except ε σ) : List α → σ → List (σ × α)
  | [], _ => []
  | a :: rest, s => (s, a) :: match f s a with
    | .ok s' => visits f rest s'
    | .error _ => []

theorem visits_cons_ok {a : α} {rest : List α} (h : f s a = .ok s') :
    visits f (a :: rest) s = (s, a) :: visits f rest s' := by
  rw [visits, h]

theorem mem_visits_head (a : α) (rest : List α) (s : σ) : (s, a) ∈ visits f (a :: rest) s :=
  mem_cons_self

theorem mem_visits_tail {a : α} {rest : List α} {v : σ × α} (h : f s a = .ok s')
    (hv : v ∈ visits f rest s') : v ∈ visits f (a :: rest) s := by
  rw [visits_cons_ok h]
  exact mem_cons_of_mem _ hv

theorem mem_of_visits {v : σ × α} (hv : v ∈ visits f l s) : v.2 ∈ l := by
  induction l generalizing s with
  | nil => cases hv
  | cons a rest ih =>
    cases hf : f s a with
    | error e =>
      rw [visits, hf, mem_singleton] at hv
      simp [hv]
    | ok s' =>
      rw [visits_cons_ok hf] at hv
      rcases mem_cons.mp hv with rfl | hv
      · exact mem_cons_self
      · exact mem_cons_of_mem _ (ih hv)

theorem visits_map_snd (h : l.foldlM f s = .ok s') : (visits f l s).map Prod.snd = l := by
  induction l generalizing s with
  | nil => rfl
  | cons a rest ih =>
    rw [foldlM_cons] at h
    obtain ⟨mid, hmid, h⟩ := of_bind h
    rw [visits_cons_ok hmid, map_cons, ih h]

/-- An invariant that may speak about the visits so far. -/
theorem foldlM_history (Inv : List (σ × α) → σ → Prop) (P : σ × α → Prop) (hinit : Inv [] s)
    (hstep : ∀ past s a s', Inv past s → P (s, a) → f s a = .ok s' → Inv (past ++ [(s, a)]) s')
    (hvisits : ∀ v ∈ visits f l s, P v) (h : l.foldlM f s = .ok s') : Inv (visits f l s) s' := by
  suffices hfrom : ∀ past, Inv past s → Inv (past ++ visits f l s) s' from hfrom [] hinit
  clear hinit
  induction l generalizing s with
  | nil =>
    cases h
    simp [visits]
  | cons a rest ih =>
    intro past hpast
    rw [foldlM_cons] at h
    obtain ⟨mid, hmid, h⟩ := of_bind h
    have hnext := hstep past s a mid hpast (hvisits _ (mem_visits_head a rest s)) hmid
    have hrest := ih (fun v hv => hvisits v (mem_visits_tail hmid hv)) h _ hnext
    rw [visits_cons_ok hmid]
    simpa using hrest

theorem visits_invariant (Inv : σ → Prop) (hinit : Inv s)
    (hstep : ∀ s a s', a ∈ l → Inv s → f s a = .ok s' → Inv s') : ∀ v ∈ visits f l s, Inv v.1 := by
  induction l generalizing s with
  | nil => simp [visits]
  | cons a rest ih =>
    intro v hv
    cases hf : f s a with
    | error e =>
      rw [visits, hf, mem_singleton] at hv
      rw [hv]
      exact hinit
    | ok s' =>
      rw [visits_cons_ok hf] at hv
      rcases mem_cons.mp hv with rfl | hv
      · exact hinit
      · have hnext := hstep s a s' mem_cons_self hinit hf
        exact ih hnext (fun s b s' hb => hstep s b s' (mem_cons_of_mem _ hb)) v hv

/-- A fault that no visited step can raise is not raised by the fold. -/
theorem foldlM_ne_error (Inv : σ → Prop) (P : σ × α → Prop) {fault : ε} (hinit : Inv s)
    (hstep : ∀ s a s', Inv s → P (s, a) → f s a = .ok s' → Inv s')
    (hne : ∀ s a, Inv s → P (s, a) → f s a ≠ .error fault) (hvisits : ∀ v ∈ visits f l s, P v) :
    l.foldlM f s ≠ .error fault := by
  induction l generalizing s with
  | nil => exact fun h => by cases h
  | cons a rest ih =>
    have hhead := hvisits _ (mem_visits_head a rest s)
    rw [foldlM_cons]
    cases hmid : f s a with
    | error e =>
      have hfault := hne s a hinit hhead
      rw [hmid] at hfault
      rw [error_bind]
      exact hfault
    | ok mid =>
      rw [ok_bind]
      exact ih (hstep s a mid hinit hhead hmid)
        (fun v hv => hvisits v (mem_visits_tail hmid hv))

end Lib.Visits
