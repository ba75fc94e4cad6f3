import Mathlib

/-! The shortest prefix of a list with a property, and which of two properties comes first. -/

namespace Lib.ShortestPrefix

open List Option

variable {α : Type*} {P Q : List α → Prop} {p q v w : List α}

/-- Some prefix has the property. -/
def Meets (P : List α → Prop) (w : List α) : Prop := ∃ p, p <+: w ∧ P p

structure Shortest (P : List α → Prop) (p w : List α) : Prop where
  le : p <+: w
  holds : P p
  least : ∀ q, q <+: p → P q → q = p

/-- A prefix has met `P` and not yet `Q`. -/
def Before (P Q : List α → Prop) (w : List α) : Prop :=
  ∃ q, q <+: w ∧ Meets P q ∧ ¬Meets Q q

theorem Meets.mono (h : v <+: w) (hm : Meets P v) : Meets P w := by
  obtain ⟨p, hp, hP⟩ := hm
  exact ⟨p, hp.trans h, hP⟩

theorem Shortest.meets (h : Shortest P p w) : Meets P w := ⟨p, h.le, h.holds⟩

theorem Meets.exists_shortest (h : Meets P w) : ∃ p, Shortest P p w := by
  obtain ⟨p, hp, hP⟩ := h
  induction hn : p.length using Nat.strong_induction_on generalizing p with
  | _ n ih =>
    by_cases hleast : ∀ q, q <+: p → P q → q = p
    · exact ⟨p, hp, hP, hleast⟩
    · push Not at hleast
      obtain ⟨q, hq, hQ, hne⟩ := hleast
      have hlt : q.length < p.length :=
        lt_of_le_of_ne hq.length_le fun heq => hne (hq.eq_of_length heq)
      exact ih q.length (hn ▸ hlt) q (hq.trans hp) hQ rfl

theorem Shortest.unique (hp : Shortest P p w) (hq : Shortest P q w) : p = q := by
  rcases prefix_or_prefix_of_prefix hp.le hq.le with h | h
  · exact hq.least p h hp.holds
  · exact (hp.least q h hq.holds).symm

theorem Shortest.mono (h : Shortest P p v) (hv : v <+: w) : Shortest P p w :=
  ⟨h.le.trans hv, h.holds, h.least⟩

theorem Shortest.restrict (h : Shortest P p w) (hv : v <+: w) (hm : Meets P v) :
    Shortest P p v := by
  obtain ⟨q, hq⟩ := hm.exists_shortest
  have heq : q = p := (hq.mono hv).unique h
  exact heq ▸ hq

theorem Before.mono (hv : v <+: w) (h : Before P Q v) : Before P Q w := by
  obtain ⟨q, hq, hP, hQ⟩ := h
  exact ⟨q, hq.trans hv, hP, hQ⟩

theorem Before.restrict (hv : v <+: w) (hm : Meets Q v) (h : Before P Q w) : Before P Q v := by
  obtain ⟨q, hq, hP, hQ⟩ := h
  rcases prefix_or_prefix_of_prefix hq hv with hle | hle
  · exact ⟨q, hle, hP, hQ⟩
  · exact absurd (hm.mono hle) hQ

/-- What is met up to the first `Q` came before it, when no list has both properties. -/
theorem Shortest.meets_iff_before (h : Shortest Q p w) (hne : ∀ x, P x → ¬Q x) :
    Meets P p ↔ Before P Q w := by
  constructor
  · intro ⟨q, hq, hP⟩
    refine ⟨q, hq.trans h.le, ⟨q, prefix_rfl, hP⟩, ?_⟩
    intro ⟨r, hr, hQ⟩
    have hrp : r = p := h.least r (hr.trans hq) hQ
    have hpq : p = q := (hrp ▸ hr).eq_of_length_le hq.length_le
    exact hne q hP (hpq ▸ h.holds)
  · intro ⟨q, hq, hP, hQ⟩
    rcases prefix_or_prefix_of_prefix hq h.le with hle | hle
    · exact hP.mono hle
    · exact absurd ⟨p, hle, h.holds⟩ hQ

/-- The shortest prefix, computed. -/
def shortest? : (List α → Bool) → List α → Option (List α)
  | P, [] => if P [] then some [] else none
  | P, a :: w => if P [] then some [] else (shortest? (fun p => P (a :: p)) w).map (a :: ·)

theorem shortest_nil {P : List α → Prop} (h : P []) : Shortest P [] w :=
  ⟨ nil_prefix, h, fun _ hq _ => prefix_nil.mp hq⟩

theorem shortest_cons {a : α} (hnil : ¬P []) (h : Shortest (fun p => P (a :: p)) p w) :
    Shortest P (a :: p) (a :: w) := by
  refine ⟨cons_prefix_cons.mpr ⟨rfl, h.le⟩, h.holds, fun q hq hP => ?_⟩
  cases q with
  | nil => exact absurd hP hnil
  | cons b q =>
    obtain ⟨rfl, htail⟩ := cons_prefix_cons.mp hq
    rw [h.least q htail hP]

theorem shortest?_some {P : List α → Bool} (h : shortest? P w = some p) :
    Shortest (fun x => P x = true) p w := by
  induction w generalizing P p with
  | nil =>
    simp only [shortest?, ite_none_right_eq_some, some.injEq] at h
    obtain ⟨hP, rfl⟩ := h
    exact shortest_nil hP
  | cons a w ih =>
    rw [shortest?] at h
    split_ifs at h with hnil
    · cases h
      exact shortest_nil hnil
    · obtain ⟨q, hq, rfl⟩ := map_eq_some_iff.mp h
      exact shortest_cons hnil (ih hq)

theorem shortest?_none {P : List α → Bool} (h : shortest? P w = none) :
    ¬Meets (fun x => P x = true) w := by
  intro hm
  obtain ⟨p, hp, hP⟩ := hm
  induction w generalizing P p with
  | nil =>
    rw [prefix_nil.mp hp] at hP
    simp [shortest?, hP] at h
  | cons a w ih =>
    rw [shortest?] at h
    split_ifs at h with hnil
    cases p with
    | nil => exact hnil hP
    | cons b p =>
      obtain ⟨rfl, htail⟩ := cons_prefix_cons.mp hp
      exact ih (map_eq_none_iff.mp h) p htail hP

end Lib.ShortestPrefix
