import Mathlib

/-! A scan of entries that stops once it has met a bounded number of distinct keys. -/

namespace Lib.BoundedScan

open List

variable {α κ : Type} [DecidableEq α] [DecidableEq κ] {key : α → Option κ}

/-- The distinct keys of a list of entries. -/
def keys (key : α → Option κ) (entries : List α) : Finset κ := (entries.filterMap key).toFinset

theorem mem_keys {entries : List α} {k : κ} :
    k ∈ keys key entries ↔ ∃ a ∈ entries, key a = some k := by
  simp [keys]

@[simp] theorem keys_nil : keys key [] = ∅ := rfl

theorem keys_singleton_some {a : α} {k : κ} (h : key a = some k) : keys key [a] = {k} := by
  simp [keys, h]

theorem keys_singleton_none {a : α} (h : key a = none) : keys key [a] = ∅ := by
  simp [keys, h]

theorem keys_append (l l' : List α) : keys key (l ++ l') = keys key l ∪ keys key l' := by
  simp [keys, filterMap_append, toFinset_append]

theorem keys_cons (a : α) (l : List α) : keys key (a :: l) = keys key [a] ∪ keys key l :=
  keys_append [a] l

theorem keys_mono {l l' : List α} (h : l ⊆ l') : keys key l ⊆ keys key l' := by
  intro k hk
  obtain ⟨a, ha, hkey⟩ := mem_keys.mp hk
  exact mem_keys.mpr ⟨a, h ha, hkey⟩

/-- The entries before the first occurrence of one. -/
def before (entries : List α) (a : α) : List α := entries.takeWhile (· ≠ a)

theorem before_append {l l' : List α} {a : α} (h : a ∉ l) :
    before (l ++ l') a = l ++ before l' a := by
  unfold before
  apply takeWhile_append_of_pos
  intro b hb
  exact decide_eq_true fun heq => h (heq ▸ hb)

@[simp] theorem before_self (l : List α) (a : α) : before (a :: l) a = [] :=
  takeWhile_cons_of_neg (by simp)

theorem before_append_of_mem {l l' : List α} {a : α} (h : a ∈ l) :
    before (l ++ l') a = before l a := by
  induction l with
  | nil => cases h
  | cons b l ih =>
    by_cases hab : b = a
    · rw [hab, cons_append, before_self, before_self]
    · have hmem := (mem_cons.mp h).resolve_left fun heq => hab heq.symm
      simp only [before, cons_append, takeWhile_cons, decide_eq_true hab, if_true]
      exact congrArg (b :: ·) (ih hmem)

/-- The entries that are met when the keys in `found` were met already. -/
def met (key : α → Option κ) (bound : Nat) (found : Finset κ) : List α → List α
  | [] => []
  | a :: entries =>
    if bound ≤ found.card then [] else a :: met key bound (found ∪ keys key [a]) entries

theorem met_subset (key : α → Option κ) (bound : Nat) (found : Finset κ) (entries : List α) :
    met key bound found entries ⊆ entries := by
  induction entries generalizing found with
  | nil => exact List.Subset.refl _
  | cons a entries ih =>
    unfold met
    split_ifs
    · exact nil_subset _
    · exact cons_subset_cons a (ih _)

/-- An entry is met exactly when fewer than `bound` keys come before it. -/
theorem mem_met {bound : Nat} {found : Finset κ} {entries : List α} {a : α} :
    a ∈ met key bound found entries ↔
      a ∈ entries ∧ (found ∪ keys key (before entries a)).card < bound := by
  induction entries generalizing found with
  | nil => simp [met]
  | cons b entries ih =>
    have hle : found.card ≤ (found ∪ keys key (before (b :: entries) a)).card :=
      Finset.card_le_card Finset.subset_union_left
    unfold met
    by_cases hfull : bound ≤ found.card
    · rw [if_pos hfull]
      constructor
      · intro h
        cases h
      · rintro ⟨-, h⟩
        omega
    rw [if_neg hfull]
    by_cases hab : b = a
    · subst hab
      rw [before_self, keys_nil, Finset.union_empty]
      exact ⟨fun _ => ⟨mem_cons_self, by omega⟩, fun _ => mem_cons_self⟩
    · have hsome : before (b :: entries) a = b :: before entries a :=
        takeWhile_cons_of_pos (decide_eq_true hab)
      have hne : a ≠ b := fun heq => hab heq.symm
      rw [hsome, keys_cons b (before entries a), ← Finset.union_assoc, mem_cons,
        mem_cons, ih]
      simp only [hne, false_or]

theorem met_eq_or_full (key : α → Option κ) (bound : Nat) (found : Finset κ) (entries : List α) :
    met key bound found entries = entries ∨
      bound ≤ (found ∪ keys key (met key bound found entries)).card := by
  induction entries generalizing found with
  | nil => exact .inl rfl
  | cons a entries ih =>
    unfold met
    by_cases hfull : bound ≤ found.card
    · right
      rw [if_pos hfull, keys_nil, Finset.union_empty]
      exact hfull
    · rw [if_neg hfull]
      rcases ih (found ∪ keys key [a]) with hall | hmany
      · left
        rw [hall]
      · right
        rw [keys_cons, ← Finset.union_assoc]
        exact hmany

end Lib.BoundedScan
