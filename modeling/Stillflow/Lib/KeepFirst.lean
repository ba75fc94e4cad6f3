import Mathlib

/-! Keeping the first of equal elements. -/

namespace Lib.KeepFirst

open List

variable {κ α : Type}

section Table

variable [BEq κ] [LawfulBEq κ]

/-- For each entry, what the history before it has for its key. -/
def repeats (past : List (κ × Nat)) : List (κ × Nat) → List (Option Nat)
  | [] => []
  | entry :: rest => past.lookup entry.1 :: repeats (past ++ [entry]) rest

/-- The table and the history have the same answers. -/
def Answers (table past : List (κ × Nat)) : Prop := ∀ key, table.lookup key = past.lookup key

omit [LawfulBEq κ] in
theorem length_repeats (past entries : List (κ × Nat)) :
    (repeats past entries).length = entries.length := by
  induction entries generalizing past with
  | nil => rfl
  | cons entry rest ih => rw [repeats, length_cons, ih, length_cons]

omit [LawfulBEq κ] in
theorem repeats_append (past xs ys : List (κ × Nat)) :
    repeats past (xs ++ ys) = repeats past xs ++ repeats (past ++ xs) ys := by
  induction xs generalizing past with
  | nil => simp [repeats]
  | cons x xs ih => simp [repeats, ih]

omit [LawfulBEq κ] in
theorem Answers.insert {table past : List (κ × Nat)} (h : Answers table past) (entry : κ × Nat) :
    Answers (table ++ [entry]) (past ++ [entry]) := by
  intro key
  rw [lookup_append, lookup_append, h key]

/-- A key the table has already adds nothing to the history's answers. -/
theorem Answers.skip {table past : List (κ × Nat)} (h : Answers table past) {entry : κ × Nat}
    {first : Nat} (hentry : table.lookup entry.1 = some first) :
    Answers table (past ++ [entry]) := by
  intro key
  rw [lookup_append, h key]
  by_cases hkey : key = entry.1
  · rw [hkey, ← h, hentry]
    rfl
  · have hne : (key == entry.1) = false := beq_eq_false_iff_ne.mpr hkey
    rw [lookup_cons, hne]
    cases past.lookup key <;> rfl

end Table

open Classical in
/-- For each element, the earliest one before it that it repeats. -/
noncomputable def repeated (R : α → α → Prop) (past : List α) : List α → List (Option α)
  | [] => []
  | a :: rest => (past.find? fun b => decide (R b a)) :: repeated R (past ++ [a]) rest

open Classical in
theorem lookup_eq_find? [BEq κ] [LawfulBEq κ] {R : α → α → Prop} {key : α → κ} {value : α → Nat}
    {past : List α} {a : α} (h : ∀ b ∈ past, key b = key a ↔ R b a) :
    (past.map fun b => (key b, value b)).lookup (key a) =
      (past.find? fun b => decide (R b a)).map value := by
  induction past with
  | nil => rfl
  | cons b past ih =>
    have hb := h b mem_cons_self
    have hrest := ih fun c hc => h c (mem_cons_of_mem _ hc)
    rw [map_cons, lookup_cons]
    by_cases hR : R b a
    · have hkey : (key a == key b) = true := beq_iff_eq.mpr (hb.mpr hR).symm
      rw [hkey, find?_cons_of_pos (by simpa using hR), Option.map_some]
    · have hkey : (key a == key b) = false := by
        rw [beq_eq_false_iff_ne]
        exact fun heq => hR (hb.mp heq.symm)
      rw [hkey, find?_cons_of_neg (by simpa using hR)]
      exact hrest

/-- Keys that decide the relation find what the relation finds. -/
theorem repeats_eq_repeated [BEq κ] [LawfulBEq κ] {R : α → α → Prop} {key : α → κ}
    (value : α → Nat) {past l : List α}
    (h : ∀ b ∈ past ++ l, ∀ a ∈ past ++ l, key b = key a ↔ R b a) :
    repeats (past.map fun a => (key a, value a)) (l.map fun a => (key a, value a)) =
      (repeated R past l).map (Option.map value) := by
  induction l generalizing past with
  | nil => rfl
  | cons a l ih =>
    have hfirst : (past.map fun b => (key b, value b)).lookup (key a) = _ :=
      lookup_eq_find? fun b hb => h b (mem_append_left _ hb) a (by simp)
    have hrest := @ih (past ++ [a]) (by simpa using h)
    rw [map_append] at hrest
    rw [map_cons, repeats, repeated, map_cons, hfirst]
    exact congrArg _ hrest

end Lib.KeepFirst
