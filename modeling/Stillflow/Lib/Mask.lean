import Mathlib

/-! Selection of the positions of a list by a list of flags. -/

namespace Lib.Mask

open List

variable {α β : Type*} {xs : List α}

/-- The elements at the flagged positions, in order. -/
def keep : List Bool → List α → List α
  | true :: mask, a :: rest => a :: keep mask rest
  | false :: mask, _ :: rest => keep mask rest
  | _, _ => []

@[simp] theorem keep_nil_left (xs : List α) : keep [] xs = [] := by
  cases xs <;> rfl

@[simp] theorem keep_nil_right (mask : List Bool) : keep mask ([] : List α) = [] := by
  cases mask with
  | nil => rfl
  | cons b mask => cases b <;> rfl

@[simp] theorem keep_true (mask : List Bool) (a : α) (xs : List α) :
    keep (true :: mask) (a :: xs) = a :: keep mask xs := rfl

@[simp] theorem keep_false (mask : List Bool) (a : α) (xs : List α) :
    keep (false :: mask) (a :: xs) = keep mask xs := rfl

theorem keep_sublist (mask : List Bool) (xs : List α) : (keep mask xs).Sublist xs := by
  induction mask generalizing xs with
  | nil => simp
  | cons b mask ih =>
    cases xs with
    | nil => simp
    | cons a xs =>
      cases b with
      | true => exact (ih xs).cons_cons a
      | false => exact (ih xs).cons a

theorem keep_map (f : α → β) (mask : List Bool) (xs : List α) :
    keep mask (xs.map f) = (keep mask xs).map f := by
  induction mask generalizing xs with
  | nil => simp
  | cons b mask ih =>
    cases xs with
    | nil => simp
    | cons a xs => cases b <;> simp [ih]

theorem keep_zip (mask : List Bool) (xs : List α) (ys : List β) (h : xs.length = ys.length) :
    keep mask (xs.zip ys) = (keep mask xs).zip (keep mask ys) := by
  induction mask generalizing xs ys with
  | nil => simp
  | cons b mask ih =>
    cases xs with
    | nil => simp
    | cons a xs =>
      cases ys with
      | nil => cases h
      | cons c ys =>
        have hlen : xs.length = ys.length := by simpa using h
        cases b <;> simp [ih xs ys hlen]

theorem length_keep_eq (mask : List Bool) {ys : List β} (h : xs.length = ys.length) :
    (keep mask xs).length = (keep mask ys).length := by
  induction mask generalizing xs ys with
  | nil => simp
  | cons b mask ih =>
    cases xs with
    | nil =>
      cases ys with
      | nil => simp
      | cons c ys => cases h
    | cons a xs =>
      cases ys with
      | nil => cases h
      | cons c ys =>
        have hlen : xs.length = ys.length := by simpa using h
        cases b <;> simp [ih hlen]

theorem keep_of_all {mask : List Bool} (h : mask.all id = true) (hlen : mask.length = xs.length) :
    keep mask xs = xs := by
  induction mask generalizing xs with
  | nil =>
    cases xs with
    | nil => rfl
    | cons a xs => cases hlen
  | cons b mask ih =>
    cases xs with
    | nil => cases hlen
    | cons a xs =>
      simp only [all_cons, id, Bool.and_eq_true] at h
      rw [h.1, keep_true, ih h.2 (by simpa using hlen)]

@[simp] theorem keep_replicate_true (xs : List α) :
    keep (List.replicate xs.length true) xs = xs := by
  apply keep_of_all <;> simp

@[simp] theorem keep_replicate_false (n : Nat) (xs : List α) :
    keep (List.replicate n false) xs = [] := by
  induction n generalizing xs with
  | zero => simp
  | succ n ih =>
    cases xs with
    | nil => simp
    | cons a xs => simpa [replicate_succ] using ih xs

theorem keep_forall₂ {R : α → β → Prop} {ys : List β} (h : Forall₂ R xs ys) (mask : List Bool) :
    Forall₂ R (keep mask xs) (keep mask ys) := by
  induction h generalizing mask with
  | nil => simp
  | cons hab _ ih =>
    cases mask with
    | nil => simp
    | cons b mask =>
      cases b with
      | true => exact .cons hab (ih mask)
      | false => exact ih mask

/-- What a mask keeps and what it leaves is everything. -/
theorem keep_append_perm {mask : List Bool} (h : mask.length = xs.length) :
    (keep mask xs ++ keep (mask.map not) xs).Perm xs := by
  induction mask generalizing xs with
  | nil =>
    cases xs with
    | nil => simp
    | cons a xs => cases h
  | cons b mask ih =>
    cases xs with
    | nil => cases h
    | cons a xs =>
      have hlen : mask.length = xs.length := by simpa using h
      have hrest := ih hlen
      cases b with
      | true => simpa using hrest
      | false => simpa using perm_middle.trans (hrest.cons a)

theorem mem_keep_map {f : α → Bool} {a : α} : a ∈ keep (xs.map f) xs ↔ a ∈ xs ∧ f a = true := by
  induction xs with
  | nil => simp
  | cons b xs ih =>
    rw [map_cons, mem_cons]
    cases hb : f b with
    | true =>
      rw [keep_true, mem_cons, ih]
      grind
    | false =>
      rw [keep_false, ih]
      grind

theorem mem_keep {mask : List Bool} {a : α} :
    a ∈ keep mask xs ↔ ∃ i : Nat, mask[i]? = some true ∧ xs[i]? = some a := by
  induction mask generalizing xs with
  | nil => simp
  | cons b mask ih =>
    cases xs with
    | nil => simp
    | cons c xs =>
      rw [← Nat.or_exists_add_one]
      cases b <;> simp [ih, eq_comm]

theorem map_not_not (mask : List Bool) : (mask.map not).map not = mask := by
  induction mask with
  | nil => rfl
  | cons b mask ih => rw [map_cons, map_cons, ih, Bool.not_not]

theorem map_keep_isSome {γ : Type*} (f : α → β) (xs : List α) (marks : List (Option γ)) :
    (keep (marks.map Option.isSome) xs).map f =
      (xs.zip marks).filterMap fun p => p.2.map fun _ => f p.1 := by
  induction xs generalizing marks with
  | nil => simp
  | cons x xs ih =>
    cases marks with
    | nil => simp
    | cons mark marks => cases mark <;> simp [ih]

end Lib.Mask
