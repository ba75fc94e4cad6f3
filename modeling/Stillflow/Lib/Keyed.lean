import Mathlib

/-! Lists searched by a key that occurs at most once. -/

namespace Lib.Keyed

open List

variable {α κ : Type*} [BEq κ] [LawfulBEq κ] (key : α → κ)

theorem find?_eq_some_iff {l : List α} (hn : (l.map key).Nodup) {k : κ} {a : α} :
    l.find? (key · == k) = some a ↔ a ∈ l ∧ key a = k := by
  constructor
  · intro h
    exact ⟨mem_of_find?_eq_some h, by simpa using find?_some h⟩
  · rintro ⟨ha, rfl⟩
    induction l with
    | nil => simp at ha
    | cons b l ih =>
      rw [map_cons, nodup_cons] at hn
      rcases mem_cons.mp ha with rfl | ha
      · simp
      · have hne : key b ≠ key a := fun heq => hn.1 (heq ▸ mem_map_of_mem ha)
        simpa [hne] using ih hn.2 ha

/-- The order of a list does not matter to a search by a unique key. -/
theorem find?_perm {l l' : List α} (hp : l.Perm l') (hn : (l.map key).Nodup) (k : κ) :
    l.find? (key · == k) = l'.find? (key · == k) := by
  have hn' : (l'.map key).Nodup := (hp.map _).nodup_iff.mp hn
  ext a
  rw [find?_eq_some_iff key hn, find?_eq_some_iff key hn', hp.mem_iff]

end Lib.Keyed
