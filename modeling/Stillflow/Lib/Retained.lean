import Mathlib

/-! Distinct items kept with a running cost: the cost never passes that of the whole set they are
drawn from. -/

namespace Lib

open List

/-- `kept` are distinct items of `all`, and `cost` is what they cost together. -/
structure Retained {α : Type} [DecidableEq α] (weight : α → Nat) (all : Finset α) (kept : List α)
    (cost : Nat) : Prop where
  nodup : kept.Nodup
  mem : ∀ a ∈ kept, a ∈ all
  cost_eq : cost = (kept.map weight).sum

namespace Retained

variable {α : Type} [DecidableEq α] {weight : α → Nat} {all : Finset α} {kept : List α}
  {cost : Nat} {a : α}

theorem nil : Retained weight all [] 0 := ⟨nodup_nil, by simp, rfl⟩

theorem cons (h : Retained weight all kept cost) (ha : a ∈ all) (hnew : a ∉ kept) :
    Retained weight all (a :: kept) (cost + weight a) := by
  constructor
  · exact nodup_cons.mpr ⟨hnew, h.nodup⟩
  · intro b hb
    cases hb with
    | head => exact ha
    | tail _ hb => exact h.mem b hb
  · rw [map_cons, sum_cons, h.cost_eq, Nat.add_comm]

theorem toFinset_subset (h : Retained weight all kept cost) : kept.toFinset ⊆ all := by
  intro a ha
  exact h.mem a (mem_toFinset.mp ha)

theorem length_le (h : Retained weight all kept cost) : kept.length ≤ all.card := by
  rw [← toFinset_card_of_nodup h.nodup]
  exact Finset.card_le_card h.toFinset_subset

theorem cost_le (h : Retained weight all kept cost) : cost ≤ ∑ a ∈ all, weight a := by
  rw [h.cost_eq, ← sum_toFinset weight h.nodup]
  exact Finset.sum_le_sum_of_subset h.toFinset_subset

end Retained

end Lib
