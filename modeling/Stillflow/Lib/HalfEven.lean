import Mathlib.Algebra.Order.Field.Basic
import Mathlib.Tactic.Positivity
import Mathlib.Tactic.Linarith
import Mathlib.Tactic.FieldSimp
import Mathlib.Tactic.Ring

/-!
Rounding to the nearest integer, ties to even: the relation, and the quotient of two naturals
rounded from its remainder.
-/

namespace Lib

/-- `k` is within one half of `x`, and even at a midpoint. -/
structure RoundsHalfEven (x : ℚ) (k : ℤ) : Prop where
  error : |x - k| ≤ 1 / 2
  even : |x - k| = 1 / 2 → k % 2 = 0

def roundHalfEven (numerator denominator : Nat) : Nat :=
  let quotient := numerator / denominator
  let doubled := numerator % denominator * 2
  if doubled > denominator ∨ (doubled = denominator ∧ quotient % 2 = 1) then quotient + 1
  else quotient

namespace RoundsHalfEven

variable {x y : ℚ} {k l : ℤ}

theorem le_of_le (hx : RoundsHalfEven x k) (hy : RoundsHalfEven y l) (h : x ≤ y) : k ≤ l := by
  have hxk := abs_le.mp hx.error
  have hyl := abs_le.mp hy.error
  by_contra hlt
  have hnext : l + 1 ≤ k := by omega
  have hcast : (l : ℚ) + 1 ≤ k := by exact_mod_cast hnext
  -- both errors are one half, so both integers are even; they are also neighbours
  have hk : x - k = -(1 / 2) := by linarith
  have hl : y - l = 1 / 2 := by linarith
  have heven := hx.even (by rw [hk, abs_neg, abs_of_pos (by norm_num)])
  have heven' := hy.even (by rw [hl, abs_of_pos (by norm_num)])
  have hsame : (k : ℚ) = l + 1 := by linarith
  have : k = l + 1 := by exact_mod_cast hsame
  omega

end RoundsHalfEven

theorem roundHalfEven_spec (n : Nat) {d : Nat} (hd : 0 < d) :
    RoundsHalfEven ((n : ℚ) / d) (roundHalfEven n d) := by
  have hmod := Nat.mod_lt n hd
  have hdiv := Nat.div_add_mod n d
  have hpos : (0 : ℚ) < d := by exact_mod_cast hd
  unfold roundHalfEven
  dsimp only
  generalize n / d = q, n % d = r at hmod hdiv ⊢
  have hx : (n : ℚ) / d = q + r / d := by
    rw [← hdiv]
    push_cast
    field_simp
  split_ifs with hup
  · -- the remainder is at least one half
    have hhalf : d ≤ r * 2 := by omega
    have hle : (1 : ℚ) / 2 ≤ r / d := by
      rw [div_le_div_iff₀ two_pos hpos, one_mul]
      exact_mod_cast hhalf
    have hlt : (r : ℚ) / d < 1 := by
      rw [div_lt_one hpos]
      exact_mod_cast hmod
    have herror : (n : ℚ) / d - ((q + 1 : Nat) : ℤ) = r / d - 1 := by
      rw [hx]
      push_cast
      ring
    constructor
    · rw [herror, abs_of_neg (by linarith)]
      linarith
    · intro htie
      rw [herror, abs_of_neg (by linarith)] at htie
      have hmid : (r : ℚ) / d = 1 / 2 := by linarith
      rw [div_eq_div_iff hpos.ne' two_ne_zero, one_mul] at hmid
      have hmid' : r * 2 = d := by exact_mod_cast hmid
      omega
  · -- the remainder is at most one half
    have hhalf : r * 2 ≤ d := by omega
    have hle : (r : ℚ) / d ≤ 1 / 2 := by
      rw [div_le_div_iff₀ hpos two_pos, one_mul]
      exact_mod_cast hhalf
    have hnonneg : (0 : ℚ) ≤ r / d := by positivity
    have herror : (n : ℚ) / d - ((q : Nat) : ℤ) = r / d := by
      rw [hx]
      push_cast
      ring
    constructor
    · rw [herror, abs_of_nonneg hnonneg]
      exact hle
    · intro htie
      rw [herror, abs_of_nonneg hnonneg, div_eq_div_iff hpos.ne' two_ne_zero, one_mul] at htie
      have hmid : r * 2 = d := by exact_mod_cast htie
      omega

end Lib
