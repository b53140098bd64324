import DotGraph.Number
import Mathlib.Algebra.Order.Field.Power
import Mathlib.Data.Rat.Cast.Order
import Mathlib.Tactic.FieldSimp
import Mathlib.Tactic.Linarith
import Mathlib.Tactic.Positivity
import Mathlib.Tactic.Ring
set_option autoImplicit false

namespace DotGraph

/-- `n` is the whole number nearest to `q`. It is even if another one is as near. -/
structure Nearest (q : ℚ) (n : ℕ) : Prop where
  le : ∀ k : ℤ, |q - n| ≤ |q - k|
  even : ∀ k : ℤ, k ≠ n → |q - k| = |q - n| → Even n

namespace Nearest

variable {q r : ℚ} {m n : ℕ}

theorem of_half (h : |q - n| ≤ 1 / 2) (he : |q - n| = 1 / 2 → Even n) : Nearest q n := by
  -- Any other whole number is at least one away from `n`, and so at least a half from `q`.
  have hk : ∀ k : ℤ, k ≠ n → 1 / 2 ≤ |q - k| := by
    intro k hk
    have hi : (1 : ℤ) ≤ |(n : ℤ) - k| := Int.one_le_abs (sub_ne_zero.mpr hk.symm)
    have hq : (1 : ℚ) ≤ |(n : ℚ) - k| := by exact_mod_cast hi
    have ht : |(n : ℚ) - k| ≤ |(n : ℚ) - q| + |q - k| := abs_sub_le _ _ _
    rw [abs_sub_comm (n : ℚ) q] at ht
    linarith
  constructor
  · intro k
    by_cases hn : k = n
    · rw [hn, Int.cast_natCast]
    · exact h.trans (hk k hn)
  · intro k hn hd
    exact he (le_antisymm h (hd ▸ hk k hn))

theorem half (h : Nearest q n) : |q - n| ≤ 1 / 2 := by
  have hl := h.le (n - 1)
  have hr := h.le (n + 1)
  push_cast at hl hr
  rcases abs_cases (q - n) with ⟨ha, _⟩ | ⟨ha, _⟩
  · rcases abs_cases (q - (n + 1)) with ⟨hb, _⟩ | ⟨hb, _⟩ <;> linarith
  · rcases abs_cases (q - (n - 1)) with ⟨hb, _⟩ | ⟨hb, _⟩ <;> linarith

theorem mono (hm : Nearest q m) (hn : Nearest r n) (h : q ≤ r) : m ≤ n := by
  by_contra hlt
  rw [not_le] at hlt
  have hq := abs_le.mp hm.half
  have hr := abs_le.mp hn.half
  have hs : (n : ℚ) + 1 ≤ m := by exact_mod_cast hlt
  -- Both lie halfway between the two, and of these only one is even.
  have hmq : q = m - 1 / 2 := by linarith
  have hnr : r = n + 1 / 2 := by linarith
  have hmn : m = n + 1 := by
    have hc : (m : ℚ) = n + 1 := by linarith
    exact_mod_cast hc
  have em : Even m := by
    refine hm.even n (by omega) ?_
    rw [Int.cast_natCast, show q - n = 1 / 2 by linarith, show q - m = -(1 / 2) by linarith, abs_neg]
  have en : Even n := by
    refine hn.even m (by omega) ?_
    rw [Int.cast_natCast, show r - n = 1 / 2 by linarith, show r - m = -(1 / 2) by linarith, abs_neg]
  rw [hmn, Nat.even_add_one] at em
  exact em en

theorem eq_zero (h : Nearest 0 n) : n = 0 := by
  have hz := h.le 0
  simpa using hz

end Nearest

theorem roundHalfEven_near_of_ne {num den : Nat} (h : 0 < den) (hne : 2 * (num % den) ≠ den) :
    2 * (den * roundHalfEven num den) < 2 * num + den ∧
      2 * num < 2 * (den * roundHalfEven num den) + den := by
  have hd := Nat.div_add_mod num den
  have hr := Nat.mod_lt num h
  unfold roundHalfEven
  dsimp only
  split
  · omega
  split
  · simp only [Nat.mul_add]; omega
  · omega

theorem abs_div_sub {d : ℚ} (h : 0 < d) (q n : ℚ) : |q / d - n| = |q - d * n| / d := by
  have he : q / d - n = (q - d * n) / d := by field_simp
  rw [he, abs_div, abs_of_pos h]

theorem nearest_roundHalfEven (num : Nat) {den : Nat} (h : 0 < den) :
    Nearest (num / den : ℚ) (roundHalfEven num den) := by
  have hd : (0 : ℚ) < den := by exact_mod_cast h
  apply Nearest.of_half
  · obtain ⟨hl, hr⟩ := roundHalfEven_near num h
    have hl : 2 * (den * (roundHalfEven num den : ℚ)) ≤ 2 * num + den := by exact_mod_cast hl
    have hr : 2 * (num : ℚ) ≤ 2 * (den * roundHalfEven num den) + den := by exact_mod_cast hr
    rw [abs_div_sub hd, div_le_iff₀ hd, abs_le]
    constructor <;> linarith
  · intro he
    by_contra hodd
    have hne : 2 * (num % den) ≠ den := fun e => hodd (Nat.even_iff.mpr (roundHalfEven_even e))
    obtain ⟨hl, hr⟩ := roundHalfEven_near_of_ne h hne
    have hl : 2 * (den * (roundHalfEven num den : ℚ)) < 2 * num + den := by exact_mod_cast hl
    have hr : 2 * (num : ℚ) < 2 * (den * roundHalfEven num den) + den := by exact_mod_cast hr
    rw [abs_div_sub hd, div_eq_iff hd.ne'] at he
    have hlt : |num - den * (roundHalfEven num den : ℚ)| < 1 / 2 * den := by
      rw [abs_lt]
      constructor <;> linarith
    exact hlt.ne he

namespace Binary64

/-- The absolute value of a finite number. The numbers of exponent zero are as small as
those of exponent one, but without the leading one. -/
def magnitude (x : Binary64) : ℚ :=
  if x.exponent = 0 then x.fraction / 2 ^ 52 * 2 ^ (-1022 : ℤ)
  else (1 + x.fraction / 2 ^ 52) * 2 ^ ((x.exponent : ℤ) - 1023)

def value (x : Binary64) : ℚ := if x.isNegative then -x.magnitude else x.magnitude

theorem magnitude_nonneg (x : Binary64) : 0 ≤ x.magnitude := by
  unfold magnitude
  split <;> positivity

theorem abs_value (x : Binary64) : |x.value| = x.magnitude := by
  unfold value
  split
  · rw [abs_neg, abs_of_nonneg x.magnitude_nonneg]
  · rw [abs_of_nonneg x.magnitude_nonneg]

theorem magnitude_eq (x : Binary64) : x.magnitude = x.units * 2 ^ (-1074 : ℤ) := by
  have hf : (2 : ℚ) ^ (-52 : ℤ) = 1 / 2 ^ 52 := by norm_num
  unfold magnitude units
  split
  · have hz : (2 : ℚ) ^ (-1074 : ℤ) = 1 / 2 ^ 52 * 2 ^ (-1022 : ℤ) := by
      rw [← hf, ← zpow_add₀ two_ne_zero]
      rfl
    rw [hz]
    ring
  · next he =>
    -- The shift is by one less than the exponent.
    obtain ⟨k, hk⟩ := Nat.exists_eq_succ_of_ne_zero he
    have hz : (2 : ℚ) ^ ((x.exponent : ℤ) - 1023) =
        2 ^ (k : ℤ) * (2 ^ 52 * 2 ^ (-1074 : ℤ)) := by
      rw [← zpow_natCast 2 52, ← zpow_add₀ two_ne_zero, ← zpow_add₀ two_ne_zero, hk]
      congr 1
      push_cast
      ring
    generalize (2 : ℚ) ^ (-1074 : ℤ) = u at hz ⊢
    rw [hz, zpow_natCast, hk, Nat.succ_sub_one, Nat.shiftLeft_eq]
    push_cast
    ring

theorem cast_one_shiftLeft (n : ℕ) : ((1 <<< n : ℕ) : ℚ) = 2 ^ (n : ℤ) := by
  rw [Nat.shiftLeft_eq, one_mul, Nat.cast_pow, Nat.cast_ofNat, zpow_natCast]

/-- The hundredths are rounded from the exact value. -/
theorem nearest_hundredths (x : Binary64) : Nearest (100 * |x.value|) x.hundredths := by
  have hd : (0 : ℕ) < 1 <<< 1074 := by
    rw [Nat.one_shiftLeft]
    exact Nat.two_pow_pos 1074
  have hn := nearest_roundHalfEven (100 * x.units) hd
  rw [cast_one_shiftLeft, Nat.cast_mul, Nat.cast_ofNat, mul_div_assoc, div_eq_mul_inv,
    ← zpow_neg] at hn
  rw [abs_value, magnitude_eq]
  exact hn

end Binary64

end DotGraph
