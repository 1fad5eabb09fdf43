import Mathlib.Data.Rat.Floor
import Mathlib.Tactic.FieldSimp
import Mathlib.Tactic.Linarith

/-!
# Truncation toward zero

Rational numbers without their decimals after a given place. What is cut off is less than one unit
of that place.
-/

namespace Decimal

/-- The integer part, toward zero. -/
def truncate (q : ℚ) : ℤ := if 0 ≤ q then ⌊q⌋ else ⌈q⌉

/-- A number with `d` decimals, the others cut off. -/
def truncateAt (d : ℕ) (q : ℚ) : ℚ := truncate (q * 10 ^ d) / 10 ^ d

theorem truncate_div (n : ℤ) {d : ℕ} (hd : 0 < d) : truncate (n / d) = n.tdiv d := by
  have hpos : (0 : ℚ) < d := Nat.cast_pos.mpr hd
  unfold truncate
  split_ifs with h
  · have hn : 0 ≤ n := by
      rw [le_div_iff₀ hpos, zero_mul] at h
      exact_mod_cast h
    rw [Rat.floor_intCast_div_natCast, Int.tdiv_eq_ediv_of_nonneg hn]
  · have hn : 0 ≤ -n := by
      rw [le_div_iff₀ hpos, zero_mul, not_le] at h
      have : n < 0 := by exact_mod_cast h
      omega
    rw [Rat.ceil_intCast_div_natCast, ← Int.tdiv_eq_ediv_of_nonneg hn, Int.neg_tdiv, neg_neg]

theorem truncate_intCast_div (n : ℤ) {d : ℤ} (hd : d ≠ 0) : truncate (n / d) = n.tdiv d := by
  obtain ⟨k, rfl | rfl⟩ := d.eq_nat_or_neg
  · exact truncate_div n (by omega)
  · have h := truncate_div (-n) (d := k) (by omega)
    rw [Int.cast_neg, neg_div] at h
    rw [Int.tdiv_neg, ← Int.neg_tdiv, ← h, Int.cast_neg, div_neg, Int.cast_natCast]

theorem truncateAt_div (n : ℤ) {d e : ℕ} (h : d ≤ e) :
    truncateAt d (n / 10 ^ e) = n.tdiv (10 ^ (e - d) : ℕ) / 10 ^ d := by
  have hpow : (n : ℚ) / 10 ^ e * 10 ^ d = n / (10 ^ (e - d) : ℕ) := by
    rw [Nat.cast_pow, Nat.cast_ofNat, ← Nat.sub_add_cancel h, pow_add, Nat.add_sub_cancel]
    field_simp
  rw [truncateAt, hpow, truncate_div _ (Nat.pow_pos (by decide))]

theorem abs_truncate_sub_lt (q : ℚ) : |truncate q - q| < 1 := by
  unfold truncate
  split_ifs
  · rw [abs_lt]
    constructor <;> linarith [Int.floor_le q, Int.lt_floor_add_one q]
  · rw [abs_lt]
    constructor <;> linarith [Int.le_ceil q, Int.ceil_lt_add_one q]

theorem abs_truncateAt_sub_lt (d : ℕ) (q : ℚ) : |truncateAt d q - q| < 1 := by
  have hpow : (1 : ℚ) ≤ 10 ^ d := one_le_pow₀ (by norm_num)
  have heq : truncateAt d q - q = (truncate (q * 10 ^ d) - q * 10 ^ d) / 10 ^ d := by
    rw [truncateAt]
    field_simp
  rw [heq, abs_div, abs_of_pos (by linarith : (0 : ℚ) < 10 ^ d), div_lt_one (by linarith)]
  exact (abs_truncate_sub_lt _).trans_le hpow

end Decimal
