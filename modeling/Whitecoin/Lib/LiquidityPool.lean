import Mathlib.Algebra.Order.Ring.Defs
import Mathlib.Tactic.Linarith
import Mathlib.Tactic.Ring

/-!
# Liquidity pools

A pool holds reserves, and tokens are claims on a share of each of them. Amounts are rounded, so
statements about shares and prices are cleared of denominators.
-/

namespace LiquidityPool

variable {R : Type*} [CommRing R] [LinearOrder R] [IsStrictOrderedRing R]

/-- The claim of a token on a reserve, which is the reserve divided by the supply, does not shrink.
-/
def KeepsShare (reserve supply reserve' supply' : R) : Prop :=
  reserve * supply' ≤ reserve' * supply

variable {reserve supply amount token : R}

theorem KeepsShare.mint (h : token * reserve ≤ amount * supply) :
    KeepsShare reserve supply (reserve + amount) (supply + token) := by
  unfold KeepsShare
  rw [mul_add, add_mul, mul_comm reserve token]
  exact add_le_add_right h _

theorem KeepsShare.burn (h : amount * supply ≤ token * reserve) :
    KeepsShare reserve supply (reserve - amount) (supply - token) := by
  unfold KeepsShare
  rw [mul_sub, sub_mul, mul_comm reserve token]
  exact sub_le_sub_left h _

/-- A reserve `a` receives `deposit`, of which `x` counts, and `get` is paid out of `b`. -/
theorem mul_le_mul_of_swap {a b x deposit get : R} (hx : x ≤ deposit) (hget : get ≤ b)
    (hprice : get * (a + x) ≤ x * b) : a * b ≤ (a + deposit) * (b - get) :=
  calc a * b = (a + x) * b - x * b := by ring
    _ ≤ (a + x) * b - get * (a + x) := sub_le_sub_left hprice _
    _ = (a + x) * (b - get) := by ring
    _ ≤ (a + deposit) * (b - get) :=
      mul_le_mul_of_nonneg_right (by linarith) (sub_nonneg.mpr hget)

end LiquidityPool
