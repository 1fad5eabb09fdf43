import Mathlib.Algebra.Order.Ring.Int

/-!
# Words in range

Sums and differences of `Int64` that stay in range are those of the integers.
-/

namespace Word

variable {a b : Int64}

theorem toInt_add_of_lt (h : -2 ^ 63 ≤ a.toInt + b.toInt) (h' : a.toInt + b.toInt < 2 ^ 63) :
    (a + b).toInt = a.toInt + b.toInt := by
  rw [Int64.toInt_add, Int.bmod_def]
  omega

theorem toInt_sub_of_le (h : -2 ^ 63 ≤ a.toInt - b.toInt) (h' : a.toInt - b.toInt < 2 ^ 63) :
    (a - b).toInt = a.toInt - b.toInt := by
  rw [Int64.toInt_sub, Int.bmod_def]
  omega

end Word
