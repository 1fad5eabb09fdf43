import Mathlib.Algebra.Order.Group.Nat
import Mathlib.Tactic.Ring

/-!
# Arithmetic with digits

The two algorithms of written arithmetic, over the natural numbers: multiplication of four digits by
four digits, of which the low four are kept, and division that takes the bits of the dividend one by
one. Fractions are written shortest if they do not end in a zero.
-/

namespace Radix

variable {B : ℕ}

theorem div_add_mul (hB : 0 < B) (x y : ℕ) : (x + B * y) / B = x / B + y :=
  Nat.add_mul_div_left x y hB

/-- **Carries.** The low digit is kept and the rest is added to the next one, up to the fourth
digit, where the rest is dropped. -/
theorem carry (hB : 0 < B) (d₀ d₁ d₂ d₃ : ℕ) :
    d₀ % B + B * ((d₁ + d₀ / B) % B + B * ((d₂ + (d₁ + d₀ / B) / B) % B +
      B * ((d₃ + (d₂ + (d₁ + d₀ / B) / B) / B) % B))) =
      (d₀ + B * (d₁ + B * (d₂ + B * d₃))) % (B * (B * (B * B))) := by
  rw [Nat.mod_mul, Nat.add_mul_mod_self_left, div_add_mul hB,
    show d₀ / B + (d₁ + B * (d₂ + B * d₃)) = d₁ + d₀ / B + B * (d₂ + B * d₃) by ring,
    Nat.mod_mul, Nat.add_mul_mod_self_left, div_add_mul hB,
    show (d₁ + d₀ / B) / B + (d₂ + B * d₃) = d₂ + (d₁ + d₀ / B) / B + B * d₃ by ring,
    Nat.mod_mul, Nat.add_mul_mod_self_left, div_add_mul hB,
    Nat.add_comm ((d₂ + (d₁ + d₀ / B) / B) / B)]

/-- **Written multiplication.** The products of digits are split into digits, which are added up by
their places. -/
theorem schoolbook (a₀ a₁ a₂ a₃ b₀ b₁ b₂ b₃ : ℕ) :
    (a₀ * b₀ % B +
      B * (a₀ * b₁ % B + a₀ * b₀ / B + a₁ * b₀ % B +
      B * (a₀ * b₂ % B + a₀ * b₁ / B + (a₁ * b₁ % B + a₁ * b₀ / B) + a₂ * b₀ % B +
      B * (a₀ * b₃ % B + a₀ * b₂ / B + (a₁ * b₂ % B + a₁ * b₁ / B) +
        (a₂ * b₁ % B + a₂ * b₀ / B) + a₃ * b₀ % B)))) % (B * (B * (B * B))) =
      (a₀ + B * (a₁ + B * (a₂ + B * a₃))) * (b₀ + B * (b₁ + B * (b₂ + B * b₃))) %
        (B * (B * (B * B))) := by
  -- what is dropped lies above the fourth place
  have hsplit : ∀ p, p = p % B + B * (p / B) := fun p => (Nat.mod_add_div p B).symm
  have hdropped : (a₀ + B * (a₁ + B * (a₂ + B * a₃))) * (b₀ + B * (b₁ + B * (b₂ + B * b₃))) =
      (a₀ * b₀ + B * (a₀ * b₁ + a₁ * b₀ + B * (a₀ * b₂ + a₁ * b₁ + a₂ * b₀ +
        B * (a₀ * b₃ + a₁ * b₂ + a₂ * b₁ + a₃ * b₀)))) +
      B * (B * (B * B)) * (a₁ * b₃ + a₂ * b₂ + a₃ * b₁ + B * (a₂ * b₃ + a₃ * b₂) +
        B * B * (a₃ * b₃)) := by ring
  rw [hdropped, Nat.add_mul_mod_self_left]
  have hvalue : a₀ * b₀ + B * (a₀ * b₁ + a₁ * b₀ + B * (a₀ * b₂ + a₁ * b₁ + a₂ * b₀ +
        B * (a₀ * b₃ + a₁ * b₂ + a₂ * b₁ + a₃ * b₀))) =
      (a₀ * b₀ % B +
        B * (a₀ * b₁ % B + a₀ * b₀ / B + a₁ * b₀ % B +
        B * (a₀ * b₂ % B + a₀ * b₁ / B + (a₁ * b₁ % B + a₁ * b₀ / B) + a₂ * b₀ % B +
        B * (a₀ * b₃ % B + a₀ * b₂ / B + (a₁ * b₂ % B + a₁ * b₁ / B) +
          (a₂ * b₁ % B + a₂ * b₀ / B) + a₃ * b₀ % B)))) +
      B * (B * (B * B)) * (a₀ * b₃ / B + a₁ * b₂ / B + a₂ * b₁ / B + a₃ * b₀ / B) := by
    conv_lhs => rw [hsplit (a₀ * b₀), hsplit (a₀ * b₁), hsplit (a₁ * b₀), hsplit (a₀ * b₂),
      hsplit (a₁ * b₁), hsplit (a₂ * b₀), hsplit (a₀ * b₃), hsplit (a₁ * b₂), hsplit (a₂ * b₁),
      hsplit (a₃ * b₀)]
    ring
  rw [hvalue, Nat.add_mul_mod_self_left]

/-! ### Division bit by bit -/

theorem div_two_pow (a x : ℕ) : a / 2 ^ x = 2 * (a / 2 ^ (x + 1)) + a / 2 ^ x % 2 := by
  rw [pow_succ, ← Nat.div_div_eq_div_mul]
  omega

/-- What long division in base two compares with the divisor at the place `x`: the remainder of the
bits above, with the bit at `x` appended. -/
def partialRem (a b x : ℕ) : ℕ := 2 * (a / 2 ^ (x + 1) % b) + a / 2 ^ x % 2

theorem partialRem_le (a b x : ℕ) : partialRem a b x ≤ a / 2 ^ x := by
  have hmod := Nat.mod_le (a / 2 ^ (x + 1)) b
  have := div_two_pow a x
  rw [partialRem]
  omega

variable {b : ℕ}

theorem partialRem_lt (hb : 0 < b) (a x : ℕ) : partialRem a b x < 2 * b := by
  have := Nat.mod_lt (a / 2 ^ (x + 1)) hb
  rw [partialRem]
  omega

theorem div_mod_step (hb : 0 < b) (a x : ℕ) :
    a / 2 ^ x / b = 2 * (a / 2 ^ (x + 1) / b) + (if b ≤ partialRem a b x then 1 else 0) ∧
      a / 2 ^ x % b =
        if b ≤ partialRem a b x then partialRem a b x - b else partialRem a b x := by
  have hbits := div_two_pow a x
  have hdiv := Nat.div_add_mod (a / 2 ^ (x + 1)) b
  have hlt := partialRem_lt hb a x
  have hrem : partialRem a b x = 2 * (a / 2 ^ (x + 1) % b) + a / 2 ^ x % 2 := rfl
  rw [Nat.div_mod_unique hb, Nat.mul_add, Nat.mul_left_comm]
  split_ifs with hle <;> omega

/-! ### Fractions -/

/-- The fraction `x / B ^ e` does not end in a zero. -/
def Shortest (B x e : ℕ) : Prop := e = 0 ∨ ¬ B ∣ x

theorem Shortest.le {x y e f : ℕ} (hB : 0 < B) (hy : Shortest B y f)
    (h : x * B ^ f = y * B ^ e) : f ≤ e := by
  by_contra hlt
  obtain ⟨d, rfl⟩ := Nat.exists_eq_add_of_lt (Nat.lt_of_not_le hlt)
  have hval : x * B ^ (d + 1) = y := by
    refine Nat.eq_of_mul_eq_mul_right (Nat.pow_pos (n := e) hB) ?_
    rw [← h, Nat.mul_assoc, ← pow_add, Nat.add_comm, Nat.add_assoc]
  rcases hy with h0 | hdvd
  · omega
  · exact hdvd ⟨x * B ^ d, by rw [← hval, pow_succ]; ring⟩

theorem Shortest.unique {x y e f : ℕ} (hB : 0 < B) (hx : Shortest B x e) (hy : Shortest B y f)
    (h : x * B ^ f = y * B ^ e) : x = y ∧ e = f := by
  obtain rfl := Nat.le_antisymm (hx.le hB h.symm) (hy.le hB h)
  exact ⟨Nat.eq_of_mul_eq_mul_right (Nat.pow_pos hB) h, rfl⟩

end Radix
