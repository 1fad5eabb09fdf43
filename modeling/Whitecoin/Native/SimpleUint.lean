import Whitecoin.Native.SafeNumberExact

/-!
# Wide words over their whole range

What the operations on words of 128 and of 256 bits compute for all words. Sums, negations and
products are right modulo the number of words, and so is the division of words of 128 bits.

The difference of words of 256 bits adds a borrow as `2 ^ 64 - 1` and is right only without one. The
division subtracts with it. A borrow makes the remainder too large by `2 ^ 192`, and since every step
doubles the error, it is shifted out after 64 of them if there are so many. Besides, the bits of the
dividend are counted in one byte, in which 256 of them are none.
-/

namespace Whitecoin.Native

open Check

/-- `simple_uint128_bit_reverse`. -/
def simpleUint128BitReverse (a : SimpleUint128) : SimpleUint128 := ⟨~~~a.big, ~~~a.low⟩

/-- `simple_uint256_neg`. -/
def simpleUint256Neg (a : SimpleUint256) : SimpleUint256 :=
  Wide.add ⟨simpleUint128BitReverse a.big, simpleUint128BitReverse a.low⟩ ⟨0, 1⟩

variable (a b : SimpleUint128) (c d : SimpleUint256)

/-! ### Sums and differences -/

theorem toNat_simpleUint128BitReverse :
    (simpleUint128BitReverse a).toNat = 2 ^ 128 - 1 - a.toNat := by
  have hbig := a.big.toNat_lt
  have hlow := a.low.toNat_lt
  have hnot : ∀ n : UInt64, (~~~n).toNat = 2 ^ 64 - 1 - n.toNat := UInt64.toNat_not
  show (~~~a.big).toNat * 2 ^ 64 + (~~~a.low).toNat =
    2 ^ 128 - 1 - (a.big.toNat * 2 ^ 64 + a.low.toNat)
  rw [hnot, hnot]
  omega

theorem toNat_simpleUint256Neg : (simpleUint256Neg c).toNat = (2 ^ 256 - c.toNat) % 2 ^ 256 := by
  have hbig := toNat_lt_uint128 c.big
  have hlow := toNat_lt_uint128 c.low
  have hsplit : c.toNat = c.big.toNat * 2 ^ 128 + c.low.toNat := rfl
  have hadd : (simpleUint256Neg c).toNat = ((simpleUint128BitReverse c.big).toNat * 2 ^ 128 +
      (simpleUint128BitReverse c.low).toNat + 1) % 2 ^ 256 := Wide.toNat_add _ _
  rw [hadd, toNat_simpleUint128BitReverse, toNat_simpleUint128BitReverse]
  omega

/-- **Sums, differences and negations.** The difference is right exactly if the low halves need no
borrow. -/
theorem simpleUint256_sums :
    (Wide.add c d).toNat = (c.toNat + d.toNat) % 2 ^ 256 ∧
      ((simpleUint256Minus c d).toNat = (2 ^ 256 - d.toNat + c.toNat) % 2 ^ 256 ↔
        d.low.toNat ≤ c.low.toNat) ∧
      (simpleUint256Neg c).toNat = (2 ^ 256 - c.toNat) % 2 ^ 256 := by
  refine ⟨Wide.toNat_add c d, ?_, toNat_simpleUint256Neg c⟩
  rw [toNat_simpleUint256Minus]
  split_ifs <;> omega

/-- `2 ^ 128 - 1` comes out as `2 ^ 192 + 2 ^ 128 - 1`. -/
theorem simpleUint256Minus_borrow :
    (simpleUint256Minus ⟨⟨0, 1⟩, ⟨0, 0⟩⟩ ⟨⟨0, 0⟩, ⟨0, 1⟩⟩).toNat = 2 ^ 192 + 2 ^ 128 - 1 := by
  decide +kernel

/-! ### Products -/

/-- **Products** are right for all words. -/
theorem multi_eq_mul_mod : (Wide.multi a b).toNat = a.toNat * b.toNat % 2 ^ 128 ∧
    (Wide.multi c d).toNat = c.toNat * d.toNat % 2 ^ 256 :=
  ⟨Wide.toNat_multi a b, Wide.toNat_multi c d⟩

/-! ### Division -/

/-- The results are a quotient and its remainder. -/
def IsDivision {W : Type} [MachineWord W] (a b : Wide W) (s : Wide.DivResult W) : Prop :=
  a.toNat = s.divResult.toNat * b.toNat + s.modResult.toNat ∧ s.modResult.toNat < b.toNat

theorem isDivision_iff_holds {W : Type} [MachineWord W] {a b : Wide W} {s : Wide.DivResult W}
    (hb : 0 < b.toNat) : IsDivision a b s ↔ s.Holds b a.toNat := by
  rw [Wide.DivResult.Holds, eq_comm, eq_comm (b := _ % _), Nat.div_mod_unique hb, IsDivision,
    eq_comm, Nat.add_comm, Nat.mul_comm]

variable {a b c d}

/-- **Division of 128 bits** is right for all words. -/
theorem simpleUint128Divmod_isDivision (hb : b ≠ ⟨0, 0⟩) :
    ∃ s, simpleUint128Divmod a b = .ok s ∧ IsDivision a b s := by
  have hpos : 0 < b.toNat := Nat.pos_of_ne_zero fun h0 => hb (Wide.toNat_inj h0)
  obtain ⟨s, hs, hholds⟩ := simpleUint128Divmod_eq_ok (a := a) hpos
  exact ⟨s, hs, (isDivision_iff_holds hpos).mpr hholds⟩

theorem simpleUint128Divmod_isDivision_max :
    ∃ s, simpleUint128Divmod ⟨ones, ones⟩ ⟨ones, 0⟩ = .ok s ∧
      IsDivision ⟨ones, ones⟩ ⟨ones, 0⟩ s :=
  simpleUint128Divmod_isDivision (by decide)

/-- The subtraction at the place `x` of the long division has to borrow from the high half. -/
def Borrows (m n x : ℕ) : Prop :=
  n ≤ Radix.partialRem m n x ∧ Radix.partialRem m n x % 2 ^ 128 < n % 2 ^ 128

instance (m n x : ℕ) : Decidable (Borrows m n x) := inferInstanceAs (Decidable (_ ∧ _))

/-- No borrow is at the last 64 places, and at the 63 places after a borrow the divisor fits. -/
def BorrowsVanish (m n : ℕ) : Prop :=
  ∀ y, Borrows m n y → 64 ≤ y ∧ ∀ z < y, y < z + 64 → n ≤ Radix.partialRem m n z

theorem borrowsVanish_of_le {m n : ℕ} (hn : n ≤ 2 ^ 127) : BorrowsVanish m n := by
  rintro y ⟨hle, hlow⟩
  have hpos : 0 < n := by
    by_contra h0
    omega
  have := Radix.partialRem_lt hpos m y
  omega

theorem bits_of_le (hc : 2 ^ 255 ≤ c.toNat) : Wide.bits c = 0 := by
  have hbig : c.big.toNat = c.toNat / 2 ^ 128 := Wide.toNat_big c
  have hlt := toNat_lt_uint128 c.big
  have hzero : c.big ≠ 0 := by
    intro h0
    have : c.big.toNat = 0 := h0 ▸ rfl
    omega
  have hfits : MachineWord.toNat c.big < 2 ^ 128 := hlt
  obtain ⟨n, hcount, hn, hmin⟩ := Wide.countBits_spec hfits 128
  have hn128 : n = 128 := by
    refine le_antisymm (hmin 128 hlt) (Nat.not_lt.mp fun hlt' => ?_)
    have hle : 2 ^ n ≤ 2 ^ 127 := Nat.pow_le_pow_right two_pos (by omega)
    have hn : c.big.toNat < 2 ^ n := hn
    omega
  rw [Wide.bits, if_pos hzero]
  exact hcount.trans (by rw [hn128]; rfl)

section loop

/-- The borrows at `j` places from `x` on, as the bits of a number. -/
def borrowBits (m n : ℕ) : ℕ → ℕ → ℕ
  | 0, _ => 0
  | j + 1, x => 2 * borrowBits m n j (x + 1) + if Borrows m n x then 1 else 0

variable {m n : ℕ}

theorem testBit_borrowBits (j x i : ℕ) :
    (borrowBits m n j x).testBit i = true ↔ i < j ∧ Borrows m n (x + i) := by
  induction j generalizing x i with
  | zero => simp [borrowBits]
  | succ j ih =>
    cases i with
    | zero =>
      rw [borrowBits, Nat.testBit_zero]
      split_ifs with h <;> simp [h]
    | succ i =>
      have hhalf : borrowBits m n (j + 1) x / 2 = borrowBits m n j (x + 1) := by
        rw [borrowBits]
        split_ifs <;> omega
      rw [Nat.testBit_succ, hhalf, ih, Nat.add_lt_add_iff_right, Nat.add_right_comm, Nat.add_assoc]

theorem borrowBits_mod (w j x : ℕ) :
    borrowBits m n j x % 2 ^ w = 0 ↔ ∀ i < w, i < j → ¬ Borrows m n (x + i) := by
  constructor
  · intro hzero i hw hj hborrows
    have hbit := Nat.testBit_mod_two_pow (borrowBits m n j x) w i
    rw [hzero, Nat.zero_testBit, (testBit_borrowBits j x i).mpr ⟨hj, hborrows⟩] at hbit
    simp [hw] at hbit
  · intro hnone
    refine Nat.eq_of_testBit_eq fun i => ?_
    rw [Nat.zero_testBit, Nat.testBit_mod_two_pow, Bool.and_eq_false_iff, decide_eq_false_iff_not,
      ← Bool.not_eq_true, testBit_borrowBits]
    by_cases hw : i < w
    · exact .inr fun ⟨hj, hborrows⟩ => hnone i hw hj hborrows
    · exact .inl hw

/-- The quotient is right for the places from `x` on, and the remainder is too large by `2 ^ 192`
times `k`. -/
def Off (c d : SimpleUint256) (k x : ℕ) (s : Wide.DivResult SimpleUint128) : Prop :=
  s.divResult.toNat = c.toNat / 2 ^ x / d.toNat ∧
    s.modResult.toNat = (c.toNat / 2 ^ x % d.toNat + 2 ^ 192 * k) % 2 ^ 256

/-- What the division compares with the divisor `n` at the place `x`. -/
def offRem (m n k x : ℕ) : ℕ := (Radix.partialRem m n x + 2 ^ 192 * (2 * k)) % 2 ^ 256

variable {k x : ℕ} {s : Wide.DivResult SimpleUint128}

theorem Off.toNat_takeBit (h : Off c d k (x + 1) s) :
    (Wide.takeBit c x (Wide.shiftLeft s.modResult 1)).toNat = offRem c.toNat d.toNat k x := by
  have hbit := Nat.mod_lt (c.toNat / 2 ^ x) two_pos
  have htake : (Wide.takeBit c x (Wide.shiftLeft s.modResult 1)).toNat =
    2 * s.modResult.toNat % 2 ^ 256 + c.toNat / 2 ^ x % 2 := Wide.toNat_takeBit ..
  rw [htake, h.2, offRem, Radix.partialRem]
  omega

theorem Off.divResult (hc : c.toNat < 2 ^ 255) (h : Off c d k (x + 1) s) :
    (Wide.divStep simpleUint256Minus c d x s).divResult.toNat =
      2 * (c.toNat / 2 ^ (x + 1) / d.toNat) +
        if d.toNat ≤ offRem c.toNat d.toNat k x then 1 else 0 := by
  have hquot : c.toNat / 2 ^ (x + 1) / d.toNat ≤ c.toNat :=
    (Nat.div_le_self ..).trans (Nat.div_le_self ..)
  have hstep : (Wide.divStep simpleUint256Minus c d x s).divResult.toNat =
    2 * s.divResult.toNat % 2 ^ 256 + _ := Wide.divResult_divStep
  rw [hstep, h.toNat_takeBit, h.1, Nat.mod_eq_of_lt (by omega)]

theorem Off.step (hd : 0 < d.toNat) (hc : c.toNat < 2 ^ 255) (h : Off c d k (x + 1) s)
    (hagree : d.toNat ≤ offRem c.toNat d.toNat k x ↔
      d.toNat ≤ Radix.partialRem c.toNat d.toNat x) :
    Off c d (2 * k + if Borrows c.toNat d.toNat x then 1 else 0) x
      (Wide.divStep simpleUint256Minus c d x s) := by
  obtain ⟨hdiv, hmod⟩ := Radix.div_mod_step hd c.toNat x
  have hrem := h.toNat_takeBit
  have hoff : offRem c.toNat d.toNat k x =
    (Radix.partialRem c.toNat d.toNat x + 2 ^ 192 * (2 * k)) % 2 ^ 256 := rfl
  refine ⟨by simp only [h.divResult hc, hdiv, hagree], ?_⟩
  rw [Wide.modResult_divStep, hrem, hmod]
  by_cases hle : d.toNat ≤ Radix.partialRem c.toNat d.toNat x
  · rw [if_pos hle, if_pos (hagree.mpr hle), toNat_simpleUint256Minus, toNat_low_uint256,
      toNat_low_uint256, hrem]
    -- the error does not reach the low half, so the borrow is the one of the long division
    have hborrow : offRem c.toNat d.toNat k x % 2 ^ 128 < d.toNat % 2 ^ 128 ↔
        Borrows c.toNat d.toNat x := by
      rw [Borrows, and_iff_right hle, hoff]
      omega
    have hge := hagree.mpr hle
    simp only [hborrow]
    split_ifs <;> omega
  · rw [if_neg hle, if_neg (mt hagree.mp hle), hrem, if_neg fun hborrow => hle hborrow.1]
    exact hoff

/-- The loop is right if its comparisons are those of the long division and the errors vanish. -/
theorem Off.divLoop_iff {b : ℕ} (hd : 0 < d.toNat) (hc : c.toNat < 2 ^ 255) (hx : x ≤ b)
    (hb : b ≤ 255) (h : Off c d (borrowBits c.toNat d.toNat (b - x) x) x s) :
    (Wide.divLoop simpleUint256Minus c d x s).Holds d c.toNat ↔
      (∀ y < x, (d.toNat ≤ offRem c.toNat d.toNat
          (borrowBits c.toNat d.toNat (b - (y + 1)) (y + 1)) y ↔
        d.toNat ≤ Radix.partialRem c.toNat d.toNat y)) ∧
      (c.toNat % d.toNat + 2 ^ 192 * borrowBits c.toNat d.toNat b 0) % 2 ^ 256 =
        c.toNat % d.toNat := by
  induction x generalizing s with
  | zero =>
    obtain ⟨hdiv, hmod⟩ := h
    rw [pow_zero, Nat.div_one] at hdiv hmod
    rw [Wide.divLoop, Wide.DivResult.Holds, hdiv, hmod]
    simp
  | succ x ih =>
    rw [Wide.divLoop]
    by_cases hagree : d.toNat ≤ offRem c.toNat d.toNat
        (borrowBits c.toNat d.toNat (b - (x + 1)) (x + 1)) x ↔
          d.toNat ≤ Radix.partialRem c.toNat d.toNat x
    · have hstep := h.step hd hc hagree
      rw [ih (by omega) (by rwa [show b - x = b - (x + 1) + 1 by omega, borrowBits])]
      refine and_congr_left fun _ => ⟨fun hall y hy => ?_, fun hall y hy => hall y (by omega)⟩
      rcases Nat.lt_succ_iff_lt_or_eq.mp hy with hlt | rfl
      · exact hall y hlt
      · exact hagree
    · -- a bit of the quotient is wrong, and no later step changes it
      refine iff_of_false (fun hholds => hagree ?_) (fun hall => hagree (hall.1 x (by omega)))
      have hstep := h.divResult hc
      set after := Wide.divStep simpleUint256Minus c d x s
      have hfits : (after.divResult.toNat + 1) * 2 ^ x ≤ 2 ^ 256 := by
        have hpow : 2 ^ (x + 1) ≤ 2 ^ 255 := Nat.pow_le_pow_right two_pos (by omega)
        have hquot := Nat.div_le_self (c.toNat / 2 ^ (x + 1)) d.toNat
        calc _ ≤ (2 * (c.toNat / 2 ^ (x + 1)) + 2) * 2 ^ x :=
              Nat.mul_le_mul_right _ (by rw [hstep]; split_ifs <;> omega)
          _ = c.toNat / 2 ^ (x + 1) * 2 ^ (x + 1) + 2 ^ (x + 1) := by ring
          _ ≤ _ := by have := Nat.div_mul_le_self c.toNat (2 ^ (x + 1)); omega
      have hkept : (Wide.divLoop simpleUint256Minus c d x after).divResult.toNat / 2 ^ x = _ :=
        Wide.divResult_divLoop hfits
      rw [hholds.1, Nat.div_div_eq_div_mul, Nat.mul_comm, ← Nat.div_div_eq_div_mul,
        (Radix.div_mod_step hd c.toNat x).1, hstep] at hkept
      split_ifs at hkept <;> omega

end loop

/-- The comparisons agree and the errors vanish exactly if the borrows are at such places. -/
theorem borrowsVanish_iff {m n b : ℕ} (hn : 0 < n) (hm : m < 2 ^ 255) (hb : m < 2 ^ b) :
    ((∀ y < b, (n ≤ offRem m n (borrowBits m n (b - (y + 1)) (y + 1)) y ↔
        n ≤ Radix.partialRem m n y)) ∧
      (m % n + 2 ^ 192 * borrowBits m n b 0) % 2 ^ 256 = m % n) ↔ BorrowsVanish m n := by
  have hrem : m % n ≤ m := Nat.mod_le m n
  -- a borrow that far up leaves the divisor small, and an error makes the remainder larger than it
  have hsmall : ∀ y, Borrows m n y → 64 ≤ y → n < 2 ^ 191 := by
    intro y hborrows hy
    have hle := hborrows.1.trans (Radix.partialRem_le m n y)
    have := hle.trans (Nat.div_le_div_left (Nat.pow_le_pow_right two_pos hy) (Nat.two_pow_pos 64))
    omega
  have hlarge : ∀ k z, n < 2 ^ 191 → k % 2 ^ 63 ≠ 0 → n ≤ offRem m n k z := by
    intro k z hlt hk
    have := Radix.partialRem_lt hn m z
    rw [offRem]
    omega
  constructor
  · rintro ⟨hagree, herror⟩ y hborrows
    have hyb : y < b := by
      refine (Nat.pow_lt_pow_iff_right one_lt_two).mp (lt_of_le_of_lt ?_ hb)
      have hle := hborrows.1.trans (Radix.partialRem_le m n y)
      exact (Nat.div_pos_iff.mp (hn.trans_le hle)).2
    have hlast : borrowBits m n b 0 % 2 ^ 64 = 0 := by omega
    rw [borrowBits_mod] at hlast
    have hy : 64 ≤ y := Nat.not_lt.mp fun hlt => hlast y hlt hyb (by rwa [Nat.zero_add])
    refine ⟨hy, fun z hz hyz => (hagree z (by omega)).mp (hlarge _ z (hsmall y hborrows hy) ?_)⟩
    rw [Ne, borrowBits_mod]
    intro hnone
    refine hnone (y - (z + 1)) (by omega) (by omega) ?_
    rwa [show z + 1 + (y - (z + 1)) = y by omega]
  · intro hvanish
    constructor
    · intro y hy
      by_cases hzero : borrowBits m n (b - (y + 1)) (y + 1) % 2 ^ 63 = 0
      · have := (Radix.partialRem_le m n y).trans (Nat.div_le_self ..)
        have hsame : offRem m n (borrowBits m n (b - (y + 1)) (y + 1)) y =
            Radix.partialRem m n y := by
          rw [offRem]
          omega
        rw [hsame]
      · have hnone := hzero
        rw [borrowBits_mod] at hnone
        push Not at hnone
        obtain ⟨i, hi, -, hborrows⟩ := hnone
        obtain ⟨hplace, hfits⟩ := hvanish _ hborrows
        exact iff_of_true (hlarge _ y (hsmall _ hborrows hplace) hzero)
          (hfits y (by omega) (by omega))
    · have hlast : borrowBits m n b 0 % 2 ^ 64 = 0 := by
        rw [borrowBits_mod]
        intro i hi _ hborrows
        have := (hvanish _ hborrows).1
        omega
      omega

/-- **Division of 256 bits** ends for all words. It is right if it needs no loop, and otherwise
exactly if the dividend does not have the highest bit and the borrows of the long division are at
places where the errors that they make are shifted out. -/
theorem simpleUint256Divmod_isDivision (hd : d ≠ ⟨0, 0⟩) :
    ∃ s, simpleUint256Divmod c d = .ok s ∧ (IsDivision c d s ↔ d.toNat = 1 ∨ c.toNat ≤ d.toNat ∨
      c.toNat < 2 ^ 255 ∧ BorrowsVanish c.toNat d.toNat) := by
  have hpos : 0 < d.toNat := Nat.pos_of_ne_zero fun h0 => hd (Wide.toNat_inj h0)
  by_cases heasy : d.toNat = 1 ∨ c.toNat ≤ d.toNat
  · obtain ⟨s, hs, hholds⟩ := Wide.divmod_of_le simpleUint256Minus hpos heasy
    rw [← or_assoc]
    exact ⟨s, hs, iff_of_true ((isDivision_iff_holds hpos).mpr hholds) (.inl heasy)⟩
  · have hrun : simpleUint256Divmod c d = _ :=
      Wide.divmod_of_gt simpleUint256Minus (by omega) (by omega)
    refine ⟨_, hrun, ?_⟩
    rw [← or_assoc, or_iff_right heasy, isDivision_iff_holds hpos]
    rcases lt_or_ge c.toNat (2 ^ 255) with hc | hc
    · have hbits := Wide.toNat_lt_bits hc
      have hlt := (Wide.bits c).toNat_lt
      rw [and_iff_right hc, ← borrowsVanish_iff hpos hc hbits]
      refine Off.divLoop_iff hpos hc le_rfl (by omega) ?_
      rw [Nat.sub_self, Off, Nat.div_eq_of_lt hbits, Nat.zero_div, Nat.zero_mod]
      exact ⟨Wide.toNat_zero_zero, Wide.toNat_zero_zero⟩
    · -- no bit is counted, so the loop does not run and the quotient is zero
      refine iff_of_false (fun hholds => ?_) fun h => by omega
      rw [bits_of_le hc] at hholds
      have hzero : (⟨0, 0⟩ : SimpleUint256).toNat = c.toNat / d.toNat := hholds.1
      rw [Wide.toNat_zero_zero, eq_comm, Nat.div_eq_zero_iff] at hzero
      omega

theorem simpleUint256Divmod_isDivision_ten :
    ∃ s, simpleUint256Divmod ⟨⟨0, 1⟩, ⟨0, 7⟩⟩ uint256Ten = .ok s ∧
      IsDivision ⟨⟨0, 1⟩, ⟨0, 7⟩⟩ uint256Ten s := by
  obtain ⟨s, hs, hdivision⟩ := simpleUint256Divmod_isDivision (c := ⟨⟨0, 1⟩, ⟨0, 7⟩⟩)
    (d := uint256Ten) (by decide)
  refine ⟨s, hs, hdivision.mpr (.inr (.inr ⟨by decide +kernel, borrowsVanish_of_le ?_⟩))⟩
  rw [toNat_uint256Ten]
  decide

/-- `2 ^ 255` divided by two gives zero, and `2 ^ 128` divided by `2 ^ 127 + 1` leaves a remainder
above `2 ^ 192`. -/
theorem simpleUint256Divmod_wrong :
    simpleUint256Divmod ⟨⟨0x8000000000000000, 0⟩, 0⟩ ⟨0, ⟨0, 2⟩⟩ = .ok ⟨⟨0, 0⟩, ⟨0, 0⟩⟩ ∧
      simpleUint256Divmod ⟨⟨0, 1⟩, ⟨0, 0⟩⟩ ⟨⟨0, 0⟩, ⟨0x8000000000000000, 1⟩⟩ =
        .ok ⟨⟨0, ⟨0, 1⟩⟩, ⟨⟨1, 0⟩, ⟨0x7fffffffffffffff, 0xffffffffffffffff⟩⟩⟩ := by
  decide +kernel

end Whitecoin.Native
