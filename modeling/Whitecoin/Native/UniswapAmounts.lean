import Whitecoin.Native.SafeNumberExact
import Whitecoin.Native.Uniswap

/-!
# Amounts of the market maker

The amounts are quotients of integers of 64 bits. The products are exact, and a quotient is cut
after 16 decimals or 32 digits. The conversion to an integer keeps 63 bits of the integer part, so
that quotients from `2 ^ 62` on become wrong numbers, half of which are negative.

What is minted, removed or bought is rounded down and has to be positive or at least a given number,
so that a wrong number is too small or refused. What is added of the second asset is rounded up:
there a wrong number is too small as well, which harms the others.
-/

namespace Whitecoin.Native

open Check Cbor

namespace Uniswap

theorem mul_toNat_lt (x y : Int64) : x.toInt.toNat * y.toInt.toNat < 2 ^ 128 := by
  have hx := x.toInt_lt
  have hy := y.toInt_lt
  calc x.toInt.toNat * y.toInt.toNat ≤ 2 ^ 63 * 2 ^ 63 := Nat.mul_le_mul (by omega) (by omega)
    _ < 2 ^ 128 := by decide

theorem bmod_le (q : ℕ) : Int.bmod q (2 ^ 63) ≤ q := by
  rw [Int.bmod_def]
  omega

variable {q x a b s t : ℕ} {amount pool1 pool2 result supply token : Int64}

theorem bmod_of_lt (h : q < 2 ^ 62) : Int.bmod q (2 ^ 63) = q := by
  rw [Int.bmod_def]
  omega

theorem bmod_of_nonneg (h : q < 2 ^ 63) (hnonneg : 0 ≤ Int.bmod q (2 ^ 63)) :
    Int.bmod q (2 ^ 63) = q := by
  rw [Int.bmod_def] at hnonneg ⊢
  omega

theorem quotient_eq_ok {x y z : Int64} {l m n : ℕ} (hx : x.toInt = l) (hy : y.toInt = m)
    (hz : z.toInt = n) (hn : 0 < n) :
    ∃ a b c p q v, SafeNumber.createInt x = .ok a ∧ SafeNumber.createInt y = .ok b ∧
      SafeNumber.createInt z = .ok c ∧ SafeNumber.multiply a b = .ok p ∧ p.IsInt (l * m) ∧
      c.IsInt n ∧ SafeNumber.div p c = .ok q ∧ q.valid = true ∧ SafeNumber.toInt64 q = .ok v ∧
      v.toInt = Int.bmod (l * m / n : ℕ) (2 ^ 63) := by
  have hlt := z.toInt_lt
  have hproduct := mul_toNat_lt x y
  obtain ⟨a, ha, haInt⟩ := SafeNumber.createInt_isInt (show 0 ≤ x.toInt by omega)
  obtain ⟨b, hb, hbInt⟩ := SafeNumber.createInt_isInt (show 0 ≤ y.toInt by omega)
  obtain ⟨c, hc, hcInt⟩ := SafeNumber.createInt_isInt (show 0 ≤ z.toInt by omega)
  rw [hx, Int.toNat_natCast] at haInt hproduct
  rw [hy, Int.toNat_natCast] at hbInt hproduct
  rw [hz, Int.toNat_natCast] at hcInt
  obtain ⟨p, hp, hpInt⟩ := SafeNumber.multiply_isInt haInt hbInt hproduct
  obtain ⟨q, hq, hbelow⟩ := SafeNumber.div_below hpInt hcInt hn (by omega)
  obtain ⟨v, hv, hvInt⟩ := SafeNumber.toInt64_eq_ok hbelow.valid hbelow.sign hbelow.e
  rw [hbelow.floor] at hvInt
  exact ⟨a, b, c, p, q, v, ha, hb, hc, hp, hpInt, hcInt, hq, hbelow.valid, hv, hvInt⟩

/-- **What is added of the second asset** is at least its share, if the share has fewer than 17
digits and the pool of the first asset has at most 16. -/
theorem caculateAsset2_eq_ok (hx : amount.toInt = x) (ha : pool1.toInt = a) (hb : pool2.toInt = b)
    (hpos : 0 < a) (hlt : x * b < 2 ^ 62 * a) (h : caculateAsset2 amount pool1 pool2 = .ok result) :
    ((x * b / a : ℕ) : ℤ) ≤ result.toInt ∧
      (a ≤ 10 ^ 16 → x * b < 10 ^ 16 * a → (x * b : ℕ) ≤ result.toInt * a) := by
  obtain ⟨sx, sb, sa, p, q, v, hsx, hsb, hsa, hp, hpInt, haInt, hq, hvalid, hv, hvInt⟩ :=
    quotient_eq_ok hx hb ha hpos
  have hquot : x * b / a < 2 ^ 62 := (Nat.div_lt_iff_lt_mul hpos).mpr hlt
  have hround : x * b < (x * b / a + 1) * a := Nat.lt_mul_of_div_lt (Nat.lt_succ_self _) hpos
  rw [bmod_of_lt hquot] at hvInt
  generalize x * b / a = k at hquot hround hvInt ⊢
  obtain ⟨w, hw, hwInt⟩ := SafeNumber.createInt_isInt (show 0 ≤ v.toInt by omega)
  rw [hvInt, Int.toNat_natCast] at hwInt
  simp only [caculateAsset2, ok_bind, hsx, hsb, hsa, hp, hq, hv, hw] at h
  split_ifs at h with hne
  · -- the quotient has decimals
    obtain rfl := pure_eq_ok.mp h
    have hone : (1 : Int64).toInt = 1 := rfl
    have hsum : (v + 1).toInt = k + 1 := by
      rw [Word.toInt_add_of_lt (by omega) (by omega), hvInt, hone]
    rw [hsum]
    refine ⟨by omega, fun _ _ => ?_⟩
    exact_mod_cast hround.le
  · -- the quotient has no decimals, and nothing was cut off
    obtain rfl := pure_eq_ok.mp h
    rw [hvInt]
    refine ⟨le_rfl, fun ha16 hlt16 => ?_⟩
    have heq : SafeNumber.eq w q = true := by
      simpa [SafeNumber.ne, hwInt.valid, hvalid] using hne
    simp only [SafeNumber.eq, Bool.and_eq_true, decide_eq_true_eq] at heq
    obtain ⟨-, ⟨-, hxeq⟩, heeq⟩ := heq
    have hexact := SafeNumber.div_exact hpInt haInt hpos ha16 hlt16 hq (heeq.symm.trans hwInt.e)
    rw [← hxeq, hwInt.x] at hexact
    exact_mod_cast hexact.le

/-- **What is minted** is at most the share. -/
theorem mintedToken_eq_ok (hx : amount.toInt = x) (ha : pool1.toInt = a) (hs : supply.toInt = s)
    (hpos : 0 < a) (h : mintedToken amount pool1 pool2 supply = .ok token)
    (htoken : 0 < token.toInt) : token.toInt * a ≤ x * s := by
  have hne : pool1 ≠ 0 := by
    rintro rfl
    rw [Int64.toInt_zero] at ha
    omega
  unfold mintedToken at h
  split_ifs at h with hzero hnonzero
  · exact absurd hzero.1 hne
  obtain ⟨sx, ss, sa, p, q, v, hsx, hss, hsa, hp, -, -, hq, -, hv, hvInt⟩ :=
    quotient_eq_ok hx hs ha hpos
  simp only [ok_bind, hsx, hss, hsa, hp, hq, hv] at h
  obtain rfl := Except.ok.inj h
  have hle := bmod_le (x * s / a)
  have hquot : x * s / a * a ≤ x * s := Nat.div_mul_le_self ..
  calc v.toInt * a ≤ (x * s / a : ℕ) * a := by
        rw [hvInt]
        exact Int.mul_le_mul_of_nonneg_right hle (Int.natCast_nonneg a)
    _ ≤ x * s := by exact_mod_cast hquot

theorem removed_eq_ok {quota : SafeNumber} {pool : Int64} (hquota : quota.Below t s) (hlt : t < s)
    (hb : pool.toInt = b) :
    ∃ a p v, SafeNumber.createInt pool = .ok a ∧ SafeNumber.multiply quota a = .ok p ∧
      SafeNumber.toInt64 p = .ok v ∧ (0 ≤ v.toInt → v.toInt * s ≤ t * b ∧ v.toInt ≤ b) := by
  have hpool := pool.toInt_lt
  obtain ⟨a, ha, haInt⟩ := SafeNumber.createInt_isInt (show 0 ≤ pool.toInt by omega)
  rw [hb, Int.toNat_natCast] at haInt
  -- the quota is less than one
  have hpow : 10 ^ quota.e ≤ 10 ^ 16 := Nat.pow_le_pow_right (by decide) hquota.e
  have hpos : 0 < 10 ^ quota.e := Nat.pow_pos (by decide)
  have hquota_lt : quota.x.toNat < 10 ^ quota.e := by
    refine Nat.lt_of_mul_lt_mul_right (a := s) ?_
    calc quota.x.toNat * s ≤ t * 10 ^ quota.e := hquota.le
      _ < s * 10 ^ quota.e := Nat.mul_lt_mul_of_pos_right hlt hpos
      _ = 10 ^ quota.e * s := Nat.mul_comm ..
  have hproduct : quota.x.toNat * a.x.toNat < 2 ^ 128 := by
    rw [haInt.x]
    calc quota.x.toNat * b ≤ 10 ^ 16 * 2 ^ 63 := Nat.mul_le_mul (by omega) (by omega)
      _ < 2 ^ 128 := by decide
  obtain ⟨p, hp, hsign, hcut⟩ := SafeNumber.multiply_eq_ok hquota.valid haInt.valid
    (hquota.sign.trans haInt.sign.symm) hproduct (by rw [haInt.e]; exact hquota.e)
  rw [haInt.e, Nat.add_zero, haInt.x] at hcut
  obtain ⟨v, hv, hvInt⟩ := SafeNumber.toInt64_eq_ok hcut.1 hsign (hcut.le.trans hquota.e)
  rw [hcut.floor] at hvInt
  have hfloor : quota.x.toNat * b / 10 ^ quota.e ≤ b :=
    Nat.div_le_of_le_mul (Nat.mul_le_mul_right _ hquota_lt.le)
  refine ⟨a, p, v, ha, hp, hv, fun hnonneg => ?_⟩
  rw [hvInt] at hnonneg ⊢
  rw [bmod_of_nonneg (by omega) hnonneg]
  refine ⟨?_, by exact_mod_cast hfloor⟩
  have hle : quota.x.toNat * b / 10 ^ quota.e * s ≤ t * b := by
    refine Nat.le_of_mul_le_mul_right (c := 10 ^ quota.e) ?_ hpos
    calc quota.x.toNat * b / 10 ^ quota.e * s * 10 ^ quota.e
        = quota.x.toNat * b / 10 ^ quota.e * 10 ^ quota.e * s := by ring
      _ ≤ quota.x.toNat * b * s := Nat.mul_le_mul_right _ (Nat.div_mul_le_self ..)
      _ = quota.x.toNat * s * b := by ring
      _ ≤ t * 10 ^ quota.e * b := Nat.mul_le_mul_right _ hquota.le
      _ = t * b * 10 ^ quota.e := by ring
  exact_mod_cast hle

/-- **What is removed** is at most the share. -/
theorem removedAmounts_eq_ok {amount1 amount2 : Int64} (ht : token.toInt = t)
    (hs : supply.toInt = s) (ha : pool1.toInt = a) (hb : pool2.toInt = b) (hpos : 0 < s)
    (hle : t ≤ s) (h : removedAmounts token pool1 pool2 supply = .ok (amount1, amount2))
    (h1 : 0 ≤ amount1.toInt) (h2 : 0 ≤ amount2.toInt) :
    (amount1.toInt * s ≤ t * a ∧ amount1.toInt ≤ a) ∧
      amount2.toInt * s ≤ t * b ∧ amount2.toInt ≤ b := by
  unfold removedAmounts at h
  split_ifs at h with heq
  · obtain ⟨rfl, rfl⟩ := Prod.mk.inj (pure_eq_ok.mp h)
    obtain rfl : s = t := by
      subst heq
      omega
    rw [ha, hb]
    exact ⟨⟨(mul_comm _ _).le, le_rfl⟩, (mul_comm _ _).le, le_rfl⟩
  · have hlt : t < s := by
      refine lt_of_le_of_ne hle fun hts => heq (Int64.toInt_inj.mp ?_)
      omega
    have hsupply := supply.toInt_lt
    obtain ⟨st, hst, hstInt⟩ := SafeNumber.createInt_isInt (show 0 ≤ token.toInt by omega)
    obtain ⟨ss, hss, hssInt⟩ := SafeNumber.createInt_isInt (show 0 ≤ supply.toInt by omega)
    rw [ht, Int.toNat_natCast] at hstInt
    rw [hs, Int.toNat_natCast] at hssInt
    obtain ⟨quota, hquota, hbelow⟩ := SafeNumber.div_below hstInt hssInt hpos (by omega)
    obtain ⟨sa, p, v, hsa, hp, hv, hbound⟩ := removed_eq_ok hbelow hlt ha
    obtain ⟨sb, p', v', hsb, hp', hv', hbound'⟩ := removed_eq_ok hbelow hlt hb
    simp only [ok_bind, hst, hss, hquota, hsa, hsb, hp, hp', hv, hv'] at h
    obtain ⟨rfl, rfl⟩ := Prod.mk.inj (pure_eq_ok.mp h)
    exact ⟨hbound h1, hbound' h2⟩

/-- **What is bought**, if it is positive. -/
theorem getInputPrice_eq_ok {input inputReserve outputReserve : Int64} (hx : input.toInt = x)
    (ha : inputReserve.toInt = a) (hb : outputReserve.toInt = b) (hpos : 0 < a)
    (h : getInputPrice input inputReserve outputReserve = .ok result) (hresult : 0 < result.toInt) :
    result.toInt * (a + x) ≤ x * b ∧ result.toInt ≤ b := by
  have hlta := inputReserve.toInt_lt
  have hltx := input.toInt_lt
  have hltb := outputReserve.toInt_lt
  have hproduct := mul_toNat_lt input outputReserve
  obtain ⟨sa, hsa, haInt⟩ := SafeNumber.createInt_isInt (show 0 ≤ inputReserve.toInt by omega)
  obtain ⟨sb, hsb, hbInt⟩ := SafeNumber.createInt_isInt (show 0 ≤ outputReserve.toInt by omega)
  obtain ⟨sx, hsx, hxInt⟩ := SafeNumber.createInt_isInt (show 0 ≤ input.toInt by omega)
  rw [hx, Int.toNat_natCast] at hxInt hproduct
  rw [ha, Int.toNat_natCast] at haInt
  rw [hb, Int.toNat_natCast] at hbInt hproduct
  obtain ⟨p, hp, hpInt⟩ := SafeNumber.multiply_isInt hxInt hbInt hproduct
  obtain ⟨sum, hsum, hsumInt⟩ := SafeNumber.add_isInt haInt hxInt (by omega)
  obtain ⟨q, hq, hbelow⟩ := SafeNumber.div_below hpInt hsumInt (by omega) (by omega)
  obtain ⟨v, hv, hvInt⟩ := SafeNumber.toInt64_eq_ok hbelow.valid hbelow.sign hbelow.e
  rw [hbelow.floor] at hvInt
  simp only [getInputPrice, ok_bind, hsa, hsb, hsx, hp, hsum, hq, hv] at h
  obtain rfl := Except.ok.inj h
  have hle : x * b / (a + x) ≤ b :=
    Nat.div_le_of_le_mul (Nat.mul_le_mul_right _ (Nat.le_add_left ..))
  have hmul : x * b / (a + x) * (a + x) ≤ x * b := Nat.div_mul_le_self ..
  rw [hvInt] at hresult ⊢
  rw [bmod_of_nonneg (by omega) hresult.le]
  exact ⟨by exact_mod_cast hmul, by exact_mod_cast hle⟩

end Uniswap

end Whitecoin.Native
