import Mathlib.Data.Nat.Find
import Whitecoin.Lib.Word
import Whitecoin.Native.SafeNumber

/-!
# What safe numbers compute

For integers of 64 bits that are not negative, products and sums are exact, and so are comparisons.
A quotient is cut to 16 decimals, or to fewer when its magnitude is large, so that it is never above
the exact one and has the same integer part. The conversion to an integer keeps the low 63 bits of
the integer part and extends their sign.
-/

namespace Whitecoin.Native

open Check

/-! ### Words -/

section words

variable (a b : SimpleUint128) (c d : SimpleUint256)

theorem toNat_lt_uint128 : a.toNat < 2 ^ 128 := Wide.toNat_lt a

theorem toNat_low_uint128 : a.low.toNat = a.toNat % 2 ^ 64 := Wide.toNat_low a

theorem toNat_low_uint256 : c.low.toNat = c.toNat % 2 ^ 128 := Wide.toNat_low c

theorem toNat_uint64 (n : UInt64) : (⟨0, n⟩ : SimpleUint128).toNat = n.toNat :=
  Wide.toNat_mk_zero n

theorem toNat_uint128 : (⟨0, a⟩ : SimpleUint256).toNat = a.toNat := Wide.toNat_mk_zero a

variable {a b c d}

theorem toNat_multi_uint128 (h : a.toNat * b.toNat < 2 ^ 128) :
    (Wide.multi a b).toNat = a.toNat * b.toNat :=
  (Wide.toNat_multi a b).trans (Nat.mod_eq_of_lt h)

theorem toNat_add_mod (a b : SimpleUint128) :
    (Wide.add a b).toNat = (a.toNat + b.toNat) % 2 ^ 128 := Wide.toNat_add a b

theorem toNat_add_uint128 (h : a.toNat + b.toNat < 2 ^ 128) :
    (Wide.add a b).toNat = a.toNat + b.toNat :=
  (toNat_add_mod a b).trans (Nat.mod_eq_of_lt h)

theorem toNat_multi_uint256 (h : c.toNat * d.toNat < 2 ^ 256) :
    (Wide.multi c d).toNat = c.toNat * d.toNat :=
  (Wide.toNat_multi c d).trans (Nat.mod_eq_of_lt h)

theorem toNat_minus_uint128 (h : b.toNat ≤ a.toNat) :
    (Wide.minus a b).toNat = a.toNat - b.toNat := by
  have ha := toNat_lt_uint128 a
  have hminus : (Wide.minus a b).toNat = (2 ^ 128 - b.toNat + a.toNat) % 2 ^ 128 :=
    Wide.toNat_minus a b
  omega

theorem simpleUint128Divmod_eq_ok (hb : 0 < b.toNat) :
    ∃ s, simpleUint128Divmod a b = .ok s ∧ s.divResult.toNat = a.toNat / b.toNat ∧
      s.modResult.toNat = a.toNat % b.toNat := by
  have ha := toNat_lt_uint128 a
  exact Wide.divmod_eq_ok hb (by omega) fun _ _ _ hle => toNat_minus_uint128 hle

theorem gt_minus_iff (a b : SimpleUint128) :
    Wide.gt (Wide.minus a b) a = true ↔ a.toNat < b.toNat := by
  have ha := toNat_lt_uint128 a
  have hb := toNat_lt_uint128 b
  have hminus : (Wide.minus a b).toNat = (2 ^ 128 - b.toNat + a.toNat) % 2 ^ 128 :=
    Wide.toNat_minus a b
  rw [Wide.gt_iff, hminus]
  omega

/-- **The difference.** With a borrow between the halves it is too large by `2 ^ 192`. -/
theorem toNat_simpleUint256Minus (c d : SimpleUint256) : (simpleUint256Minus c d).toNat =
    (2 ^ 256 - d.toNat + c.toNat + if c.low.toNat < d.low.toNat then 2 ^ 192 else 0) % 2 ^ 256 := by
  have hc : c.toNat = c.big.toNat * 2 ^ 128 + c.low.toNat := rfl
  have hd : d.toNat = d.big.toNat * 2 ^ 128 + d.low.toNat := rfl
  have hcbig := toNat_lt_uint128 c.big
  have hclow := toNat_lt_uint128 c.low
  have hdbig := toNat_lt_uint128 d.big
  have hdlow := toNat_lt_uint128 d.low
  have hminus : ∀ a b : SimpleUint128, (Wide.minus a b).toNat =
      (2 ^ 128 - b.toNat + a.toNat) % 2 ^ 128 := Wide.toNat_minus
  show (Wide.add (Wide.minus c.big d.big) _).toNat * 2 ^ 128 + (Wide.minus c.low d.low).toNat = _
  simp only [toNat_add_mod, toNat_uint64, hminus, gt_minus_iff]
  split_ifs with hborrow
  · change (_ + 18446744073709551615) % _ * _ + _ = _
    omega
  · change (_ + 0) % _ * _ + _ = _
    omega

theorem simpleUint256Divmod_eq_ok (hc : c.toNat < 2 ^ 255) (hd : 0 < d.toNat)
    (hd' : d.toNat < 2 ^ 127) :
    ∃ s, simpleUint256Divmod c d = .ok s ∧ s.divResult.toNat = c.toNat / d.toNat ∧
      s.modResult.toNat = c.toNat % d.toNat := by
  refine Wide.divmod_eq_ok hd hc fun x r hr hle => ?_
  have := Radix.partialRem_lt hd c.toNat x
  rw [toNat_simpleUint256Minus, toNat_low_uint256, toNat_low_uint256, if_neg (by omega)]
  omega

end words

theorem toNat_zero : (0 : SimpleUint128).toNat = 0 := toNat_uint64 0

theorem toNat_uint128Ten : uint128Ten.toNat = 10 := toNat_uint64 10

theorem toNat_uint256Ten : uint256Ten.toNat = 10 := (toNat_uint128 uint128Ten).trans toNat_uint128Ten

theorem toNat_largestX : largestX.toNat = 10 ^ 32 := by
  have hpow : (⟨0, uint64Pow10 16⟩ : SimpleUint128).toNat = 10 ^ 16 := toNat_uint64 _
  rw [largestX, toNat_multi_uint128 (by rw [hpow]; decide), hpow]
  norm_num

theorem toNat_uint64Pow10 {p : ℕ} (h : p ≤ 16) :
    (⟨0, uint64Pow10 p⟩ : SimpleUint128).toNat = 10 ^ p := by
  have hle : 10 ^ p ≤ 10 ^ 16 := Nat.pow_le_pow_right (by decide) h
  rw [toNat_uint64, uint64Pow10, UInt64.toNat_ofNat', Nat.mod_eq_of_lt (by omega)]

namespace SafeNumber

/-! ### Results are cut -/

theorem tenth_eq_ok (x : SimpleUint128) : ∃ y, tenth x = .ok y ∧ y.toNat = x.toNat / 10 := by
  obtain ⟨s, hs, hdiv, -⟩ := simpleUint128Divmod_eq_ok (a := x) (b := uint128Ten)
    (by rw [toNat_uint128Ten]; decide)
  refine ⟨s.divResult, ?_, by rw [hdiv, toNat_uint128Ten]⟩
  rw [tenth, hs]
  rfl

theorem shorten_eq_ok (e : ℕ) (x : SimpleUint128) : ∃ y f k, shorten e x = .ok (y, f) ∧
    e = f + k ∧ y.toNat = x.toNat / 10 ^ k ∧ (∀ i < k, 10 ^ 32 < x.toNat / 10 ^ i) ∧
    (f = 0 ∨ y.toNat ≤ 10 ^ 32) := by
  induction e generalizing x with
  | zero => exact ⟨x, 0, 0, rfl, rfl, by rw [pow_zero, Nat.div_one], by simp, .inl rfl⟩
  | succ e ih =>
    rw [shorten]
    split_ifs with hgt
    · obtain ⟨y, hy, htenth⟩ := tenth_eq_ok x
      obtain ⟨z, f, k, hz, he, hdiv, hlarge, hstop⟩ := ih y
      rw [Wide.gt_iff, toNat_largestX] at hgt
      have hpow : ∀ i, y.toNat / 10 ^ i = x.toNat / 10 ^ (i + 1) := fun i => by
        rw [htenth, Nat.div_div_eq_div_mul, pow_succ']
      refine ⟨z, f, k + 1, ?_, by omega, by rw [hdiv, hpow], fun i hi => ?_, hstop⟩
      · rw [hy]
        exact hz
      · cases i with
        | zero => rwa [pow_zero, Nat.div_one]
        | succ i => exact hpow i ▸ hlarge i (by omega)
    · rw [Wide.gt_iff, toNat_largestX, Nat.not_lt] at hgt
      exact ⟨x, e + 1, 0, rfl, rfl, by rw [pow_zero, Nat.div_one], by simp, .inr hgt⟩

theorem dropDigits_eq_ok (n : ℕ) (x : SimpleUint128) :
    ∃ y, dropDigits n x = .ok y ∧ y.toNat = x.toNat / 10 ^ n := by
  induction n generalizing x with
  | zero => exact ⟨x, rfl, by rw [pow_zero, Nat.div_one]⟩
  | succ n ih =>
    obtain ⟨y, hy, htenth⟩ := tenth_eq_ok x
    obtain ⟨z, hz, hdiv⟩ := ih y
    refine ⟨z, ?_, by rw [hdiv, htenth, Nat.div_div_eq_div_mul, pow_succ']⟩
    rw [dropDigits, hy]
    exact hz

theorem toNat_times_ten {x : SimpleUint128} (h : x.toNat * 10 < 2 ^ 128) :
    (Wide.multi x uint128Ten).toNat = x.toNat * 10 := by
  rw [toNat_multi_uint128 (by rwa [toNat_uint128Ten]), toNat_uint128Ten]

theorem toNat_appendZeros (n : ℕ) (x : SimpleUint128) (h : x.toNat * 10 ^ n < 2 ^ 128) :
    (appendZeros n x).toNat = x.toNat * 10 ^ n := by
  induction n generalizing x with
  | zero => rw [appendZeros, pow_zero, Nat.mul_one]
  | succ n ih =>
    rw [pow_succ', ← Nat.mul_assoc] at h ⊢
    have hten : (Wide.multi x uint128Ten).toNat = x.toNat * 10 :=
      toNat_times_ten ((Nat.le_mul_of_pos_right _ (Nat.pow_pos (by decide))).trans_lt h)
    rw [appendZeros, ih _ (by rwa [hten]), hten]

theorem stripZeros_eq_ok (e : ℕ) (x : SimpleUint128) : ∃ y f k, stripZeros e x = .ok (y, f) ∧
    e = f + k ∧ x.toNat = y.toNat * 10 ^ k ∧ (y.toNat = 0 ∨ Radix.Shortest 10 y.toNat f) := by
  induction e generalizing x with
  | zero => exact ⟨x, 0, 0, rfl, rfl, by rw [pow_zero, Nat.mul_one], .inr (.inl rfl)⟩
  | succ e ih =>
    have hkeep : x.toNat = 0 ∨ Radix.Shortest 10 x.toNat (e + 1) →
        ∃ y f k, (Except.ok (x, e + 1) : Except String _) = .ok (y, f) ∧ e + 1 = f + k ∧
          x.toNat = y.toNat * 10 ^ k ∧ (y.toNat = 0 ∨ Radix.Shortest 10 y.toNat f) :=
      fun h => ⟨x, e + 1, 0, rfl, rfl, by rw [pow_zero, Nat.mul_one], h⟩
    rw [stripZeros]
    split_ifs with hzero
    · exact hkeep (.inl (Wide.isZero_iff.mp hzero))
    · obtain ⟨y, hy, htenth⟩ := tenth_eq_ok x
      have hx := toNat_lt_uint128 x
      have htimes : (Wide.multi y uint128Ten).toNat = y.toNat * 10 := toNat_times_ten (by omega)
      simp only [hy, bind, Except.bind]
      split_ifs with heq
      · obtain ⟨z, f, k, hz, he, hmul, hshort⟩ := ih y
        refine ⟨z, f, k + 1, hz, by omega, ?_, hshort⟩
        rw [← heq, htimes, hmul, pow_succ, Nat.mul_assoc]
      · refine hkeep (.inr (.inr fun hdvd => heq (Wide.toNat_inj ?_)))
        rw [htimes, htenth, Nat.div_mul_cancel hdvd]

/-- The decimals that are kept of `x` with `e` decimals: at most 16, and so few that the magnitude
has not more than 32 digits, if that is possible. -/
def kept (x e : ℕ) : ℕ := Nat.findGreatest (fun d => x / 10 ^ (e - d) ≤ 10 ^ 32) (min 16 e)

theorem kept_le (x e : ℕ) : kept x e ≤ min 16 e := Nat.findGreatest_le _

theorem kept_of_le {x e : ℕ} (hx : x ≤ 10 ^ 32) : kept x e = min 16 e :=
  Nat.findGreatest_eq_iff.mpr ⟨le_rfl, fun _ => (Nat.div_le_self ..).trans hx, fun _ h h' => by
    omega⟩

/-- **Every result is cut** to the decimals that are kept, and written shortest. A zero that would
have more than 16 decimals loses its sign. -/
theorem create_cut (sign : Bool) (x : SimpleUint128) (e : ℕ) :
    ∃ n, create sign x e = .ok n ∧ n.valid = true ∧ n.e ≤ kept x.toNat e ∧
      n.x.toNat * 10 ^ (kept x.toNat e - n.e) = x.toNat / 10 ^ (e - kept x.toNat e) ∧
      (n.sign = sign ∨ 16 < e ∧ n.x.toNat = 0) ∧
      (n.x.toNat = 0 ∨ Radix.Shortest 10 n.x.toNat n.e) := by
  obtain ⟨y, f, k, hshorten, hf, hdiv, hlarge, hstop⟩ := shorten_eq_ok e x
  obtain ⟨z, hdrop, hz⟩ := dropDigits_eq_ok (f - 16) y
  have hle : z.toNat * 10 ^ (f - 16) ≤ y.toNat := by
    rw [hz]
    exact Nat.div_mul_le_self ..
  have happend := toNat_appendZeros _ z (hle.trans_lt (toNat_lt_uint128 y))
  obtain ⟨w, g, j, hstrip, hg, hmul, hshort⟩ := stripZeros_eq_ok f (appendZeros (f - 16) z)
  rw [happend] at hmul
  have hkept : kept x.toNat e = min 16 f := by
    refine Nat.findGreatest_eq_iff.mpr ⟨by omega, fun hne => ?_, fun d hlt hd => ?_⟩
    · have hpow : 10 ^ k ≤ 10 ^ (e - min 16 f) := Nat.pow_le_pow_right (by decide) (by omega)
      exact ((Nat.div_le_div_left hpow (Nat.pow_pos (by decide))).trans_eq hdiv.symm).trans
        (hstop.resolve_left (by omega))
    · exact Nat.not_le.mpr (hlarge _ (by omega))
  have hcut : x.toNat / 10 ^ (e - min 16 f) = z.toNat := by
    rw [hz, hdiv, Nat.div_div_eq_div_mul, ← pow_add, show k + (f - 16) = e - min 16 f by omega]
  rw [hkept, hcut]
  have hrun : create sign x e = if 16 < g then .ok zero else .ok ⟨true, sign, w, g⟩ := by
    simp only [create, compressNumber, Bool.not_true, Bool.false_eq_true, if_false, hshorten, bind,
      Except.bind, hdrop, hstrip]
  by_cases hlt : 16 < g
  · -- a number other than zero loses the zeros that were appended
    have hw : w.toNat = 0 := by
      refine hshort.resolve_right fun h => h.elim (by omega) fun hdvd => hdvd ?_
      refine ⟨z.toNat * 10 ^ (f - 16 - j - 1), Nat.eq_of_mul_eq_mul_right
        (Nat.pow_pos (n := j) (show 0 < 10 by decide)) ?_⟩
      rw [← hmul, show f - 16 = f - 16 - j - 1 + 1 + j by omega, pow_add, pow_succ]
      simp only [Nat.add_sub_cancel]
      ring
    have hz0 : z.toNat = 0 := by simpa [hw] using hmul
    have hx0 : zero.x.toNat = 0 := toNat_uint64 0
    refine ⟨zero, by rw [hrun, if_pos hlt], rfl, Nat.zero_le _, ?_, .inr ⟨by omega, hx0⟩, .inl hx0⟩
    rw [hx0, hz0, Nat.zero_mul]
  · refine ⟨⟨true, sign, w, g⟩, by rw [hrun, if_neg hlt], rfl, ?_, ?_, .inl rfl, hshort⟩
    · show g ≤ min 16 f
      omega
    · refine Nat.eq_of_mul_eq_mul_right (Nat.pow_pos (n := f - 16) (show 0 < 10 by decide)) ?_
      rw [hmul, Nat.mul_assoc, ← pow_add]
      congr 2
      show min 16 f - g + (f - 16) = j
      omega

/-- The number `n` is `x` with `e` decimals, of which some are cut off when `x` is large. -/
def Cut (n : SafeNumber) (x e : ℕ) : Prop :=
  n.valid = true ∧ ∃ j k, e = n.e + j + k ∧ n.x.toNat * 10 ^ j = x / 10 ^ k ∧
    (x ≤ 10 ^ 32 → k = 0)

theorem create_eq_ok (sign : Bool) (x : SimpleUint128) {e : ℕ} (he : e ≤ 16) :
    ∃ n, create sign x e = .ok n ∧ n.sign = sign ∧ n.Cut x.toNat e := by
  obtain ⟨n, hn, hvalid, hle, hx, hsign, -⟩ := create_cut sign x e
  have hkept := kept_le x.toNat e
  refine ⟨n, hn, hsign.resolve_right (by omega), hvalid, _, _, ?_, hx, fun h => ?_⟩
  · omega
  · rw [kept_of_le h]
    omega

namespace Cut

variable {n : SafeNumber} {x e : ℕ}

theorem le (h : n.Cut x e) : n.e ≤ e := by
  obtain ⟨-, j, k, he, -, -⟩ := h
  omega

theorem floor (h : n.Cut x e) : n.x.toNat / 10 ^ n.e = x / 10 ^ e := by
  obtain ⟨-, j, k, he, hx, -⟩ := h
  have hj : 0 < 10 ^ j := Nat.pow_pos (by decide)
  calc n.x.toNat / 10 ^ n.e = n.x.toNat * 10 ^ j / (10 ^ n.e * 10 ^ j) :=
        (Nat.mul_div_mul_right _ _ hj).symm
    _ = x / 10 ^ k / 10 ^ (n.e + j) := by rw [hx, pow_add]
    _ = x / 10 ^ e := by rw [Nat.div_div_eq_div_mul, ← pow_add, he, Nat.add_comm k]

theorem le_mul (h : n.Cut x e) : n.x.toNat * 10 ^ e ≤ x * 10 ^ n.e := by
  obtain ⟨-, j, k, he, hx, -⟩ := h
  calc n.x.toNat * 10 ^ e = n.x.toNat * 10 ^ j * 10 ^ k * 10 ^ n.e := by
        rw [he, pow_add, pow_add]
        ring
    _ = x / 10 ^ k * 10 ^ k * 10 ^ n.e := by rw [hx]
    _ ≤ x * 10 ^ n.e := Nat.mul_le_mul_right _ (Nat.div_mul_le_self ..)

theorem exact (h : n.Cut x e) (hx : x ≤ 10 ^ 32) (hn : n.e = 0) : x = n.x.toNat * 10 ^ e := by
  obtain ⟨-, j, k, he, hmul, hk⟩ := h
  obtain rfl := hk hx
  obtain rfl : e = j := by omega
  rw [hmul, pow_zero, Nat.div_one]

end Cut

/-! ### Integers -/

/-- The number is the integer `n`. -/
structure IsInt (a : SafeNumber) (n : ℕ) : Prop where
  valid : a.valid = true
  sign : a.sign = true
  e : a.e = 0
  x : a.x.toNat = n

section integers

variable {a b : SafeNumber} {m n : ℕ}

theorem Cut.isInt {x : ℕ} (h : a.Cut x 0) (hsign : a.sign = true) : a.IsInt x := by
  have hfloor := h.floor
  have he : a.e = 0 := Nat.le_zero.mp h.le
  rw [he, pow_zero, Nat.div_one, Nat.div_one] at hfloor
  exact ⟨h.1, hsign, he, hfloor⟩

theorem isInt_zero : zero.IsInt 0 := ⟨rfl, rfl, rfl, toNat_uint64 0⟩

theorem isZero_eq (ha : a.valid = true) : a.isZero = true ↔ a.x.toNat = 0 := by
  rw [isZero, ha, Bool.true_and, Wide.isZero_iff]

theorem IsInt.isZero (h : a.IsInt n) : a.isZero = decide (n = 0) := by
  rw [Bool.eq_iff_iff, isZero_eq h.valid, h.x, decide_eq_true_eq]

theorem multiply_zero (ha : a.valid = true) (hb : b.valid = true)
    (h : a.isZero = true ∨ b.isZero = true) : multiply a b = .ok zero := by
  rw [multiply, ha, hb, if_neg (by simp), if_pos (by rwa [Bool.or_eq_true])]

theorem createInt_isInt {value : Int64} (h : 0 ≤ value.toInt) :
    ∃ a, createInt value = .ok a ∧ a.IsInt value.toInt.toNat := by
  have hle : 0 ≤ value := by rwa [Int64.le_iff_toInt_le, Int64.toInt_zero]
  obtain ⟨a, ha, hsign, hcut⟩ := create_eq_ok true ⟨0, value.toUInt64⟩ (Nat.zero_le 16)
  refine ⟨a, ?_, ?_⟩
  · rw [createInt, if_pos hle, decide_eq_true hle]
    exact ha
  · have htoNat : value.toUInt64.toNat = value.toInt.toNat := by
      have hint : value.toInt = Int.bmod value.toBitVec.toNat (2 ^ 64) :=
        value.toBitVec.toInt_eq_toNat_bmod
      rw [Int.bmod_def] at hint
      show value.toBitVec.toNat = value.toInt.toNat
      omega
    rw [toNat_uint64, htoNat] at hcut
    exact hcut.isInt hsign

theorem shrink_eq_ok (e : ℕ) {abx : SimpleUint256} (h : abx.toNat < 2 ^ 128) :
    shrink e abx = .ok (abx, e) := by
  have hzero : Wide.isZero abx.big = true := by
    have hbig : abx.big.toNat = abx.toNat / 2 ^ 128 := Wide.toNat_big abx
    rw [Wide.isZero_iff]
    omega
  cases e with
  | zero => rfl
  | succ e => rw [shrink, if_pos hzero]

theorem multiply_eq_create (ha : a.valid = true) (hb : b.valid = true) (hza : a.isZero = false)
    (hzb : b.isZero = false) (hlt : a.x.toNat * b.x.toNat < 2 ^ 128) :
    ∃ p, multiply a b = create (a.sign = b.sign) p (a.e + b.e) ∧
      p.toNat = a.x.toNat * b.x.toNat := by
  have hproduct : (Wide.multi (⟨0, a.x⟩ : SimpleUint256) ⟨0, b.x⟩).toNat =
      a.x.toNat * b.x.toNat := by
    rw [toNat_multi_uint256 (by rw [toNat_uint128, toNat_uint128]; omega), toNat_uint128,
      toNat_uint128]
  refine ⟨_, ?_, (toNat_low_uint256 _).trans (by rw [hproduct, Nat.mod_eq_of_lt hlt])⟩
  rw [multiply, ha, hb, hza, hzb, shrink_eq_ok _ (by rw [hproduct]; exact hlt)]
  rfl

/-- **Products** that fit into 128 bits are cut only. -/
theorem multiply_eq_ok (ha : a.valid = true) (hb : b.valid = true) (hsign : a.sign = b.sign)
    (hlt : a.x.toNat * b.x.toNat < 2 ^ 128) (he : a.e + b.e ≤ 16) :
    ∃ c, multiply a b = .ok c ∧ c.sign = true ∧ c.Cut (a.x.toNat * b.x.toNat) (a.e + b.e) := by
  by_cases hzero : a.isZero = true ∨ b.isZero = true
  · have hproduct : a.x.toNat * b.x.toNat = 0 := by
      rw [isZero_eq ha, isZero_eq hb] at hzero
      exact Nat.mul_eq_zero.mpr hzero
    refine ⟨zero, multiply_zero ha hb hzero, rfl, rfl, a.e + b.e, 0, ?_, ?_, fun _ => rfl⟩
    · show _ = 0 + (a.e + b.e) + 0
      omega
    · rw [isInt_zero.x, hproduct, Nat.zero_mul, Nat.zero_div]
  · simp only [not_or, Bool.not_eq_true] at hzero
    obtain ⟨p, hp, hproduct⟩ := multiply_eq_create ha hb hzero.1 hzero.2 hlt
    obtain ⟨c, hc, hcsign, hcut⟩ := create_eq_ok (decide (a.sign = b.sign)) p he
    rw [hproduct] at hcut
    exact ⟨c, hp.trans hc, hcsign.trans (decide_eq_true hsign), hcut⟩

theorem multiply_isInt (ha : a.IsInt m) (hb : b.IsInt n) (h : m * n < 2 ^ 128) :
    ∃ c, multiply a b = .ok c ∧ c.IsInt (m * n) := by
  obtain ⟨c, hc, hsign, hcut⟩ := multiply_eq_ok ha.valid hb.valid (ha.sign.trans hb.sign.symm)
    (by rwa [ha.x, hb.x]) (by rw [ha.e, hb.e]; decide)
  rw [ha.x, hb.x, ha.e, hb.e] at hcut
  exact ⟨c, hc, hcut.isInt hsign⟩

/-- The magnitude with `e` decimals. -/
def scaled (a : SafeNumber) (e : ℕ) : ℕ := a.x.toNat * 10 ^ (e - a.e)

/-- The integer with a sign and a magnitude. -/
def signed (sign : Bool) (n : ℕ) : ℤ := if sign then n else -n

section sum

variable (a b)

/-- The exact sum of two numbers, in units of their last decimal. -/
def exactSum : ℤ :=
  signed a.sign (a.scaled (max a.e b.e)) + signed b.sign (b.scaled (max a.e b.e))

/-- The words of `safe_number_add` do not overflow. -/
def AddFits : Prop :=
  if a.sign = b.sign then a.scaled (max a.e b.e) + b.scaled (max a.e b.e) < 2 ^ 128
  else a.scaled (max a.e b.e) < 2 ^ 128 ∧ b.scaled (max a.e b.e) < 2 ^ 128

/-- The sum that `safe_number_add` computes. -/
def wrappedSum : ℤ :=
  if a.sign = b.sign then
    signed a.sign ((a.scaled (max a.e b.e) + b.scaled (max a.e b.e)) % 2 ^ 128)
  else signed a.sign (a.scaled (max a.e b.e) % 2 ^ 128) +
    signed b.sign (b.scaled (max a.e b.e) % 2 ^ 128)

variable {a b}

theorem toNat_scaled {e : ℕ} (he : e ≤ 16) :
    (Wide.multi a.x ⟨0, uint64Pow10 (e - a.e)⟩).toNat = a.scaled e % 2 ^ 128 := by
  rw [scaled, ← toNat_uint64Pow10 (p := e - a.e) (by omega)]
  exact Wide.toNat_multi _ _

theorem add_eq_create (ha : a.valid = true) (hb : b.valid = true) (hza : a.isZero = false)
    (hzb : b.isZero = false) (hae : a.e ≤ 16) (hbe : b.e ≤ 16) :
    ∃ sign x, add a b = create sign x (max a.e b.e) ∧ signed sign x.toNat = wrappedSum a b := by
  have hax := toNat_scaled (a := a) (e := max a.e b.e) (by omega)
  have hbx := toNat_scaled (a := b) (e := max a.e b.e) (by omega)
  rw [add, ha, hb, hza, hzb, wrappedSum]
  simp only [Bool.not_true, Bool.or_false, Bool.false_eq_true, if_false, ne_eq, ite_not]
  split_ifs with hsign hgt heq
  · refine ⟨_, _, rfl, congrArg (signed a.sign) ?_⟩
    rw [toNat_add_mod, hax, hbx, ← Nat.add_mod]
  all_goals
    have hneg : b.sign = !a.sign := Bool.eq_not.mpr (Ne.symm hsign)
    rw [← hax, ← hbx, hneg]
  · rw [Wide.gt_iff] at hgt
    refine ⟨_, _, rfl, ?_⟩
    rw [toNat_minus_uint128 hgt.le]
    cases a.sign <;> simp only [signed, Bool.not_true, Bool.not_false, if_true, if_false,
      Bool.false_eq_true] <;> omega
  · refine ⟨_, _, rfl, ?_⟩
    rw [heq, toNat_zero]
    cases a.sign <;> simp [signed]
  · rw [Wide.gt_iff, Nat.not_lt] at hgt
    refine ⟨_, _, rfl, ?_⟩
    rw [toNat_minus_uint128 hgt]
    cases a.sign <;> simp only [signed, Bool.not_true, Bool.not_false, if_true, if_false,
      Bool.false_eq_true] <;> omega

theorem wrappedSum_eq (h : AddFits a b) : wrappedSum a b = exactSum a b := by
  unfold AddFits at h
  unfold wrappedSum exactSum
  split_ifs at h ⊢ with hsign
  · rw [Nat.mod_eq_of_lt h, ← hsign]
    cases a.sign <;> simp only [signed, if_true, if_false, Bool.false_eq_true] <;> omega
  · rw [Nat.mod_eq_of_lt h.1, Nat.mod_eq_of_lt h.2]

/-- **A sum that overflows** is off by a multiple of `2 ^ 128`. -/
theorem wrappedSum_far (h : ¬ AddFits a b) : 2 ^ 128 ≤ (wrappedSum a b - exactSum a b).natAbs := by
  -- one of the numbers is not scaled
  have hone : a.scaled (max a.e b.e) < 2 ^ 128 ∨ b.scaled (max a.e b.e) < 2 ^ 128 := by
    have hsame : ∀ c : SafeNumber, max a.e b.e = c.e → c.scaled (max a.e b.e) < 2 ^ 128 :=
      fun c hc => by
        rw [scaled, hc, Nat.sub_self, pow_zero, Nat.mul_one]
        exact toNat_lt_uint128 c.x
    rcases Nat.le_total a.e b.e with h | h
    · exact .inr (hsame b (by omega))
    · exact .inl (hsame a (by omega))
  unfold AddFits at h
  unfold wrappedSum exactSum
  split_ifs at h ⊢ with hsign
  · rw [← hsign]
    cases a.sign <;> simp only [signed, if_true, if_false, Bool.false_eq_true] <;> omega
  · rw [show b.sign = !a.sign from Bool.eq_not.mpr (Ne.symm hsign)]
    cases a.sign <;> simp only [signed, Bool.not_true, Bool.not_false, if_true, if_false,
      Bool.false_eq_true] <;> omega

end sum

theorem add_isInt (ha : a.IsInt m) (hb : b.IsInt n) (h : m + n < 2 ^ 128) :
    ∃ c, add a b = .ok c ∧ c.IsInt (m + n) := by
  by_cases hn : b.isZero = true
  · have hzero : n = 0 := by simpa [hb.isZero] using hn
    refine ⟨a, ?_, by rwa [hzero]⟩
    rw [add, ha.valid, hb.valid, if_neg (by simp), if_pos hn]
  by_cases hm : a.isZero = true
  · have hzero : m = 0 := by simpa [ha.isZero] using hm
    refine ⟨b, ?_, by rwa [hzero, Nat.zero_add]⟩
    rw [add, ha.valid, hb.valid, if_neg (by simp), if_neg hn, if_pos hm]
  have he : max a.e b.e = 0 := by rw [ha.e, hb.e]; rfl
  have hscaled : ∀ c : SafeNumber, c.scaled (max a.e b.e) = c.x.toNat := fun c => by
    rw [he, scaled, Nat.zero_sub, pow_zero, Nat.mul_one]
  obtain ⟨sign, x, hadd, hsum⟩ := add_eq_create ha.valid hb.valid (by simpa using hm)
    (by simpa using hn) (by rw [ha.e]; decide) (by rw [hb.e]; decide)
  have hfits : AddFits a b := by
    rw [AddFits, ha.sign, hb.sign, if_pos rfl, hscaled, hscaled, ha.x, hb.x]
    exact h
  rw [wrappedSum_eq hfits, exactSum, ha.sign, hb.sign, hscaled, hscaled, ha.x, hb.x] at hsum
  have hpos : 0 < m := Nat.pos_of_ne_zero fun h0 => hm (by rw [ha.isZero, decide_eq_true h0])
  obtain ⟨hsign, hx⟩ : sign = true ∧ x.toNat = m + n := by
    cases sign <;> simp [signed] at hsum ⊢ <;> omega
  obtain ⟨c, hc, hcsign, hcut⟩ := create_eq_ok sign x (Nat.zero_le 16)
  rw [hx] at hcut
  exact ⟨c, by rw [hadd, he, hc], hcut.isInt (hcsign.trans hsign)⟩

theorem divmod_decimals (he : a.e ≤ 16) :
    ∃ s, simpleUint128Divmod a.x ⟨0, uint64Pow10 a.e⟩ = .ok s ∧
      s.divResult.toNat = a.x.toNat / 10 ^ a.e ∧ s.modResult.toNat = a.x.toNat % 10 ^ a.e := by
  have hpow := toNat_uint64Pow10 he
  have hlt : 10 ^ a.e ≤ 10 ^ 16 := Nat.pow_le_pow_right (by decide) he
  rw [← hpow]
  exact simpleUint128Divmod_eq_ok (by rw [hpow]; exact Nat.pow_pos (by decide))

theorem scaled_div_mod {e : ℕ} (h : a.e ≤ e) : a.scaled e / 10 ^ e = a.x.toNat / 10 ^ a.e ∧
    a.scaled e % 10 ^ e = a.x.toNat % 10 ^ a.e * 10 ^ (e - a.e) := by
  have hsplit : 10 ^ e = 10 ^ a.e * 10 ^ (e - a.e) := by rw [← pow_add, Nat.add_sub_cancel' h]
  rw [scaled, hsplit, Nat.mul_mod_mul_right]
  exact ⟨Nat.mul_div_mul_right _ _ (Nat.pow_pos (by decide)), rfl⟩

theorem toNat_extend {r : SimpleUint128} {e f : ℕ} (hr : r.toNat < 10 ^ e) (hf : f ≤ 16) :
    (if e < f then Wide.multi r ⟨0, uint64Pow10 (f - e)⟩ else r).toNat =
      r.toNat * 10 ^ (max e f - e) := by
  split_ifs with hlt
  · have hpow := toNat_uint64Pow10 (p := f - e) (by omega)
    have hle : r.toNat * 10 ^ (f - e) < 10 ^ 16 := by
      calc r.toNat * 10 ^ (f - e) < 10 ^ e * 10 ^ (f - e) :=
            Nat.mul_lt_mul_of_pos_right hr (Nat.pow_pos (by decide))
        _ = 10 ^ f := by rw [← pow_add, Nat.add_sub_cancel' hlt.le]
        _ ≤ 10 ^ 16 := Nat.pow_le_pow_right (by decide) hf
    rw [toNat_multi_uint128 (by rw [hpow]; omega), hpow, Nat.max_eq_right hlt.le]
  · rw [Nat.max_eq_left (Nat.not_lt.mp hlt), Nat.sub_self, pow_zero, Nat.mul_one]

/-- **Comparison** is that of the exact values. -/
theorem gt_eq (ha : a.valid = true) (hb : b.valid = true) (hae : a.e ≤ 16) (hbe : b.e ≤ 16)
    (hzb : b.x.toNat = 0 → b.sign = true) :
    gt a b = .ok (decide (signed b.sign (b.scaled (max a.e b.e)) <
      signed a.sign (a.scaled (max a.e b.e)))) := by
  obtain ⟨s, hs, hsdiv, hsmod⟩ := divmod_decimals hae
  obtain ⟨t, ht, htdiv, htmod⟩ := divmod_decimals hbe
  obtain ⟨hadiv, hamod⟩ := scaled_div_mod (a := a) (le_max_left a.e b.e)
  obtain ⟨hbdiv, hbmod⟩ := scaled_div_mod (a := b) (le_max_right a.e b.e)
  have hextA := toNat_extend (r := s.modResult) (hsmod ▸ Nat.mod_lt _ (Nat.pow_pos (by decide))) hbe
  have hextB := toNat_extend (r := t.modResult) (htmod ▸ Nat.mod_lt _ (Nat.pow_pos (by decide))) hae
  rw [hsmod, ← hamod] at hextA
  rw [htmod, Nat.max_comm, ← hbmod] at hextB
  have hA := Nat.div_add_mod (a.scaled (max a.e b.e)) (10 ^ max a.e b.e)
  have hB := Nat.div_add_mod (b.scaled (max a.e b.e)) (10 ^ max a.e b.e)
  rw [gt, ha, hb]
  simp only [hs, ht, bind, Except.bind, Bool.not_true, Bool.or_false, Bool.false_eq_true, if_false]
  generalize (if a.e < b.e then _ else s.modResult) = extendA at *
  generalize (if b.e < a.e then _ else t.modResult) = extendB at *
  have heq : extendA = extendB ↔ extendA.toNat = extendB.toNat :=
    ⟨congrArg _, fun h => Wide.toNat_inj h⟩
  simp only [Wide.gt_iff, heq, hextA, hextB, hsdiv, htdiv, ← hadiv, ← hbdiv]
  by_cases hsign : a.sign = b.sign
  · rw [if_neg (not_not.mpr hsign), ← hsign]
    -- the sign turns the comparison around
    have habove : ∀ m n : ℕ, n < m → a.sign = decide (signed a.sign n < signed a.sign m) :=
      fun m n h => by cases a.sign <;> simp [signed] <;> omega
    have hbelow : ∀ m n : ℕ, m < n → (!a.sign) = decide (signed a.sign n < signed a.sign m) :=
      fun m n h => by cases a.sign <;> simp [signed] <;> omega
    generalize a.scaled (max a.e b.e) = m at *
    generalize b.scaled (max a.e b.e) = n at *
    split_ifs with h₁ h₂ h₃ h₄
    · exact congrArg Except.ok (habove m n (Nat.lt_of_div_lt_div h₁))
    · exact congrArg Except.ok (hbelow m n (Nat.lt_of_div_lt_div h₂))
    all_goals
      have hdiv : m / 10 ^ max a.e b.e = n / 10 ^ max a.e b.e := by omega
      rw [hdiv] at hA
    · obtain rfl : m = n := by omega
      exact congrArg Except.ok (by simp)
    · exact congrArg Except.ok (habove m n (by omega))
    · exact congrArg Except.ok (hbelow m n (by omega))
  · rw [if_pos hsign]
    refine congrArg Except.ok ?_
    cases hs : a.sign <;> cases ht : b.sign <;> rw [hs, ht] at hsign
    · exact absurd rfl hsign
    · simp [signed]
    · have hpos : 0 < b.scaled (max a.e b.e) :=
        Nat.mul_pos (Nat.pos_of_ne_zero fun h => by simp [hzb h] at ht) (Nat.pow_pos (by decide))
      simp [signed]
      omega
    · exact absurd rfl hsign

theorem gt_isInt (ha : a.IsInt m) (hb : b.IsInt n) : gt a b = .ok (decide (n < m)) := by
  rw [gt_eq ha.valid hb.valid (by rw [ha.e]; decide) (by rw [hb.e]; decide) fun _ => hb.sign]
  simp [ha.sign, hb.sign, signed, scaled, ha.e, hb.e, ha.x, hb.x]

/-! ### Quotients -/

/-- The digits of `m / d`: the magnitude `y` has `re` decimals, and what is left is `r`. More digits
are missing only if there are 16 decimals or the magnitude is large. -/
structure Digits (m d y re r : ℕ) : Prop where
  le : re ≤ 16
  lt : r < d
  eq : m * 10 ^ re = y * d + r
  rest : re = 16 ∨ 10 ^ 32 ≤ y ∨ r = 0

section loop

variable {bigA bigB : SimpleUint256} {rx : SimpleUint128} {m d : ℕ}

theorem divDigit (hB : bigB.toNat = d) (hd : 0 < d) (hd' : d < 2 ^ 127)
    (hA : bigA.toNat < 2 ^ 255) (hlt : rx.toNat * 10 + bigA.toNat / d < 2 ^ 128) :
    ∃ s y, simpleUint256Divmod bigA bigB = .ok s ∧
      Wide.add (Wide.multi rx uint128Ten) s.divResult.low = y ∧
      y.toNat = rx.toNat * 10 + bigA.toNat / d ∧ s.modResult.toNat = bigA.toNat % d := by
  obtain ⟨s, hs, hdiv, hmod⟩ := simpleUint256Divmod_eq_ok hA (hB ▸ hd) (hB ▸ hd')
  rw [hB] at hdiv hmod
  have hlow : s.divResult.low.toNat = bigA.toNat / d := by
    rw [toNat_low_uint256, hdiv]
    omega
  have htimes : (Wide.multi rx uint128Ten).toNat = rx.toNat * 10 := toNat_times_ten (by omega)
  refine ⟨s, _, hs, rfl, ?_, hmod⟩
  rw [toNat_add_uint128 (by rw [htimes, hlow]; exact hlt), htimes, hlow]

theorem divLoop_eq_ok (bigA : SimpleUint256) (rx : SimpleUint128) (hB : bigB.toNat = d)
    (hd : 0 < d) (hd' : d < 2 ^ 127) {n : ℕ} (hn : n ≤ 16)
    (hinv : m * 10 ^ (16 - n) = rx.toNat * 10 * d + bigA.toNat) (hA : bigA.toNat < 2 ^ 255)
    (hlt : rx.toNat * 10 + bigA.toNat / d < 2 ^ 128) :
    ∃ y re r, divLoop bigB n bigA rx = .ok (y, re) ∧ Digits m d y.toNat re r := by
  induction n generalizing bigA rx with
  | zero =>
    obtain ⟨s, y, hs, heq, hy, hmod⟩ := divDigit hB hd hd' hA hlt
    refine ⟨y, 16, bigA.toNat % d, ?_, le_rfl, Nat.mod_lt _ hd, ?_, .inl rfl⟩
    · rw [divLoop, hs, ← heq]
      rfl
    · rw [hy, Nat.add_mul, Nat.add_assoc, Nat.div_add_mod', ← hinv]
  | succ n ih =>
    obtain ⟨s, y, hs, heq, hy, hmod⟩ := divDigit hB hd hd' hA hlt
    have hr := Nat.mod_lt bigA.toNat hd
    have hA' : (Wide.multi s.modResult uint256Ten).toNat = bigA.toNat % d * 10 := by
      rw [toNat_multi_uint256 (by rw [hmod, toNat_uint256Ten]; omega), hmod, toNat_uint256Ten]
    have hinv' : m * 10 ^ (15 - n) =
        (rx.toNat * 10 + bigA.toNat / d) * d + bigA.toNat % d := by
      rw [Nat.add_mul, Nat.add_assoc, Nat.div_add_mod', ← hinv, show 15 - n = 16 - (n + 1) by omega]
    simp only [divLoop, hs, bind, Except.bind, heq]
    split_ifs with hnext
    · rw [Bool.and_eq_true, Wide.gt_iff, toNat_largestX, hy] at hnext
      refine ih _ _ (by omega) ?_ (by rw [hA']; omega) ?_
      · rw [hy, hA', show 16 - n = 15 - n + 1 by omega, pow_succ, ← Nat.mul_assoc, hinv']
        ring
      · have hdigit : bigA.toNat % d * 10 / d < 10 := Nat.div_lt_of_lt_mul (by omega)
        rw [hy, hA']
        omega
    · refine ⟨y, 15 - n, bigA.toNat % d, rfl, by omega, hr, by rw [hy, hinv'], .inr ?_⟩
      rw [Bool.and_eq_true, Wide.gt_iff, toNat_largestX, hy, Bool.not_eq_true', ← Bool.not_eq_true,
        Wide.isZero_iff, hA'] at hnext
      omega

end loop

/-- **Quotients of integers** are cut. -/
theorem div_eq_ok (ha : a.valid = true) (hb : b.valid = true) (hae : a.e = 0) (hbe : b.e = 0)
    (hn : 0 < b.x.toNat) (hn' : b.x.toNat < 2 ^ 127) :
    ∃ c y re r, div a b = .ok c ∧ (c.sign = decide (a.sign = b.sign) ∨ a.x.toNat = 0) ∧
      (a.x.toNat = 0 → c.sign = true) ∧ Digits a.x.toNat b.x.toNat y re r ∧ c.Cut y re := by
  have hzb : b.isZero = false := by
    rw [← Bool.not_eq_true, isZero_eq hb]
    omega
  rw [div, ha, hb, hzb]
  simp only [Bool.not_true, Bool.or_false, Bool.false_eq_true, if_false, isZero_eq ha]
  split_ifs with hm
  · refine ⟨zero, 0, 0, 0, rfl, .inr hm, fun _ => rfl,
      ⟨by decide, hn, by simp [hm], .inr (.inr rfl)⟩, rfl, 0, 0, rfl, ?_, fun _ => rfl⟩
    rfl
  · have hm128 := toNat_lt_uint128 a.x
    have hA : (⟨0, a.x⟩ : SimpleUint256).toNat = a.x.toNat := toNat_uint128 a.x
    have hquot : a.x.toNat / b.x.toNat ≤ a.x.toNat := Nat.div_le_self ..
    obtain ⟨y, re, r, hloop, hdigits⟩ := divLoop_eq_ok (m := a.x.toNat) ⟨0, a.x⟩ 0
      (toNat_uint128 b.x) hn hn' le_rfl (by rw [toNat_zero, hA]; simp) (by omega)
      (by rw [toNat_zero, hA]; omega)
    obtain ⟨c, hc, hsign, hcut⟩ := create_eq_ok (decide (a.sign = b.sign)) y hdigits.le
    refine ⟨c, y.toNat, re, r, ?_, .inl hsign, fun h => absurd h hm, hdigits, hcut⟩
    rw [hloop, hae, hbe]
    simp only [bind, Except.bind, Nat.zero_le, if_true, Nat.zero_add, Nat.sub_zero]
    exact hc

theorem div_eq_ok_isInt (ha : a.IsInt m) (hb : b.IsInt n) (hn : 0 < n) (hn' : n < 2 ^ 127) :
    ∃ c y re r, div a b = .ok c ∧ c.sign = true ∧ Digits m n y re r ∧ c.Cut y re := by
  obtain ⟨c, y, re, r, hc, hsign, hzero, hdigits, hcut⟩ := div_eq_ok ha.valid hb.valid ha.e hb.e
    (hb.x ▸ hn) (hb.x ▸ hn')
  rw [ha.x, hb.x] at hdigits
  refine ⟨c, y, re, r, hc, hsign.elim (fun h => ?_) hzero, hdigits, hcut⟩
  rw [h, ha.sign, hb.sign]
  rfl

theorem Digits.floor {y d re r : ℕ} (h : Digits m d y re r) : y / 10 ^ re = m / d := by
  have hlt := h.lt
  have hpow : 0 < 10 ^ re := Nat.pow_pos (by decide)
  calc y / 10 ^ re = (y * d + r) / d / 10 ^ re := by
        rw [Nat.add_comm, Nat.add_mul_div_right _ _ (by omega), Nat.div_eq_of_lt hlt, Nat.zero_add]
    _ = m * 10 ^ re / (10 ^ re * d) := by rw [← h.eq, Nat.div_div_eq_div_mul, Nat.mul_comm d]
    _ = m / d := by rw [Nat.mul_comm m, Nat.mul_div_mul_left _ _ hpow]

/-- A number that is not above the quotient `m / n` and has its integer part. -/
structure Below (c : SafeNumber) (m n : ℕ) : Prop where
  valid : c.valid = true
  sign : c.sign = true
  e : c.e ≤ 16
  floor : c.x.toNat / 10 ^ c.e = m / n
  le : c.x.toNat * n ≤ m * 10 ^ c.e

theorem div_below (ha : a.IsInt m) (hb : b.IsInt n) (hn : 0 < n) (hn' : n < 2 ^ 127) :
    ∃ c, div a b = .ok c ∧ c.Below m n := by
  obtain ⟨c, y, re, r, hc, hsign, hdigits, hcut⟩ := div_eq_ok_isInt ha hb hn hn'
  have hpow : 0 < 10 ^ re := Nat.pow_pos (by decide)
  refine ⟨c, hc, hcut.1, hsign, hcut.le.trans hdigits.le, hcut.floor.trans hdigits.floor, ?_⟩
  · have hle := hcut.le_mul
    have heq := hdigits.eq
    refine Nat.le_of_mul_le_mul_right (c := 10 ^ re) ?_ hpow
    calc c.x.toNat * n * 10 ^ re = c.x.toNat * 10 ^ re * n := by ring
      _ ≤ y * 10 ^ c.e * n := Nat.mul_le_mul_right _ hle
      _ = y * n * 10 ^ c.e := by ring
      _ ≤ m * 10 ^ re * 10 ^ c.e := Nat.mul_le_mul_right _ (by omega)
      _ = m * 10 ^ c.e * 10 ^ re := by ring

/-- **A quotient is exact** if no decimals are left, the divisor has at most 16 decimals and the
quotient fewer than 17 digits: what is cut off is less than one unit of the last decimal. -/
theorem div_exact {c : SafeNumber} (ha : a.IsInt m) (hb : b.IsInt n) (hn : 0 < n)
    (hn' : n ≤ 10 ^ 16) (hm : m < 10 ^ 16 * n) (hc : div a b = .ok c) (he : c.e = 0) :
    m = c.x.toNat * n := by
  obtain ⟨c', y, re, r, hc', -, hdigits, hcut⟩ := div_eq_ok_isInt ha hb hn (by omega)
  obtain rfl := Except.ok.inj (hc.symm.trans hc')
  obtain ⟨hre, hlt, heq, hrest⟩ := hdigits
  have hpow : 10 ^ re ≤ 10 ^ 16 := Nat.pow_le_pow_right (by decide) hre
  have hpos : 0 < 10 ^ re := Nat.pow_pos (by decide)
  have hy : y < 10 ^ 32 := by
    refine Nat.lt_of_mul_lt_mul_right (a := n) ?_
    calc y * n ≤ m * 10 ^ re := by omega
      _ ≤ m * 10 ^ 16 := Nat.mul_le_mul_left _ hpow
      _ < 10 ^ 16 * n * 10 ^ 16 := Nat.mul_lt_mul_of_pos_right hm (by decide)
      _ = 10 ^ 32 * n := by ring
  have hexact := hcut.exact hy.le he
  have hsplit : m * 10 ^ re = c.x.toNat * n * 10 ^ re + r := by
    rw [heq, hexact]
    ring
  -- what is left is a multiple of the last decimal, and less than the divisor
  have hzero : r = 0 := by
    rcases hrest with rfl | hlarge | hzero
    · have hle : c.x.toNat * n ≤ m := Nat.le_of_mul_le_mul_right (by omega) hpos
      omega
    · omega
    · exact hzero
  exact Nat.eq_of_mul_eq_mul_right hpos (by omega)

/-! ### Integer parts -/

/-- The low 63 bits of a number, with a sign. -/
def clip (n : ℕ) : ℤ := Int.bmod n (2 ^ 63)

theorem clip_mem (n : ℕ) : -2 ^ 62 ≤ clip n ∧ clip n < 2 ^ 62 := by
  unfold clip
  rw [Int.bmod_def]
  omega

theorem clip_mod (n : ℕ) : clip (n % 2 ^ 64) = clip n := by
  unfold clip
  rw [Int.bmod_def, Int.bmod_def]
  omega

theorem clip_eq_iff (n : ℕ) : clip n = n ↔ n < 2 ^ 62 := by
  unfold clip
  rw [Int.bmod_def]
  omega

theorem toInt_clipped (low : UInt64) : (clipped low).toInt = clip low.toNat := by
  have hone : (Int64.toBitVec 1).smod 64 = 1#64 := by decide
  unfold clip
  rw [clipped, ← Int64.toInt_toBitVec, Int64.toBitVec_shiftRight, Int64.toBitVec_shiftLeft, hone,
    BitVec.toInt_sshiftRight', BitVec.shiftLeft_eq', BitVec.toInt_shiftLeft,
    show low.toInt64.toBitVec.toNat = low.toNat from rfl, Int.shiftRight_eq_div_pow,
    Nat.shiftLeft_eq, Int.bmod_def, Int.bmod_def]
  simp only [show (1#64 : BitVec 64).toNat = 1 from rfl]
  omega

theorem toInt_signed_clipped (x : SimpleUint128) :
    (if a.sign then clipped x.low else -clipped x.low).toInt =
      if a.sign then clip x.toNat else -clip x.toNat := by
  have hclipped : (clipped x.low).toInt = clip x.toNat := by
    rw [toInt_clipped, toNat_low_uint128, clip_mod]
  have hmem := clip_mem x.toNat
  split_ifs
  · exact hclipped
  · rw [Int64.toInt_neg, hclipped, Int.bmod_def]
    omega

/-- **The conversion to an integer** keeps the low 63 bits of the integer part, with a sign. -/
theorem toInt64_signed (hvalid : a.valid = true) (he : a.e ≤ 16) :
    ∃ v, toInt64 a = .ok v ∧ v.toInt = if a.sign then clip (a.x.toNat / 10 ^ a.e)
      else -clip (a.x.toNat / 10 ^ a.e) := by
  rw [toInt64, hvalid]
  simp only [Bool.not_true, Bool.false_eq_true, if_false, isZero_eq hvalid]
  by_cases hzero : a.x.toNat = 0
  · rw [if_pos hzero, hzero, Nat.zero_div]
    exact ⟨0, rfl, by split_ifs <;> rfl⟩
  rw [if_neg hzero]
  by_cases hpos : 0 < a.e
  · obtain ⟨s, hs, hdiv, -⟩ := divmod_decimals he
    rw [if_pos hpos, hs, ← hdiv]
    exact ⟨_, rfl, toInt_signed_clipped s.divResult⟩
  · rw [if_neg hpos, Nat.eq_zero_of_not_pos hpos, pow_zero, Nat.div_one]
    exact ⟨_, rfl, toInt_signed_clipped a.x⟩

theorem toInt64_eq_ok (hvalid : a.valid = true) (hsign : a.sign = true) (he : a.e ≤ 16) :
    ∃ v, toInt64 a = .ok v ∧ v.toInt = Int.bmod (a.x.toNat / 10 ^ a.e : ℕ) (2 ^ 63) := by
  obtain ⟨v, hv, hint⟩ := toInt64_signed hvalid he
  rw [if_pos hsign] at hint
  exact ⟨v, hv, hint⟩

end integers

end SafeNumber

end Whitecoin.Native
