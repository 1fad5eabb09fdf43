import Whitecoin.Native.SafeNumberValue

/-!
# Integers among the safe numbers

Sums, products and the conversion from integers are exact. The conversion to integers keeps 63 bits,
of which the highest is taken for a sign, so that it is right below `2 ^ 62` only. The integer
quotient of numbers with different signs is one less than the integer part.
-/

namespace Whitecoin.Native

namespace SafeNumber

open Check Cbor Decimal

variable {a b c : SafeNumber} {i j : ℤ}

/-- The number is the integer `i`, which may be negative. -/
structure IsWhole (a : SafeNumber) (i : ℤ) : Prop where
  valid : a.valid = true
  e : a.e = 0
  eq : signed a.sign a.x.toNat = i

theorem natAbs_signed (sign : Bool) (n : ℕ) : (signed sign n).natAbs = n := by
  cases sign <;> simp [signed]

namespace IsWhole

theorem value (h : a.IsWhole i) : a.value = i := by
  rw [value_eq_signed, h.e, h.eq, pow_zero, div_one]

theorem natAbs (h : a.IsWhole i) : a.x.toNat = i.natAbs := by
  rw [← h.eq, natAbs_signed]

theorem isZero (h : a.IsWhole i) : a.isZero = decide (i = 0) := by
  rw [Bool.eq_iff_iff, isZero_eq h.valid, h.natAbs, Int.natAbs_eq_zero, decide_eq_true_eq]

theorem of_value (hvalid : a.valid = true) (hc : a.Canonical) (h : a.value = i) (hi : i ≠ 0) :
    a.IsWhole i := by
  have hpow : (10 : ℚ) ^ a.e ≠ 0 := pow_ne_zero _ (by norm_num)
  rw [value_eq_signed, div_eq_iff hpow] at h
  have heq : signed a.sign a.x.toNat = i * 10 ^ a.e := by exact_mod_cast h
  have hx : a.x.toNat = i.natAbs * 10 ^ a.e := by
    rw [← natAbs_signed a.sign a.x.toNat, heq, Int.natAbs_mul, Int.natAbs_pow]
    rfl
  have he : a.e = 0 := by
    rcases hc.shortest with hzero | he | hdvd
    · rw [hx] at hzero
      rcases Nat.mul_eq_zero.mp hzero with h | h
      · exact absurd (Int.natAbs_eq_zero.mp h) hi
      · exact absurd h (Nat.pow_pos (by decide)).ne'
    · exact he
    · by_contra hne
      exact hdvd (hx ▸ (dvd_pow_self 10 hne).mul_left _)
  exact ⟨hvalid, he, by rw [heq, he, pow_zero, mul_one]⟩

end IsWhole

theorem create_whole (sign : Bool) (x : SimpleUint128) :
    ∃ n, create sign x 0 = .ok n ∧ n.IsWhole (signed sign x.toNat) := by
  obtain ⟨n, hn, hsign, hcut⟩ := create_eq_ok sign x (Nat.zero_le 16)
  have he : n.e = 0 := Nat.le_zero.mp hcut.le
  have hfloor := hcut.floor
  rw [he, pow_zero, Nat.div_one, Nat.div_one] at hfloor
  exact ⟨n, hn, hcut.1, he, by rw [hsign, hfloor]⟩

theorem createInt_whole (v : Int64) : ∃ n, createInt v = .ok n ∧ n.IsWhole v.toInt := by
  obtain ⟨n, hn, hwhole⟩ := create_whole (0 ≤ v) ⟨0, (if 0 ≤ v then v else -v).toUInt64⟩
  refine ⟨n, hn, ?_⟩
  have hv : signed (decide (0 ≤ v)) (if 0 ≤ v then v else -v).toUInt64.toNat = v.toInt := by
    have hlt := v.toBitVec.isLt
    have hint : v.toInt = Int.bmod v.toBitVec.toNat (2 ^ 64) := v.toBitVec.toInt_eq_toNat_bmod
    have hneg : (-v).toUInt64.toNat = (2 ^ 64 - v.toBitVec.toNat) % 2 ^ 64 :=
      BitVec.toNat_neg v.toBitVec
    have hpos : v.toUInt64.toNat = v.toBitVec.toNat := rfl
    have hle : 0 ≤ v ↔ 0 ≤ v.toInt := by rw [Int64.le_iff_toInt_le, Int64.toInt_zero]
    rw [Int.bmod_def] at hint
    by_cases h : 0 ≤ v
    · rw [if_pos h, decide_eq_true h, signed, if_pos rfl]
      rw [hle] at h
      omega
    · rw [if_neg h, decide_eq_false h, signed, if_neg (by decide)]
      rw [hle] at h
      omega
  rwa [toNat_uint64, hv] at hwhole

theorem multiply_whole (ha : a.IsWhole i) (hb : b.IsWhole j) (h : (i * j).natAbs < 2 ^ 128) :
    ∃ c, multiply a b = .ok c ∧ c.IsWhole (i * j) := by
  by_cases hzero : a.isZero = true ∨ b.isZero = true
  · have hproduct : i * j = 0 := by
      rw [ha.isZero, hb.isZero, decide_eq_true_eq, decide_eq_true_eq] at hzero
      exact mul_eq_zero.mpr hzero
    refine ⟨zero, multiply_zero ha.valid hb.valid hzero, rfl, rfl, ?_⟩
    rw [isInt_zero.x, hproduct]
    rfl
  · simp only [not_or, Bool.not_eq_true] at hzero
    obtain ⟨p, hp, hproduct⟩ := multiply_eq_create ha.valid hb.valid hzero.1 hzero.2
      (by rwa [ha.natAbs, hb.natAbs, ← Int.natAbs_mul])
    obtain ⟨c, hc, hwhole⟩ := create_whole (decide (a.sign = b.sign)) p
    have hsigned : signed (decide (a.sign = b.sign)) (a.x.toNat * b.x.toNat) = i * j := by
      rw [← ha.eq, ← hb.eq]
      cases a.sign <;> cases b.sign <;> simp [signed]
    rw [ha.e, hb.e] at hp
    rw [hproduct, hsigned] at hwhole
    exact ⟨c, hp.trans hc, hwhole⟩

theorem neg_whole (ha : a.IsWhole i) : ∃ c, neg a = .ok c ∧ c.IsWhole (-i) := by
  rw [neg, ha.valid]
  simp only [Bool.not_true, Bool.false_eq_true, if_false, ha.isZero, decide_eq_true_eq]
  split_ifs with hzero
  · obtain rfl := hzero
    exact ⟨a, rfl, ha⟩
  · obtain ⟨c, hc, hwhole⟩ := create_whole (!a.sign) a.x
    have hsigned : signed (!a.sign) a.x.toNat = -i := by
      rw [← ha.eq]
      cases a.sign <;> simp [signed]
    rw [hsigned] at hwhole
    exact ⟨c, by rw [ha.e, hc], hwhole⟩

theorem add_whole (ha : a.IsWhole i) (hb : b.IsWhole j) (h : i.natAbs + j.natAbs < 2 ^ 128) :
    ∃ c, add a b = .ok c ∧ c.IsWhole (i + j) := by
  cases hzb : b.isZero
  · cases hza : a.isZero
    · have he : max a.e b.e = 0 := by rw [ha.e, hb.e]; rfl
      have hscaled : ∀ c : SafeNumber, c.scaled (max a.e b.e) = c.x.toNat := fun c => by
        rw [he, scaled, Nat.zero_sub, pow_zero, Nat.mul_one]
      have hfits : AddFits a b := by
        rw [AddFits, hscaled, hscaled, ha.natAbs, hb.natAbs]
        split_ifs <;> omega
      obtain ⟨sign, x, hadd, hsum⟩ := add_eq_create ha.valid hb.valid hza hzb
        (ha.e ▸ Nat.zero_le _) (hb.e ▸ Nat.zero_le _)
      obtain ⟨c, hc, hwhole⟩ := create_whole sign x
      rw [hsum, wrappedSum_eq hfits, exactSum, hscaled, hscaled, ha.eq, hb.eq] at hwhole
      exact ⟨c, by rw [hadd, he, hc], hwhole⟩
    · have hi : i = 0 := by simpa [ha.isZero] using hza
      exact ⟨b, add_of_isZero_left ha.valid hb.valid hza hzb, by rwa [hi, zero_add]⟩
  · have hj : j = 0 := by simpa [hb.isZero] using hzb
    exact ⟨a, add_of_isZero_right ha.valid hb.valid hzb, by rwa [hj, add_zero]⟩

theorem minus_whole (ha : a.IsWhole i) (hb : b.IsWhole j) (h : i.natAbs + j.natAbs < 2 ^ 128) :
    ∃ c, minus a b = .ok c ∧ c.IsWhole (i - j) := by
  obtain ⟨n, hn, hwhole⟩ := neg_whole hb
  rw [minus, hn, ok_bind]
  exact add_whole ha hwhole (by omega)

/-! ### Conversions -/

theorem truncate_value (a : SafeNumber) :
    truncate a.value = signed a.sign (a.x.toNat / 10 ^ a.e) := by
  have hvalue : a.value = signed a.sign a.x.toNat / (10 ^ a.e : ℕ) := by
    rw [value_eq_signed, Nat.cast_pow, Nat.cast_ofNat]
  rw [hvalue, truncate_div _ (Nat.pow_pos (by decide)), signed_tdiv]

theorem signed_clip (sign : Bool) (n : ℕ) : (if sign then clip n else -clip n) = signed sign n ↔
    n < 2 ^ 62 := by
  rw [← clip_eq_iff]
  cases sign <;> simp [signed]

/-- The integer below the number, from its integer part without sign. -/
def below (a : SafeNumber) (p : ℤ) : ℤ :=
  if a.sign then p else if a.x.toNat % 10 ^ a.e = 0 then -p else -p - 1

theorem below_inj {p q : ℤ} : a.below p = a.below q ↔ p = q := by
  unfold below
  split_ifs <;> omega

theorem floor_value (a : SafeNumber) : ⌊a.value⌋ = a.below (a.x.toNat / 10 ^ a.e : ℕ) := by
  have hvalue : a.value = signed a.sign a.x.toNat / (10 ^ a.e : ℕ) := by
    rw [value_eq_signed, Nat.cast_pow, Nat.cast_ofNat]
  have hpos : 0 < ((10 ^ a.e : ℕ) : ℤ) := Int.natCast_pos.mpr (Nat.pow_pos (by decide))
  rw [hvalue, Rat.floor_intCast_div_natCast, below, signed]
  split_ifs with hsign hmod
  · rfl
  · rw [Int.neg_ediv, if_pos (Int.natCast_dvd_natCast.mpr (Nat.dvd_of_mod_eq_zero hmod)), sub_zero]
    rfl
  · rw [Int.neg_ediv, if_neg (fun h => hmod (Nat.mod_eq_zero_of_dvd (Int.natCast_dvd_natCast.mp h))),
      Int.sign_eq_one_of_pos hpos]
    rfl

theorem toInt64Floor_below (hvalid : a.valid = true) (he : a.e ≤ 16) :
    ∃ v, toInt64Floor a = .ok v ∧ v.toInt = a.below (clip (a.x.toNat / 10 ^ a.e)) := by
  rw [toInt64Floor, hvalid]
  simp only [Bool.not_true, Bool.false_eq_true, if_false, isZero_eq hvalid]
  by_cases hzero : a.x.toNat = 0
  · rw [if_pos hzero, below, hzero, Nat.zero_div, Nat.zero_mod, if_pos rfl]
    exact ⟨0, rfl, by split_ifs <;> rfl⟩
  rw [if_neg hzero]
  obtain ⟨s, hs, hdiv, hmod⟩ := divmod_decimals he
  by_cases hpos : 0 < a.e
  · rw [if_pos hpos, hs, ok_bind, below, ← hdiv, ← hmod]
    simp only [Wide.isZero_iff]
    have hsigned := toInt_signed_clipped (a := a) s.divResult
    by_cases hrest : s.modResult.toNat = 0
    · rw [if_pos hrest, if_pos hrest]
      exact ⟨_, rfl, hsigned⟩
    · rw [if_neg hrest, if_neg hrest]
      refine ⟨_, rfl, ?_⟩
      split_ifs at hsigned ⊢
      · exact hsigned
      · have hmem := clip_mem s.divResult.toNat
        have hone : (1 : Int64).toInt = 1 := rfl
        rw [Word.toInt_sub_of_le, hsigned, hone]
        all_goals omega
  · have hmod : a.x.toNat % 10 ^ a.e = 0 := by
      rw [Nat.eq_zero_of_not_pos hpos, pow_zero, Nat.mod_one]
    rw [if_neg hpos, below, if_pos hmod, Nat.eq_zero_of_not_pos hpos, pow_zero, Nat.div_one]
    exact ⟨_, rfl, toInt_signed_clipped a.x⟩

/-- **Conversions are right below `2 ^ 62`** and nowhere else. -/
theorem toInt64_correct_iff (n : Int64) (a : SafeNumber) :
    (n ≠ Int64.minValue → ∃ c v, createInt n = .ok c ∧ toInt64 c = .ok v ∧
      (v = n ↔ |n.toInt| < 2 ^ 62)) ∧
    (a.valid = true → a.e ≤ 16 → ∃ v w, toInt64 a = .ok v ∧ toInt64Floor a = .ok w ∧
      (v.toInt = truncate a.value ↔ |truncate a.value| < 2 ^ 62) ∧
      (w.toInt = ⌊a.value⌋ ↔ |truncate a.value| < 2 ^ 62)) := by
  refine ⟨fun _ => ?_, fun hvalid he => ?_⟩
  · obtain ⟨c, hc, hwhole⟩ := createInt_whole n
    obtain ⟨v, hv, hint⟩ := toInt64_signed hwhole.valid (hwhole.e ▸ Nat.zero_le _)
    refine ⟨c, v, hc, hv, ?_⟩
    rw [hwhole.e, pow_zero, Nat.div_one] at hint
    rw [← Int64.toInt_inj, hint, ← hwhole.eq, signed_clip, Int.abs_eq_natAbs, natAbs_signed]
    norm_cast
  · obtain ⟨v, hv, hint⟩ := toInt64_signed hvalid he
    obtain ⟨w, hw, hfloor⟩ := toInt64Floor_below hvalid he
    refine ⟨v, w, hv, hw, ?_⟩
    rw [hint, hfloor, floor_value, below_inj, clip_eq_iff, truncate_value, signed_clip,
      Int.abs_eq_natAbs, natAbs_signed]
    norm_cast

/-- **The integer `2 ^ 62` comes back as `-2 ^ 62`.** -/
theorem toInt64_clips : ∃ a, createInt 4611686018427387904 = .ok a ∧
    toInt64 a = .ok (-4611686018427387904) ∧ toInt64Floor a = .ok (-4611686018427387904) :=
  ⟨⟨true, true, ⟨0, 4611686018427387904⟩, 0⟩, by decide +kernel⟩

/-! ### Quotients and remainders -/

/-- The integer quotient: one less than the integer part if the signs differ. -/
def quotient (i j : ℤ) : ℤ := if i = 0 ∨ (0 < i ↔ 0 < j) then i.tdiv j else i.tdiv j - 1

theorem sign_eq_iff (ha : a.IsWhole i) (hb : b.IsWhole j) (hi : i ≠ 0) (hj : j ≠ 0) :
    a.sign = b.sign ↔ (0 < i ↔ 0 < j) := by
  have hpos : ∀ {c : SafeNumber} {k : ℤ}, c.IsWhole k → k ≠ 0 → (c.sign = true ↔ 0 < k) :=
    fun {c k} hc hk => by
      have heq := hc.eq
      cases hs : c.sign <;> rw [hs] at heq <;> simp [signed] at heq ⊢ <;> omega
  rw [Bool.eq_iff_iff, hpos ha hi, hpos hb hj]

theorem idiv_whole (ha : a.IsWhole i) (hb : b.IsWhole j) (hj : j ≠ 0) (hi' : i.natAbs < 2 ^ 62)
    (hj' : j.natAbs < 2 ^ 62) : ∃ q, idiv a b = .ok q ∧ q.IsWhole (quotient i j) := by
  obtain ⟨c, y, re, r, hc, hsign, hzero, hdigits, hcut⟩ := div_eq_ok ha.valid hb.valid ha.e hb.e
    (by rw [hb.natAbs]; omega) (by rw [hb.natAbs]; omega)
  obtain ⟨v, hv, hint⟩ := toInt64_signed hcut.1 (hcut.le.trans hdigits.le)
  have hcsign : c.sign = true ↔ i = 0 ∨ (0 < i ↔ 0 < j) := by
    by_cases hi : i = 0
    · exact iff_of_true (hzero (by rw [ha.natAbs, hi]; rfl)) (.inl hi)
    · rw [← sign_eq_iff ha hb hi hj, hsign.resolve_right (by rw [ha.natAbs]; omega)]
      simp [hi]
  have htdiv : i.tdiv j = signed c.sign (a.x.toNat / b.x.toNat) := by
    rcases hsign with hsign | hzero
    · rw [hsign, ← ha.eq, ← hb.eq]
      cases a.sign <;> cases b.sign <;> simp [signed, Int.neg_tdiv, Int.tdiv_neg,
        Int.tdiv_eq_ediv_of_nonneg]
    · rw [← ha.eq, hzero, Nat.zero_div]
      cases a.sign <;> cases c.sign <;> simp [signed]
  have hlt : a.x.toNat / b.x.toNat < 2 ^ 62 :=
    (Nat.div_le_self ..).trans_lt (by rwa [ha.natAbs])
  rw [hcut.floor, hdigits.floor] at hint
  rw [idiv, hc, ok_bind, hv, ok_bind, quotient, htdiv]
  generalize a.x.toNat / b.x.toNat = k at hlt hint ⊢
  rw [(clip_eq_iff k).mpr hlt] at hint
  by_cases hs : c.sign = true
  · rw [if_pos hs] at hint
    rw [if_pos hs, if_pos (hcsign.mp hs), hs, signed, if_pos rfl, ← hint]
    exact createInt_whole v
  · rw [if_neg hs] at hint
    have hpred : (v - 1).toInt = -(k : ℤ) - 1 := by
      have hone : (1 : Int64).toInt = 1 := rfl
      rw [Word.toInt_sub_of_le, hint, hone]
      all_goals omega
    rw [if_neg hs, if_neg (fun h => hs (hcsign.mpr h)), signed, if_neg hs, ← hpred]
    exact createInt_whole (v - 1)

theorem natAbs_mul_quotient_le (i j : ℤ) :
    (j * quotient i j).natAbs ≤ i.natAbs + j.natAbs := by
  have hle : (quotient i j).natAbs ≤ i.natAbs / j.natAbs + 1 := by
    have htdiv : (i.tdiv j).natAbs = i.natAbs / j.natAbs := Int.natAbs_tdiv i j
    unfold quotient
    split_ifs <;> omega
  calc (j * quotient i j).natAbs ≤ j.natAbs * (i.natAbs / j.natAbs + 1) := by
        rw [Int.natAbs_mul]
        exact Nat.mul_le_mul_left _ hle
    _ = j.natAbs * (i.natAbs / j.natAbs) + j.natAbs := Nat.mul_add_one ..
    _ ≤ i.natAbs + j.natAbs := Nat.add_le_add_right (Nat.mul_div_le ..) _

theorem mod_whole (ha : a.IsWhole i) (hb : b.IsWhole j) (hj : j ≠ 0) (hi' : i.natAbs < 2 ^ 62)
    (hj' : j.natAbs < 2 ^ 62) : ∃ r, mod a b = .ok r ∧ r.IsWhole (i - j * quotient i j) := by
  obtain ⟨q, hq, hwhole⟩ := idiv_whole ha hb hj hi' hj'
  have hle := natAbs_mul_quotient_le i j
  obtain ⟨p, hp, hp'⟩ := multiply_whole hb hwhole (by omega)
  rw [mod, hq, ok_bind, hp, ok_bind]
  exact minus_whole ha hp' (by omega)

theorem idiv_mod_zero (hva : a.valid = true) (hvb : b.valid = true) (h : a.isZero = true) :
    ∃ q, idiv a b = .ok q ∧ q.IsWhole 0 ∧ mod a b = .ok a := by
  obtain ⟨q, hq, hwhole⟩ := createInt_whole 0
  have hdiv : div a b = .ok zero := by
    rw [div, hva, hvb, if_neg (by simp), if_pos h]
  have hidiv : idiv a b = .ok q := by
    rw [idiv, hdiv]
    exact hq
  refine ⟨q, hidiv, hwhole, ?_⟩
  rw [mod, hidiv, ok_bind, multiply_zero hvb hwhole.valid (.inr (by rw [hwhole.isZero]; rfl))]
  exact add_of_isZero_right hva rfl rfl

theorem quotient_correct_iff (hj : j ≠ 0) : |i - j * quotient i j| < |j| ∧ quotient i j = i.tdiv j ↔
    i = 0 ∨ (0 < i ↔ 0 < j) := by
  unfold quotient
  split_ifs with h
  · refine iff_of_true ⟨?_, rfl⟩ h
    have hrest : i - j * i.tdiv j = i.tmod j := by
      have := Int.tmod_add_mul_tdiv i j
      omega
    have hlt := Nat.mod_lt i.natAbs (Int.natAbs_pos.mpr hj)
    rw [hrest, Int.abs_eq_natAbs, Int.abs_eq_natAbs, Int.natAbs_tmod]
    exact_mod_cast hlt
  · exact iff_of_false (fun hc => by omega) h

/-- **The quotient and the remainder** make up the dividend. They are the integer part and what is
left of the division exactly if the dividend is zero or the signs agree. -/
theorem idiv_mod_iff (hva : a.valid = true) (hvb : b.valid = true) (hca : a.Canonical)
    (hcb : b.Canonical) (ha : a.value = i) (hb : b.value = j) (hj : j ≠ 0) (hi' : |i| < 2 ^ 62)
    (hj' : |j| < 2 ^ 62) :
    ∃ q r, idiv a b = .ok q ∧ mod a b = .ok r ∧ a.value = b.value * q.value + r.value ∧
      (|r.value| < |b.value| ∧ q.value = truncate (a.value / b.value) ↔
        i = 0 ∨ (0 < i ↔ 0 < j)) := by
  rw [Int.abs_eq_natAbs] at hi' hj'
  obtain ⟨q, r, hq, hr, hqv, hrv⟩ : ∃ q r, idiv a b = .ok q ∧ mod a b = .ok r ∧
      q.value = quotient i j ∧ r.value = (i - j * quotient i j : ℤ) := by
    by_cases hi : i = 0
    · subst hi
      have hzero : a.isZero = true := (isZero_eq hva).mpr (value_eq_zero_iff.mp (by simpa using ha))
      obtain ⟨q, hq, hwhole, hr⟩ := idiv_mod_zero hva hvb hzero
      exact ⟨q, a, hq, hr, by simpa [quotient] using hwhole.value, by simpa [quotient] using ha⟩
    · have hwa := IsWhole.of_value hva hca ha hi
      have hwb := IsWhole.of_value hvb hcb hb hj
      obtain ⟨q, hq, hwq⟩ := idiv_whole hwa hwb hj (by omega) (by omega)
      obtain ⟨r, hr, hwr⟩ := mod_whole hwa hwb hj (by omega) (by omega)
      exact ⟨q, r, hq, hr, hwq.value, hwr.value⟩
  refine ⟨q, r, hq, hr, ?_, ?_⟩
  · rw [ha, hb, hqv, hrv]
    push_cast
    ring
  · rw [← quotient_correct_iff hj, ha, hb, hqv, hrv, truncate_intCast_div i hj, ← Int.cast_abs,
      ← Int.cast_abs, Int.cast_lt, Int.cast_inj]

theorem idiv_mod_iff_same_sign : ∃ a b q r, createInt (-7) = .ok a ∧ createInt (-3) = .ok b ∧
    idiv a b = .ok q ∧ mod a b = .ok r ∧ |r.value| < |b.value| ∧
    q.value = truncate (a.value / b.value) := by
  obtain ⟨a, ha, hwa⟩ := createInt_whole (-7)
  obtain ⟨b, hb, hwb⟩ := createInt_whole (-3)
  obtain ⟨q, r, hq, hr, -, hiff⟩ := idiv_mod_iff hwa.valid hwb.valid (Made.createInt ha).canonical
    (Made.createInt hb).canonical hwa.value hwb.value (by decide) (by decide) (by decide)
  exact ⟨a, b, q, r, ha, hb, hq, hr, hiff.mpr (.inr (by decide))⟩

/-- **Minus six divided by three is minus three, with the remainder three.** -/
theorem idiv_negative : ∃ a b q, createInt (-6) = .ok a ∧ createInt 3 = .ok b ∧
    createInt (-3) = .ok q ∧ idiv a b = .ok q ∧ mod a b = .ok b :=
  ⟨⟨true, false, ⟨0, 6⟩, 0⟩, ⟨true, true, ⟨0, 3⟩, 0⟩, ⟨true, false, ⟨0, 3⟩, 0⟩, by decide +kernel⟩

theorem isInt_of_value {m : ℕ} (hvalid : a.valid = true) (hc : a.Canonical) (h : a.value = m)
    (hm : 0 < m) : a.IsInt m := by
  have hwhole := IsWhole.of_value hvalid hc (i := m) (by exact_mod_cast h) (by omega)
  have heq := hwhole.eq
  have hx := hwhole.natAbs
  refine ⟨hvalid, ?_, hwhole.e, by omega⟩
  cases hs : a.sign
  · rw [hs] at heq
    simp [signed] at heq
    omega
  · rfl

/-- **Integer quotients are floors** as long as they are below `2 ^ 62`. -/
theorem div_toInt64_floor {m n : ℕ} (hva : a.valid = true) (hvb : b.valid = true)
    (hca : a.Canonical) (hcb : b.Canonical) (ha : a.value = m) (hb : b.value = n) (hm : 0 < m)
    (hn : 0 < n) (hn' : n < 2 ^ 63) (hq : m / n < 2 ^ 62) :
    ∃ c v, div a b = .ok c ∧ toInt64 c = .ok v ∧ v.toInt = (m / n : ℕ) := by
  obtain ⟨c, hc, hbelow⟩ := div_below (isInt_of_value hva hca ha hm) (isInt_of_value hvb hcb hb hn)
    hn (by omega)
  obtain ⟨v, hv, hint⟩ := toInt64_signed hbelow.valid hbelow.e
  rw [if_pos hbelow.sign, hbelow.floor, (clip_eq_iff _).mpr hq] at hint
  exact ⟨c, v, hc, hv, hint⟩

theorem div_toInt64_floor_seven : ∃ a b c v, createInt 7 = .ok a ∧ createInt 2 = .ok b ∧
    div a b = .ok c ∧ toInt64 c = .ok v ∧ v.toInt = 3 := by
  obtain ⟨a, ha, hwa⟩ := createInt_whole 7
  obtain ⟨b, hb, hwb⟩ := createInt_whole 2
  have hva : a.value = (7 : ℕ) := hwa.value.trans (by norm_num [show (7 : Int64).toInt = 7 from rfl])
  have hvb : b.value = (2 : ℕ) := hwb.value.trans (by norm_num [show (2 : Int64).toInt = 2 from rfl])
  obtain ⟨c, v, hc, hv, hint⟩ := div_toInt64_floor hwa.valid hwb.valid (Made.createInt ha).canonical
    (Made.createInt hb).canonical hva hvb (by decide) (by decide) (by decide) (by decide)
  exact ⟨a, b, c, v, ha, hb, hc, hv, hint⟩

end SafeNumber

end Whitecoin.Native
