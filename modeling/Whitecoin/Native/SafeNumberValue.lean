import Whitecoin.Lib.Truncate
import Whitecoin.Native.SafeNumberEq

/-!
# Values of sums, products and comparisons

A result of `create` is a rational number that is cut at the decimals that are kept. Products whose
magnitudes fit into 128 bits are cut only. Sums are cut only as long as the magnitudes fit into 128
bits after they were brought to the same number of decimals; otherwise they are off by a multiple of
`2 ^ 128` units. Comparisons are right for all numbers.
-/

namespace Whitecoin.Native

namespace SafeNumber

open Check Cbor Decimal

variable {a b n : SafeNumber}

theorem value_eq_signed (a : SafeNumber) : a.value = signed a.sign a.x.toNat / 10 ^ a.e := by
  rw [value, signed]
  split_ifs <;> push_cast <;> ring

theorem signed_mul (sign : Bool) (m k : ℕ) : signed sign (m * k) = signed sign m * k := by
  cases sign <;> simp [signed]

theorem signed_tdiv (sign : Bool) (m k : ℕ) : (signed sign m).tdiv k = signed sign (m / k) := by
  cases sign <;> simp [signed, Int.neg_tdiv, Int.tdiv_eq_ediv_of_nonneg]

theorem value_eq_scaled {e : ℕ} (h : a.e ≤ e) :
    a.value = signed a.sign (a.scaled e) / 10 ^ e := by
  rw [value_eq_signed, scaled, signed_mul, ← Nat.sub_add_cancel h, pow_add, Nat.add_sub_cancel]
  push_cast
  field_simp

/-- **A result of `create`** has the value that was asked for, cut at the decimals that are kept. -/
theorem create_value (sign : Bool) (x : SimpleUint128) (e : ℕ) :
    ∃ n, create sign x e = .ok n ∧ n.valid = true ∧ n.e ≤ kept x.toNat e ∧
      n.value = truncateAt (kept x.toNat e) (signed sign x.toNat / 10 ^ e) := by
  obtain ⟨n, hn, hvalid, hle, hx, hsign, -⟩ := create_cut sign x e
  have hkept := kept_le x.toNat e
  refine ⟨n, hn, hvalid, hle, ?_⟩
  rw [truncateAt_div _ (by omega), signed_tdiv, ← hx, value_eq_scaled hle, scaled]
  rcases hsign with hsign | ⟨-, hzero⟩
  · rw [hsign]
  · rw [hzero, Nat.zero_mul]
    cases sign <;> cases n.sign <;> simp [signed]

theorem truncateAt_value {d : ℕ} (h : a.e ≤ d) : truncateAt d a.value = a.value := by
  rw [value_eq_scaled h, truncateAt_div _ le_rfl, Nat.sub_self, pow_zero]
  simp

/-! ### Invalid numbers

An operation looks at the validity of its first argument. If only the second one is invalid, the
first is returned. -/

theorem create_valid (sign : Bool) (x : SimpleUint128) (e : ℕ) :
    ∃ n, create sign x e = .ok n ∧ n.valid = true := by
  obtain ⟨n, hn, hvalid, -⟩ := create_cut sign x e
  exact ⟨n, hn, hvalid⟩

theorem add_valid (a b : SafeNumber) : ∃ c, add a b = .ok c ∧ c.valid = a.valid := by
  rw [add]
  cases ha : a.valid
  · exact ⟨a, rfl, ha⟩
  cases hb : b.valid
  · exact ⟨a, rfl, ha⟩
  simp only [Bool.not_true, Bool.or_false, Bool.false_eq_true, if_false]
  split_ifs
  · exact ⟨a, rfl, ha⟩
  · exact ⟨b, rfl, hb⟩
  all_goals exact create_valid ..

theorem neg_valid (a : SafeNumber) : ∃ c, neg a = .ok c ∧ c.valid = a.valid := by
  rw [neg]
  cases ha : a.valid
  · exact ⟨a, rfl, ha⟩
  simp only [Bool.not_true, Bool.false_eq_true, if_false]
  split_ifs
  · exact ⟨a, rfl, ha⟩
  · exact create_valid ..

theorem minus_valid (a b : SafeNumber) : ∃ c, minus a b = .ok c ∧ c.valid = a.valid := by
  obtain ⟨n, hn, -⟩ := neg_valid b
  rw [minus, hn, ok_bind]
  exact add_valid a n

theorem abs_valid (a : SafeNumber) : ∃ c, abs a = .ok c ∧ c.valid = a.valid := by
  rw [abs]
  split_ifs
  · exact ⟨a, rfl, rfl⟩
  · exact neg_valid a

theorem divmod_isOk {W : Type} [MachineWord W] (minus : Wide W → Wide W → Wide W) (a : Wide W)
    {b : Wide W} (h : Wide.isZero b = false) : ∃ s, Wide.divmod minus a b = .ok s := by
  rw [Wide.divmod, h]
  simp only [Bool.false_eq_true, if_false]
  split_ifs
  all_goals exact ⟨_, rfl⟩

theorem shrink_isOk (e : ℕ) (abx : SimpleUint256) : ∃ r, shrink e abx = .ok r := by
  induction e generalizing abx with
  | zero => exact ⟨_, rfl⟩
  | succ e ih =>
    rw [shrink]
    split_ifs
    · exact ⟨_, rfl⟩
    · obtain ⟨s, hs⟩ := divmod_isOk simpleUint256Minus abx (b := uint256Ten) rfl
      rw [simpleUint256Divmod, hs]
      exact ih _

theorem multiply_valid (a b : SafeNumber) : ∃ c, multiply a b = .ok c ∧ c.valid = a.valid := by
  rw [multiply]
  cases ha : a.valid
  · exact ⟨a, rfl, ha⟩
  cases hb : b.valid
  · exact ⟨a, rfl, ha⟩
  simp only [Bool.not_true, Bool.or_false, Bool.false_eq_true, if_false]
  split_ifs
  · exact ⟨zero, rfl, rfl⟩
  · obtain ⟨r, hr⟩ := shrink_isOk (a.e + b.e) (Wide.multi ⟨0, a.x⟩ ⟨0, b.x⟩)
    rw [hr]
    exact create_valid ..

theorem divLoop_isOk {bigB : SimpleUint256} (h : Wide.isZero bigB = false) (n : ℕ)
    (bigA : SimpleUint256) (rx : SimpleUint128) : ∃ r, divLoop bigB n bigA rx = .ok r := by
  obtain ⟨s, hs⟩ := divmod_isOk simpleUint256Minus bigA h
  induction n generalizing bigA rx s with
  | zero =>
    rw [divLoop, simpleUint256Divmod, hs]
    exact ⟨_, rfl⟩
  | succ n ih =>
    simp only [divLoop, simpleUint256Divmod, hs, bind, Except.bind]
    split_ifs
    · obtain ⟨t, ht⟩ := divmod_isOk simpleUint256Minus (Wide.multi s.modResult uint256Ten) h
      exact ih _ _ t ht
    · exact ⟨_, rfl⟩

/-- A quotient is invalid if the dividend is, or if a number other than zero is divided by zero. -/
theorem div_valid (a b : SafeNumber) : ∃ c, div a b = .ok c ∧
    (c.valid = false ↔ a.valid = false ∨ b.isZero = true ∧ a.isZero = false) := by
  rw [div]
  cases ha : a.valid
  · exact ⟨a, rfl, by simp [ha]⟩
  cases hb : b.valid
  · exact ⟨a, rfl, by simp [ha, isZero, hb]⟩
  simp only [Bool.not_true, Bool.or_false, Bool.false_eq_true, if_false]
  cases hza : a.isZero
  · cases hzb : b.isZero
    · have hbig : Wide.isZero (⟨0, b.x⟩ : SimpleUint256) = false := by
        rw [← Bool.not_eq_true, Wide.isZero_iff, toNat_uint128, ← isZero_eq hb, hzb]
        decide
      obtain ⟨r, hr⟩ := divLoop_isOk hbig 16 ⟨0, a.x⟩ 0
      simp only [Bool.false_eq_true, if_false, hr, bind, Except.bind]
      split_ifs
      all_goals
        obtain ⟨c, hc, hvalid⟩ := create_valid (decide (a.sign = b.sign)) _ _
        exact ⟨c, hc, by simp [hvalid]⟩
    · exact ⟨nan, rfl, by simp [nan]⟩
  · exact ⟨zero, rfl, by simp [zero]⟩

theorem idiv_valid (h : a.valid = true → a.e ≤ 16) (b : SafeNumber) :
    ∃ c, idiv a b = .ok c ∧ c.valid = true := by
  obtain ⟨d, hd, -⟩ := div_valid a b
  have he : d.valid = true → d.e ≤ 16 := div_closed (P := fun n => n.valid = true → n.e ≤ 16)
    (fun hn _ => (canonical_create hn).e) (by decide) (by decide) h hd
  obtain ⟨v, hv⟩ : ∃ v, toInt64 d = .ok v := by
    cases hvalid : d.valid
    · exact ⟨0, by rw [toInt64, hvalid]; rfl⟩
    · obtain ⟨v, hv, -⟩ := toInt64_signed hvalid (he hvalid)
      exact ⟨v, hv⟩
  rw [idiv, hd, ok_bind, hv, ok_bind]
  split_ifs
  all_goals exact create_valid ..

theorem mod_valid (h : a.valid = true → a.e ≤ 16) (b : SafeNumber) :
    ∃ c, mod a b = .ok c ∧ c.valid = a.valid := by
  obtain ⟨q, hq, -⟩ := idiv_valid h b
  obtain ⟨p, hp, -⟩ := multiply_valid b q
  rw [mod, hq, ok_bind, hp, ok_bind]
  exact minus_valid a p

/-- The operations with two arguments. -/
inductive BinaryOp
  | add
  | minus
  | multiply
  | div
  | idiv
  | mod
  deriving DecidableEq

def BinaryOp.apply : BinaryOp → SafeNumber → SafeNumber → Except String SafeNumber
  | add => SafeNumber.add
  | minus => SafeNumber.minus
  | multiply => SafeNumber.multiply
  | div => SafeNumber.div
  | idiv => SafeNumber.idiv
  | mod => SafeNumber.mod

/-- One operation on a number, with another one on its right or on its left. -/
inductive Step
  | left (op : BinaryOp) (b : SafeNumber)
  | right (op : BinaryOp) (a : SafeNumber)
  | neg
  | abs

def Step.apply : Step → SafeNumber → Except String SafeNumber
  | left op b, n => op.apply n b
  | right op a, n => op.apply a n
  | neg, n => SafeNumber.neg n
  | abs, n => SafeNumber.abs n

/-- The steps that keep a number invalid, whatever the other argument is. -/
def Step.Keeps : Step → Prop
  | left op _ => op ≠ .idiv
  | right _ _ => False
  | _ => True

theorem BinaryOp.apply_valid (op : BinaryOp) (h : a.valid = true → a.e ≤ 16) (b : SafeNumber) :
    ∃ c, op.apply a b = .ok c ∧ (c.valid = false ↔ op ≠ .idiv ∧
      (a.valid = false ∨ op = .div ∧ b.isZero = true ∧ a.isZero = false)) := by
  cases op with
  | add => simpa [BinaryOp.apply] using add_valid a b
  | minus => simpa [BinaryOp.apply] using minus_valid a b
  | multiply => simpa [BinaryOp.apply] using multiply_valid a b
  | div => simpa [BinaryOp.apply] using div_valid a b
  | idiv => simpa [BinaryOp.apply] using idiv_valid h b
  | mod => simpa [BinaryOp.apply] using mod_valid h b

theorem Step.apply_valid {s : Step} (hs : s.Keeps) (h : n.valid = false) :
    ∃ m, s.apply n = .ok m ∧ m.valid = false := by
  cases s with
  | left op b =>
    obtain ⟨c, hc, hvalid⟩ := op.apply_valid (fun hv => absurd (h.symm.trans hv) (by decide)) b
    exact ⟨c, hc, hvalid.mpr ⟨hs, .inl h⟩⟩
  | right => exact absurd hs id
  | neg => simpa [Step.apply, h] using neg_valid n
  | abs => simpa [Step.apply, h] using abs_valid n

/-- **An invalid number stays invalid** if it is the first argument, except of `idiv`. The results
that are invalid are listed for each operation; `neg` and `abs` keep the validity. -/
theorem invalid_iff (op : BinaryOp) (a b : SafeNumber) (steps : List Step) :
    ((a.valid = true → a.e ≤ 16) →
      ∃ c, op.apply a b = .ok c ∧ (c.valid = false ↔ op ≠ .idiv ∧
        (a.valid = false ∨ op = .div ∧ b.isZero = true ∧ a.isZero = false))) ∧
    (∃ c, neg a = .ok c ∧ c.valid = a.valid) ∧ (∃ c, abs a = .ok c ∧ c.valid = a.valid) ∧
    (a.valid = false → (∀ s ∈ steps, s.Keeps) →
      ∃ m, steps.foldlM (fun n s => s.apply n) a = .ok m ∧ m.valid = false) := by
  refine ⟨fun h => op.apply_valid h b, neg_valid a, abs_valid a, fun ha hkeeps => ?_⟩
  induction steps generalizing a with
  | nil => exact ⟨a, rfl, ha⟩
  | cons s steps ih =>
    rw [List.forall_mem_cons] at hkeeps
    obtain ⟨m, hm, hvalid⟩ := Step.apply_valid hkeeps.1 ha
    rw [List.foldlM_cons, hm, ok_bind]
    exact ih m hvalid hkeeps.2

/-- **One plus an invalid number is one**, an invalid number divided by one is zero as an integer,
and one divided by zero is zero as an integer, with the remainder one. -/
theorem invalid_lost : ∃ one z, createInt 1 = .ok one ∧ createInt 0 = .ok z ∧
    nan.valid = false ∧ add one nan = .ok one ∧ minus one nan = .ok one ∧
    multiply one nan = .ok one ∧ div one nan = .ok one ∧ idiv nan one = .ok z ∧
    div z z = .ok z ∧ idiv one z = .ok z ∧ mod one z = .ok one ∧ one.valid = true ∧
    z.valid = true :=
  ⟨⟨true, true, ⟨0, 1⟩, 0⟩, zero, by decide +kernel⟩

/-! ### Products -/

theorem multiply_value (ha : a.valid = true) (hb : b.valid = true)
    (hlt : a.x.toNat * b.x.toNat < 2 ^ 128) :
    ∃ c, multiply a b = .ok c ∧ c.valid = true ∧ c.e ≤ min 16 (a.e + b.e) ∧
      c.value = truncateAt (kept (a.x.toNat * b.x.toNat) (a.e + b.e)) (a.value * b.value) := by
  by_cases hzero : a.isZero = true ∨ b.isZero = true
  · refine ⟨zero, multiply_zero ha hb hzero, rfl, Nat.zero_le _, ?_⟩
    have hproduct : a.value * b.value = 0 := by
      rw [isZero_eq ha, isZero_eq hb, ← value_eq_zero_iff, ← value_eq_zero_iff] at hzero
      exact mul_eq_zero.mpr hzero
    rw [hproduct, truncateAt, zero_mul, value_eq_zero_iff.mpr isInt_zero.x]
    simp [truncate]
  · simp only [not_or, Bool.not_eq_true] at hzero
    obtain ⟨p, hp, hproduct⟩ := multiply_eq_create ha hb hzero.1 hzero.2 hlt
    obtain ⟨c, hc, hvalid, he, hvalue⟩ := create_value (decide (a.sign = b.sign)) p (a.e + b.e)
    refine ⟨c, hp.trans hc, hvalid, he.trans (kept_le _ _), ?_⟩
    rw [hvalue, hproduct, value_eq_signed a, value_eq_signed b]
    congr 1
    rw [pow_add]
    cases a.sign <;> cases b.sign <;> simp [signed] <;> field_simp

/-- **Products** whose magnitudes fit into 128 bits are cut at the largest number of decimals, up to
16, for which the magnitude is not above `largest_x`, or at none. -/
theorem multiply_truncates (ha : a.valid = true) (hb : b.valid = true)
    (hlt : a.x.toNat * b.x.toNat < 2 ^ 128) :
    ∃ c d, multiply a b = .ok c ∧ c.valid = true ∧
      d = Nat.findGreatest (fun d => a.x.toNat * b.x.toNat / 10 ^ (a.e + b.e - d) ≤ largestX.toNat)
        (min 16 (a.e + b.e)) ∧
      c.value = truncateAt d (a.value * b.value) := by
  obtain ⟨c, hc, hvalid, -, hvalue⟩ := multiply_value ha hb hlt
  refine ⟨c, _, hc, hvalid, rfl, ?_⟩
  rw [hvalue, kept, toNat_largestX]

theorem multiply_truncates_tiny : ∃ a b c, createString (text "0.000000001") = .ok a ∧
    createString (text "1.000000007") = .ok b ∧ multiply a b = .ok c ∧
    c.value = truncateAt 16 (a.value * b.value) := by
  have ha : createString (text "0.000000001") = .ok ⟨true, true, ⟨0, 1⟩, 9⟩ := by decide +kernel
  have hb : createString (text "1.000000007") = .ok ⟨true, true, ⟨0, 1000000007⟩, 9⟩ := by
    decide +kernel
  obtain ⟨c, d, hc, -, hd, hvalue⟩ := multiply_truncates (a := ⟨true, true, ⟨0, 1⟩, 9⟩)
    (b := ⟨true, true, ⟨0, 1000000007⟩, 9⟩) rfl rfl (by decide +kernel)
  obtain rfl : d = 16 := hd.trans (by decide +kernel)
  exact ⟨_, _, c, ha, hb, hc, hvalue⟩

/-! ### Sums -/

theorem exactSum_eq (a b : SafeNumber) :
    a.value + b.value = exactSum a b / 10 ^ max a.e b.e := by
  rw [value_eq_scaled (le_max_left a.e b.e), value_eq_scaled (le_max_right a.e b.e), exactSum]
  push_cast
  ring

/-- **A sum** is cut only, exactly if the words do not overflow. -/
theorem add_value (ha : a.valid = true) (hb : b.valid = true) (hza : a.isZero = false)
    (hzb : b.isZero = false) (hae : a.e ≤ 16) (hbe : b.e ≤ 16) :
    ∃ c, add a b = .ok c ∧ c.valid = true ∧
      (AddFits a b → ∃ d ≤ max a.e b.e, c.value = truncateAt d (a.value + b.value)) ∧
      (¬ AddFits a b → ∀ d, c.value ≠ truncateAt d (a.value + b.value)) := by
  obtain ⟨sign, x, hadd, hsum⟩ := add_eq_create ha hb hza hzb hae hbe
  obtain ⟨c, hc, hvalid, -, hvalue⟩ := create_value sign x (max a.e b.e)
  have hkept := kept_le x.toNat (max a.e b.e)
  rw [hsum] at hvalue
  refine ⟨c, hadd.trans hc, hvalid, fun h => ⟨kept x.toNat (max a.e b.e), by omega, ?_⟩,
    fun h d heq => ?_⟩
  · rw [hvalue, wrappedSum_eq h, exactSum_eq]
  · -- both are less than one away from fractions that are far from each other
    have hfar : (2 : ℚ) ^ 128 ≤ |(wrappedSum a b : ℚ) - exactSum a b| := by
      exact_mod_cast Int.natCast_natAbs _ ▸ Int.ofNat_le.mpr (wrappedSum_far h)
    have hpow : (10 : ℚ) ^ max a.e b.e ≤ 10 ^ 16 := pow_le_pow_right₀ (by norm_num) (by omega)
    have hpos : (0 : ℚ) < 10 ^ max a.e b.e := by positivity
    have h₁ := abs_truncateAt_sub_lt (kept x.toNat (max a.e b.e))
      (wrappedSum a b / 10 ^ max a.e b.e : ℚ)
    have h₂ := abs_truncateAt_sub_lt d (exactSum a b / 10 ^ max a.e b.e : ℚ)
    rw [← hvalue, heq, exactSum_eq] at h₁
    have hnear : |(wrappedSum a b : ℚ) / 10 ^ max a.e b.e - exactSum a b / 10 ^ max a.e b.e| < 2 :=
      by rw [abs_lt] at h₁ h₂ ⊢; constructor <;> linarith
    rw [← sub_div, abs_div, abs_of_pos hpos, div_lt_iff₀ hpos] at hnear
    norm_num at hfar hpow
    linarith

theorem add_of_isZero_right (ha : a.valid = true) (hb : b.valid = true) (h : b.isZero = true) :
    add a b = .ok a := by
  rw [add, ha, hb, if_neg (by simp), if_pos h]

theorem add_of_isZero_left (ha : a.valid = true) (hb : b.valid = true) (h : a.isZero = true)
    (h' : b.isZero = false) : add a b = .ok b := by
  rw [add, ha, hb, if_neg (by simp), h', if_neg (by simp), if_pos h]

theorem add_comm_of_ne_zero (hza : a.isZero = false) (hzb : b.isZero = false)
    (ha : a.valid = true) (hb : b.valid = true) : add a b = add b a := by
  have hcomm : ∀ x y : SimpleUint128, Wide.add x y = Wide.add y x := fun x y =>
    Wide.toNat_inj (by rw [toNat_add_mod, toNat_add_mod, Nat.add_comm])
  rw [add, add, ha, hb, hza, hzb, Nat.max_comm b.e]
  simp only [Bool.not_true, Bool.or_false, Bool.false_eq_true, if_false]
  generalize Wide.multi a.x _ = x
  generalize Wide.multi b.x _ = y
  by_cases hsign : a.sign = b.sign
  · rw [hsign, if_neg (by simp), if_neg (by simp), hcomm]
  · rw [if_pos hsign, if_pos (Ne.symm hsign)]
    simp only [Wide.gt_iff]
    rcases Nat.lt_trichotomy x.toNat y.toNat with h | h | h
    · rw [if_neg (by omega), if_neg (fun heq => by simp [heq] at h), if_pos h]
    · obtain rfl := Wide.toNat_inj h
      simp
    · rw [if_pos h, if_neg (by omega), if_neg (fun heq => by simp [heq] at h)]

/-- **A sum is the exact one, cut**, exactly if one of the numbers is zero or the words do not
overflow. In any case the order of the numbers does not matter, up to the form of a zero. -/
theorem add_truncates_iff (ha : Made a) (hb : Made b) (hva : a.valid = true)
    (hvb : b.valid = true) :
    ∃ c, add a b = .ok c ∧ c.valid = true ∧
      ((∃ d ≤ 16, c.value = truncateAt d (a.value + b.value)) ↔
        a.isZero = true ∨ b.isZero = true ∨ AddFits a b) ∧
      (∃ c', add b a = .ok c' ∧ c'.value = c.value ∧
        (c' = c ∨ a.isZero = true ∧ b.isZero = true)) ∧
      ∃ m n s, minus a b = .ok m ∧ neg b = .ok n ∧ add a n = .ok s ∧ m.value = s.value := by
  obtain ⟨c, hc, hvalid⟩ := add_valid a b
  obtain ⟨n, hn, -⟩ := neg_valid b
  obtain ⟨m, hm, -⟩ := add_valid a n
  refine ⟨c, hc, hvalid.trans hva, ?_, ?_, m, n, m, by rw [minus, hn, ok_bind, hm], hn, hm, rfl⟩
  · by_cases hzb : b.isZero = true
    · obtain rfl := Except.ok.inj (hc.symm.trans (add_of_isZero_right hva hvb hzb))
      refine iff_of_true ⟨c.e, ha.canonical.e, ?_⟩ (.inr (.inl hzb))
      rw [value_eq_zero_iff.mpr ((isZero_eq hvb).mp hzb), add_zero, truncateAt_value le_rfl]
    by_cases hza : a.isZero = true
    · obtain rfl := Except.ok.inj (hc.symm.trans
        (add_of_isZero_left hva hvb hza (by simpa using hzb)))
      refine iff_of_true ⟨c.e, hb.canonical.e, ?_⟩ (.inl hza)
      rw [value_eq_zero_iff.mpr ((isZero_eq hva).mp hza), zero_add, truncateAt_value le_rfl]
    obtain ⟨c', hc', -, hfits, hfar⟩ := add_value hva hvb (by simpa using hza) (by simpa using hzb)
      ha.canonical.e hb.canonical.e
    obtain rfl := Except.ok.inj (hc.symm.trans hc')
    simp only [hza, hzb, false_or, Bool.false_eq_true]
    constructor
    · rintro ⟨d, -, hd⟩
      exact not_not.mp fun h => hfar h d hd
    · intro h
      obtain ⟨d, hd, hvalue⟩ := hfits h
      have := ha.canonical.e
      have := hb.canonical.e
      exact ⟨d, by omega, hvalue⟩
  · cases hza : a.isZero <;> cases hzb : b.isZero
    · exact ⟨c, (add_comm_of_ne_zero hza hzb hva hvb).symm.trans hc, rfl, .inl rfl⟩
    · obtain rfl := Except.ok.inj (hc.symm.trans (add_of_isZero_right hva hvb hzb))
      exact ⟨c, add_of_isZero_left hvb hva hzb hza, rfl, .inl rfl⟩
    · obtain rfl := Except.ok.inj (hc.symm.trans (add_of_isZero_left hva hvb hza hzb))
      exact ⟨c, add_of_isZero_right hvb hva hza, rfl, .inl rfl⟩
    · obtain rfl := Except.ok.inj (hc.symm.trans (add_of_isZero_right hva hvb hzb))
      refine ⟨b, add_of_isZero_right hvb hva hza, ?_, .inr ⟨rfl, rfl⟩⟩
      rw [value_eq_zero_iff.mpr ((isZero_eq hva).mp hza),
        value_eq_zero_iff.mpr ((isZero_eq hvb).mp hzb)]

theorem add_truncates_iff_half : ∃ a b c, createString (text "-0.5") = .ok a ∧
    createInt 3 = .ok b ∧ add a b = .ok c ∧ AddFits a b ∧
    ∃ d ≤ 16, c.value = truncateAt d (a.value + b.value) := by
  have ha : createString (text "-0.5") = .ok ⟨true, false, ⟨0, 5⟩, 1⟩ := by decide +kernel
  have hb : createInt 3 = .ok ⟨true, true, ⟨0, 3⟩, 0⟩ := by decide +kernel
  obtain ⟨c, hc, -, hiff, -⟩ := add_truncates_iff (.createString ha) (.createInt hb) rfl rfl
  have hfits : AddFits ⟨true, false, ⟨0, 5⟩, 1⟩ ⟨true, true, ⟨0, 3⟩, 0⟩ := by
    unfold AddFits
    decide +kernel
  exact ⟨_, _, c, ha, hb, hc, hfits, hiff.mpr (.inr (.inr hfits))⟩

/-- **The sum of `2 ^ 127` and a tenth is a tenth**: ten times `2 ^ 127` is zero in 128 bits. -/
theorem add_overflow : ∃ a b, createString (text "170141183460469231731687303715884105728") = .ok a ∧
    createString (text "0.1") = .ok b ∧ add a b = .ok b ∧
    ∀ d ≤ 16, b.value ≠ truncateAt d (a.value + b.value) := by
  have ha : createString (text "170141183460469231731687303715884105728") =
      .ok ⟨true, true, ⟨9223372036854775808, 0⟩, 0⟩ := by decide +kernel
  have hb : createString (text "0.1") = .ok ⟨true, true, ⟨0, 1⟩, 1⟩ := by decide +kernel
  have hadd : add ⟨true, true, ⟨9223372036854775808, 0⟩, 0⟩ ⟨true, true, ⟨0, 1⟩, 1⟩ =
      .ok ⟨true, true, ⟨0, 1⟩, 1⟩ := by decide +kernel
  refine ⟨_, _, ha, hb, hadd, fun d _ => ?_⟩
  obtain ⟨c, hc, -, -, hfar⟩ := add_value (a := ⟨true, true, ⟨9223372036854775808, 0⟩, 0⟩)
    (b := ⟨true, true, ⟨0, 1⟩, 1⟩) rfl rfl rfl rfl (by decide) (by decide)
  obtain rfl := Except.ok.inj (hadd.symm.trans hc)
  refine hfar ?_ d
  unfold AddFits
  decide +kernel

/-! ### Comparison -/

/-- The numbers that are compared: they need not be written shortest. -/
structure Comparable (a : SafeNumber) : Prop where
  valid : a.valid = true
  e : a.e ≤ 16
  zero : a.x.toNat = 0 → a.sign = true

theorem gt_value (ha : Comparable a) (hb : Comparable b) :
    gt a b = .ok (decide (b.value < a.value)) := by
  rw [gt_eq ha.valid hb.valid ha.e hb.e hb.zero, Except.ok.injEq, decide_eq_decide,
    value_eq_scaled (le_max_left a.e b.e), value_eq_scaled (le_max_right a.e b.e),
    div_lt_div_iff_of_pos_right (by positivity), Int.cast_lt]

theorem gt_eq_true_iff (ha : Comparable a) (hb : Comparable b) :
    gt a b = .ok true ↔ b.value < a.value := by
  rw [gt_value ha hb, Except.ok.injEq, decide_eq_true_eq]

/-- **The order of numbers is that of their values.** It is a strict weak order, and the numbers
that it does not tell apart are those of equal value. -/
theorem gt_order :
    (∀ a b, Comparable a → Comparable b → gt a b = .ok (decide (b.value < a.value))) ∧
    IsStrictWeakOrder {a // Comparable a} (fun a b => gt a.1 b.1 = .ok true) ∧
    ∀ a b, Comparable a → Comparable b →
      (gt a b ≠ .ok true ∧ gt b a ≠ .ok true ↔ a.value = b.value) := by
  refine ⟨fun a b => gt_value, ?_, fun a b ha hb => ?_⟩
  · have hgt : ∀ a b : {a // Comparable a}, gt a.1 b.1 = .ok true ↔ b.1.value < a.1.value :=
      fun a b => gt_eq_true_iff a.2 b.2
    refine { irrefl := fun a h => ?_, trans := fun a b c h h' => ?_,
             incomp_trans := fun a b c h h' => ?_ }
    · exact lt_irrefl _ ((hgt a a).mp h)
    · rw [hgt] at h h' ⊢
      exact h'.trans h
    · simp only [hgt, not_lt] at h h' ⊢
      exact ⟨h.1.trans h'.1, h'.2.trans h.2⟩
  · rw [ne_eq, ne_eq, gt_eq_true_iff ha hb, gt_eq_true_iff hb ha, not_lt, not_lt]
    exact ⟨fun h => le_antisymm h.1 h.2, fun h => ⟨h.le, h.ge⟩⟩

end SafeNumber

end Whitecoin.Native
