import Mathlib.Algebra.Order.Field.Rat
import Mathlib.Tactic.Linarith
import Whitecoin.Native.SafeNumberExact

/-!
# Equality of safe numbers

`safe_number_eq` compares signs, magnitudes and numbers of decimals. Every operation ends in
`compress_number`, which strips the zeros at the end of the decimals, so that the numbers other than
zero are written shortest and compare equal exactly when their values are. Zero is left with the
sign and the decimals that it comes with.
-/

namespace Whitecoin.Native

namespace SafeNumber

open Check Cbor

/-- The rational number that a safe number stands for. -/
def value (a : SafeNumber) : ℚ := (if a.sign then 1 else -1) * a.x.toNat / 10 ^ a.e

/-- The numbers that the constructors and the operations make of each other. -/
inductive Made : SafeNumber → Prop
  | zero : Made zero
  | create {sign : Bool} {x : SimpleUint128} {e : ℕ} {n : SafeNumber}
    (h : create sign x e = .ok n) : Made n
  | createInt {value : Int64} {n : SafeNumber} (h : createInt value = .ok n) : Made n
  | createString {str : Text} {n : SafeNumber} (h : createString str = .ok n) : Made n
  | add {a b n : SafeNumber} (ha : Made a) (hb : Made b) (h : add a b = .ok n) : Made n
  | minus {a b n : SafeNumber} (ha : Made a) (hb : Made b) (h : minus a b = .ok n) : Made n
  | multiply {a b n : SafeNumber} (ha : Made a) (hb : Made b) (h : multiply a b = .ok n) : Made n
  | div {a b n : SafeNumber} (ha : Made a) (hb : Made b) (h : div a b = .ok n) : Made n
  | neg {a n : SafeNumber} (ha : Made a) (h : neg a = .ok n) : Made n
  | abs {a n : SafeNumber} (ha : Made a) (h : abs a = .ok n) : Made n

/-! ### Numbers other than zero are written shortest -/

/-- The decimals do not end in a zero, unless the number is zero. -/
def IsShortest (a : SafeNumber) : Prop := a.x.toNat = 0 ∨ Radix.Shortest 10 a.x.toNat a.e

/-- The form in which results are left. -/
structure Canonical (a : SafeNumber) : Prop where
  shortest : a.IsShortest
  e : a.e ≤ 16
  x : a.e = 0 ∨ a.x.toNat ≤ 10 ^ 32

variable {a b n : SafeNumber}

theorem canonical_create {sign : Bool} {x : SimpleUint128} {e : ℕ}
    (h : create sign x e = .ok n) : n.Canonical := by
  obtain ⟨n', hn, -, hle, hx, -, hshort⟩ := create_cut sign x e
  obtain rfl := Except.ok.inj (h.symm.trans hn)
  have hkept := kept_le x.toNat e
  refine ⟨hshort, by omega, or_iff_not_imp_left.mpr fun hne => ?_⟩
  exact ((Nat.le_mul_of_pos_right _ (Nat.pow_pos (by decide))).trans_eq hx).trans
    (Nat.findGreatest_of_ne_zero (P := fun d => x.toNat / 10 ^ (e - d) ≤ 10 ^ 32) rfl (by omega))

theorem canonical_zero : zero.Canonical := ⟨.inl (toNat_uint64 0), by decide, .inl rfl⟩

theorem canonical_nan : nan.Canonical := ⟨.inl (toNat_uint64 0), by decide, .inl rfl⟩

/-! Every operation returns one of its arguments, a constant, or a number from `create`. -/

section closed

variable {P : SafeNumber → Prop}
  (hcreate : ∀ {sign x e n}, SafeNumber.create sign x e = .ok n → P n)
include hcreate

theorem add_closed (ha : P a) (hb : P b) (h : SafeNumber.add a b = .ok n) : P n := by
  rw [SafeNumber.add] at h
  split_ifs at h
  · exact Except.ok.inj h ▸ ha
  · exact Except.ok.inj h ▸ ha
  · exact Except.ok.inj h ▸ hb
  · simp only at h
    split_ifs at h
    all_goals exact hcreate h
  · exact hcreate h

theorem neg_closed (ha : P a) (h : SafeNumber.neg a = .ok n) : P n := by
  rw [SafeNumber.neg] at h
  split_ifs at h
  · exact Except.ok.inj h ▸ ha
  · exact Except.ok.inj h ▸ ha
  · exact hcreate h

theorem multiply_closed (hzero : P zero) (ha : P a) (h : SafeNumber.multiply a b = .ok n) :
    P n := by
  rw [SafeNumber.multiply] at h
  split_ifs at h
  · exact Except.ok.inj h ▸ ha
  · exact Except.ok.inj h ▸ hzero
  · simp only [bind_eq_ok, Prod.exists] at h
    obtain ⟨_, _, -, h⟩ := h
    exact hcreate h

theorem div_closed (hzero : P zero) (hnan : P nan) (ha : P a) (h : SafeNumber.div a b = .ok n) :
    P n := by
  rw [SafeNumber.div] at h
  split_ifs at h
  · exact Except.ok.inj h ▸ ha
  · exact Except.ok.inj h ▸ hzero
  · exact Except.ok.inj h ▸ hnan
  · simp only [bind_eq_ok, Prod.exists] at h
    obtain ⟨_, _, -, h⟩ := h
    split_ifs at h
    · exact hcreate h
    · exact hcreate h

theorem createString_closed {str : Text} (hnan : P nan) (h : createString str = .ok n) : P n := by
  rw [SafeNumber.createString] at h
  split_ifs at h
  · exact Except.ok.inj h ▸ hnan
  all_goals
    simp only at h
    split at h
    · exact Except.ok.inj h ▸ hnan
    · exact hcreate h

/-- What holds of the constants and of the results of `create` holds of all numbers. -/
theorem Made.closed (hzero : P SafeNumber.zero) (hnan : P nan) (h : Made a) : P a := by
  induction h with
  | zero => exact hzero
  | create h => exact hcreate h
  | createInt h => exact hcreate h
  | createString h => exact createString_closed hcreate hnan h
  | add _ _ h iha ihb => exact add_closed hcreate iha ihb h
  | minus _ _ h iha ihb =>
    obtain ⟨c, hc, h⟩ := bind_eq_ok.mp h
    exact add_closed hcreate iha (neg_closed hcreate ihb hc) h
  | multiply _ _ h iha _ => exact multiply_closed hcreate hzero iha h
  | div _ _ h iha _ => exact div_closed hcreate hzero hnan iha h
  | neg _ h iha => exact neg_closed hcreate iha h
  | abs _ h iha =>
    rw [SafeNumber.abs] at h
    split_ifs at h
    · exact Except.ok.inj h ▸ iha
    · exact neg_closed hcreate iha h

end closed

/-- **The numbers that are made** are canonical: with at most 16 decimals, of 32 digits if there are
decimals, and written shortest, unless they are zero. -/
theorem Made.canonical (h : Made a) : a.Canonical :=
  h.closed canonical_create canonical_zero canonical_nan

/-! ### Comparison -/

theorem eq_iff (ha : a.valid = true) (hb : b.valid = true) :
    eq a b = true ↔ a.sign = b.sign ∧ a.x = b.x ∧ a.e = b.e := by
  simp [eq, ha, hb, and_assoc]

theorem value_eq_zero_iff : a.value = 0 ↔ a.x.toNat = 0 := by
  have hsign : (if a.sign then (1 : ℚ) else -1) ≠ 0 := by split_ifs <;> norm_num
  rw [value, div_eq_zero_iff, mul_eq_zero, Nat.cast_eq_zero]
  simp [hsign]

/-- The value without its sign. -/
def magnitude (a : SafeNumber) : ℚ := a.x.toNat / 10 ^ a.e

theorem value_eq (a : SafeNumber) : a.value = (if a.sign then 1 else -1) * a.magnitude := by
  rw [value, magnitude, mul_div_assoc]

theorem magnitude_pos (h : a.x.toNat ≠ 0) : 0 < a.magnitude :=
  div_pos (Nat.cast_pos.mpr (Nat.pos_of_ne_zero h)) (pow_pos (by norm_num) _)

theorem magnitude_eq_iff : a.magnitude = b.magnitude ↔
    a.x.toNat * 10 ^ b.e = b.x.toNat * 10 ^ a.e := by
  have hpow : ∀ e : ℕ, (10 : ℚ) ^ e ≠ 0 := fun e => pow_ne_zero e (by norm_num)
  rw [magnitude, magnitude, div_eq_div_iff (hpow _) (hpow _)]
  exact_mod_cast Iff.rfl

theorem sign_eq_of_value_eq (ha : a.x.toNat ≠ 0) (hb : b.x.toNat ≠ 0) (h : a.value = b.value) :
    a.sign = b.sign ∧ a.magnitude = b.magnitude := by
  have hpa := magnitude_pos ha
  have hpb := magnitude_pos hb
  rw [value_eq, value_eq] at h
  cases hsa : a.sign <;> cases hsb : b.sign <;> simp only [hsa, hsb, if_true, if_false,
    Bool.false_eq_true] at h
  · exact ⟨rfl, by linarith⟩
  · exact absurd h (by linarith)
  · exact absurd h (by linarith)
  · exact ⟨rfl, by linarith⟩

/-- **Equal numbers compare equal** exactly if they are not zeros that are written differently. -/
theorem eq_correct_iff (ha : Made a) (hb : Made b) (hva : a.valid = true) (hvb : b.valid = true) :
    (eq a b = true ↔ a.value = b.value) ↔
      (a.isZero = true → b.isZero = true → a.sign = b.sign ∧ a.e = b.e) := by
  rw [eq_iff hva hvb, isZero_eq hva, isZero_eq hvb]
  constructor
  · intro hcorrect hza hzb
    have hvalue : a.value = b.value := by rw [value_eq_zero_iff.mpr hza, value_eq_zero_iff.mpr hzb]
    obtain ⟨hsign, -, he⟩ := hcorrect.mpr hvalue
    exact ⟨hsign, he⟩
  · intro hzeros
    refine ⟨fun ⟨hsign, hx, he⟩ => by rw [value, value, hsign, hx, he], fun hvalue => ?_⟩
    by_cases hza : a.x.toNat = 0
    · -- both are zero
      have hzb : b.x.toNat = 0 := by
        rw [← value_eq_zero_iff, ← hvalue, value_eq_zero_iff]
        exact hza
      obtain ⟨hsign, he⟩ := hzeros hza hzb
      exact ⟨hsign, Wide.toNat_inj (hza.trans hzb.symm), he⟩
    · -- none is zero, and both are written shortest
      have hzb : b.x.toNat ≠ 0 := by
        rw [ne_eq, ← value_eq_zero_iff, ← hvalue, value_eq_zero_iff]
        exact hza
      obtain ⟨hsign, hmagnitude⟩ := sign_eq_of_value_eq hza hzb hvalue
      obtain ⟨hx, he⟩ := (ha.canonical.shortest.resolve_left hza).unique (by decide)
        (hb.canonical.shortest.resolve_left hzb) (magnitude_eq_iff.mp hmagnitude)
      exact ⟨hsign, Wide.toNat_inj hx, he⟩

theorem eq_correct_iff_half : ∃ a b, Made a ∧ Made b ∧ createString (text "0.5") = .ok a ∧
    createString (text "-0.50") = .ok b ∧
    ∃ c, neg b = .ok c ∧ Made c ∧ (eq a c = true ↔ a.value = c.value) := by
  have ha : createString (text "0.5") = .ok ⟨true, true, ⟨0, 5⟩, 1⟩ := by decide +kernel
  have hb : createString (text "-0.50") = .ok ⟨true, false, ⟨0, 5⟩, 1⟩ := by decide +kernel
  have hc : neg ⟨true, false, ⟨0, 5⟩, 1⟩ = .ok ⟨true, true, ⟨0, 5⟩, 1⟩ := by decide +kernel
  have hmade := Made.neg (.createString hb) hc
  refine ⟨_, _, .createString ha, .createString hb, ha, hb, _, hc, hmade, ?_⟩
  exact (eq_correct_iff (.createString ha) hmade rfl rfl).mpr fun _ _ => ⟨rfl, rfl⟩

/-- **One and a half minus itself is not equal to zero**: it is a zero with one decimal. -/
theorem difference_ne_zero : ∃ a d z, createString (text "1.5") = .ok a ∧ minus a a = .ok d ∧
    createInt 0 = .ok z ∧ Made d ∧ Made z ∧ d.valid = true ∧ z.valid = true ∧ d.value = z.value ∧
    eq d z = false := by
  have ha : createString (text "1.5") = .ok ⟨true, true, ⟨0, 15⟩, 1⟩ := by decide +kernel
  have hd : minus ⟨true, true, ⟨0, 15⟩, 1⟩ ⟨true, true, ⟨0, 15⟩, 1⟩ =
      .ok ⟨true, true, ⟨0, 0⟩, 1⟩ := by decide +kernel
  have hz : createInt 0 = .ok ⟨true, true, ⟨0, 0⟩, 0⟩ := by decide +kernel
  have hmade := Made.createString ha
  have hzero : ∀ e, value ⟨true, true, ⟨0, 0⟩, e⟩ = 0 := fun e =>
    value_eq_zero_iff.mpr (toNat_uint64 0)
  exact ⟨_, _, _, ha, hd, hz, .minus hmade hmade hd, .createInt hz, rfl, rfl,
    (hzero 1).trans (hzero 0).symm, by decide⟩

end SafeNumber

end Whitecoin.Native
