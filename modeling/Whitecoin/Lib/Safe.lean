import Whitecoin.Lib.Check
import Mathlib.Algebra.Order.Ring.Int

/-!
# Checked 64-bit integers

`fc::safe<int64_t>` throws where the built-in operators would overflow. The tests it makes before
each operation are written with the bounds of the type, so that they cannot overflow themselves;
on operands of the type they say exactly that the result is one too.
-/

namespace Safe

open Check

/-- `std::numeric_limits<int64_t>::max()`. -/
def max : ℤ := 2 ^ 63 - 1

/-- `std::numeric_limits<int64_t>::min()`. -/
def min : ℤ := -2 ^ 63

/-- The values of the type. -/
def Fits (a : ℤ) : Prop := min ≤ a ∧ a ≤ max

instance (a : ℤ) : Decidable (Fits a) := inferInstanceAs (Decidable (_ ∧ _))

theorem fits_zero : Fits 0 := by decide

theorem fits_one : Fits 1 := by decide

theorem fits_ten : Fits 10 := by decide

def add (a b : ℤ) : Except String ℤ :=
  if 0 < b ∧ max - b < a then .error "overflow"
  else if b < 0 ∧ a < min - b then .error "underflow"
  else .ok (a + b)

def sub (a b : ℤ) : Except String ℤ :=
  if 0 < b ∧ a < min + b then .error "underflow"
  else if b < 0 ∧ max + b < a then .error "overflow"
  else .ok (a - b)

def mul (a b : ℤ) : Except String ℤ :=
  if 0 < a then
    if 0 < b then
      if max.tdiv b < a then .error "overflow" else .ok (a * b)
    else if b < min.tdiv a then .error "underflow" else .ok (a * b)
  else if 0 < b then
    if a < min.tdiv b then .error "underflow" else .ok (a * b)
  else if a ≠ 0 ∧ b < max.tdiv a then .error "overflow" else .ok (a * b)

def neg (a : ℤ) : Except String ℤ :=
  if a = min then .error "overflow" else .ok (-a)

variable {a b c : ℤ} {message : String}

theorem add_eq_ok (h : add a b = .ok c) : c = a + b := by
  unfold add at h
  split_ifs at h
  exact (Except.ok.inj h).symm

theorem add_of_le (hb : 0 ≤ b) (h : a + b ≤ max) : add a b = .ok (a + b) := by
  unfold add
  rw [if_neg (by omega), if_neg (by omega)]

theorem add_le_max (h : add a b = .ok c) (ha : a ≤ max) (hb : 0 ≤ b) : a + b ≤ max := by
  unfold add at h
  split_ifs at h
  omega

theorem sub_eq_ok (h : sub a b = .ok c) : c = a - b := by
  unfold sub at h
  split_ifs at h
  exact (Except.ok.inj h).symm

theorem mul_eq_ok (h : mul a b = .ok c) : c = a * b := by
  unfold mul at h
  split_ifs at h <;> exact (Except.ok.inj h).symm

theorem mul_of_nonneg (ha : 0 ≤ a) (hb : 0 < b) :
    mul a b = if a * b ≤ max then .ok (a * b) else .error "overflow" := by
  have hmax : max.tdiv b < a ↔ ¬ a * b ≤ max := by
    rw [Int.tdiv_eq_ediv_of_nonneg (by decide), Int.ediv_lt_iff_lt_mul hb, Int.not_le]
  have hmin : min.tdiv b ≤ 0 := by
    rw [← Int.neg_nonneg, ← Int.neg_tdiv]
    exact Int.tdiv_nonneg (by decide) hb.le
  unfold mul
  simp only [hmax, hb, if_true, ite_not]
  split_ifs with hpos hle hlt hle
  · rfl
  · rfl
  · exact absurd hlt (by omega)
  · exact absurd hlt (by omega)
  · rfl
  · obtain rfl : a = 0 := by omega
    exact absurd (show 0 * b ≤ max by rw [Int.zero_mul]; decide) ‹_›

theorem mul_neg_one (ha : 0 ≤ a) (h : a ≤ max) : mul a (-1) = .ok (-a) := by
  obtain rfl | hpos := Int.le_iff_eq_or_lt.mp ha
  · rfl
  · have hmin : min.tdiv a ≤ -1 := by
      have hone : 1 ≤ (-min).tdiv a := by
        rw [Int.tdiv_eq_ediv_of_nonneg (by decide)]
        exact (Int.le_ediv_iff_mul_le hpos).mpr (by unfold max at h; unfold min; omega)
      rw [Int.neg_tdiv] at hone
      omega
    rw [mul, if_pos hpos, if_neg (by decide), if_neg (by omega), Int.mul_neg, Int.mul_one]

theorem neg_eq_ok (h : neg a = .ok b) : b = -a := by
  unfold neg at h
  split_ifs at h
  exact (Except.ok.inj h).symm

theorem add_ne_error (hover : "overflow" ≠ message) (hunder : "underflow" ≠ message) :
    add a b ≠ .error message := by
  intro h
  unfold add at h
  split_ifs at h
  · exact hover (Except.error.inj h)
  · exact hunder (Except.error.inj h)

theorem sub_ne_error (hover : "overflow" ≠ message) (hunder : "underflow" ≠ message) :
    sub a b ≠ .error message := by
  intro h
  unfold sub at h
  split_ifs at h
  · exact hunder (Except.error.inj h)
  · exact hover (Except.error.inj h)

theorem neg_ne_error (hover : "overflow" ≠ message) : neg a ≠ .error message := by
  intro h
  unfold neg at h
  split_ifs at h
  exact hover (Except.error.inj h)

theorem sum_eq_ok {α : Type} {f : α → Except String ℤ} {l : List α}
    (h : l.foldlM (fun total x => do add total (← f x)) a = .ok b) :
    ∃ xs, l.mapM f = .ok xs ∧ b = a + xs.sum := by
  induction l generalizing a with
  | nil =>
    rw [List.foldlM_nil, pure_eq_ok] at h
    exact ⟨[], rfl, by simp [h]⟩
  | cons x l ih =>
    rw [List.foldlM_cons, bind_eq_ok] at h
    obtain ⟨c, hc, h⟩ := h
    obtain ⟨y, hy, hadd⟩ := bind_eq_ok.mp hc
    obtain ⟨ys, hys, rfl⟩ := ih h
    refine ⟨y :: ys, ?_, ?_⟩
    · rw [List.mapM_cons, hy, hys]
      rfl
    · rw [add_eq_ok hadd, List.sum_cons, Int.add_assoc]

end Safe
