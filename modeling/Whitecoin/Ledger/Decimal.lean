import Mathlib.Data.List.Induction
import Mathlib.Tactic.Ring
import Whitecoin.Ledger.Amount

/-!
# Decimal texts

Numbers are printed and read in decimal notation. A text of digits has the value that its digits
stand for, and the text of a number is one of them, without a zero in front.
-/

namespace Whitecoin.Ledger

open Check

/-- `fc::to_string`. -/
def intText (n : ℤ) : List Char :=
  if n < 0 then '-' :: Nat.toDigits 10 n.natAbs else Nat.toDigits 10 n.natAbs

/-! ### Digits -/

section

variable {s t : List Char} {c : Char}

theorem digitsValue_eq (s : List Char) : digitsValue s = Nat.ofDigitChars 10 s 0 :=
  Nat.ofDigitChars_eq_foldl.symm

theorem digitsValue_append (s t : List Char) :
    digitsValue (s ++ t) = digitsValue s * 10 ^ t.length + digitsValue t := by
  rw [digitsValue_eq, Nat.ofDigitChars_append, Nat.ofDigitChars_eq_ofDigitChars_zero,
    Nat.mul_comm, ← digitsValue_eq, ← digitsValue_eq]

theorem digitsValue_replicate (n : ℕ) : digitsValue (List.replicate n '0') = 0 := by
  rw [digitsValue_eq, Nat.ofDigitChars_replicate_zero, Nat.mul_zero]

theorem isdigit_iff : isdigit c = true ↔ 48 ≤ c.toNat ∧ c.toNat ≤ 57 := by
  simp [isdigit, Char.le_def, UInt32.le_iff_toNat_le]

theorem digitsValue_lt (h : s.all isdigit = true) : digitsValue s < 10 ^ s.length := by
  induction s using List.reverseRecOn with
  | nil => exact Nat.one_pos
  | append_singleton s c ih =>
    rw [List.all_append, Bool.and_eq_true] at h
    have hs := ih h.1
    have hc : isdigit c = true := by simpa using h.2
    have hdigit := isdigit_iff.mp hc
    have hvalue : digitsValue [c] = c.toNat - 48 := by simp [digitsValue]
    rw [digitsValue_append, hvalue, List.length_append, List.length_singleton, pow_one, pow_succ]
    omega

/-- **Digits after a point**, cut or filled up with zeros to a number of places. -/
theorem digitsValue_rightpad (h : s.all isdigit = true) (p : ℕ) :
    digitsValue ((s.take p).rightpad p '0') = digitsValue s * 10 ^ p / 10 ^ s.length := by
  rw [List.rightpad, digitsValue_append, digitsValue_replicate, List.length_replicate,
    List.length_take, Nat.add_zero]
  by_cases hp : p ≤ s.length
  · -- the digits that are cut off stand for less than one unit
    have hcut : (s.drop p).all isdigit = true :=
      List.all_eq_true.mpr fun c hc => List.all_eq_true.mp h c (List.mem_of_mem_drop hc)
    have hlength : s.length = (s.drop p).length + p := by
      rw [List.length_drop]
      omega
    rw [Nat.min_eq_left hp, Nat.sub_self, pow_zero, Nat.mul_one, hlength, pow_add,
      Nat.mul_div_mul_right _ _ (pow_pos Nat.succ_pos' p)]
    nth_rewrite 2 [← List.take_append_drop p s]
    rw [digitsValue_append, Nat.mul_comm, Nat.mul_add_div (pow_pos Nat.succ_pos' _),
      Nat.div_eq_of_lt (digitsValue_lt hcut), Nat.add_zero]
  · have hfill : 10 ^ p = 10 ^ (p - s.length) * 10 ^ s.length := by
      rw [← pow_add]
      congr 1
      omega
    rw [Nat.min_eq_right (by omega), List.take_of_length_le (by omega), hfill, ← Nat.mul_assoc,
      Nat.mul_div_cancel _ (pow_pos Nat.succ_pos' _)]

end

/-! ### The digits of a number -/

section

variable {n : ℕ}

theorem digitsValue_toDigits (n : ℕ) : digitsValue (Nat.toDigits 10 n) = n := by
  rw [digitsValue_eq, Nat.ofDigitChars_ten_toDigits]

theorem all_isdigit_toDigits (n : ℕ) : (Nat.toDigits 10 n).all isdigit = true :=
  List.all_eq_true.mpr fun _ hc => Nat.isDigit_of_mem_toDigits (by decide) (by decide) hc

theorem toDigits_eq_cons (h : 0 < n) : ∃ x t, Nat.toDigits 10 n = x.digitChar :: t ∧
    0 < x ∧ x < 10 ∧ t.all isdigit = true ∧ n = x * 10 ^ t.length + digitsValue t := by
  induction n using Nat.strong_induction_on with
  | _ n ih =>
    by_cases hn : n < 10
    · exact ⟨n, [], Nat.toDigits_of_lt_base hn, h, hn, rfl, by simp [digitsValue]⟩
    · obtain ⟨x, t, htext, hx, hx', -, hvalue⟩ := ih (n / 10) (by omega) (by omega)
      have hdigits := all_isdigit_toDigits n
      have hcons : Nat.toDigits 10 n = x.digitChar :: (t ++ [(n % 10).digitChar]) := by
        rw [Nat.toDigits_of_base_le (by decide) (by omega), htext, List.cons_append]
      rw [hcons, List.all_cons, Bool.and_eq_true] at hdigits
      refine ⟨x, t ++ [(n % 10).digitChar], hcons, hx, hx', hdigits.2, ?_⟩
      have hlast : digitsValue [(n % 10).digitChar] = n % 10 := by
        rw [← Nat.toDigits_of_lt_base (Nat.mod_lt n (by decide)), digitsValue_toDigits]
      rw [digitsValue_append, hlast, List.length_append, List.length_singleton, pow_one, pow_succ,
        ← Nat.mul_assoc]
      omega

end

/-! ### Reading -/

theorem stoll_digits {s : List Char} (rest : List Char) (hne : s ≠ []) (hs : s.all isdigit = true)
    (hrest : rest.all (fun c => !isdigit c) = true) :
    stoll (s ++ rest) =
      if (digitsValue s : ℤ) ≤ Safe.max then .ok (digitsValue s : ℤ)
      else .error "stoll: out of range" := by
  obtain ⟨c, t, rfl⟩ := List.exists_cons_of_ne_nil hne
  have hc : isdigit c = true := List.all_eq_true.mp hs c List.mem_cons_self
  have hminus : c ≠ '-' := by
    rintro rfl
    exact absurd hc (by decide)
  have hdigits : (c :: t ++ rest).takeWhile isdigit = c :: t := by
    rw [List.takeWhile_append_of_pos (List.all_eq_true.mp hs)]
    cases rest with
    | nil => rw [List.takeWhile_nil, List.append_nil]
    | cons d rest =>
      rw [List.all_cons, Bool.and_eq_true, Bool.not_eq_true'] at hrest
      rw [List.takeWhile_cons_of_neg (by simp [hrest.1]), List.append_nil]
  simp only [stoll, List.cons_append, List.head?_cons, Option.some.injEq, hminus, if_false]
  rw [← List.cons_append, hdigits, (require_eq_ok (u := ())).mpr (List.cons_ne_nil c t), ok_bind,
    require]
  have hmin : Safe.min ≤ (digitsValue (c :: t) : ℤ) := by
    rw [Safe.min]
    omega
  split_ifs with hfits hvalue hvalue
  · rfl
  · exact absurd hfits.2 hvalue
  · exact absurd ⟨hmin, hvalue⟩ hfits
  · rfl

end Whitecoin.Ledger
