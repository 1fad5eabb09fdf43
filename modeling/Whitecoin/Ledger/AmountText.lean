import Mathlib.Algebra.Order.Floor.Ring
import Mathlib.Data.Nat.GCD.Basic
import Mathlib.Data.Rat.Floor
import Whitecoin.Ledger.Decimal

/-!
# Amounts as texts

`asset_object::amount_from_string` reads an amount of an asset from a decimal text and
`amount_to_string` prints one.

The reader looks at every character for itself: a digit, and once a minus and once a point. Where
they stand is not looked at, and neither is whether there is a digit. The number is then put
together from substrings, whose ends are computed as if a minus were at the front. So a minus at
another place or no digit at all is not refused, while every text that is a number is read as it
should be.

The printer takes the digits after the point from the scale plus the remainder, whose first digit is
one. The remainder of a negative amount is negative, and the first digit that is dropped is then one
of its own.
-/

namespace Whitecoin.Ledger

open Check

/-! ### The printer -/

/-- `asset_object::amount_to_string`. -/
def amountToString (precision : ℕ) (amount : ℤ) : Except String (List Char) := do
  let scaled ← (List.range precision).foldlM (fun scaled _ => Safe.mul scaled 10) 1
  let result := intText (amount.tdiv scaled)
  let decimals := amount.tmod scaled
  if decimals ≠ 0 then return result ++ '.' :: (intText (scaled + decimals)).tail
  else return result

/-! ### Numbers -/

/-- The texts that are numbers. -/
structure Numeral where
  negative : Bool
  whole : List Char
  fraction : Option (List Char)
  whole_digits : whole.all isdigit = true
  fraction_digits : (fraction.getD []).all isdigit = true
  ne_nil : whole ++ fraction.getD [] ≠ []

namespace Numeral

/-- The point and what follows it. -/
def pointed : Option (List Char) → List Char
  | none => []
  | some fraction => '.' :: fraction

def text (n : Numeral) : List Char :=
  (if n.negative then ['-'] else []) ++ (n.whole ++ pointed n.fraction)

def sign (n : Numeral) : ℤ := if n.negative then -1 else 1

/-- The number without its sign. -/
def value (n : Numeral) : ℚ :=
  digitsValue n.whole + digitsValue (n.fraction.getD []) / 10 ^ (n.fraction.getD []).length

/-- The whole units of a number. -/
def units (n : Numeral) (precision : ℕ) : ℕ :=
  digitsValue n.whole * 10 ^ precision +
    digitsValue (n.fraction.getD []) * 10 ^ precision / 10 ^ (n.fraction.getD []).length

theorem floor_value (n : Numeral) (precision : ℕ) :
    ⌊n.value * 10 ^ precision⌋ = n.units precision := by
  have hsplit : n.value * 10 ^ precision = (digitsValue n.whole * 10 ^ precision : ℕ) +
      ((digitsValue (n.fraction.getD []) * 10 ^ precision : ℕ) : ℚ) /
        ((10 ^ (n.fraction.getD []).length : ℕ) : ℚ) := by
    push_cast
    rw [value]
    ring
  rw [hsplit, Int.floor_natCast_add, Rat.floor_natCast_div_natCast, units]
  push_cast
  rfl

end Numeral

/-! ### Reading -/

section

variable {precision : ℕ} {maxSupply : ℤ} {s t : List Char} {negative decimal : Bool}
  {flags : Bool × Bool}

theorem pow_ten_le (h : precision ≤ 18) : 10 ^ precision ≤ 10 ^ 18 :=
  Nat.pow_le_pow_right (by decide) h

theorem scan_digits (h : s.all isdigit = true) : scan (s ++ t) negative decimal =
    scan t negative decimal := by
  induction s with
  | nil => rfl
  | cons c s ih =>
    rw [List.all_cons, Bool.and_eq_true] at h
    rw [List.cons_append, scan, if_pos h.1, ih h.2]

theorem scan_all_digits (h : s.all isdigit = true) :
    scan s negative decimal = .ok (negative, decimal) := by
  have hscan : scan (s ++ []) negative decimal = scan [] negative decimal := scan_digits h
  rwa [List.append_nil] at hscan

theorem scan_text (n : Numeral) :
    scan n.text false false = .ok (n.negative, n.fraction.isSome) := by
  have hsign : scan n.text false false = scan (n.whole ++ Numeral.pointed n.fraction)
      n.negative false := by
    rw [Numeral.text]
    cases n.negative <;> rfl
  rw [hsign, scan_digits n.whole_digits]
  have hdigits := n.fraction_digits
  cases hfraction : n.fraction with
  | none => rfl
  | some fraction =>
    rw [hfraction] at hdigits
    exact scan_all_digits hdigits

theorem digits_of_scan_point (h : scan s negative true = .ok flags) (hs : '-' ∉ s) :
    s.all isdigit = true := by
  induction s with
  | nil => rfl
  | cons c s ih =>
    rw [List.mem_cons, not_or] at hs
    rw [scan] at h
    split_ifs at h with hdigit hminus hpoint
    · rw [List.all_cons, hdigit, ih h hs.2, Bool.true_and]
    · exact absurd hminus.1.symm hs.1
    · exact absurd hpoint.2 (by decide)

/-- A text without a minus that passes the scan consists of digits, and maybe a point. -/
theorem split_of_scan (h : scan s negative false = .ok flags) (hs : '-' ∉ s) :
    ∃ whole fraction, s = whole ++ Numeral.pointed fraction ∧
      whole.all isdigit = true ∧ (fraction.getD []).all isdigit = true := by
  induction s with
  | nil => exact ⟨[], none, rfl, rfl, rfl⟩
  | cons c s ih =>
    rw [List.mem_cons, not_or] at hs
    rw [scan] at h
    split_ifs at h with hdigit hminus hpoint
    · obtain ⟨whole, fraction, rfl, hwhole, hfraction⟩ := ih h hs.2
      exact ⟨c :: whole, fraction, rfl, by rw [List.all_cons, hdigit, hwhole, Bool.true_and],
        hfraction⟩
    · exact absurd hminus.1.symm hs.1
    · obtain rfl := hpoint.1
      exact ⟨[], some s, rfl, rfl, digits_of_scan_point h hs.2⟩

theorem wholeUnits_eq_ok {rest : List Char} {w : ℤ} (hs : s.all isdigit = true)
    (hrest : rest.all (fun c => !isdigit c) = true) (hne : s = [] → rest = []) :
    wholeUnits (10 ^ precision) (s ++ rest) = .ok w ↔
      ((digitsValue s * 10 ^ precision : ℕ) : ℤ) ≤ Safe.max ∧
        w = (digitsValue s * 10 ^ precision : ℕ) := by
  have hpos : 0 < 10 ^ precision := Nat.pow_pos (by decide)
  by_cases hnil : s = []
  · obtain rfl := hnil
    obtain rfl := hne rfl
    rw [wholeUnits, List.append_nil, if_pos rfl, Except.ok.injEq, eq_comm]
    simp [digitsValue, Safe.max]
  · have hcast : ((digitsValue s * 10 ^ precision : ℕ) : ℤ) = digitsValue s * 10 ^ precision := by
      push_cast
      rfl
    rw [wholeUnits, if_neg (by simp [hnil]), stoll_digits rest hnil hs hrest]
    by_cases hvalue : (digitsValue s : ℤ) ≤ Safe.max
    · rw [if_pos hvalue, ok_bind, Safe.mul_of_nonneg (by omega) (by positivity), hcast]
      split_ifs with hfits
      · rw [Except.ok.injEq]
        exact ⟨fun h => ⟨hfits, h.symm⟩, fun h => h.2.symm⟩
      · exact ⟨fun h => absurd h (by rintro ⟨⟩), fun h => absurd h.1 hfits⟩
    · have hlarge : digitsValue s ≤ digitsValue s * 10 ^ precision := Nat.le_mul_of_pos_right _ hpos
      rw [if_neg hvalue]
      refine ⟨fun h => absurd h (by rintro ⟨⟩), fun h => absurd (le_trans ?_ h.1) hvalue⟩
      exact_mod_cast hlarge

theorem fractionUnits_eq (hp : precision ≤ 18) (hs : s.all isdigit = true) :
    fractionUnits precision s =
      .ok ((digitsValue s * 10 ^ precision / 10 ^ s.length : ℕ) : ℤ) := by
  have hdigits : ((s.take precision).rightpad precision '0').all isdigit = true := by
    rw [List.rightpad, List.all_append, Bool.and_eq_true, List.all_eq_true, List.all_eq_true]
    refine ⟨fun c hc => List.all_eq_true.mp hs c (List.mem_of_mem_take hc), fun c hc => ?_⟩
    rw [List.eq_of_mem_replicate hc]
    decide
  have hlength : ((s.take precision).rightpad precision '0').length = precision := by
    simp [List.rightpad]
  have hlt := digitsValue_lt hdigits
  rw [hlength] at hlt
  rw [fractionUnits, ← digitsValue_rightpad hs precision]
  generalize (s.take precision).rightpad precision '0' = rhs at *
  by_cases hnil : rhs = []
  · rw [if_pos hnil, hnil]
    rfl
  · have hfits : (digitsValue rhs : ℤ) ≤ Safe.max := by
      have hbound := lt_of_lt_of_le hlt (pow_ten_le hp)
      rw [Safe.max]
      omega
    have hread := stoll_digits [] hnil hdigits rfl
    rw [List.append_nil, if_pos hfits] at hread
    rw [if_neg hnil, hread]

end

/-! ### Reading a number -/

section

variable {precision : ℕ} {maxSupply a : ℤ} (n : Numeral)

theorem point_not_mem_digits {s : List Char} (h : s.all isdigit = true) : '.' ∉ s := fun hmem =>
  absurd (List.all_eq_true.mp h '.' hmem) (by decide)

theorem minus_not_mem_digits {s : List Char} (h : s.all isdigit = true) : '-' ∉ s := fun hmem =>
  absurd (List.all_eq_true.mp h '-' hmem) (by decide)

theorem findIdx_text : n.text.findIdx (· = '.') = n.negative.toNat + n.whole.length := by
  have hindex : n.text.findIdx (· = '.') = n.text.idxOf '.' :=
    congrArg (n.text.findIdx ·) (funext fun c => (beq_eq_decide c '.').symm)
  have hsign : '.' ∉ (if n.negative then ['-'] else []) := by
    cases n.negative <;> decide
  have hlength : (if n.negative then ['-'] else []).length = n.negative.toNat := by
    cases n.negative <;> rfl
  have hpoint : (Numeral.pointed n.fraction).idxOf '.' = 0 := by
    cases n.fraction with
    | none => rfl
    | some fraction => exact List.idxOf_cons_self
  rw [hindex, Numeral.text, List.idxOf_append_of_notMem hsign,
    List.idxOf_append_of_notMem (point_not_mem_digits n.whole_digits), hpoint, hlength,
    Nat.add_zero]

theorem drop_text : n.text.drop n.negative.toNat = n.whole ++ Numeral.pointed n.fraction := by
  rw [Numeral.text]
  cases n.negative <;> rfl

/-- The text that is taken for the digits before the point. With a minus it is one longer. -/
theorem lhs_text : (n.text.drop n.negative.toNat).take (n.text.findIdx (· = '.')) =
    n.whole ++ (Numeral.pointed n.fraction).take n.negative.toNat := by
  rw [drop_text, findIdx_text, Nat.add_comm, List.take_length_add_append]

theorem rhs_text {fraction : List Char} (h : n.fraction = some fraction) :
    n.text.drop (n.text.findIdx (· = '.') + 1) = fraction := by
  rw [findIdx_text, Nat.add_assoc, ← List.drop_drop, drop_text, h, ← List.drop_drop,
    List.drop_left]
  rfl

theorem fraction_text (hp : precision ≤ 18) {w : ℤ}
    (hwhole : ((digitsValue n.whole * 10 ^ precision : ℕ) : ℤ) ≤ Safe.max) :
    (if n.fraction.isSome = true then do
      Safe.add (digitsValue n.whole * 10 ^ precision : ℕ)
        (← fractionUnits precision (n.text.drop (n.text.findIdx (· = '.') + 1)))
      else .ok ((digitsValue n.whole * 10 ^ precision : ℕ) : ℤ)) = .ok w ↔
      (n.units precision : ℤ) ≤ Safe.max ∧ w = n.units precision := by
  have hdigits := n.fraction_digits
  cases hfraction : n.fraction with
  | none =>
    have hunits : n.units precision = digitsValue n.whole * 10 ^ precision := by
      rw [Numeral.units, hfraction]
      simp [digitsValue]
    rw [hunits, if_neg (by decide), Except.ok.injEq, eq_comm]
    exact ⟨fun h => ⟨hwhole, h⟩, And.right⟩
  | some fraction =>
    rw [hfraction, Option.getD_some] at hdigits
    have hunits : n.units precision = digitsValue n.whole * 10 ^ precision +
        digitsValue fraction * 10 ^ precision / 10 ^ fraction.length := by
      rw [Numeral.units, hfraction]
      rfl
    rw [if_pos Option.isSome_some, rhs_text n hfraction, fractionUnits_eq hp hdigits, ok_bind,
      hunits, Int.natCast_add]
    constructor
    · intro h
      obtain rfl := Safe.add_eq_ok h
      exact ⟨Safe.add_le_max h hwhole (Int.natCast_nonneg _), rfl⟩
    · rintro ⟨hle, rfl⟩
      exact Safe.add_of_le (Int.natCast_nonneg _) hle

theorem sign_text (h : (n.units precision : ℤ) ≤ Safe.max) :
    (if n.negative = true then Safe.mul (n.units precision) (-1)
      else pure (n.units precision : ℤ)) = .ok (n.sign * n.units precision) := by
  rw [Numeral.sign]
  cases n.negative with
  | false => exact congrArg Except.ok (Int.one_mul _).symm
  | true =>
    rw [if_pos rfl, if_pos rfl, Safe.mul_neg_one (by omega) h, Int.neg_mul, Int.one_mul]

/-- **What is read from a number**, or why it is refused. -/
theorem amountFromString_text (hp : precision ≤ 18) (hmax : maxSupply ≤ Safe.max) :
    amountFromString precision maxSupply n.text = .ok a ↔
      (n.whole = [] → n.negative = false) ∧ (n.units precision : ℤ) ≤ maxSupply ∧
        a = n.sign * n.units precision := by
  have hrest : ((Numeral.pointed n.fraction).take n.negative.toNat).all
      (fun c => !isdigit c) = true := by
    cases n.negative <;> cases n.fraction <;> rfl
  have hscaled : scaledPrecision precision = .ok (10 ^ precision) := by
    rw [scaledPrecision, (require_eq_ok (u := ())).mpr (by omega)]
    rfl
  simp only [amountFromString, satoshis, scan_text, ok_bind, hscaled, lhs_text, bind_assoc,
    pure_bind]
  by_cases hsigned : n.whole = [] → n.negative = false
  · have hne : n.whole = [] → (Numeral.pointed n.fraction).take n.negative.toNat = [] := by
      intro hwhole
      rw [hsigned hwhole]
      rfl
    have hle : digitsValue n.whole * 10 ^ precision ≤ n.units precision := Nat.le_add_right _ _
    simp only [bind_eq_ok, wholeUnits_eq_ok n.whole_digits hrest hne, require_eq_ok, exists_const]
    constructor
    · rintro ⟨w, ⟨hfits, rfl⟩, units, hfraction, hsupply, hsign⟩
      obtain ⟨hunits, rfl⟩ := (fraction_text n hp hfits).mp hfraction
      rw [sign_text n hunits, Except.ok.injEq] at hsign
      exact ⟨hsigned, hsupply, hsign.symm⟩
    · rintro ⟨-, hsupply, rfl⟩
      have hunits := hsupply.trans hmax
      exact ⟨_, ⟨le_trans (by exact_mod_cast hle) hunits, rfl⟩, _,
        (fraction_text n hp (le_trans (by exact_mod_cast hle) hunits)).mpr ⟨hunits, rfl⟩, hsupply,
        sign_text n hunits⟩
  · -- a minus and then the point: `stoll` gets the point
    rw [Classical.not_imp, Bool.not_eq_false] at hsigned
    obtain ⟨hwhole, hnegative⟩ := hsigned
    have hlhs : n.whole ++ (Numeral.pointed n.fraction).take n.negative.toNat = ['.'] := by
      have hne := n.ne_nil
      rw [hwhole, List.nil_append] at hne
      rw [hwhole, hnegative]
      cases hfraction : n.fraction with
      | none => exact absurd (by rw [hfraction]; rfl) hne
      | some fraction => rfl
    rw [hlhs]
    refine ⟨fun h => ?_, fun h => ?_⟩
    · cases h
    · rw [h.1 hwhole] at hnegative
      cases hnegative

end

/-! ### Amounts from texts -/

section

variable {precision : ℕ} {maxSupply a : ℤ} {s : List Char}

/-- A text was accepted that has a digit, and a minus at most at the front: it is a number. -/
theorem exists_numeral (h : amountFromString precision maxSupply s = .ok a) (hs : '-' ∉ s.tail)
    (hdigit : s.any isdigit = true) : ∃ n : Numeral, n.text = s := by
  simp only [amountFromString, satoshis, bind_eq_ok, Prod.exists] at h
  obtain ⟨-, -, ⟨negative, decimal, hscan, -⟩, -⟩ := h
  -- the digit is before the point or after it
  have hne : ∀ {whole fraction : _}, (whole ++ Numeral.pointed fraction).any isdigit = true →
      whole ++ fraction.getD [] ≠ [] := by
    rintro whole fraction hany hnil
    obtain ⟨rfl, hfraction⟩ := List.append_eq_nil_iff.mp hnil
    cases fraction with
    | none => cases hany
    | some fraction =>
      obtain rfl : fraction = [] := hfraction
      exact absurd hany (by decide)
  cases s with
  | nil => cases hdigit
  | cons c s =>
    by_cases hminus : c = '-'
    · obtain rfl := hminus
      obtain ⟨whole, fraction, rfl, hwhole, hfraction⟩ := split_of_scan
        (show scan s true false = .ok (negative, decimal) from hscan) hs
      exact ⟨⟨true, whole, fraction, hwhole, hfraction, hne hdigit⟩, rfl⟩
    · have hall : '-' ∉ c :: s := by
        rw [List.mem_cons, not_or]
        exact ⟨Ne.symm hminus, hs⟩
      obtain ⟨whole, fraction, htext, hwhole, hfraction⟩ := split_of_scan hscan hall
      rw [htext] at hdigit
      exact ⟨⟨false, whole, fraction, hwhole, hfraction, hne hdigit⟩, htext.symm⟩

theorem minus_not_mem_tail (n : Numeral) : '-' ∉ n.text.tail := by
  have hpointed : '-' ∉ Numeral.pointed n.fraction := by
    have hdigits := n.fraction_digits
    cases hfraction : n.fraction with
    | none => exact List.not_mem_nil
    | some fraction =>
      rw [hfraction] at hdigits
      rw [Numeral.pointed, List.mem_cons, not_or]
      exact ⟨by decide, minus_not_mem_digits hdigits⟩
  have hunsigned : '-' ∉ n.whole ++ Numeral.pointed n.fraction := by
    rw [List.mem_append, not_or]
    exact ⟨minus_not_mem_digits n.whole_digits, hpointed⟩
  rw [Numeral.text]
  cases n.negative with
  | true => exact hunsigned
  | false => exact fun h => hunsigned (List.mem_of_mem_tail h)

theorem any_isdigit_text (n : Numeral) : n.text.any isdigit = true := by
  obtain ⟨c, hc⟩ := List.exists_mem_of_ne_nil _ n.ne_nil
  have hdigit : isdigit c = true := by
    obtain h | h := List.mem_append.mp hc
    · exact List.all_eq_true.mp n.whole_digits c h
    · exact List.all_eq_true.mp n.fraction_digits c h
  refine List.any_eq_true.mpr ⟨c, ?_, hdigit⟩
  rw [Numeral.text]
  refine List.mem_append_right _ ((List.mem_append.mp hc).elim (List.mem_append_left _) fun h => ?_)
  refine List.mem_append_right _ ?_
  cases hfraction : n.fraction with
  | none =>
    rw [hfraction] at h
    exact h
  | some fraction =>
    rw [hfraction] at h
    exact List.mem_cons_of_mem _ h

theorem abs_sign_mul (n : Numeral) (k : ℕ) : |n.sign * k| = k := by
  rw [Numeral.sign]
  cases n.negative with
  | true => rw [if_pos rfl, Int.neg_mul, Int.one_mul, abs_neg, Nat.abs_cast]
  | false => rw [if_neg (by decide), Int.one_mul, Nat.abs_cast]

end

/-! ### Texts from amounts -/

section

variable {precision : ℕ} {maxSupply : ℤ}

theorem foldlM_scaled {n : ℕ} (h : n ≤ 18) :
    (List.range n).foldlM (fun scaled (_ : ℕ) => Safe.mul scaled 10) 1 =
      .ok ((10 ^ n : ℕ) : ℤ) := by
  induction n with
  | zero => rfl
  | succ n ih =>
    have hpow := pow_ten_le h
    rw [pow_succ] at hpow
    rw [List.range_succ, List.foldlM_append, ih (by omega), ok_bind, List.foldlM_cons,
      Safe.mul_of_nonneg (by omega) (by decide), if_pos (by rw [Safe.max]; omega), pow_succ]
    push_cast
    rfl

theorem intText_eq (n : ℤ) :
    intText n = (if decide (n < 0) then ['-'] else []) ++ Nat.toDigits 10 n.natAbs := by
  rw [intText]
  by_cases h : n < 0
  · rw [if_pos h, if_pos (decide_eq_true h)]
    rfl
  · rw [if_neg h, if_neg (by simpa using h)]
    rfl

/-- What the printer takes for the digits after the point. -/
def printedFraction (precision : ℕ) (amount : ℤ) : Option (List Char) :=
  if amount.tmod (10 ^ precision : ℕ) = 0 then none
  else some (Nat.toDigits 10 ((10 ^ precision : ℕ) + amount.tmod (10 ^ precision : ℕ)).natAbs).tail

theorem printedFraction_digits (precision : ℕ) (amount : ℤ) :
    ((printedFraction precision amount).getD []).all isdigit = true := by
  rw [printedFraction]
  split_ifs
  · rfl
  · exact List.all_eq_true.mpr fun c hc =>
      List.all_eq_true.mp (all_isdigit_toDigits _) c (List.mem_of_mem_tail hc)

/-- The number that is printed. -/
def printed (precision : ℕ) (amount : ℤ) : Numeral where
  negative := decide (amount.tdiv (10 ^ precision : ℕ) < 0)
  whole := Nat.toDigits 10 (amount.tdiv (10 ^ precision : ℕ)).natAbs
  fraction := printedFraction precision amount
  whole_digits := all_isdigit_toDigits _
  fraction_digits := printedFraction_digits precision amount
  ne_nil := List.append_ne_nil_of_left_ne_nil (Nat.toDigits_ne_nil) _

theorem pow_ten_pos (precision : ℕ) : (0 : ℤ) < (10 ^ precision : ℕ) := by positivity

theorem amountToString_eq (hp : precision ≤ 18) (amount : ℤ) :
    amountToString precision amount = .ok (printed precision amount).text := by
  have hpos : 0 < ((10 ^ precision : ℕ) : ℤ) + amount.tmod (10 ^ precision : ℕ) := by
    have := Int.lt_tmod_of_pos amount (pow_ten_pos precision)
    omega
  simp only [amountToString, foldlM_scaled hp, ok_bind, Numeral.text, printed, printedFraction]
  by_cases hzero : amount.tmod (10 ^ precision : ℕ) = 0
  · rw [if_neg (not_not.mpr hzero), if_pos hzero, intText_eq, Numeral.pointed, List.append_nil]
    rfl
  · have hscaled : intText ((10 ^ precision : ℕ) + amount.tmod (10 ^ precision : ℕ)) =
        Nat.toDigits 10 ((10 ^ precision : ℕ) + amount.tmod (10 ^ precision : ℕ)).natAbs := by
      rw [intText, if_neg (Int.not_lt.mpr hpos.le)]
    rw [if_pos hzero, if_neg hzero, hscaled, intText_eq, Numeral.pointed, List.append_assoc]
    rfl

theorem tail_toDigits_add {r : ℕ} (hr : r < 10 ^ precision) :
    (Nat.toDigits 10 (10 ^ precision + r)).tail.length = precision ∧
      digitsValue (Nat.toDigits 10 (10 ^ precision + r)).tail = r := by
  have hpos : 0 < 10 ^ precision := Nat.pow_pos (by decide)
  obtain ⟨x, t, htext, hx, hx', ht, hvalue⟩ :=
    toDigits_eq_cons (show 0 < 10 ^ precision + r by omega)
  have hlt := digitsValue_lt ht
  have hlength : t.length = precision := by
    have hle : (Nat.toDigits 10 (10 ^ precision + r)).length ≤ precision + 1 :=
      (Nat.length_toDigits_le_iff (by decide) (Nat.succ_pos _)).mpr (by rw [pow_succ]; omega)
    rw [htext, List.length_cons] at hle
    by_contra hne
    have hsmall : 10 ^ (t.length + 1) ≤ 10 ^ precision :=
      Nat.pow_le_pow_right (by decide) (by omega)
    rw [pow_succ] at hsmall
    have hprod : x * 10 ^ t.length ≤ 9 * 10 ^ t.length := Nat.mul_le_mul_right _ (by omega)
    omega
  rw [hlength] at hvalue hlt
  -- the first digit is a one
  have hone : x = 1 := by
    obtain h | h := Nat.lt_or_ge x 2
    · omega
    · have hprod : 2 * 10 ^ precision ≤ x * 10 ^ precision := Nat.mul_le_mul_right _ h
      omega
  rw [hone, Nat.one_mul] at hvalue
  rw [htext, List.tail_cons]
  exact ⟨hlength, by omega⟩

theorem digits_ne_scale {x k y j : ℕ} (hx : 0 < x) (hx' : x < 10) (hj : 0 < j) :
    x * 10 ^ k + y + y * 10 ^ j ≠ 10 ^ (k + j) := by
  intro h
  have hten : 10 ≤ 10 ^ j := Nat.le_self_pow hj.ne' 10
  have hprod : (10 ^ j + 1) * y = 10 ^ k * (10 ^ j - x) := by
    rw [Nat.mul_sub, ← pow_add, ← h, Nat.mul_comm (10 ^ k) x, Nat.add_mul, Nat.mul_comm _ y]
    omega
  have hcoprime : Nat.Coprime (10 ^ j + 1) (10 ^ k) :=
    ((Nat.coprime_self_add_left.mpr (Nat.coprime_one_left _)).coprime_dvd_right
      (dvd_pow_self 10 hj.ne')).pow_right k
  have hdvd : 10 ^ j + 1 ∣ 10 ^ j - x := hcoprime.dvd_of_dvd_mul_left ⟨y, hprod.symm⟩
  have hle := Nat.le_of_dvd (by omega) hdvd
  omega

theorem units_printed {amount : ℤ} {fraction : List Char}
    (h : printedFraction precision amount = some fraction) :
    (printed precision amount).units precision =
      (amount.tdiv (10 ^ precision : ℕ)).natAbs * 10 ^ precision +
        digitsValue fraction * 10 ^ precision / 10 ^ fraction.length := by
  simp only [Numeral.units, printed, digitsValue_toDigits, h]
  rfl

theorem sign_printed (precision : ℕ) (amount : ℤ) :
    (printed precision amount).sign * (amount.tdiv (10 ^ precision : ℕ)).natAbs =
      amount.tdiv (10 ^ precision : ℕ) := by
  simp only [Numeral.sign, printed, decide_eq_true_eq]
  split_ifs <;> omega

theorem printed_of_dvd {amount : ℤ} (h : ((10 ^ precision : ℕ) : ℤ) ∣ amount) :
    amount = (printed precision amount).sign * (printed precision amount).units precision := by
  have hunits : (printed precision amount).units precision =
      (amount.tdiv (10 ^ precision : ℕ)).natAbs * 10 ^ precision := by
    simp only [Numeral.units, printed, printedFraction, digitsValue_toDigits,
      Int.tmod_eq_zero_of_dvd h, if_true]
    simp [digitsValue]
  rw [hunits, Int.natCast_mul, ← Int.mul_assoc, sign_printed, Int.tdiv_mul_cancel h]

theorem printed_natCast {m : ℕ} (h : ¬ 10 ^ precision ∣ m) :
    (m : ℤ) = (printed precision m).sign * (printed precision m).units precision := by
  have hpos : 0 < 10 ^ precision := Nat.pow_pos (by decide)
  obtain ⟨hlength, hvalue⟩ := tail_toDigits_add (Nat.mod_lt m hpos)
  have hfraction : printedFraction precision m =
      some (Nat.toDigits 10 (10 ^ precision + m % 10 ^ precision)).tail := by
    rw [printedFraction, ← Int.ofNat_tmod, if_neg (by exact_mod_cast mt Nat.dvd_of_mod_eq_zero h),
      ← Int.natCast_add, Int.natAbs_natCast]
  have hsign : (printed precision m).sign = 1 := by
    simp only [Numeral.sign, printed, ← Int.ofNat_tdiv, decide_eq_true_eq]
    exact if_neg (Int.not_lt.mpr (Int.natCast_nonneg _))
  rw [units_printed hfraction, hlength, hvalue, Nat.mul_div_cancel _ hpos, hsign, Int.one_mul,
    ← Int.ofNat_tdiv, Int.natAbs_natCast, Nat.div_add_mod']

theorem printed_neg_natCast {m : ℕ} (h : ¬ 10 ^ precision ∣ m) :
    -(m : ℤ) ≠ (printed precision (-m)).sign * (printed precision (-m)).units precision := by
  have hpos : 0 < 10 ^ precision := Nat.pow_pos (by decide)
  have hmod : 0 < m % 10 ^ precision := Nat.pos_of_ne_zero (mt Nat.dvd_of_mod_eq_zero h)
  have hmod' := Nat.mod_lt m hpos
  have hm := Nat.div_add_mod' m (10 ^ precision)
  have hprecision : 0 < precision := by
    refine Nat.pos_of_ne_zero ?_
    rintro rfl
    exact h (Nat.one_dvd m)
  obtain ⟨x, t, htext, hx, hx', ht, hvalue⟩ :=
    toDigits_eq_cons (show 0 < 10 ^ precision - m % 10 ^ precision by omega)
  have hfraction : printedFraction precision (-m) = some t := by
    rw [printedFraction, Int.neg_tmod, ← Int.ofNat_tmod, if_neg (by omega), ← Int.sub_eq_add_neg,
      ← Int.natCast_sub hmod'.le, Int.natAbs_natCast, htext, List.tail_cons]
  have hlength : t.length + 1 ≤ precision := by
    have hle := (Nat.length_toDigits_le_iff (by decide) hprecision).mpr
      (show 10 ^ precision - m % 10 ^ precision < 10 ^ precision by omega)
    rwa [htext, List.length_cons] at hle
  -- with `j` zeros the digits come to all places
  obtain ⟨j, rfl⟩ := Nat.exists_eq_add_of_le (Nat.le_of_succ_le hlength)
  have hfill : digitsValue t * 10 ^ (t.length + j) / 10 ^ t.length = digitsValue t * 10 ^ j := by
    rw [pow_add, Nat.mul_left_comm, Nat.mul_div_cancel_left _ (Nat.pow_pos (by decide))]
  rw [units_printed hfraction, hfill, Int.neg_tdiv, ← Int.ofNat_tdiv, Int.natAbs_neg,
    Int.natAbs_natCast]
  intro heq
  simp only [Numeral.sign, printed, Int.neg_tdiv, ← Int.ofNat_tdiv, decide_eq_true_eq] at heq
  have hne := digits_ne_scale (k := t.length) (y := digitsValue t) (j := j) hx hx' (by omega)
  split_ifs at heq with hnegative
  · rw [Int.neg_mul, Int.one_mul] at heq
    omega
  · omega

/-- **The number that is printed is the amount**, unless this is negative and not whole. -/
theorem printed_iff (precision : ℕ) (amount : ℤ) :
    amount = (printed precision amount).sign * (printed precision amount).units precision ↔
      0 ≤ amount ∨ ((10 ^ precision : ℕ) : ℤ) ∣ amount := by
  by_cases hdvd : ((10 ^ precision : ℕ) : ℤ) ∣ amount
  · exact iff_of_true (printed_of_dvd hdvd) (.inr hdvd)
  · obtain ⟨m, rfl | rfl⟩ := Int.eq_nat_or_neg amount
    · rw [Int.natCast_dvd_natCast] at hdvd
      exact iff_of_true (printed_natCast hdvd) (.inl (Int.natCast_nonneg m))
    · rw [Int.dvd_neg, Int.natCast_dvd_natCast] at hdvd
      have hm : m ≠ 0 := fun h => hdvd (h ▸ Nat.dvd_zero _)
      refine iff_of_false (printed_neg_natCast hdvd) ?_
      rw [Int.dvd_neg, Int.natCast_dvd_natCast]
      omega

/-- **Printed amounts are read back** if they are not negative or have no fraction, else never. -/
theorem amount_round_trip_iff (hp : precision ≤ 18) (hmax : maxSupply ≤ Safe.max) {a : ℤ}
    (ha : |a| ≤ maxSupply) :
    (amountToString precision a >>= amountFromString precision maxSupply) = .ok a ↔
      0 ≤ a ∨ ((10 ^ precision : ℕ) : ℤ) ∣ a := by
  rw [amountToString_eq hp, ok_bind, amountFromString_text _ hp hmax, ← printed_iff]
  refine ⟨fun h => h.2.2, fun h => ⟨fun hnil => absurd hnil (Nat.toDigits_ne_nil), ?_, h⟩⟩
  rwa [h, abs_sign_mul] at ha

theorem amount_round_trip_iff_whole :
    (amountToString 2 (-100) >>= amountFromString 2 1000) = .ok (-100) :=
  (amount_round_trip_iff (by decide) (by decide) (by decide)).mpr (.inr (by decide))

/-- One and a half is printed as `-1.0` below zero, and read back as one. -/
theorem negative_fraction_lost :
    amountToString 2 (-150) = .ok "-1.0".toList ∧
      (amountToString 2 (-150) >>= amountFromString 2 1000) = .ok (-100) := by
  decide +kernel

end

end Whitecoin.Ledger
