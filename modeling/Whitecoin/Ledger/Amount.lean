import Whitecoin.Lib.Safe

/-!
# Amounts written as text

Amounts of other chains travel as decimal text. `asset_object::amount_from_string` turns such a
text into a number of smallest units of an asset. It looks at the characters twice: a first scan
accepts digits, one minus sign and one point, each anywhere; then the two sides of the point are
cut out by position and read with `std::stoll`, which stops at the first character that is not a
digit.

The two passes agree on ordinary numerals and on nothing else: the scan admits `5-3`, and the
sign of the text is lost or doubled when the minus sign is not in front.
-/

namespace Whitecoin.Ledger

open Check

def isdigit (c : Char) : Bool := '0' ≤ c && c ≤ '9'

/-- The scan of the text: were a minus sign and a point seen? -/
def scan : List Char → Bool → Bool → Except String (Bool × Bool)
  | [], negative, decimal => .ok (negative, decimal)
  | c :: s, negative, decimal =>
    if isdigit c then scan s negative decimal
    else if c = '-' ∧ negative = false then scan s true decimal
    else if c = '.' ∧ decimal = false then scan s negative true
    else .error "amount_from_string"

/-- The number a string of digits denotes. -/
def digitsValue (s : List Char) : ℕ :=
  s.foldl (fun n c => 10 * n + (c.toNat - '0'.toNat)) 0

/-- `std::stoll`: an optional sign and the digits up to the first other character. -/
def stoll (s : List Char) : Except String ℤ := do
  let negative := s.head? = some '-'
  let digits := (if negative then s.tail else s).takeWhile isdigit
  require (digits ≠ []) "stoll: no conversion"
  let value : ℤ := if negative then -digitsValue digits else digitsValue digits
  require (Safe.Fits value) "stoll: out of range"
  return value

/-- `asset::scaled_precision`. -/
def scaledPrecision (precision : ℕ) : Except String ℤ := do
  require (precision < 19) "precision"
  return 10 ^ precision

/-- The part before the point, in smallest units. -/
def wholeUnits (scale : ℤ) (lhs : List Char) : Except String ℤ :=
  if lhs = [] then .ok 0 else do Safe.mul (← stoll lhs) scale

/-- The part after the point: digits beyond the precision are dropped, missing ones are zeros. -/
def fractionUnits (precision : ℕ) (rhs : List Char) : Except String ℤ :=
  let rhs := (rhs.take precision).rightpad precision '0'
  if rhs = [] then .ok 0 else stoll rhs

/-- The value of the text before `max_supply` is looked at, without the sign. -/
def satoshis (precision : ℕ) (s : List Char) : Except String (Bool × ℤ) := do
  let (negative, decimal) ← scan s false false
  let scale ← scaledPrecision precision
  let pos := s.findIdx (· = '.')
  -- `substr(negative_found, decimal_pos)`: the second argument is a length, not an end
  let whole ← wholeUnits scale ((s.drop negative.toNat).take pos)
  let sum ← (if decimal then do Safe.add whole (← fractionUnits precision (s.drop (pos + 1)))
    else .ok whole)
  return (negative, sum)

/-- `asset_object::amount_from_string`. -/
def amountFromString (precision : ℕ) (maxSupply : ℤ) (s : List Char) : Except String ℤ := do
  let (negative, sum) ← satoshis precision s
  require (sum ≤ maxSupply) "satoshis <= options.max_supply"
  if negative then Safe.mul sum (-1) else return sum

theorem amountFromString_congr {precision : ℕ} {max₁ max₂ : ℤ} {s : List Char} {a₁ a₂ : ℤ}
    (h₁ : amountFromString precision max₁ s = .ok a₁)
    (h₂ : amountFromString precision max₂ s = .ok a₂) : a₁ = a₂ := by
  simp only [amountFromString, bind_eq_ok, require_eq_ok, exists_and_left, exists_const] at h₁ h₂
  obtain ⟨⟨negative, sum⟩, hs, -, h₁⟩ := h₁
  obtain ⟨⟨_, _⟩, hs', -, h₂⟩ := h₂
  obtain ⟨rfl, rfl⟩ := Prod.mk.inj (Except.ok.inj (hs.symm.trans hs'))
  exact Except.ok.inj (h₁.symm.trans h₂)

-- The sign in front, a text that is not a numeral, and digits beyond the precision.
example : amountFromString 2 1000000 "-5.25".toList = .ok (-525) := by decide +kernel
example : amountFromString 2 1000000 "5-3".toList = .ok 300 := by decide +kernel
example : amountFromString 2 1000000 "0.019".toList = .ok 1 := by decide +kernel

end Whitecoin.Ledger
