import Mathlib.Algebra.Order.Ring.Int
import Whitecoin.Cbor.Object

/-!
# The arguments of a native contract

An api of a native contract gets one text, and takes the values it needs out of it. `strtod`, which
decides whether a text is a number, is a parameter.
-/

namespace Whitecoin.Native

open Check Cbor

/-- `boost::split` at commas. -/
def splitArgs (arg : Text) : List Text := arg.splitOn 44

/-- `std::isspace`. -/
def isSpace (c : UInt8) : Bool := c = 32 || (9 ≤ c && c ≤ 13)

/-- `boost::trim`. -/
def trim (s : Text) : Text := ((s.dropWhile isSpace).reverse.dropWhile isSpace).reverse

def isDigit (c : UInt8) : Bool := 48 ≤ c && c ≤ 57

/-- The number that digits stand for. -/
def digitsValue (s : Text) : ℕ := s.foldl (fun n c => n * 10 + (c.toNat - 48)) 0

/-- `std::stoll`. It skips blanks, and ignores what follows the digits. -/
def stoll (s : Text) : Except String Int64 := do
  let s := s.dropWhile isSpace
  let negative := s.head? = some 45
  let s := if s.head? = some 45 ∨ s.head? = some 43 then s.tail else s
  let digits := s.takeWhile isDigit
  require (digits ≠ []) "stoll"
  let n : ℤ := if negative then -digitsValue digits else digitsValue digits
  require (-2 ^ 63 ≤ n ∧ n < 2 ^ 63) "stoll"
  pure (Int64.ofInt n)

/-- `fc::to_int64`: the text up to the first zero byte is a number. -/
def toInt64 (s : Text) : Except String Int64 := do
  let s := s.takeWhile (· ≠ 0)
  let negative := s.head? = some 45
  let digits := if s.head? = some 45 ∨ s.head? = some 43 then s.tail else s
  require (digits ≠ [] ∧ digits.all isDigit) "Couldn't parse int64_t"
  let n : ℤ := if negative then -digitsValue digits else digitsValue digits
  require (-2 ^ 63 ≤ n ∧ n < 2 ^ 63) "Couldn't parse int64_t"
  pure (Int64.ofInt n)

/-- The texts that `strtod` takes as a whole. -/
structure Numerals where
  isNumeric : Text → Bool

namespace Numerals

/-- `is_integral`: `strchr` looks for a point up to the end of the C string. -/
def isIntegral (numerals : Numerals) (s : Text) : Bool :=
  numerals.isNumeric s && !(s.takeWhile (· ≠ 0)).contains 46

/-- An integer that has to be positive. -/
def positive (numerals : Numerals) (s : Text) (format message : String) : Except String Int64 := do
  require (numerals.isIntegral s) format
  let n ← stoll s
  require (0 < n) message
  pure n

variable {numerals : Numerals} {s : Text} {format message : String} {n : Int64}

theorem positive_eq_ok (h : numerals.positive s format message = .ok n) : 0 < n.toInt := by
  simp only [positive, bind_eq_ok, require_eq_ok, pure_eq_ok] at h
  obtain ⟨-, -, m, -, -, hpos, rfl⟩ := h
  rwa [Int64.lt_iff_toInt_lt, Int64.toInt_zero] at hpos

theorem stoll_of_positive (h : numerals.positive s format message = .ok n) : stoll s = .ok n := by
  simp only [positive, bind_eq_ok, require_eq_ok, pure_eq_ok] at h
  obtain ⟨-, -, m, hm, -, -, rfl⟩ := h
  exact hm

end Numerals

end Whitecoin.Native
