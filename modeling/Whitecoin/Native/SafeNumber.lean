import Whitecoin.Cbor.Object
import Whitecoin.Lib.WideWord

/-!
# Safe numbers

The decimal numbers in which the native contracts compute. A number is a sign, a magnitude of 128
bits and the number of its decimals, of which there are at most 16. Results are cut to that many
decimals, and to a magnitude of 32 digits as long as there are decimals to drop.

The functions `simple_uint128_*` and `simple_uint256_*` of the source are the operations of `Wide`,
with halves of 64 and of 128 bits. One of them differs: `simple_uint256_minus` adds `-1` for a
borrow as a number of 64 bits.
-/

namespace Whitecoin.Native

open Check Cbor

abbrev SimpleUint128 := Wide UInt64

abbrev SimpleUint256 := Wide SimpleUint128

/-- `simple_uint128_divmod`. -/
def simpleUint128Divmod (a b : SimpleUint128) : Except String (Wide.DivResult UInt64) :=
  Wide.divmod Wide.minus a b

/-- `simple_uint256_minus`: the borrow is added as the number `2 ^ 64 - 1`. -/
def simpleUint256Minus (a b : SimpleUint256) : SimpleUint256 :=
  let abigMinusBbig := Wide.minus a.big b.big
  let alowMinusBlow := Wide.minus a.low b.low
  ⟨Wide.add abigMinusBbig ⟨0, if Wide.gt alowMinusBlow a.low then -1 else 0⟩, alowMinusBlow⟩

/-- `simple_uint256_divmod`. -/
def simpleUint256Divmod (a b : SimpleUint256) : Except String (Wide.DivResult SimpleUint128) :=
  Wide.divmod simpleUint256Minus a b

/-- `uint128_10`. -/
def uint128Ten : SimpleUint128 := ⟨0, 10⟩

/-- `uint256_10`. -/
def uint256Ten : SimpleUint256 := ⟨0, uint128Ten⟩

/-- `uint64_pow` of ten. The exponents are at most 16. -/
def uint64Pow10 (p : ℕ) : UInt64 := UInt64.ofNat (10 ^ p)

/-- The loop of `simple_uint128_to_string`, for at most `n` digits. -/
def toStringLoop (base : SimpleUint128) : ℕ → SimpleUint128 → Text → Except String Text
  | 0, _, out => .ok out
  | n + 1, a, out => do
    let qr ← simpleUint128Divmod a base
    let out := (text "0123456789abcdef").getD qr.modResult.low.toUInt8.toNat 0 :: out
    if Wide.isZero qr.divResult then pure out else toStringLoop base n qr.divResult out

/-- `simple_uint128_to_string`. A number of 128 bits has at most 128 digits. -/
def simpleUint128ToString (a : SimpleUint128) (base : UInt8) (len : ℕ) : Except String Text := do
  require (2 ≤ base ∧ base ≤ 16) "Base must be in the range [2, 16]"
  let out ← if Wide.isZero a then pure (text "0") else toStringLoop ⟨0, base.toUInt64⟩ 128 a []
  pure (List.replicate (len - out.length) 48 ++ out)

/-- `largest_x`. -/
def largestX : SimpleUint128 := Wide.multi ⟨0, uint64Pow10 16⟩ ⟨0, uint64Pow10 16⟩

structure SafeNumber where
  valid : Bool
  sign : Bool
  x : SimpleUint128
  e : ℕ
  deriving DecidableEq

namespace SafeNumber

/-- `safe_number_zero`. -/
def zero : SafeNumber := ⟨true, true, 0, 0⟩

/-- `safe_number_create_invalid`. -/
def nan : SafeNumber := ⟨false, true, 0, 0⟩

/-- `safe_number_is_zero`. -/
def isZero (a : SafeNumber) : Bool := a.valid && Wide.isZero a.x

/-- A tenth. -/
def tenth (x : SimpleUint128) : Except String SimpleUint128 := do
  pure (← simpleUint128Divmod x uint128Ten).divResult

/-- The first loop of `compress_number`: decimals are dropped while the magnitude is too large. -/
def shorten : ℕ → SimpleUint128 → Except String (SimpleUint128 × ℕ)
  | 0, x => .ok (x, 0)
  | e + 1, x => if Wide.gt x largestX then do shorten e (← tenth x) else .ok (x, e + 1)

/-- The second loop: `n` digits are dropped. -/
def dropDigits : ℕ → SimpleUint128 → Except String SimpleUint128
  | 0, x => .ok x
  | n + 1, x => do dropDigits n (← tenth x)

/-- The third loop: `n` zeros are appended. -/
def appendZeros : ℕ → SimpleUint128 → SimpleUint128
  | 0, x => x
  | n + 1, x => appendZeros n (Wide.multi x uint128Ten)

/-- The fourth loop: zeros at the end of the decimals are dropped. -/
def stripZeros : ℕ → SimpleUint128 → Except String (SimpleUint128 × ℕ)
  | 0, x => .ok (x, 0)
  | e + 1, x =>
    if Wide.isZero x then .ok (x, e + 1)
    else do
      let y ← tenth x
      if Wide.multi y uint128Ten = x then stripZeros e y else .ok (x, e + 1)

/-- `compress_number`. -/
def compressNumber (a : SafeNumber) : Except String SafeNumber :=
  if !a.valid then .ok a
  else do
    let (x, e) ← shorten a.e a.x
    let x ← dropDigits (e - 16) x
    let x := appendZeros (e - 16) x
    let (x, e) ← stripZeros e x
    if 16 < e then .ok zero else .ok ⟨true, a.sign, x, e⟩

/-- `safe_number_create` of a sign, a magnitude and a number of decimals. -/
def create (sign : Bool) (x : SimpleUint128) (e : ℕ) : Except String SafeNumber :=
  compressNumber ⟨true, sign, x, e⟩

/-- `safe_number_create` of an integer. -/
def createInt (value : Int64) : Except String SafeNumber :=
  create (0 ≤ value) ⟨0, (if 0 ≤ value then value else -value).toUInt64⟩ 0

/-- A character minus `'0'`, as a number of 64 bits. -/
def charValue (c : UInt8) : UInt64 := (Int64.ofInt (c.toInt8.toInt - 48)).toUInt64

/-- The loop over the characters. -/
def createLoop : Text → Bool → SimpleUint128 → ℕ → Option (SimpleUint128 × ℕ)
  | [], _, x, e => some (x, e)
  | c :: str, afterDot, x, e =>
    if c = 46 then if afterDot then none else createLoop str true x e
    else
      createLoop str afterDot (Wide.add (Wide.multi x uint128Ten) ⟨0, charValue c⟩)
        (if afterDot then e + 1 else e)

/-- `safe_number_create` of a text. -/
def createString (str : Text) : Except String SafeNumber :=
  if str = [] ∨ 40 < str.length ∨ str = text "NaN" then .ok nan
  else
    let digits := if str.head? = some 43 ∨ str.head? = some 45 then str.tail else str
    match createLoop digits false 0 0 with
    | none => .ok nan
    | some (x, e) => create (str.head? ≠ some 45) x e

/-- `safe_number_add`. -/
def add (a b : SafeNumber) : Except String SafeNumber :=
  if !a.valid || !b.valid then .ok a
  else if b.isZero then .ok a
  else if a.isZero then .ok b
  else
    let maxE := max a.e b.e
    let ax := Wide.multi a.x ⟨0, uint64Pow10 (maxE - a.e)⟩
    let bx := Wide.multi b.x ⟨0, uint64Pow10 (maxE - b.e)⟩
    if a.sign ≠ b.sign then
      if Wide.gt ax bx then create a.sign (Wide.minus ax bx) maxE
      else if ax = bx then create true 0 maxE
      else create b.sign (Wide.minus bx ax) maxE
    else create a.sign (Wide.add ax bx) maxE

/-- `safe_number_neg`. -/
def neg (a : SafeNumber) : Except String SafeNumber :=
  if !a.valid then .ok a
  else if a.isZero then .ok a
  else create (!a.sign) a.x a.e

/-- `safe_number_minus`. -/
def minus (a b : SafeNumber) : Except String SafeNumber := do add a (← neg b)

/-- `safe_number_abs`. -/
def abs (a : SafeNumber) : Except String SafeNumber := if a.sign then .ok a else neg a

/-- The loop of `safe_number_multiply`: decimals are dropped while the product is too large. -/
def shrink : ℕ → SimpleUint256 → Except String (SimpleUint256 × ℕ)
  | 0, abx => .ok (abx, 0)
  | e + 1, abx =>
    if Wide.isZero abx.big then .ok (abx, e + 1)
    else do shrink e (← simpleUint256Divmod abx uint256Ten).divResult

/-- `safe_number_multiply`. -/
def multiply (a b : SafeNumber) : Except String SafeNumber :=
  if !a.valid || !b.valid then .ok a
  else if a.isZero || b.isZero then .ok zero
  else do
    let (abx, e) ← shrink (a.e + b.e) (Wide.multi ⟨0, a.x⟩ ⟨0, b.x⟩)
    create (a.sign = b.sign) abx.low e

/-- The loop of `safe_number_div`: one digit after the other, with `n` more decimals to come. The
result has the magnitude and the number of decimals. -/
def divLoop (bigB : SimpleUint256) : ℕ → SimpleUint256 → SimpleUint128 →
    Except String (SimpleUint128 × ℕ)
  | 0, bigA, rx => do
    let divmod ← simpleUint256Divmod bigA bigB
    pure (Wide.add (Wide.multi rx uint128Ten) divmod.divResult.low, 16)
  | n + 1, bigA, rx => do
    let divmod ← simpleUint256Divmod bigA bigB
    let rx := Wide.add (Wide.multi rx uint128Ten) divmod.divResult.low
    let bigA := Wide.multi divmod.modResult uint256Ten
    if Wide.gt largestX rx && !Wide.isZero bigA then divLoop bigB n bigA rx else pure (rx, 15 - n)

/-- `safe_number_div`. -/
def div (a b : SafeNumber) : Except String SafeNumber :=
  if !a.valid || !b.valid then .ok a
  else if a.isZero then .ok zero
  else if b.isZero then .ok nan
  else do
    let (rx, re) ← divLoop ⟨0, b.x⟩ 16 ⟨0, a.x⟩ 0
    -- the decimals of the operands, without negative numbers
    if b.e ≤ a.e + re then create (a.sign = b.sign) rx (a.e + re - b.e)
    else create (a.sign = b.sign) (Wide.multi rx ⟨0, uint64Pow10 (b.e - (a.e + re))⟩) 0

/-- A word without its highest bit, with the sign of the next one. -/
def clipped (low : UInt64) : Int64 := (low.toInt64 <<< 1) >>> 1

/-- `safe_number_to_int64`. -/
def toInt64 (a : SafeNumber) : Except String Int64 :=
  if !a.valid then .ok 0
  else if a.isZero then .ok 0
  else do
    let low ← if 0 < a.e then do
        pure (← simpleUint128Divmod a.x ⟨0, uint64Pow10 a.e⟩).divResult.low
      else pure a.x.low
    pure (if a.sign then clipped low else -clipped low)

/-- `safe_number_to_int64_floor`. -/
def toInt64Floor (a : SafeNumber) : Except String Int64 :=
  if !a.valid then .ok 0
  else if a.isZero then .ok 0
  else if 0 < a.e then do
    let axDivmod ← simpleUint128Divmod a.x ⟨0, uint64Pow10 a.e⟩
    let tmp := clipped axDivmod.divResult.low
    if Wide.isZero axDivmod.modResult then pure (if a.sign then tmp else -tmp)
    else pure (if a.sign then tmp else -tmp - 1)
  else pure (if a.sign then clipped a.x.low else -clipped a.x.low)

/-- `safe_number_idiv`. -/
def idiv (a b : SafeNumber) : Except String SafeNumber := do
  let divResult ← div a b
  let divResultInt ← toInt64 divResult
  if divResult.sign then createInt divResultInt else createInt (divResultInt - 1)

/-- `safe_number_mod`. -/
def mod (a b : SafeNumber) : Except String SafeNumber := do
  minus a (← multiply b (← idiv a b))

/-- `safe_number_to_string`. -/
def toString (a : SafeNumber) : Except String Text := do
  let val ← compressNumber a
  if !val.valid then pure (text "NaN")
  else if val.isZero then pure (text "0")
  else
    let pq ← simpleUint128Divmod val.x ⟨0, uint64Pow10 val.e⟩
    let p ← simpleUint128ToString pq.divResult 10 0
    let decimal ← if Wide.isZero pq.modResult then pure []
      else do pure (text "." ++ (← simpleUint128ToString pq.modResult 10 val.e))
    pure ((if val.sign then [] else text "-") ++ p ++ decimal)

/-- `safe_number_eq`. -/
def eq (a b : SafeNumber) : Bool :=
  a.valid && b.valid && (a.sign = b.sign && a.x = b.x && a.e = b.e)

/-- `safe_number_ne`: false for invalid numbers, as `safe_number_eq` is. -/
def ne (a b : SafeNumber) : Bool := a.valid && b.valid && !eq a b

/-- `safe_number_gt`. -/
def gt (a b : SafeNumber) : Except String Bool :=
  if !a.valid || !b.valid then .ok false
  else if a.sign ≠ b.sign then .ok a.sign
  else do
    let da ← simpleUint128Divmod a.x ⟨0, uint64Pow10 a.e⟩
    let db ← simpleUint128Divmod b.x ⟨0, uint64Pow10 b.e⟩
    if Wide.gt da.divResult db.divResult then pure a.sign
    else if Wide.gt db.divResult da.divResult then pure !a.sign
    else
      let extendA := if a.e < b.e then Wide.multi da.modResult ⟨0, uint64Pow10 (b.e - a.e)⟩
        else da.modResult
      let extendB := if b.e < a.e then Wide.multi db.modResult ⟨0, uint64Pow10 (a.e - b.e)⟩
        else db.modResult
      if extendA = extendB then pure false
      else if Wide.gt extendA extendB then pure a.sign
      else pure !a.sign

/-- `safe_number_gte`. -/
def gte (a b : SafeNumber) : Except String Bool := do
  if eq a b then pure true else gt a b

/-- `safe_number_lt`. -/
def lt (a b : SafeNumber) : Except String Bool := gt b a

/-- `safe_number_lte`. -/
def lte (a b : SafeNumber) : Except String Bool := do
  if eq a b then pure true else lt a b

end SafeNumber

end Whitecoin.Native
