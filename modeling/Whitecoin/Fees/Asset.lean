import Whitecoin.Ledger.Balance

/-!
# Assets and prices

`asset` is an amount of smallest units with the asset it is of. The amount is a checked 64-bit
integer, and the operators refuse to mix assets. `price` is a ratio of two assets; multiplying an
asset with it converts the one side into the other. The product is formed in unsigned 128-bit
integers and the quotient is cut off, so that a conversion loses up to one unit, always to the
disadvantage of the side that is converted.

The direction of a conversion is taken from the asset that is converted: it is compared with the
base of the price first. For a price between two amounts of *one* asset that is the base in both
directions, and converting there and back does not return to where it started.
-/

namespace Whitecoin.Fees

open Check Ledger

/-- `asset`. -/
structure Asset where
  amount : ℤ
  assetId : AssetId
  fits : Safe.Fits amount
  deriving DecidableEq

/-- `GRAPHENE_MAX_SHARE_SUPPLY`. -/
def maxShareSupply : ℤ := 100000000000000000

/-- `price`. -/
structure Price where
  base : Asset
  quote : Asset
  deriving DecidableEq

namespace Price

/-- `price()`. -/
def null : Price := ⟨⟨0, 0, Safe.fits_zero⟩, ⟨0, 0, Safe.fits_zero⟩⟩

/-- `price::is_null`. Prices are compared by their ids and by cross products, and the amounts of the
empty price are zero: only the ids matter. -/
def IsNull (p : Price) : Prop := p.base.assetId = 0 ∧ p.quote.assetId = 0

instance (p : Price) : Decidable p.IsNull := inferInstanceAs (Decidable (_ ∧ _))

/-- `price::validate`. -/
def validate (p : Price) : Except String Unit := do
  require (0 < p.base.amount) "base.amount > share_type(0)"
  require (0 < p.quote.amount) "quote.amount > share_type(0)"
  require (p.base.assetId ≠ p.quote.assetId) "base.asset_id != quote.asset_id"

end Price

namespace Asset

variable {a b c : Asset} {n : ℤ} {id : AssetId}

/-- The result of an operator, which throws if it is not a value of the type. -/
def of (amount : ℤ) (assetId : AssetId) : Except String Asset :=
  if h : Safe.Fits amount then .ok ⟨amount, assetId, h⟩ else .error "overflow"

def neg (a : Asset) : Except String Asset := of (-a.amount) a.assetId

def add (a b : Asset) : Except String Asset := do
  require (a.assetId = b.assetId) "a.asset_id == b.asset_id"
  of (a.amount + b.amount) a.assetId

def sub (a b : Asset) : Except String Asset := do
  require (a.assetId = b.assetId) "a.asset_id == b.asset_id"
  of (a.amount - b.amount) a.assetId

theorem of_eq_ok : of n id = .ok a ↔ a.amount = n ∧ a.assetId = id := by
  obtain ⟨amount, assetId, hfits⟩ := a
  unfold of
  split
  next h => simp [eq_comm]
  next h =>
    simp only [reduceCtorEq, false_iff]
    rintro ⟨rfl, -⟩
    exact h hfits

theorem neg_eq_ok : a.neg = .ok b ↔ b.amount = -a.amount ∧ b.assetId = a.assetId := of_eq_ok

theorem add_eq_ok : a.add b = .ok c ↔
    a.assetId = b.assetId ∧ c.amount = a.amount + b.amount ∧ c.assetId = a.assetId := by
  simp only [add, bind_eq_ok, require_eq_ok, exists_and_left, exists_const, of_eq_ok]

theorem sub_eq_ok : a.sub b = .ok c ↔
    a.assetId = b.assetId ∧ c.amount = a.amount - b.amount ∧ c.assetId = a.assetId := by
  simp only [sub, bind_eq_ok, require_eq_ok, exists_and_left, exists_const, of_eq_ok]

/-! ### Conversion -/

/-- The amount of `quote` that `a` is worth at the price `base / quote`. The factors are 64-bit
integers, taken as unsigned 128-bit integers. -/
def convert (a base quote : Asset) : Except String Asset := do
  require (0 < base.amount) "b.base.amount.value > 0"
  let result := a.amount % 2 ^ 128 * quote.amount % 2 ^ 128 / base.amount
  require (result ≤ maxShareSupply) "result <= GRAPHENE_MAX_SHARE_SUPPLY"
  of result quote.assetId

/-- `operator * ( const asset&, const price& )`. -/
def mul (a : Asset) (p : Price) : Except String Asset :=
  if a.assetId = p.base.assetId then convert a p.base p.quote
  else if a.assetId = p.quote.assetId then convert a p.quote p.base
  else .error "invalid asset * price"

theorem wide_of_nonneg (ha : 0 ≤ a.amount) (hb : 0 < b.amount) :
    a.amount % 2 ^ 128 * b.amount % 2 ^ 128 = a.amount * b.amount := by
  have ha' : a.amount ≤ 2 ^ 63 := by have := a.fits.2; unfold Safe.max at this; omega
  have hb' : b.amount ≤ 2 ^ 63 := by have := b.fits.2; unfold Safe.max at this; omega
  have hle : a.amount * b.amount ≤ 2 ^ 63 * 2 ^ 63 :=
    Int.mul_le_mul ha' hb' (Int.le_of_lt hb) (by decide)
  have hnonneg : 0 ≤ a.amount * b.amount := Int.mul_nonneg ha (Int.le_of_lt hb)
  rw [Int.emod_eq_of_lt ha (by omega), Int.emod_eq_of_lt hnonneg (by omega)]

/-- The product of a negative amount and a positive one wraps to a number above any supply. -/
theorem wide_of_neg (ha : a.amount < 0) (hb : 0 < b.amount) :
    2 ^ 127 ≤ a.amount % 2 ^ 128 * b.amount % 2 ^ 128 := by
  have ha' : -2 ^ 63 ≤ a.amount := a.fits.1
  have hb' : b.amount ≤ 2 ^ 63 := by have := b.fits.2; unfold Safe.max at this; omega
  have hle : -a.amount * b.amount ≤ 2 ^ 63 * 2 ^ 63 :=
    Int.mul_le_mul (by omega) hb' (Int.le_of_lt hb) (by decide)
  have hpos : 0 < -a.amount * b.amount := Int.mul_pos (by omega) hb
  rw [Int.neg_mul] at hle hpos
  rw [Int.mul_emod, Int.emod_emod, ← Int.mul_emod, ← Int.add_emod_right,
    Int.emod_eq_of_lt (by omega) (by omega)]
  omega

theorem convert_eq_ok {base quote : Asset} (hquote : 0 < quote.amount)
    (h : convert a base quote = .ok c) :
    0 ≤ a.amount ∧ 0 < base.amount ∧ c.assetId = quote.assetId ∧
      c.amount = a.amount * quote.amount / base.amount := by
  simp only [convert, bind_eq_ok, require_eq_ok, exists_and_left, exists_const, of_eq_ok] at h
  obtain ⟨hbase, hle, hamount, hid⟩ := h
  have hnonneg : 0 ≤ a.amount := by
    by_contra hneg
    have hwide := wide_of_neg (Int.not_le.mp hneg) hquote
    have hbase' : base.amount ≤ 2 ^ 63 := by
      have := base.fits.2
      unfold Safe.max at this
      omega
    have hlarge : 2 ^ 64 ≤ a.amount % 2 ^ 128 * quote.amount % 2 ^ 128 / base.amount := by
      rw [Int.le_ediv_iff_mul_le hbase]
      omega
    unfold maxShareSupply at hle
    omega
  rw [wide_of_nonneg hnonneg hquote] at hamount
  exact ⟨hnonneg, hbase, hid, hamount⟩

end Asset

end Whitecoin.Fees
