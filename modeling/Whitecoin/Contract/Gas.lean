import Whitecoin.Lib.Safe
import Mathlib.Data.Nat.Basic

/-!
# The price of gas

An operation on a contract names a limit of gas and a price, and every hundred units of gas, or part
of a hundred, cost the price. `count_gas_fee` computes the product in unsigned 64-bit integers,
reads the result as a signed one and refuses it if it is negative. So of the exact product it
returns the rest modulo `2 ^ 64`, when that is below `2 ^ 63`.

The evaluators of the five operations end alike. If the contract ran, the fee for the gas that was
not used is returned; if it ran out of gas nothing is; and if there was nothing to run the fee for
the whole limit is returned.
-/

namespace Whitecoin.Contract

open Check

/-- `gas_price_type`. -/
abbrev GasPrice := UInt64

/-- `gas_count_type`. -/
abbrev GasCount := UInt64

/-- `XWC_MIN_GAS_PRICE`. -/
def minGasPrice : GasPrice := 0

/-- `XWC_MAX_GAS_LIMIT`. -/
def maxGasLimit : GasCount := 100000000

/-- What an amount of gas costs, over unbounded integers. -/
def exactGasFee (price : GasPrice) (count : GasCount) : ℕ := (count.toNat + 99) / 100 * price.toNat

def countGasFee (price : GasPrice) (count : GasCount) : Except String ℤ := do
  let fee := ((count / 100 + if count % 100 = 0 then 0 else 1) * price).toInt64.toInt
  require (0 ≤ fee) "gas fee wrong"
  return fee

theorem toNat_hundreds (count : GasCount) :
    (count / 100 + if count % 100 = 0 then 0 else 1).toNat = (count.toNat + 99) / 100 := by
  have hlt := count.toNat_lt
  have hmod : count % 100 = 0 ↔ count.toNat % 100 = 0 := by
    rw [← UInt64.toNat_inj, UInt64.toNat_mod]
    rfl
  have hdiv : (count / 100).toNat = count.toNat / 100 := UInt64.toNat_div ..
  rw [UInt64.toNat_add, hdiv]
  split
  next h =>
    have := hmod.mp h
    show (count.toNat / 100 + 0) % 2 ^ 64 = _
    omega
  next h =>
    have := mt hmod.mpr h
    show (count.toNat / 100 + 1) % 2 ^ 64 = _
    omega

/-- **What the code computes is exact modulo `2 ^ 64`.** -/
theorem countGasFee_eq_ok {price : GasPrice} {count : GasCount} {fee : ℤ} :
    countGasFee price count = .ok fee ↔
      fee = exactGasFee price count % 2 ^ 64 ∧ fee < 2 ^ 63 := by
  have hvalue : ((count / 100 + if count % 100 = 0 then 0 else 1) * price).toInt64.toInt =
      (exactGasFee price count : ℤ).bmod (2 ^ 64) := by
    have hbits : ∀ x : UInt64, x.toInt64.toInt = (x.toNat : ℤ).bmod (2 ^ 64) := fun x =>
      BitVec.toInt_eq_toNat_bmod x.toBitVec
    rw [hbits, UInt64.toNat_mul, toNat_hundreds, Int.natCast_emod]
    exact Int.emod_bmod ..
  simp only [countGasFee, hvalue, bind_eq_ok, require_eq_ok, exists_const, pure_eq_ok]
  rw [Int.bmod_def]
  split <;> omega

/-! ### How an evaluator ends -/

/-- How the execution of a contract ends. -/
inductive Ending where
  | done (gasUsed : GasCount)
  | outOfGas
  | failed (message : String)

/-- The terms on which an operation runs a contract. -/
structure GasTerms where
  gasPrice : GasPrice
  limit : GasCount
  /-- The node rejects an operation that runs out of gas. -/
  throwOverLimit : Bool

/-- What an evaluator leaves for `pay_fee_and_refund`: `unspent_fee`, `gas_count`, and if it kept
the operation in `origin_op`. -/
structure Spent where
  unspentFee : ℤ
  gasCount : GasCount
  keepsOperation : Bool

variable {α : Type} {t : GasTerms} {checked keeps : Bool} {ending : Ending}
  {body : Except String α} {check : α → Except String Unit} {failed : α} {r : α} {spent : Spent}

/-- The end of an evaluator that runs a contract. Not every evaluator compares the gas that was used
with the limit, and not every one checks the result. -/
def conclude (t : GasTerms) (checked keeps : Bool) (ending : Ending) (body : Except String α)
    (check : α → Except String Unit) (failed : α) : Except String (α × Spent) :=
  match ending with
  | .done gasUsed => do
    let r ← body
    require (checked = true → gasUsed ≤ t.limit ∧ 0 < gasUsed)
      "costs of execution can be only between 0 and invoke_cost"
    let unspentFee ← Safe.sub (← countGasFee t.gasPrice t.limit) (← countGasFee t.gasPrice gasUsed)
    check r
    return (r, ⟨unspentFee, gasUsed, keeps⟩)
  | .outOfGas =>
    if t.throwOverLimit then .error "contract_run_out_of_money"
    else .ok (failed, ⟨0, t.limit, keeps⟩)
  | .failed message => .error message

/-- The end of an evaluator that has nothing to run. -/
def idle (t : GasTerms) (r : α) : Except String (α × Spent) := do
  return (r, ⟨← countGasFee t.gasPrice t.limit, 0, false⟩)

theorem conclude_eq_ok (h : conclude t checked keeps ending body check failed = .ok (r, spent)) :
    (∃ gasUsed limitFee usedFee, ending = .done gasUsed ∧ body = .ok r ∧
      (checked = true → gasUsed ≤ t.limit ∧ 0 < gasUsed) ∧
      countGasFee t.gasPrice t.limit = .ok limitFee ∧ countGasFee t.gasPrice gasUsed = .ok usedFee ∧
      spent = ⟨limitFee - usedFee, gasUsed, keeps⟩) ∨
    (ending = .outOfGas ∧ r = failed ∧ spent = ⟨0, t.limit, keeps⟩) := by
  cases ending with
  | done gasUsed =>
    simp only [conclude, bind_eq_ok, require_eq_ok, exists_and_left, exists_const, pure_eq_ok,
      Prod.mk.injEq] at h
    obtain ⟨r', hbody, hchecked, limitFee, hlimit, usedFee, hused, unspent, hsub, _, -, rfl, rfl⟩ := h
    rw [Safe.sub_eq_ok hsub]
    exact .inl ⟨gasUsed, limitFee, usedFee, rfl, hbody, hchecked, hlimit, hused, rfl⟩
  | outOfGas =>
    simp only [conclude] at h
    split at h
    · cases h
    · obtain ⟨rfl, rfl⟩ := Prod.mk.inj (Except.ok.inj h)
      exact .inr ⟨rfl, rfl, rfl⟩
  | failed message => cases h

theorem idle_eq_ok {r' : α} (h : idle t r' = .ok (r, spent)) :
    r = r' ∧ ∃ limitFee, countGasFee t.gasPrice t.limit = .ok limitFee ∧
      spent = ⟨limitFee, 0, false⟩ := by
  simp only [idle, bind_eq_ok, pure_eq_ok, Prod.mk.injEq] at h
  obtain ⟨limitFee, hlimit, rfl, rfl⟩ := h
  exact ⟨rfl, limitFee, hlimit, rfl⟩

end Whitecoin.Contract
