import Whitecoin.Contract.Gas
import Whitecoin.Fees.Guarantee

/-!
# What a contract did to balances

While a contract runs nothing is written to the chain. What it does to balances is noted in a
`contract_invoke_result`: what contracts have to pay, what they receive, what addresses receive, and
the fees of the transfers. `do_apply_balance` carries the notes out when the operation is applied.

What a contract receives is first set off against what it has to pay, and the other way round, so
that of the two notes for a contract only their difference has a meaning.
-/

namespace Whitecoin.Contract

open Check Ledger Fees

/-- The keys of the notes. -/
abbrev Index := Address × AssetId

/-- `contract_invoke_result`, as far as it is about balances. -/
structure InvokeResult where
  contractWithdraw : Book Index
  /-- Balances of contracts that were read already. -/
  contractBalances : Book Index
  depositToAddress : Book Index
  depositContract : Book Index
  transferFees : Book AssetId
  execSucceed : Bool

namespace InvokeResult

/-- A new result, and that of `reset`. -/
def empty : InvokeResult := ⟨∅, ∅, ∅, ∅, ∅, true⟩

/-- `set_failed`. -/
def failed : InvokeResult := { empty with execSucceed := false }

def succeeded (r : InvokeResult) : InvokeResult := { r with execSucceed := true }

/-- What the notes come to for an address. -/
def net (r : InvokeResult) (a : Address) (i : AssetId) : ℤ :=
  r.depositContract.amount (a, i) - r.contractWithdraw.amount (a, i) +
    r.depositToAddress.amount (a, i)

def fee (r : InvokeResult) (i : AssetId) : ℤ := r.transferFees.amount i

@[simp] theorem net_empty (a : Address) (i : AssetId) : empty.net a i = 0 := rfl

@[simp] theorem fee_empty (i : AssetId) : empty.fee i = 0 := rfl

end InvokeResult

inductive ContractType where
  | normal
  | native
  | basedOnTemplate
  deriving DecidableEq

structure ContractObject where
  typeOfContract : ContractType
  ownerAddress : Address
  contractName : String
  inheritFrom : Address
  /-- The abi of the code, or the apis of the native contract. -/
  apis : List String
  offlineApis : List String
  /-- `has_native_contract_with_key`. -/
  nativeKeyKnown : Bool

/-- Public keys. -/
abbrev PubKey := ℕ

/-- What the evaluators read from the chain and from the node. -/
structure ChainView where
  contracts : Address → Option ContractObject
  /-- `has_contract_of_name`. -/
  nameTaken : String → Bool
  assetExists : AssetId → Bool
  /-- `get_contract_transfer_fee_rate`. -/
  transferFeeRate : ℤ
  /-- The share of an amount at a rate, which the code computes in floating point. -/
  feeShare : ℤ → ℤ → ℤ
  feeShare_nonneg : ∀ {amount rate}, 0 ≤ amount → 0 ≤ rate → 0 ≤ feeShare amount rate
  /-- `get_min_gas_price`, if the node checks it. -/
  minGasPrice : Option GasPrice
  throwOverLimit : Bool
  /-- The addresses of version `CONTRACT`. -/
  isContract : Address → Bool
  /-- `address(pubkey)`. -/
  addressOf : PubKey → Address
  addressOf_normal : ∀ key, isContract (addressOf key) = false

/-- `CONTRACT_MAX_TRASACTION_FEE_RATE`. -/
def maxTransferFeeRate : ℤ := 100000

/-- What all operations on contracts have. -/
structure OpHeader where
  fee : Asset
  guaranteeId : Option GuaranteeId
  /-- `init_cost` or `invoke_cost`. -/
  limit : GasCount
  gasPrice : GasPrice
  /-- `owner_addr` or `caller_addr`, who pays the fee. -/
  callerAddr : Address
  callerPubkey : PubKey
  contractId : Address

def OpHeader.terms (v : ChainView) (o : OpHeader) : GasTerms :=
  ⟨o.gasPrice, o.limit, v.throwOverLimit⟩

/-- The first check of every evaluator. -/
def OpHeader.checkGasPrice (v : ChainView) (o : OpHeader) : Except String Unit :=
  require (v.minGasPrice.all (· ≤ o.gasPrice)) "gas is too cheap"

/-! ### Writing notes -/

section Notes

variable {κ : Type} [DecidableEq κ] {b b' : Book κ} {k : κ} {n rest : ℤ}

/-- Set an amount off against an entry: the new book, and what is left of the amount. -/
def setOff (b : Book κ) (k : κ) (n : ℤ) : Except String (Book κ × ℤ) :=
  match b.lookup k with
  | none => .ok (b, n)
  | some m =>
    if n ≤ m then do return (b.insert k (← Safe.sub m n), 0)
    else do return (b.insert k 0, ← Safe.sub n m)

/-- Add to an entry, which counts as zero if it is missing. -/
def addTo (b : Book κ) (k : κ) (n : ℤ) : Except String (Book κ) := do
  return b.insert k (← Safe.add (b.amount k) n)

theorem amount_setOff (h : setOff b k n = .ok (b', rest)) (j : κ) :
    b'.amount j = b.amount j - if j = k then n - rest else 0 := by
  unfold setOff at h
  split at h
  next hk =>
    obtain ⟨rfl, rfl⟩ := Prod.mk.inj (Except.ok.inj h)
    simp
  next m hk =>
    have hm := Book.amount_of_lookup hk
    split at h
    all_goals
      simp only [bind_eq_ok, pure_eq_ok, Prod.mk.injEq] at h
      obtain ⟨d, hd, rfl, rfl⟩ := h
      rw [Book.amount_insert]
      split
      next hj =>
        subst hj
        have := Safe.sub_eq_ok hd
        omega
      next => omega

theorem amount_addTo (h : addTo b k n = .ok b') (j : κ) :
    b'.amount j = b.amount j + if j = k then n else 0 := by
  simp only [addTo, bind_eq_ok, pure_eq_ok] at h
  obtain ⟨m, hm, rfl⟩ := h
  rw [Book.amount_insert]
  split
  next hj =>
    subst hj
    exact Safe.add_eq_ok hm
  next => simp

end Notes

variable (v : ChainView) (l : Accounts)

def depositToContract (r : InvokeResult) (contract : Address) (a : Asset) :
    Except String InvokeResult := do
  require ((v.contracts contract).isSome = true) "contract_not_exsited"
  let (contractWithdraw, toDeposit) ← setOff r.contractWithdraw (contract, a.assetId) a.amount
  let r := { r with contractWithdraw }
  if toDeposit = 0 then return r
  else return { r with
    depositContract := ← addTo r.depositContract (contract, a.assetId) toDeposit }

/-- The first half of the two functions that transfer: take an amount from a contract. Whether it
has enough is decided with the balance that was read first. -/
def withdrawFrom (r : InvokeResult) (contract : Address) (a : Asset) :
    Except String (Bool × InvokeResult) := do
  let index := (contract, a.assetId)
  let balance := (r.contractBalances.lookup index).getD (l.balance contract a.assetId)
  let r := { r with contractBalances := r.contractBalances.insert index balance }
  let deposited ← Safe.add balance (r.depositContract.amount index)
  let allBalance ← Safe.sub deposited (r.contractWithdraw.amount index)
  if allBalance < a.amount then return (false, r)
  else
    let (depositContract, toWithdraw) ← setOff r.depositContract index a.amount
    let contractWithdraw ← addTo r.contractWithdraw index toWithdraw
    return (true, { r with depositContract, contractWithdraw })

/-- The fee of a transfer. The owner of the contract receives without one. -/
def transferFee (contract toAddr : Address) (amount : ℤ) : Except String ℤ := do
  let con ← found (v.contracts contract) "get_contract"
  if con.ownerAddress = toAddr then return 0
  else
    require (0 ≤ v.transferFeeRate ∧ v.transferFeeRate < maxTransferFeeRate)
      "(fee_rate >= 0) && (fee_rate < CONTRACT_MAX_TRASACTION_FEE_RATE)"
    return v.feeShare amount v.transferFeeRate

/-- `transfer_to_address`; `false` if it throws `contract_insufficient_balance`. -/
def transferToAddress (r : InvokeResult) (contract : Address) (a : Asset) (toAddr : Address) :
    Except String (Bool × InvokeResult) := do
  require ((v.contracts contract).isSome = true) "get_contract"
  let (enough, r) ← withdrawFrom l r contract a
  if enough = false then return (false, r)
  else
    let transferFeeAmount ← transferFee v contract toAddr a.amount
    let transferAmount ← Safe.sub a.amount transferFeeAmount
    let depositToAddress ← addTo r.depositToAddress (toAddr, a.assetId) transferAmount
    let r := { r with depositToAddress }
    if 0 < transferFeeAmount then
      return (true, { r with
        transferFees := ← addTo r.transferFees a.assetId transferFeeAmount })
    else return (true, r)

/-- `get_contract_balance`, with the balance that it notes as read. -/
def getContractBalance (r : InvokeResult) (contract : Address) (assetId : AssetId) :
    Except String (ℤ × InvokeResult) := do
  let index := (contract, assetId)
  let balance := (r.contractBalances.lookup index).getD (l.balance contract assetId)
  let r := { r with contractBalances := r.contractBalances.insert index balance }
  let deposited ← Safe.add balance (r.depositContract.amount index)
  let runningBalance ← Safe.sub deposited (r.contractWithdraw.amount index)
  return (runningBalance, r)

/-- `transfer_to_address_only_update_invoke_result`, for native contracts. There is no fee. -/
def transferToAddressOnlyUpdateInvokeResult (r : InvokeResult) (contract : Address) (a : Asset)
    (toAddr : Address) : Except String InvokeResult := do
  let (enough, r) ← withdrawFrom l r contract a
  require (enough = true) "insufficient contract balance"
  return { r with depositToAddress := ← addTo r.depositToAddress (toAddr, a.assetId) a.amount }

/-! ### Carrying the notes out -/

namespace InvokeResult

/-- The sums of the entries of a book that are not zero, by asset. -/
def totals (b : Book Index) (sums : Book AssetId) : Except String (Book AssetId) :=
  b.entries.foldlM (fun sums e => if e.2 = 0 then .ok sums else addTo sums e.1.2 e.2) sums

/-- `contract_invoke_result::validate`. The fees are added to a copy of the sums only. -/
def validate (r : InvokeResult) : Except String Unit := do
  let inTotals ← totals r.contractWithdraw ∅
  let outTotals ← totals r.depositToAddress (← totals r.depositContract ∅)
  forM r.transferFees.entries fun e => do
    let _ ← Safe.add (outTotals.amount e.1) e.2
  forM outTotals.entries fun e =>
    require (e.2 = 0 ∨ ∃ total ∈ inTotals.lookup e.1, e.2 ≤ total)
      "contract evaluate result must in >= out + fee"

/-- One loop of `do_apply_balance`. -/
def adjustAll (sign : ℤ → Except String ℤ) (b : Book Index) (l : Accounts) :
    Except String Accounts :=
  b.entries.foldlM (fun l e => if e.2 = 0 then .ok l else do
    l.adjustBalance e.1.1 e.1.2 (← sign e.2) false) l

/-- `do_apply_balance`. -/
def applyBalance (r : InvokeResult) (l : Accounts) : Except String Accounts := do
  let l ← adjustAll .ok r.depositContract l
  let l ← adjustAll (Safe.sub 0) r.contractWithdraw l
  adjustAll .ok r.depositToAddress l

/-- The end of `pay_fee_and_refund`: the fees of the transfers are collected. -/
def collectFees (r : InvokeResult) (s : FeeState) : Except String FeeState :=
  r.transferFees.entries.foldlM (fun s e => do s.collect (← Asset.of e.2 e.1)) s

end InvokeResult

/-! ### What the functions come to -/

variable {v l} {r r' : InvokeResult} {contract toAddr : Address} {a : Asset}

theorem depositToContract_eq_ok (h : depositToContract v r contract a = .ok r') :
    (∀ c i, r'.net c i = r.net c i + if c = contract ∧ i = a.assetId then a.amount else 0) ∧
      r'.transferFees = r.transferFees ∧ r'.execSucceed = r.execSucceed := by
  simp only [depositToContract, bind_eq_ok, require_eq_ok, exists_and_left, exists_const,
    Prod.exists] at h
  obtain ⟨-, withdraw, toDeposit, hoff, h⟩ := h
  have hwithdraw := amount_setOff hoff
  split at h
  next hzero =>
    obtain rfl := pure_eq_ok.mp h
    refine ⟨fun c i => ?_, rfl, rfl⟩
    simp only [InvokeResult.net, hwithdraw, Prod.mk.injEq]
    split <;> omega
  next =>
    simp only [bind_eq_ok, pure_eq_ok] at h
    obtain ⟨deposit, hadd, rfl⟩ := h
    refine ⟨fun c i => ?_, rfl, rfl⟩
    simp only [InvokeResult.net, hwithdraw, amount_addTo hadd, Prod.mk.injEq]
    split <;> omega

/-- Either there is not enough and only the balance that was read is noted, or there is and the two
notes of the contract change. -/
theorem withdrawFrom_cases {enough : Bool}
    (h : withdrawFrom l r contract a = .ok (enough, r')) :
    let index := (contract, a.assetId)
    let balance := (r.contractBalances.lookup index).getD (l.balance contract a.assetId)
    let r₁ := { r with contractBalances := r.contractBalances.insert index balance }
    enough = false ∧ r' = r₁ ∨
    enough = true ∧
      a.amount ≤ balance + r.depositContract.amount index - r.contractWithdraw.amount index ∧
      ∃ deposit rest withdraw, setOff r.depositContract index a.amount = .ok (deposit, rest) ∧
        addTo r.contractWithdraw index rest = .ok withdraw ∧
        r' = { r₁ with depositContract := deposit, contractWithdraw := withdraw } := by
  simp only [withdrawFrom, bind_eq_ok] at h
  obtain ⟨deposited, hdeposited, all, hall, h⟩ := h
  split at h
  next =>
    obtain ⟨rfl, rfl⟩ := Prod.mk.inj (pure_eq_ok.mp h)
    exact .inl ⟨rfl, rfl⟩
  next hle =>
    simp only [bind_eq_ok, Prod.exists, pure_eq_ok, Prod.mk.injEq] at h
    obtain ⟨deposit, rest, hoff, withdraw, hadd, rfl, rfl⟩ := h
    rw [Safe.sub_eq_ok hall, Safe.add_eq_ok hdeposited] at hle
    exact .inr ⟨rfl, Int.not_lt.mp hle, deposit, rest, withdraw, hoff, hadd, rfl⟩

theorem withdrawFrom_eq_ok {enough : Bool}
    (h : withdrawFrom l r contract a = .ok (enough, r')) :
    (∀ c i, r'.net c i = r.net c i -
      if enough = true ∧ c = contract ∧ i = a.assetId then a.amount else 0) ∧
      r'.transferFees = r.transferFees ∧ r'.execSucceed = r.execSucceed := by
  obtain ⟨rfl, rfl⟩ | ⟨rfl, -, deposit, rest, withdraw, hoff, hadd, rfl⟩ := withdrawFrom_cases h
  · exact ⟨fun c i => by simp [InvokeResult.net], rfl, rfl⟩
  · refine ⟨fun c i => ?_, rfl, rfl⟩
    simp only [InvokeResult.net, amount_setOff hoff, amount_addTo hadd, Prod.mk.injEq, true_and]
    split <;> omega

theorem transferFee_nonneg {amount fee : ℤ} (hamount : 0 ≤ amount)
    (h : transferFee v contract toAddr amount = .ok fee) : 0 ≤ fee := by
  simp only [transferFee, bind_eq_ok] at h
  obtain ⟨con, -, h⟩ := h
  split at h
  next => exact (pure_eq_ok.mp h).le
  next =>
    simp only [bind_eq_ok, require_eq_ok, exists_const, pure_eq_ok] at h
    obtain ⟨⟨hrate, -⟩, rfl⟩ := h
    exact v.feeShare_nonneg hamount hrate

theorem net_credit {r₁ : InvokeResult} {fee n : ℤ} {deposit : Book Index}
    (hwithdraw : withdrawFrom l r contract a = .ok (true, r₁)) (hn : n = a.amount - fee)
    (hadd : addTo r₁.depositToAddress (toAddr, a.assetId) n = .ok deposit) (c : Address)
    (i : AssetId) :
    { r₁ with depositToAddress := deposit }.net c i =
      r.net c i + Payment.effect ⟨contract, toAddr, a.assetId, a.amount, fee⟩ c i := by
  have hnet := (withdrawFrom_eq_ok hwithdraw).1 c i
  simp only [InvokeResult.net, true_and] at hnet ⊢
  rw [amount_addTo hadd, hn, Payment.effect]
  by_cases hi : i = a.assetId
  · simp only [hi, and_true, Prod.mk.injEq, if_true] at hnet ⊢
    omega
  · simp only [hi, and_false, Prod.mk.injEq, if_false] at hnet ⊢
    omega

theorem transferToAddress_cases {enough : Bool} (hamount : 0 ≤ a.amount)
    (h : transferToAddress v l r contract a toAddr = .ok (enough, r')) :
    ∃ r₁, withdrawFrom l r contract a = .ok (enough, r₁) ∧
      (enough = false ∧ r' = r₁ ∨
      enough = true ∧ ∃ fee n deposit fees, transferFee v contract toAddr a.amount = .ok fee ∧
        n = a.amount - fee ∧
        addTo r₁.depositToAddress (toAddr, a.assetId) n = .ok deposit ∧
        (∀ i, fees.amount i = r₁.transferFees.amount i + if i = a.assetId then fee else 0) ∧
        r' = { r₁ with depositToAddress := deposit, transferFees := fees }) := by
  simp only [transferToAddress, bind_eq_ok, require_eq_ok, exists_and_left, exists_const,
    Prod.exists] at h
  obtain ⟨-, enough', r₁, hwithdraw, h⟩ := h
  split at h
  next hnot =>
    obtain ⟨rfl, rfl⟩ := Prod.mk.inj (pure_eq_ok.mp h)
    exact ⟨r₁, hnot ▸ hwithdraw, .inl ⟨rfl, rfl⟩⟩
  next henough =>
    have henough : enough' = true := Bool.not_eq_false _ ▸ henough
    simp only [bind_eq_ok] at h
    obtain ⟨fee, hfee, rest, hrest, deposit, hadd, h⟩ := h
    have hn := Safe.sub_eq_ok hrest
    split at h
    next hpos =>
      simp only [bind_eq_ok, pure_eq_ok, Prod.mk.injEq] at h
      obtain ⟨fees, haddfee, rfl, rfl⟩ := h
      exact ⟨r₁, henough ▸ hwithdraw,
        .inr ⟨rfl, fee, rest, deposit, fees, hfee, hn, hadd, amount_addTo haddfee, rfl⟩⟩
    next hpos =>
      obtain ⟨rfl, rfl⟩ := Prod.mk.inj (pure_eq_ok.mp h)
      have hzero : fee = 0 := by
        have := transferFee_nonneg hamount hfee
        omega
      refine ⟨r₁, henough ▸ hwithdraw,
        .inr ⟨rfl, fee, rest, deposit, r₁.transferFees, hfee, hn, hadd, fun i => ?_, rfl⟩⟩
      rw [hzero, ite_self, Int.add_zero]

/-- **A transfer is a payment with a fee**, or nothing if the contract has not enough. -/
theorem transferToAddress_eq_ok {enough : Bool} (hamount : 0 ≤ a.amount)
    (h : transferToAddress v l r contract a toAddr = .ok (enough, r')) :
    r'.execSucceed = r.execSucceed ∧
    if enough then ∃ fee, transferFee v contract toAddr a.amount = .ok fee ∧
      (∀ c i, r'.net c i =
        r.net c i + Payment.effect ⟨contract, toAddr, a.assetId, a.amount, fee⟩ c i) ∧
      ∀ i, r'.fee i =
        r.fee i + Payment.charge (⟨contract, toAddr, a.assetId, a.amount, fee⟩ : Payment _ _) i
    else (∀ c i, r'.net c i = r.net c i) ∧ ∀ i, r'.fee i = r.fee i := by
  obtain ⟨r₁, hwithdraw, hcases⟩ := transferToAddress_cases hamount h
  obtain ⟨hnet, hfees, hsucceed⟩ := withdrawFrom_eq_ok hwithdraw
  obtain ⟨rfl, rfl⟩ | ⟨rfl, fee, n, deposit, fees, hfee, hn, hadd, hcharge, rfl⟩ := hcases
  · refine ⟨hsucceed, fun c i => ?_, fun i => by rw [InvokeResult.fee, hfees]; rfl⟩
    simp [hnet]
  · refine ⟨hsucceed, fee, hfee, net_credit hwithdraw hn hadd, fun i => ?_⟩
    rw [InvokeResult.fee, hcharge, hfees]
    rfl

theorem transferToAddressOnlyUpdateInvokeResult_eq_ok
    (h : transferToAddressOnlyUpdateInvokeResult l r contract a toAddr = .ok r') :
    (∀ c i, r'.net c i = r.net c i + Payment.effect ⟨contract, toAddr, a.assetId, a.amount, 0⟩ c i) ∧
      r'.transferFees = r.transferFees := by
  simp only [transferToAddressOnlyUpdateInvokeResult, bind_eq_ok, require_eq_ok, exists_and_left,
    exists_const, Prod.exists, pure_eq_ok] at h
  obtain ⟨enough, r₁, hwithdraw, rfl, deposit, hadd, rfl⟩ := h
  exact ⟨net_credit hwithdraw (Int.sub_zero _).symm hadd, (withdrawFrom_eq_ok hwithdraw).2.1⟩

namespace InvokeResult

theorem adjustAll_eq_ok {sign : ℤ → Except String ℤ} {σ : ℤ} {b : Book Index} {l l' : Accounts}
    (hσ : σ = 1 ∨ σ = -1) (hsign : ∀ {n m}, sign n = .ok m → m = σ * n)
    (h : adjustAll sign b l = .ok l') :
    (∀ c i, l'.balance c i = l.balance c i + σ * b.amount (c, i)) ∧
      ∀ c i, l'.frozen c i = l.frozen c i := by
  refine ⟨fun c i => ?_, fun c i => ?_⟩
  · have hsum := Book.foldlM_amount (g := fun l => σ * l.balance c i) (k := (c, i)) ?_ h
    · obtain rfl | rfl := hσ <;> omega
    · intro l l' e h
      split at h
      next hzero =>
        obtain rfl := Except.ok.inj h
        simp [hzero]
      next =>
        obtain ⟨m, hm, h⟩ := bind_eq_ok.mp h
        rw [Accounts.balance_adjustBalance h, hsign hm]
        simp only [Prod.ext_iff, eq_comm]
        obtain rfl | rfl := hσ <;> split <;> omega
  · refine foldlM_induction (P := fun l' => l'.frozen c i = l.frozen c i) rfl ?_ h
    intro l l' e _ hl h
    split at h
    next =>
      obtain rfl := Except.ok.inj h
      exact hl
    next =>
      obtain ⟨m, -, h⟩ := bind_eq_ok.mp h
      rw [Accounts.frozen_adjustBalance h nofun, hl]
      simp

/-- **The notes are carried out**: every balance changes by what they come to. -/
theorem applyBalance_eq_ok {l l' : Accounts} (h : r.applyBalance l = .ok l') :
    (∀ c i, l'.balance c i = l.balance c i + r.net c i) ∧
      ∀ c i, l'.frozen c i = l.frozen c i := by
  simp only [applyBalance, bind_eq_ok] at h
  obtain ⟨l₁, h₁, l₂, h₂, h₃⟩ := h
  have hplus : ∀ {n m : ℤ}, (Except.ok n : Except String ℤ) = .ok m → m = 1 * n := fun h => by
    rw [Int.one_mul]
    exact (Except.ok.inj h).symm
  have hminus : ∀ {n m : ℤ}, Safe.sub 0 n = .ok m → m = -1 * n := fun h => by
    rw [Safe.sub_eq_ok h]
    omega
  obtain ⟨b₁, f₁⟩ := adjustAll_eq_ok (.inl rfl) hplus h₁
  obtain ⟨b₂, f₂⟩ := adjustAll_eq_ok (.inr rfl) hminus h₂
  obtain ⟨b₃, f₃⟩ := adjustAll_eq_ok (.inl rfl) hplus h₃
  refine ⟨fun c i => ?_, fun c i => by rw [f₃, f₂, f₁]⟩
  rw [b₃, b₂, b₁, net]
  omega

theorem collectFees_eq_ok {s s' : FeeState} (h : r.collectFees s = .ok s') :
    (∀ i, s'.collected i = s.collected i + r.fee i) ∧ s'.accounts = s.accounts := by
  refine ⟨fun i => Book.foldlM_amount (g := fun s => s.collected i) ?_ h, ?_⟩
  · intro s s' e h
    simp only [bind_eq_ok, FeeState.collect, pure_eq_ok] at h
    obtain ⟨a, ha, total, htotal, rfl⟩ := h
    obtain ⟨hamount, hid⟩ := Asset.of_eq_ok.mp ha
    show Function.update s.collected a.assetId total i = _
    rw [Function.update_apply, Safe.add_eq_ok htotal, hamount, hid]
    simp only [eq_comm]
    split
    next hi => rw [hi]
    next => rw [Int.add_zero]
  · refine foldlM_induction (P := fun s' => s'.accounts = s.accounts) rfl ?_ h
    intro s s' e _ hs h
    simp only [bind_eq_ok, FeeState.collect, pure_eq_ok] at h
    obtain ⟨a, -, total, -, rfl⟩ := h
    exact hs

end InvokeResult

end Whitecoin.Contract
