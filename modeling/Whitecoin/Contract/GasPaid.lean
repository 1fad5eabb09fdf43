import Whitecoin.Fees.Escrow
import Whitecoin.Contract.Transfer

/-!
# Is the gas paid for?

An operation on a contract has to pay a fee that covers the gas up to its limit, and gets back what
it did not use. The fee is computed three times: for the whole limit by `calculate_fee`, which the
check of the fee uses, and for the limit and for the gas that was used by the evaluator, whose
difference is returned.

There are three ways in which gas is not paid for.

* The product of hundreds of gas and the price wraps around. The fee that is asked for is then the
  rest modulo `2 ^ 64`. There is no bound on the price.
* The check of the fee compares amounts and does not look at the asset. A fee in another asset is not
  taken from anybody, and the refund is paid in the core asset nevertheless.
* The checks of an invocation of a contract stand under `if (!offline)`. The operation has no such
  field; the name is that of a constant of the namespace, which is not zero, so that nothing is
  checked. A limit of zero is accepted, for which the script runs without a limit, and the refund is
  negative.
-/

namespace Whitecoin.Contract

open Check Ledger Fees

/-! ### The operations -/

structure RegisterOp extends OpHeader where
  /-- `contract_code != Code()`. -/
  hasCode : Bool
  inheritFrom : Address
  /-- `calculate_contract_id()`, a hash of the code and the time. -/
  calculatedId : Address

structure NativeRegisterOp extends OpHeader where
  /-- `has_native_contract_with_key(native_contract_key)`. -/
  nativeKeyKnown : Bool
  calculatedId : Address

structure InvokeOp extends OpHeader where
  contractApi : String

structure UpgradeOp extends OpHeader where
  contractName : String
  contractDesc : String

inductive ContractOp where
  | register (o : RegisterOp)
  | registerNative (o : NativeRegisterOp)
  | invoke (o : InvokeOp)
  | upgrade (o : UpgradeOp)
  | transfer (o : TransferOp)

def ContractOp.header : ContractOp → OpHeader
  | .register o => o.toOpHeader
  | .registerNative o => o.toOpHeader
  | .invoke o => o.toOpHeader
  | .upgrade o => o.toOpHeader
  | .transfer o => o.toOpHeader

/-- `ContractApiType::offline`, to which the name `offline` refers. -/
def offline : ℕ := 2

variable (v : ChainView) (l : Accounts)

def RegisterOp.validate (o : RegisterOp) : Except String Unit := do
  require (v.isContract o.contractId = true) "contract_id.version == addressVersion::CONTRACT"
  require (0 < o.limit ∧ o.limit ≤ maxGasLimit)
    "init_cost > 0 && init_cost <= XWC_MAX_GAS_LIMIT"
  require (minGasPrice ≤ o.gasPrice) "gas_price >= XWC_MIN_GAS_PRICE"
  require (o.contractId = o.calculatedId) "contract_id == calculate_contract_id()"
  require (o.callerAddr ≠ 0) "owner_addr != address()"
  require (v.addressOf o.callerPubkey = o.callerAddr) "address(owner_pubkey) == owner_addr"
  require (o.contractId ≠ 0) "contract_id != address()"
  require (o.hasCode = true ∨ o.inheritFrom ≠ 0)
    "(contract_code != Code()) || (inherit_from != address())"

def NativeRegisterOp.validate (o : NativeRegisterOp) : Except String Unit := do
  require (0 < o.limit ∧ o.limit ≤ maxGasLimit)
    "init_cost > 0 && init_cost <= XWC_MAX_GAS_LIMIT"
  require (minGasPrice ≤ o.gasPrice) "gas_price >= XWC_MIN_GAS_PRICE"
  require (o.contractId = o.calculatedId) "contract_id == calculate_contract_id()"
  require (o.nativeKeyKnown = true) "has_native_contract_with_key(native_contract_key)"
  require (v.isContract o.contractId = true) "contract_id.version == addressVersion::CONTRACT"

def InvokeOp.validate (o : InvokeOp) : Except String Unit :=
  if offline = 0 then do
    require (v.isContract o.contractId = true) "contract_id.version == addressVersion::CONTRACT"
    require (o.callerAddr ≠ 0) "caller_addr != address()"
    require (v.addressOf o.callerPubkey = o.callerAddr) "address(caller_pubkey) == caller_addr"
    require (o.contractId ≠ 0) "contract_id != address()"
    require (0 < o.limit ∧ o.limit ≤ maxGasLimit)
      "invoke_cost > 0 && invoke_cost <= XWC_MAX_GAS_LIMIT"
    require (minGasPrice ≤ o.gasPrice) "gas_price >= XWC_MIN_GAS_PRICE"
  else .ok ()

/-- `contract_upgrade_operation::contract_name_check`: letters, and digits after the first place. -/
def contractNameCheck (name : String) : Except String Unit := do
  require (2 ≤ name.utf8ByteSize ∧ name.utf8ByteSize ≤ 30)
    "contract_name.length() >= 2 && contract_name.length() <= 30"
  forM name.toList.zipIdx fun (c, pos) =>
    require (('a' ≤ c ∧ c ≤ 'z') ∨ ('A' ≤ c ∧ c ≤ 'Z') ∨ (('0' ≤ c ∧ c ≤ '9') ∧ pos ≠ 0))
      "invalid_contract_name"

def UpgradeOp.validate (o : UpgradeOp) : Except String Unit := do
  require (0 < o.limit ∧ o.limit ≤ maxGasLimit)
    "invoke_cost > 0 && invoke_cost <= XWC_MAX_GAS_LIMIT"
  require (minGasPrice ≤ o.gasPrice) "gas_price >= XWC_MIN_GAS_PRICE"
  contractNameCheck o.contractName
  require (o.contractDesc.utf8ByteSize ≤ 200) "contract_desc.length() <= 200"
  require (o.callerAddr ≠ 0) "caller_addr != address()"
  require (v.addressOf o.callerPubkey = o.callerAddr) "address(caller_pubkey) == caller_addr"
  require (o.contractId ≠ 0) "contract_id != address()"
  require (v.isContract o.contractId = true) "contract_id.version == addressVersion::CONTRACT"

def ContractOp.validate : ContractOp → Except String Unit
  | .register o => o.validate v
  | .registerNative o => o.validate v
  | .invoke o => o.validate v
  | .upgrade o => o.validate v
  | .transfer o => o.validate v

/-! ### The fee that is asked for -/

/-- `fee_parameters_type` of an operation. -/
structure FeeParameters where
  fee : ℤ
  pricePerKbyte : ℕ
  fee_nonneg : 0 ≤ fee

structure FeeSchedule where
  parameters : ContractOp → FeeParameters
  scale : ℕ

/-- `calculate_data_fee`. -/
def calculateDataFee (bytes pricePerKbyte : ℕ) : Except String ℤ := do
  let result := bytes * pricePerKbyte / 1024
  require ((result : ℤ) ≤ maxShareSupply) "result <= GRAPHENE_MAX_SHARE_SUPPLY"
  return result

/-- `count_contract_register_fee`. -/
def countContractRegisterFee : ℤ := 10

/-- `calculate_fee` of the operations. -/
def calculateFee (p : FeeParameters) : ContractOp → Except String ℤ
  | .register o => do
    let required ← Safe.add countContractRegisterFee (← countGasFee o.gasPrice o.limit)
    Safe.add required p.fee
  | .registerNative o => do
    let required ← Safe.add p.fee (← calculateDataFee 100 p.pricePerKbyte)
    Safe.add required (← countGasFee o.gasPrice o.limit)
  | .invoke o => do Safe.add (← countGasFee o.gasPrice o.limit) p.fee
  | .upgrade o => do Safe.add (← countGasFee o.gasPrice o.limit) p.fee
  | .transfer o => do Safe.add (← countGasFee o.gasPrice o.limit) p.fee

/-- `fee_schedule::calculate_fee`, with the exchange rate of the core asset to itself. -/
def requiredFee (schedule : FeeSchedule) (op : ContractOp) : Except String ℤ := do
  let baseValue ← calculateFee (schedule.parameters op) op
  let scaled := baseValue * schedule.scale / 10000
  require (scaled ≤ maxShareSupply) "scaled <= GRAPHENE_MAX_SHARE_SUPPLY"
  return scaled

/-! ### The evaluators -/

/-- `contract_register_evaluate::do_evaluate`. -/
def evaluateRegister (o : RegisterOp) (x : Execution) : Except String (Run × Spent) := do
  o.checkGasPrice v
  require (v.isContract o.contractId = true) "o.contract_id.version == addressVersion::CONTRACT"
  require ((v.contracts o.contractId).isNone = true) "contract address must be unique"
  require (o.hasCode = true ∨ o.inheritFrom ≠ 0)
    "o.contract_code != uvm::blockchain::Code() || o.inherit_from != address()"
  if o.hasCode = false then
    let baseContract ← found (v.contracts o.inheritFrom) "d.has_contract(o.inherit_from)"
    require (baseContract.typeOfContract = .normal)
      "base_contract.type_of_contract == normal_contract"
  require (o.limit ≠ 0) "invalid_contract_gas_limit"
  conclude (o.terms v) true true x.ending (runScript v l .empty x.calls)
    (fun run => run.result.validate) ⟨.failed, []⟩

/-- `native_contract_register_evaluate::do_evaluate`. -/
def evaluateRegisterNative (o : NativeRegisterOp) (x : Execution) :
    Except String (Run × Spent) := do
  o.checkGasPrice v
  require (v.isContract o.contractId = true) "o.contract_id.version == addressVersion::CONTRACT"
  require ((v.contracts o.contractId).isNone = true) "contract address must be unique"
  require (o.nativeKeyKnown = true) "has_native_contract_with_key(o.native_contract_key)"
  require (o.limit ≠ 0) "invalid_contract_gas_limit"
  conclude (o.terms v) true false x.ending (runNative l .empty o.contractId x.calls)
    (fun run => run.result.validate) ⟨.failed, []⟩

/-- The apis that an operation may not name. -/
def contractSpecialApiNames : List String :=
  ["init", "on_deposit", "on_deposit_asset", "on_destroy", "on_upgrade", "on_missing"]

/-- `database::has_contract`, with a method. -/
def hasMethod (contract : ContractObject) (method : String) : Except String Bool :=
  if method = "" then .ok true
  else if contract.typeOfContract = .basedOnTemplate then do
    let base ← found (v.contracts contract.inheritFrom) "itrbase != index.end()"
    return decide (method ∈ base.apis ∨ method ∈ base.offlineApis)
  else .ok (decide (method ∈ contract.apis ∨ method ∈ contract.offlineApis))

/-- `contract_invoke_evaluate::do_evaluate`. Of an invocation of a script neither the limit nor the
gas that was used is checked. -/
def evaluateInvoke (o : InvokeOp) (x : Execution) : Except String (Run × Spent) := do
  o.checkGasPrice v
  require (v.isContract o.contractId = true) "o.contract_id.version == addressVersion::CONTRACT"
  let contract ← found (v.contracts o.contractId) "d.has_contract(o.contract_id)"
  require (o.contractApi ∉ contractSpecialApiNames) "operation_type::contract_api_check(o)"
  if contract.typeOfContract = .native then
    require (contract.nativeKeyKnown = true) "has_native_contract_with_key"
    require (o.limit ≠ 0) "contract_error"
    conclude (o.terms v) true false x.ending (runNative l .empty o.contractId x.calls)
      (fun run => run.result.validate) ⟨.failed, []⟩
  else
    require ((← hasMethod v contract o.contractApi) = true)
      "d.has_contract(o.contract_id,o.contract_api)"
    require (offline = 0 → o.limit ≠ 0) "invalid_contract_gas_limit"
    conclude (o.terms v) (decide (offline = 0)) true x.ending (runScript v l .empty x.calls)
      (fun run => run.result.validate) ⟨.failed, []⟩

/-- `contract_upgrade_evaluate::do_evaluate`. -/
def evaluateUpgrade (o : UpgradeOp) (x : Execution) : Except String (Run × Spent) := do
  o.checkGasPrice v
  require (v.isContract o.contractId = true) "o.contract_id.version == addressVersion::CONTRACT"
  let contract ← found (v.contracts o.contractId) "d.has_contract(o.contract_id)"
  require (v.nameTaken o.contractName = false) "!d.has_contract_of_name(o.contract_name)"
  require (contract.contractName = "") "contract.contract_name.empty()"
  if contract.typeOfContract = .native then
    require (contract.nativeKeyKnown = true) "has_native_contract_with_key"
    require (o.limit ≠ 0) "invalid_contract_gas_limit"
    conclude (o.terms v) true false x.ending (runNative l .empty o.contractId x.calls)
      (fun _ => .ok ()) ⟨.failed, []⟩
  else if "on_upgrade" ∈ contract.apis then
    require (o.limit ≠ 0) "invalid_contract_gas_limit"
    conclude (o.terms v) true true x.ending (runScript v l .empty x.calls)
      (fun run => run.result.validate) ⟨.failed, []⟩
  else idle (o.terms v) ⟨.empty, []⟩

def evaluate (op : ContractOp) (x : Execution) : Except String (Run × Spent) :=
  match op with
  | .register o => evaluateRegister v l o x
  | .registerNative o => evaluateRegisterNative v l o x
  | .invoke o => evaluateInvoke v l o x
  | .upgrade o => evaluateUpgrade v l o x
  | .transfer o => evaluateTransfer v l o x

/-! ### An operation with its fee -/

/-- What became of an operation. -/
structure Outcome where
  required : ℤ
  spent : Spent
  /-- The state after the fee was taken. -/
  charged : FeeState
  /-- The state after the refund. -/
  settled : FeeState

/-- An operation with its fee. It is evaluated with the balances `l`; `s` is the state after its
`do_apply`. -/
def submit (schedule : FeeSchedule) (trx : TrxId) (op : ContractOp) (x : Execution)
    (s : FeeState) : Except String Outcome := do
  op.validate v
  let required ← requiredFee schedule op
  prepareFee ⟨trx, v.assetExists, false, required⟩ op.header.fee
  let (run, spent) ← evaluate v l op x
  let charged ← chargeFee op.header.callerAddr op.header.fee op.header.guaranteeId trx s
  let unspent ← Asset.of spent.unspentFee 0
  let transferFees ← run.result.transferFees.entries.mapM fun e => Asset.of e.2 e.1
  let settled ← payFeeAndRefund op.header.callerAddr op.header.fee unspent transferFees
    (if spent.keepsOperation then op.header.guaranteeId else none) trx charged
  return ⟨required, spent, charged, settled⟩

/-- What a set of addresses holds of the core asset. -/
def held (A : Finset Address) (s : FeeState) : ℤ :=
  ∑ a ∈ A, (s.accounts.balance a 0 + s.accounts.frozen a 0)

/-- The set holds all who pay or receive: the caller, and the owner of the order if one is named. -/
structure Parties (A : Finset Address) (o : OpHeader) (s : FeeState) : Prop where
  caller : o.callerAddr ∈ A
  owner : ∀ {id g}, o.guaranteeId = some id → s.guarantees[id]? = some g → g.ownerAddr ∈ A

/-- The fee that is asked for covers the limit, the fee that is kept covers the gas that was used,
and the refund is between zero and the fee that was paid. -/
structure GasPaid (o : OpHeader) (A : Finset Address) (s : FeeState) (r : Outcome) : Prop where
  required : (exactGasFee o.gasPrice o.limit : ℤ) ≤ r.required
  kept : (exactGasFee o.gasPrice r.spent.gasCount : ℤ) ≤ held A s - held A r.settled
  refund_nonneg : 0 ≤ held A r.settled - held A r.charged
  refund_le : held A r.settled - held A r.charged ≤ held A s - held A r.charged

/-! ### What the fee and the refund are -/

variable {v l} {A : Finset Address} {s s' : FeeState} {op : ContractOp} {x : Execution} {run : Run}
  {spent : Spent} {t : GasTerms}

/-- What is returned is the fee for the limit less the one for the gas that was used. -/
def Settles (t : GasTerms) (spent : Spent) : Prop :=
  ∀ {limitFee}, countGasFee t.gasPrice t.limit = .ok limitFee →
    ∃ usedFee, countGasFee t.gasPrice spent.gasCount = .ok usedFee ∧
      spent.unspentFee = limitFee - usedFee

theorem conclude_settles {checked keeps : Bool} {ending : Ending} {body : Except String Run}
    {check : Run → Except String Unit} {failed : Run}
    (h : conclude t checked keeps ending body check failed = .ok (run, spent)) :
    Settles t spent ∧ (checked = true → spent.gasCount ≤ t.limit) := by
  obtain ⟨gasUsed, limitFee, usedFee, -, -, hchecked, hlimit, hused, rfl⟩ | ⟨-, -, rfl⟩ :=
    conclude_eq_ok h
  · refine ⟨fun h => ⟨usedFee, hused, ?_⟩, fun h => (hchecked h).1⟩
    rw [Except.ok.inj (h.symm.trans hlimit)]
  · exact ⟨fun {limitFee} h => ⟨limitFee, h, (Int.sub_self _).symm⟩, fun _ => UInt64.le_refl _⟩

theorem idle_settles {r : Run} (h : idle t r = .ok (run, spent)) :
    Settles t spent ∧ spent.gasCount ≤ t.limit := by
  obtain ⟨-, limitFee, hlimit, rfl⟩ := idle_eq_ok h
  refine ⟨fun h => ⟨0, ?_, ?_⟩, UInt64.zero_le⟩
  · rw [countGasFee_eq_ok]
    simp [exactGasFee]
  · rw [Except.ok.inj (h.symm.trans hlimit), Int.sub_zero]

/-- An invocation of a script. -/
def ScriptInvoked (v : ChainView) (op : ContractOp) : Prop :=
  ∃ o contract, op = .invoke o ∧ v.contracts o.contractId = some contract ∧
    contract.typeOfContract ≠ .native

theorem evaluateTransfer_settles {o : TransferOp}
    (h : evaluateTransfer v l o x = .ok (run, spent)) :
    Settles (o.terms v) spent ∧ spent.gasCount ≤ o.limit := by
  simp only [evaluateTransfer, bind_eq_ok, require_eq_ok, found_eq_ok, exists_and_left,
    exists_const] at h
  obtain ⟨_, -, -, contract, -, h⟩ := h
  split at h
  · simp only [evaluateNative, bind_eq_ok, require_eq_ok, exists_and_left, exists_const] at h
    obtain ⟨-, -, evaluator, -, h⟩ := h
    split at h
    · obtain ⟨hsettles, hle⟩ := conclude_settles h
      exact ⟨hsettles, hle rfl⟩
    · simp only [bind_eq_ok, Prod.exists, pure_eq_ok, Prod.mk.injEq] at h
      obtain ⟨run₀, -, run₁, spent₁, hidle, _, -, rfl, rfl⟩ := h
      exact idle_settles hidle
  · unfold evaluateScripted at h
    split at h
    · simp only [bind_eq_ok, require_eq_ok, exists_and_left, exists_const] at h
      obtain ⟨-, result, -, h⟩ := h
      obtain ⟨hsettles, hle⟩ := conclude_settles h
      exact ⟨hsettles, hle rfl⟩
    · simp only [bind_eq_ok] at h
      obtain ⟨result, -, h⟩ := h
      exact idle_settles h

/-- **What is returned is the difference of the two fees**, and except for an invocation of a script
no more gas is used than the limit. -/
theorem evaluate_settles (h : evaluate v l op x = .ok (run, spent)) :
    Settles (op.header.terms v) spent ∧
      (¬ ScriptInvoked v op → spent.gasCount ≤ op.header.limit) := by
  cases op with
  | register o =>
    simp only [evaluate, evaluateRegister, bind_eq_ok, require_eq_ok, exists_and_left,
      exists_const] at h
    obtain ⟨_, -, -, -, -, h⟩ := h
    have hconclude : ∃ keeps ending body check failed,
        conclude (o.terms v) true keeps ending body check failed = .ok (run, spent) := by
      split at h
      all_goals
        simp only [bind_eq_ok, require_eq_ok, exists_and_left, exists_const] at h
      · obtain ⟨base, -, -, -, h⟩ := h
        exact ⟨_, _, _, _, _, h⟩
      · exact ⟨_, _, _, _, _, h.2⟩
    obtain ⟨keeps, ending, body, check, failed, h⟩ := hconclude
    obtain ⟨hsettles, hle⟩ := conclude_settles h
    exact ⟨hsettles, fun _ => hle rfl⟩
  | registerNative o =>
    simp only [evaluate, evaluateRegisterNative, bind_eq_ok, require_eq_ok, exists_and_left,
      exists_const] at h
    obtain ⟨_, -, -, -, -, -, h⟩ := h
    obtain ⟨hsettles, hle⟩ := conclude_settles h
    exact ⟨hsettles, fun _ => hle rfl⟩
  | invoke o =>
    simp only [evaluate, evaluateInvoke, bind_eq_ok, require_eq_ok, found_eq_ok, exists_and_left,
      exists_const] at h
    obtain ⟨_, -, -, contract, hcontract, -, h⟩ := h
    split at h
    · simp only [bind_eq_ok, require_eq_ok, exists_and_left, exists_const] at h
      obtain ⟨hsettles, hle⟩ := conclude_settles h.2.2
      exact ⟨hsettles, fun _ => hle rfl⟩
    next hscripted =>
      simp only [bind_eq_ok, require_eq_ok, exists_and_left, exists_const] at h
      obtain ⟨_, -, -, -, h⟩ := h
      exact ⟨(conclude_settles h).1, fun hnot => absurd ⟨o, contract, rfl, hcontract, hscripted⟩ hnot⟩
  | upgrade o =>
    simp only [evaluate, evaluateUpgrade, bind_eq_ok, require_eq_ok, found_eq_ok, exists_and_left,
      exists_const] at h
    obtain ⟨_, -, -, contract, -, -, -, h⟩ := h
    split at h
    · simp only [bind_eq_ok, require_eq_ok, exists_and_left, exists_const] at h
      obtain ⟨hsettles, hle⟩ := conclude_settles h.2.2
      exact ⟨hsettles, fun _ => hle rfl⟩
    · split at h
      · simp only [bind_eq_ok, require_eq_ok, exists_and_left, exists_const] at h
        obtain ⟨hsettles, hle⟩ := conclude_settles h.2
        exact ⟨hsettles, fun _ => hle rfl⟩
      · obtain ⟨hsettles, hle⟩ := idle_settles h
        exact ⟨hsettles, fun _ => hle⟩
  | transfer o =>
    obtain ⟨hsettles, hle⟩ := evaluateTransfer_settles h
    exact ⟨hsettles, fun _ => hle⟩

theorem requiredFee_eq_ok {schedule : FeeSchedule} {required : ℤ}
    (hscale : 10000 ≤ schedule.scale) (h : requiredFee schedule op = .ok required) :
    required ≤ maxShareSupply ∧ ∃ limitFee, countGasFee op.header.gasPrice op.header.limit =
      .ok limitFee ∧ 0 ≤ limitFee ∧ limitFee ≤ required := by
  simp only [requiredFee, bind_eq_ok, require_eq_ok, exists_and_left, exists_const, pure_eq_ok] at h
  obtain ⟨base, hbase, hmax, rfl⟩ := h
  have hcovers : ∃ limitFee, countGasFee op.header.gasPrice op.header.limit = .ok limitFee ∧
      0 ≤ limitFee ∧ limitFee ≤ base := by
    have hfee := (schedule.parameters op).fee_nonneg
    have hnonneg : ∀ {n}, countGasFee op.header.gasPrice op.header.limit = .ok n → 0 ≤ n :=
      fun h => by
        obtain ⟨rfl, -⟩ := countGasFee_eq_ok.mp h
        omega
    cases op with
    | register o =>
      simp only [calculateFee, bind_eq_ok] at hbase
      obtain ⟨limitFee, hlimit, n, hn, hbase⟩ := hbase
      refine ⟨limitFee, hlimit, hnonneg hlimit, ?_⟩
      rw [Safe.add_eq_ok hbase, Safe.add_eq_ok hn, countContractRegisterFee]
      omega
    | registerNative o =>
      simp only [calculateFee, calculateDataFee, bind_eq_ok, require_eq_ok, exists_and_left,
        exists_const, pure_eq_ok] at hbase
      obtain ⟨data, ⟨-, rfl⟩, n, hn, limitFee, hlimit, hbase⟩ := hbase
      refine ⟨limitFee, hlimit, hnonneg hlimit, ?_⟩
      rw [Safe.add_eq_ok hbase, Safe.add_eq_ok hn]
      omega
    | invoke o | upgrade o | transfer o =>
      obtain ⟨limitFee, hlimit, hbase⟩ := bind_eq_ok.mp hbase
      refine ⟨limitFee, hlimit, hnonneg hlimit, ?_⟩
      rw [Safe.add_eq_ok hbase]
      omega
  obtain ⟨limitFee, hlimit, hnonneg, hle⟩ := hcovers
  refine ⟨hmax, limitFee, hlimit, hnonneg, ?_⟩
  have hscale : (10000 : ℤ) ≤ schedule.scale := by omega
  calc limitFee ≤ base := hle
    _ = base * 10000 / 10000 := by omega
    _ ≤ base * schedule.scale / 10000 :=
      Int.ediv_le_ediv (by decide) (Int.mul_le_mul_of_nonneg_left hscale (by omega))

/-! ### What addresses hold -/

theorem held_of_accounts (h : s'.accounts = s.accounts) : held A s' = held A s := by
  rw [held, held, h]

theorem held_adjustBalance {addr : Address} {a : Asset} (haddr : addr ∈ A)
    (h : s.adjustBalance addr a = .ok s') :
    held A s' = held A s + if a.assetId = 0 then a.amount else 0 := by
  obtain ⟨accounts, hl, rfl⟩ := adjustBalance_eq_ok h
  have hsum := sum_single haddr ((0 : AssetId) = a.assetId) a.amount
  simp only [held, Accounts.balance_adjustBalance hl, Accounts.frozen_adjustBalance hl nofun,
    Finset.sum_add_distrib, hsum, Bool.false_eq_true, false_and, if_false, Int.sub_zero]
  simp only [@eq_comm AssetId 0]
  omega

/-- A step that draws on an order: what goes from the party to the owner stays in the set. -/
theorem held_draws {party : Address} {id : GuaranteeId} {g : GuaranteeObject} {n m : ℤ}
    (hparty : party ∈ A) (howner : g.ownerAddr ∈ A) (h : Draws party id g n m s s') :
    held A s' = held A s - if g.assetOrign.assetId = 0 then n else 0 := by
  obtain ⟨j, k, hbalance⟩ := h.balance
  have hpaid := Payment.sum_effect ⟨party, g.ownerAddr, j, k, 0⟩ hparty howner (0 : AssetId)
  have hdrawn := sum_single howner ((0 : AssetId) = g.assetOrign.assetId) n
  simp only [held, hbalance, h.frozen, Finset.sum_add_distrib, Finset.sum_sub_distrib, hpaid,
    hdrawn, Payment.charge, ite_self]
  simp only [@eq_comm AssetId 0]
  omega

theorem held_chargeFee {o : OpHeader} {trx : TrxId} (hA : Parties A o s)
    (h : chargeFee o.callerAddr o.fee o.guaranteeId trx s = .ok s') :
    held A s' = held A s - (if o.fee.assetId = 0 then o.fee.amount else 0) ∧ Parties A o s' := by
  cases hid : o.guaranteeId with
  | none =>
    rw [hid] at h
    refine ⟨?_, hA.caller, fun h => by rw [hid] at h; cases h⟩
    simp only [chargeFee] at h
    split at h
    next hcore =>
      obtain ⟨debit, hdebit, h⟩ := bind_eq_ok.mp h
      obtain ⟨hamount, hdebitId⟩ := Asset.neg_eq_ok.mp hdebit
      rw [held_adjustBalance hA.caller h, hdebitId, hamount, if_pos hcore, if_pos hcore]
      omega
    next hcore =>
      obtain rfl := Except.ok.inj h
      rw [if_neg hcore, Int.sub_zero]
  | some id =>
    rw [hid] at h
    obtain ⟨g, -, hfee, hdraws⟩ := payByGuarantee_eq_ok h
    refine ⟨?_, hA.caller, fun hid' hg' => ?_⟩
    · rw [held_draws hA.caller (hA.owner hid hdraws.find) hdraws, hfee]
    · obtain ⟨g₀, hg₀, hsame⟩ := hdraws.same hg'
      rw [hsame.ownerAddr]
      exact hA.owner hid' hg₀

theorem held_refund {o : OpHeader} {trx : TrxId} {unspent total : Asset} {fees : List Asset}
    {keeps : Bool} (hA : Parties A o s) (hcore : unspent.assetId = 0)
    (h : payFeeAndRefund o.callerAddr total unspent fees
      (if keeps then o.guaranteeId else none) trx s = .ok s') :
    held A s' = held A s + unspent.amount := by
  simp only [payFeeAndRefund, bind_eq_ok] at h
  obtain ⟨t, ht, kept, -, t', ht', hfees⟩ := h
  have hcollect : ∀ {a : Asset} {u u' : FeeState}, u.collect a = .ok u' →
      u'.accounts = u.accounts := fun h => by
    simp only [FeeState.collect, bind_eq_ok, pure_eq_ok] at h
    obtain ⟨n, -, rfl⟩ := h
    rfl
  have haccounts : s'.accounts = t.accounts :=
    foldlM_induction (P := fun u => u.accounts = t.accounts) (hcollect ht')
      (fun u u' a _ hu hstep => (hcollect hstep).trans hu) hfees
  rw [held_of_accounts haccounts]
  cases hguarantee : (if keeps then o.guaranteeId else none) with
  | none =>
    rw [hguarantee] at ht
    simp only [refundUnspent] at ht
    split at ht
    · rw [held_adjustBalance hA.caller ht, if_pos hcore]
    next hzero =>
      obtain rfl := Except.ok.inj ht
      omega
  | some id =>
    rw [hguarantee] at ht
    have hid : o.guaranteeId = some id := by
      cases keeps with
      | true => exact hguarantee
      | false => cases hguarantee
    obtain ⟨g, horign, hdraws⟩ := refundUnspent_draws ht
    rw [held_draws hA.caller (hA.owner hid hdraws.find) hdraws]
    by_cases hzero : unspent.amount = 0
    · simp [hzero]
    · rw [← horign hzero, if_pos hcore]
      omega

/-- **When gas is paid for.** -/
theorem gas_paid_iff {schedule : FeeSchedule} {trx : TrxId} {r : Outcome}
    (hscale : 10000 ≤ schedule.scale) (h : submit v l schedule trx op x s = .ok r)
    (hA : Parties A op.header s) :
    GasPaid op.header A s r ↔
      exactGasFee op.header.gasPrice op.header.limit < 2 ^ 63 ∧
      exactGasFee op.header.gasPrice r.spent.gasCount ≤
        exactGasFee op.header.gasPrice op.header.limit ∧
      (op.header.fee.assetId = 0 ∨ exactGasFee op.header.gasPrice op.header.limit = 0) := by
  simp only [submit, prepareFee, bind_eq_ok, require_eq_ok, exists_and_left, exists_const,
    Prod.exists, pure_eq_ok] at h
  obtain ⟨_, -, required, hrequired, ⟨hfee, -, hcovered⟩, run, spent, heval, charged, hcharge,
    unspent, hunspent, fees, -, settled, hsettled, rfl⟩ := h
  obtain ⟨hmax, limitFee, hlimit, hnonneg, hle⟩ := requiredFee_eq_ok hscale hrequired
  obtain ⟨usedFee, hused, hdiff⟩ := (evaluate_settles heval).1 hlimit
  obtain ⟨hamount, hcore⟩ := Asset.of_eq_ok.mp hunspent
  obtain ⟨hcharged, hA'⟩ := held_chargeFee hA hcharge
  have hrefund := held_refund hA' hcore hsettled
  have hcovered : required ≤ op.header.fee.amount := by simpa using hcovered
  have hfits := op.header.fee.fits.2
  obtain ⟨hlimitFee, hlimitLt⟩ := countGasFee_eq_ok.mp hlimit
  obtain ⟨husedFee, husedLt⟩ :
      usedFee = (exactGasFee op.header.gasPrice spent.gasCount : ℤ) % 2 ^ 64 ∧ usedFee < 2 ^ 63 :=
    countGasFee_eq_ok.mp hused
  rw [maxShareSupply] at hmax
  rw [Safe.max] at hfits
  -- the two sums that the four parts compare: what was taken, and what was returned
  have hpaid : held A s - held A charged =
      if op.header.fee.assetId = 0 then op.header.fee.amount else 0 := by omega
  have hback : held A settled - held A charged = limitFee - usedFee := by omega
  have hkeeps : held A s - held A settled =
      held A s - held A charged - (held A settled - held A charged) := by omega
  constructor
  · rintro ⟨hreq, hkept, hlow, hhigh⟩
    dsimp only at hreq hkept hlow hhigh ⊢
    rw [hkeeps, hback, hpaid] at hkept
    rw [hback] at hlow hhigh
    rw [hpaid] at hhigh
    split_ifs at hkept hhigh with hfeeCore
    · exact ⟨by omega, by omega, .inl hfeeCore⟩
    · exact ⟨by omega, by omega, .inr (by omega)⟩
  · rintro ⟨hlt, hless, hfeeCore⟩
    dsimp only at hless
    refine ⟨?_, ?_, ?_, ?_⟩ <;> dsimp only
    · omega
    · rw [hkeeps, hback, hpaid]
      split_ifs with hcore
      · omega
      · have := hfeeCore.resolve_left hcore
        omega
    · rw [hback]
      omega
    · rw [hback, hpaid]
      split_ifs with hcore
      · omega
      · have := hfeeCore.resolve_left hcore
        omega

/-! ### Three ways not to pay -/

/-- The contract 8 is a script with one method. -/
def oneScript : ChainView :=
  { twoContracts with
    contracts := fun a => if a = 8 then some ⟨.normal, 1, "", 0, ["spin"], [], false⟩ else none }

def flatSchedule : FeeSchedule := ⟨fun _ => ⟨5, 0, by decide⟩, 10000⟩

/-- The address 1 calls the contract 8. -/
def callEight (fee : Asset) (limit : GasCount) (gasPrice : GasPrice) : OpHeader :=
  ⟨fee, none, limit, gasPrice, 1, 1, 8⟩

/-- A transfer of ten units for which the contract has no method. -/
def idleTransfer (fee : Asset) (limit : GasCount) (gasPrice : GasPrice) : ContractOp :=
  .transfer ⟨callEight fee limit gasPrice, ⟨10, 0, Safe.fits_ten⟩⟩

/-- What is asked for, what is kept and what is returned. -/
def Outcome.figures (r : Outcome) : ℤ × ℤ × ℤ :=
  (r.required, held {1} oneHundred - held {1} r.settled, held {1} r.settled - held {1} r.charged)

/-- An operation of the address 1. -/
def submitted (op : ContractOp) (x : Execution) : Except String Outcome :=
  submit oneScript oneHundred.accounts flatSchedule 1 op x oneHundred

theorem gas_paid_iff_idle :
    ∃ r, submitted (idleTransfer ⟨30, 0, by decide⟩ 2000 1) ⟨[], .done 0⟩ = .ok r ∧
      GasPaid (callEight ⟨30, 0, by decide⟩ 2000 1) {1} oneHundred r := by
  obtain ⟨r, h⟩ := exists_eq_ok
    (x := submitted (idleTransfer ⟨30, 0, by decide⟩ 2000 1) ⟨[], .done 0⟩) (by decide +kernel)
  have hgas : (submitted (idleTransfer ⟨30, 0, by decide⟩ 2000 1) ⟨[], .done 0⟩).map
      (·.spent.gasCount) = .ok 0 := by decide +kernel
  rw [h] at hgas
  have hgas : r.spent.gasCount = 0 := Except.ok.inj hgas
  refine ⟨r, h, (gas_paid_iff (by decide) h ⟨by decide, nofun⟩).mpr ⟨by decide, ?_, .inl rfl⟩⟩
  rw [hgas]
  decide

theorem not_gasPaid_of_figures {x : Except String Outcome} {o : OpHeader}
    (required kept refund : ℤ)
    (h : x.map (·.figures) = .ok (required, kept, refund))
    (hnot : required < exactGasFee o.gasPrice o.limit ∨ kept < 0 ∨ refund < 0) :
    ∃ r, x = .ok r ∧ ¬ GasPaid o {1} oneHundred r := by
  obtain _ | r := x
  · cases h
  obtain ⟨hrequired, hkept, hrefund⟩ :
      r.required = required ∧ held {1} oneHundred - held {1} r.settled = kept ∧
        held {1} r.settled - held {1} r.charged = refund := by
    simpa [Except.map, Outcome.figures] using h
  refine ⟨r, rfl, fun hpaid => ?_⟩
  obtain ⟨h₁, h₂, h₃, -⟩ := hpaid
  omega

/-- **Gas that is not paid for.** At a price of `2 ^ 62` four hundred units of gas are asked nothing
for. A fee in the asset 5 is not taken, and two hundred units of the core asset are returned. With a
limit of zero the refund for five thousand units of gas is negative. -/
theorem gas_not_paid :
    (∃ r, submitted (idleTransfer ⟨5, 0, by decide⟩ 400 4611686018427387904) ⟨[], .done 0⟩ = .ok r ∧
      ¬ GasPaid (callEight ⟨5, 0, by decide⟩ 400 4611686018427387904) {1} oneHundred r) ∧
    (∃ r, submitted (idleTransfer ⟨205, 5, by decide⟩ 20000 1) ⟨[], .done 0⟩ = .ok r ∧
      ¬ GasPaid (callEight ⟨205, 5, by decide⟩ 20000 1) {1} oneHundred r) ∧
    ∃ r, submitted (.invoke ⟨callEight ⟨5, 0, by decide⟩ 0 1, "spin"⟩) ⟨[], .done 5000⟩ = .ok r ∧
      ¬ GasPaid (callEight ⟨5, 0, by decide⟩ 0 1) {1} oneHundred r := by
  refine ⟨not_gasPaid_of_figures 5 5 0 ?_ ?_, not_gasPaid_of_figures 205 (-200) 200 ?_ ?_,
    not_gasPaid_of_figures 5 55 (-50) ?_ ?_⟩
  all_goals decide +kernel

end Whitecoin.Contract
