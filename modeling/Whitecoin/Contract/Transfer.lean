import Whitecoin.Contract.Result

/-!
# Transfers to a contract

A transfer to a contract notes a deposit, lets the contract react to it, and takes the amount from
the caller. While it reacts the contract can pay: a script through the api of the chain, which takes
a fee, and a native contract through functions of its own.

A script writes its notes into the result in which the deposit was noted. A native contract has a
result of its own. Each payment copies that result over the one of the evaluator, and so does the
evaluator when the contract returns; the deposit is lost at the first copy. The caller pays, and
nobody receives.
-/

namespace Whitecoin.Contract

open Check Ledger Fees

structure TransferOp extends OpHeader where
  amount : Asset

variable (v : ChainView) (l : Accounts)

/-- `transfer_contract_operation::validate`. -/
def TransferOp.validate (o : TransferOp) : Except String Unit := do
  require (v.isContract o.contractId = true) "contract_id.version == addressVersion::CONTRACT"
  require (0 < o.limit ∧ o.limit ≤ maxGasLimit)
    "invoke_cost > 0 && invoke_cost <= XWC_MAX_GAS_LIMIT"
  require (minGasPrice ≤ o.gasPrice) "gas_price >= XWC_MIN_GAS_PRICE"
  require (o.callerAddr ≠ 0) "caller_addr!=address()"
  require (v.addressOf o.callerPubkey = o.callerAddr) "address(caller_pubkey) == caller_addr"
  require (o.contractId ≠ 0) "contract_id != address()"
  require (0 < o.amount.amount) "amount.amount>0"

/-! ### Payments -/

/-- A payment that a contract asks for. What does not parse is missing. -/
structure TransferCall where
  contract : Option Address
  toAddr : Option Address
  asset : Option AssetId
  amount : ℤ
  fits : Safe.Fits amount

/-- What a contract does while it runs: the payments it asks for, and how it ends. -/
structure Execution where
  calls : List TransferCall
  ending : Ending

/-- A result, with the payments that were made. The code does not keep the payments. -/
structure Run where
  result : InvokeResult
  paid : List (Payment Address AssetId)

/-- `UvmChainApi::transfer_from_contract_to_address`: the code that the script gets, and the run. -/
def transferFromContractToAddress (run : Run) (call : TransferCall) : Except String (ℤ × Run) :=
  match call.contract, call.toAddr, call.asset with
  | none, _, _ => .ok (-3, run)
  | some _, none, _ => .ok (-4, run)
  | some contract, some toAddr, asset =>
    if call.amount ≤ 0 then .ok (-6, run)
    else match asset with
    | none => .ok (-1, run)
    | some assetId => do
      let a : Asset := ⟨call.amount, assetId, call.fits⟩
      let (enough, result) ← transferToAddress v l run.result contract a toAddr
      if enough then
        let fee ← transferFee v contract toAddr call.amount
        return (0, ⟨result, run.paid ++ [⟨contract, toAddr, assetId, call.amount, fee⟩]⟩)
      else return (-2, { run with result })

/-- The two results while a native contract runs. -/
structure NativeRun where
  /-- `invoke_contract_result` of the evaluator. -/
  evaluator : InvokeResult
  /-- `_contract_invoke_result` of the contract. -/
  own : InvokeResult
  paid : List (Payment Address AssetId)

/-- `current_transfer_to_address` of a native contract. -/
def currentTransferToAddress (contract : Address) (n : NativeRun) (call : TransferCall) :
    Except String NativeRun := do
  let toAddr ← found call.toAddr "invalid address"
  let assetId ← found call.asset "invalid_asset_symbol"
  -- the evaluator works on a copy of the contract's result, which is then copied back
  let evaluator ← transferToAddressOnlyUpdateInvokeResult l n.own contract
    ⟨call.amount, assetId, call.fits⟩ toAddr
  return ⟨evaluator, evaluator, n.paid ++ [⟨contract, toAddr, assetId, call.amount, 0⟩]⟩

/-- A script runs. -/
def runScript (result : InvokeResult) (calls : List TransferCall) : Except String Run := do
  let run ← calls.foldlM (fun run call => do
    return (← transferFromContractToAddress v l run call).2) ⟨result, []⟩
  return { run with result := run.result.succeeded }

/-- A native contract runs. At the end its result replaces the one of the evaluator. -/
def runNative (evaluator : InvokeResult) (contract : Address) (calls : List TransferCall) :
    Except String Run := do
  let n ← calls.foldlM (currentTransferToAddress l contract) ⟨evaluator, .empty, []⟩
  return ⟨n.own.succeeded, n.paid⟩

/-! ### The operation -/

def evaluateNative (o : TransferOp) (contract : ContractObject) (x : Execution) :
    Except String (Run × Spent) := do
  require (contract.nativeKeyKnown = true) "has_native_contract_with_key"
  require (o.limit ≠ 0) "invalid_contract_gas_limit"
  let evaluator ← depositToContract v .empty o.contractId o.amount
  if "on_deposit_asset" ∈ contract.apis then
    conclude (o.terms v) true false x.ending (do
      require (v.assetExists o.amount.assetId = true) "asset_id(d)"
      runNative l evaluator o.contractId x.calls)
      (fun run => run.result.validate) ⟨.failed, []⟩
  else
    let run ← runNative l evaluator o.contractId []
    let (run, spent) ← idle (o.terms v) run
    run.result.validate
    return (run, spent)

def evaluateScripted (o : TransferOp) (contract : ContractObject) (x : Execution) :
    Except String (Run × Spent) :=
  if "on_deposit_asset" ∈ contract.apis then do
    require (o.limit ≠ 0) "invalid_contract_gas_limit"
    let result ← depositToContract v .empty o.contractId o.amount
    conclude (o.terms v) true true x.ending (do
      require (v.assetExists o.amount.assetId = true) "asset_id(d)"
      runScript v l result x.calls)
      (fun _ => .ok ()) ⟨.failed, []⟩
  else do
    let result ← depositToContract v .empty o.contractId o.amount
    idle (o.terms v) ⟨result.succeeded, []⟩

/-- `contract_transfer_evaluate::do_evaluate`. -/
def evaluateTransfer (o : TransferOp) (x : Execution) : Except String (Run × Spent) := do
  o.checkGasPrice v
  require (v.isContract o.contractId = true) "o.contract_id.version == addressVersion::CONTRACT"
  let contract ← found (v.contracts o.contractId) "d.has_contract(o.contract_id)"
  match contract.typeOfContract with
  | .native => evaluateNative v l o contract x
  | _ => evaluateScripted v l o contract x

/-- `contract_transfer_evaluate::do_apply`. -/
def applyTransfer (o : TransferOp) (r : InvokeResult) (l : Accounts) : Except String Accounts :=
  if r.execSucceed then do
    let l ← r.applyBalance l
    l.adjustBalance o.callerAddr o.amount.assetId (← Safe.neg o.amount.amount) false
  else .ok l

/-- A transfer, except for the fee of the operation itself. -/
def transferContract (o : TransferOp) (x : Execution) (s : FeeState) :
    Except String (Run × FeeState) := do
  o.validate v
  let (run, _) ← evaluateTransfer v s.accounts o x
  let accounts ← applyTransfer o run.result s.accounts
  return (run, ← run.result.collectFees { s with accounts })

/-! ### The notes are the payments -/

/-- The notes come to a start and the payments that were made since. -/
structure Tracks (base : Address → AssetId → ℤ) (r : InvokeResult)
    (paid : List (Payment Address AssetId)) : Prop where
  net : ∀ a i, r.net a i = base a i + Journal.effects paid a i
  fee : ∀ i, r.fee i = Journal.charges paid i

variable {v l} {base : Address → AssetId → ℤ} {o : TransferOp} {x : Execution} {run run' : Run}
  {n n' : NativeRun} {call : TransferCall} {contract : ContractObject} {spent : Spent}

theorem Tracks.succeeded {r : InvokeResult} {paid : List (Payment Address AssetId)}
    (h : Tracks base r paid) : Tracks base r.succeeded paid :=
  ⟨h.net, h.fee⟩

theorem Tracks.transfer {code : ℤ} (hrun : Tracks base run.result run.paid)
    (h : transferFromContractToAddress v l run call = .ok (code, run')) :
    Tracks base run'.result run'.paid := by
  unfold transferFromContractToAddress at h
  split at h
  · obtain ⟨-, rfl⟩ := Prod.mk.inj (Except.ok.inj h)
    exact hrun
  · obtain ⟨-, rfl⟩ := Prod.mk.inj (Except.ok.inj h)
    exact hrun
  next contract toAddr asset =>
    split at h
    · obtain ⟨-, rfl⟩ := Prod.mk.inj (Except.ok.inj h)
      exact hrun
    next hpos =>
      split at h
      · obtain ⟨-, rfl⟩ := Prod.mk.inj (Except.ok.inj h)
        exact hrun
      next assetId =>
        simp only [bind_eq_ok, Prod.exists] at h
        obtain ⟨enough, result, htransfer, h⟩ := h
        obtain ⟨-, heffect⟩ := transferToAddress_eq_ok (Int.le_of_lt (Int.not_le.mp hpos)) htransfer
        cases enough with
        | false =>
          obtain ⟨-, rfl⟩ := Prod.mk.inj (pure_eq_ok.mp h)
          exact ⟨fun a i => (heffect.1 a i).trans (hrun.net a i),
            fun i => (heffect.2 i).trans (hrun.fee i)⟩
        | true =>
          simp only [if_true, bind_eq_ok, pure_eq_ok, Prod.mk.injEq] at h
          obtain ⟨fee, hfee, -, rfl⟩ := h
          obtain ⟨fee', hfee', hnet, hcharge⟩ := heffect
          obtain rfl := Except.ok.inj (hfee'.symm.trans hfee)
          refine ⟨fun a i => ?_, fun i => ?_⟩
          · rw [hnet, hrun.net, Journal.effects_append, Int.add_assoc]
          · rw [hcharge, hrun.fee, Journal.charges_append]

theorem tracks_native {c : Address} (hn : Tracks base n.own n.paid)
    (h : currentTransferToAddress l c n call = .ok n') : Tracks base n'.own n'.paid := by
  simp only [currentTransferToAddress, bind_eq_ok, found_eq_ok, pure_eq_ok] at h
  obtain ⟨toAddr, -, assetId, -, own, htransfer, rfl⟩ := h
  obtain ⟨hnet, hfees⟩ := transferToAddressOnlyUpdateInvokeResult_eq_ok htransfer
  refine ⟨fun a i => ?_, fun i => ?_⟩
  · rw [hnet, hn.net, Journal.effects_append, Int.add_assoc]
  · rw [InvokeResult.fee, hfees, Journal.charges_append, Payment.charge, ite_self, Int.add_zero]
    exact hn.fee i

theorem runScript_tracks {result : InvokeResult} {calls : List TransferCall}
    (hresult : Tracks base result []) (h : runScript v l result calls = .ok run) :
    Tracks base run.result run.paid := by
  simp only [runScript, bind_eq_ok, pure_eq_ok] at h
  obtain ⟨run, hloop, rfl⟩ := h
  refine (foldlM_induction (P := fun run => Tracks base run.result run.paid) hresult
    (fun run run' call _ hrun h => ?_) hloop).succeeded
  simp only [bind_eq_ok, pure_eq_ok] at h
  obtain ⟨⟨code, run''⟩, htransfer, rfl⟩ := h
  exact hrun.transfer htransfer

theorem runNative_tracks {evaluator : InvokeResult} {c : Address} {calls : List TransferCall}
    (hempty : Tracks base .empty []) (h : runNative l evaluator c calls = .ok run) :
    Tracks base run.result run.paid := by
  simp only [runNative, bind_eq_ok, pure_eq_ok] at h
  obtain ⟨n, hloop, rfl⟩ := h
  exact (foldlM_induction (P := fun n => Tracks base n.own n.paid) hempty
    (fun _ _ _ _ hn h => tracks_native hn h) hloop).succeeded

/-- What is noted before the contract reacts, and not lost. -/
def deposited (o : TransferOp) (contract : ContractObject) (a : Address) (i : AssetId) : ℤ :=
  if contract.typeOfContract ≠ .native ∧ a = o.contractId ∧ i = o.amount.assetId then
    o.amount.amount
  else 0

theorem evaluateNative_tracks (hnative : contract.typeOfContract = .native)
    (h : evaluateNative v l o contract x = .ok (run, spent))
    (hsucceed : run.result.execSucceed = true) :
    Tracks (deposited o contract) run.result run.paid := by
  have hstart : Tracks (deposited o contract) InvokeResult.empty [] :=
    ⟨fun a i => by simp [deposited, hnative], fun i => rfl⟩
  simp only [evaluateNative, bind_eq_ok, require_eq_ok, exists_and_left, exists_const] at h
  obtain ⟨-, -, evaluator, -, h⟩ := h
  split at h
  · obtain ⟨gasUsed, limitFee, usedFee, -, hbody, -⟩ | ⟨-, rfl, -⟩ := conclude_eq_ok h
    · simp only [bind_eq_ok, require_eq_ok, exists_and_left, exists_const] at hbody
      exact runNative_tracks hstart hbody.2
    · cases hsucceed
  · simp only [bind_eq_ok, Prod.exists, pure_eq_ok, Prod.mk.injEq] at h
    obtain ⟨run₀, hrun, run₁, spent₁, hidle, _, -, rfl, rfl⟩ := h
    obtain ⟨rfl, -⟩ := idle_eq_ok hidle
    exact runNative_tracks hstart hrun

theorem evaluateScripted_tracks (hscripted : contract.typeOfContract ≠ .native)
    (h : evaluateScripted v l o contract x = .ok (run, spent))
    (hsucceed : run.result.execSucceed = true) :
    Tracks (deposited o contract) run.result run.paid := by
  have hstart : ∀ {result}, depositToContract v .empty o.contractId o.amount = .ok result →
      Tracks (deposited o contract) result [] := fun hresult => by
    obtain ⟨hnet, hfees, -⟩ := depositToContract_eq_ok hresult
    refine ⟨fun a i => ?_, fun i => by rw [InvokeResult.fee, hfees]; rfl⟩
    simp [hnet, deposited, hscripted]
  unfold evaluateScripted at h
  split at h
  · simp only [bind_eq_ok, require_eq_ok, exists_and_left, exists_const] at h
    obtain ⟨-, result, hresult, h⟩ := h
    obtain ⟨gasUsed, limitFee, usedFee, -, hbody, -⟩ | ⟨-, rfl, -⟩ := conclude_eq_ok h
    · simp only [bind_eq_ok, require_eq_ok, exists_and_left, exists_const] at hbody
      exact runScript_tracks (hstart hresult) hbody.2
    · cases hsucceed
  · simp only [bind_eq_ok] at h
    obtain ⟨result, hresult, h⟩ := h
    obtain ⟨rfl, -⟩ := idle_eq_ok h
    exact (hstart hresult).succeeded

/-- **The notes are the payments, and for a script the deposit.** -/
theorem evaluateTransfer_tracks (h : evaluateTransfer v l o x = .ok (run, spent))
    (hsucceed : run.result.execSucceed = true) :
    ∃ contract, v.contracts o.contractId = some contract ∧
      Tracks (deposited o contract) run.result run.paid := by
  simp only [evaluateTransfer, bind_eq_ok, require_eq_ok, found_eq_ok, exists_and_left,
    exists_const] at h
  obtain ⟨_, -, -, contract, hcontract, h⟩ := h
  refine ⟨contract, hcontract, ?_⟩
  split at h
  next hnative => exact evaluateNative_tracks hnative h hsucceed
  next hscripted => exact evaluateScripted_tracks hscripted h hsucceed

/-! ### What a transfer does to the chain -/

variable {s s' : FeeState}

/-- What a transfer conserves: the balances of all parties with the fees of the transfers, for every
asset; and the balance of the contract rises by the amount, less what the contract paid and did not
get back. -/
structure Conserves (o : TransferOp) (paid : List (Payment Address AssetId)) (s s' : FeeState) :
    Prop where
  total : ∀ A : Finset Address, o.callerAddr ∈ A → o.contractId ∈ A →
    (∀ p ∈ paid, p.source ∈ A ∧ p.target ∈ A) → ∀ i,
    ∑ a ∈ A, s'.accounts.balance a i + s'.collected i =
      ∑ a ∈ A, s.accounts.balance a i + s.collected i
  contract : ∀ i, s'.accounts.balance o.contractId i = s.accounts.balance o.contractId i +
    (if i = o.amount.assetId then o.amount.amount else 0) + Journal.effects paid o.contractId i

theorem transferContract_eq_ok (h : transferContract v o x s = .ok (run, s'))
    (hsucceed : run.result.execSucceed = true) :
    ∃ contract, v.contracts o.contractId = some contract ∧
      o.callerAddr ≠ o.contractId ∧ 0 < o.amount.amount ∧
      (∀ a i, s'.accounts.balance a i = s.accounts.balance a i + deposited o contract a i +
        Journal.effects run.paid a i -
        if a = o.callerAddr ∧ i = o.amount.assetId then o.amount.amount else 0) ∧
      ∀ i, s'.collected i = s.collected i + Journal.charges run.paid i := by
  simp only [transferContract, TransferOp.validate, applyTransfer, bind_eq_ok, require_eq_ok,
    exists_and_left, exists_const, Prod.exists, pure_eq_ok, Prod.mk.injEq] at h
  obtain ⟨⟨hversion, -, -, -, hcaller, -, hpos⟩, run', spent, heval, accounts, happly, s₁, hcollect,
    rfl, rfl⟩ := h
  obtain ⟨contract, hcontract, htracks⟩ := evaluateTransfer_tracks heval hsucceed
  rw [if_pos hsucceed] at happly
  simp only [bind_eq_ok] at happly
  obtain ⟨l₁, hnotes, debit, hdebit, hcharge⟩ := happly
  obtain ⟨hcollected, haccounts⟩ := InvokeResult.collectFees_eq_ok hcollect
  refine ⟨contract, hcontract, fun heq => ?_, hpos, fun a i => ?_, fun i => ?_⟩
  · have hnormal := v.addressOf_normal o.callerPubkey
    rw [hcaller, heq, hversion] at hnormal
    cases hnormal
  · rw [haccounts]
    show accounts.balance a i = _
    rw [Accounts.balance_adjustBalance hcharge, (InvokeResult.applyBalance_eq_ok hnotes).1,
      htracks.net, Safe.neg_eq_ok hdebit]
    split <;> omega
  · rw [hcollected, htracks.fee]

theorem sum_single {A : Finset Address} {c : Address} (hc : c ∈ A) (p : Prop) [Decidable p] (n : ℤ) :
    ∑ a ∈ A, (if a = c ∧ p then n else 0) = if p then n else 0 := by
  by_cases hp : p
  · simp [hp, hc]
  · simp [hp]

/-- **A transfer conserves assets exactly if the contract is not native.** -/
theorem transfer_conserves_iff (h : transferContract v o x s = .ok (run, s'))
    (hsucceed : run.result.execSucceed = true) :
    Conserves o run.paid s s' ↔
      ∀ contract, v.contracts o.contractId = some contract → contract.typeOfContract ≠ .native := by
  obtain ⟨contract, hcontract, hne, hpos, hbalance, hcollected⟩ := transferContract_eq_ok h hsucceed
  have hsum : ∀ A : Finset Address, o.callerAddr ∈ A → o.contractId ∈ A →
      (∀ p ∈ run.paid, p.source ∈ A ∧ p.target ∈ A) → ∀ i,
      ∑ a ∈ A, s'.accounts.balance a i + s'.collected i =
        ∑ a ∈ A, s.accounts.balance a i + s.collected i -
          if contract.typeOfContract = .native ∧ i = o.amount.assetId then o.amount.amount else 0 := by
    intro A hcaller hid hpaid i
    have hmoved := Journal.sum_effects hpaid i
    have hdeposit : ∑ a ∈ A, deposited o contract a i =
        if contract.typeOfContract ≠ .native ∧ i = o.amount.assetId then o.amount.amount else 0 := by
      rw [← sum_single hid]
      exact Finset.sum_congr rfl fun a _ => by simp only [deposited, and_left_comm]
    simp only [hbalance, hcollected, Finset.sum_sub_distrib, Finset.sum_add_distrib, hdeposit,
      sum_single hcaller]
    split_ifs <;> simp_all <;> omega
  constructor
  · intro hconserves contract' hcontract' hnative
    obtain rfl := Option.mem_unique hcontract hcontract'
    let A : Finset Address := {o.callerAddr, o.contractId} ∪
      ((run.paid.map (·.source)).toFinset ∪ (run.paid.map (·.target)).toFinset)
    have hcaller : o.callerAddr ∈ A := by simp [A]
    have hid : o.contractId ∈ A := by simp [A]
    have hpaid : ∀ p ∈ run.paid, p.source ∈ A ∧ p.target ∈ A := fun p hp =>
      ⟨by simp [A]; exact .inr (.inr (.inl ⟨p, hp, rfl⟩)),
        by simp [A]; exact .inr (.inr (.inr ⟨p, hp, rfl⟩))⟩
    have hlost := hsum A hcaller hid hpaid o.amount.assetId
    rw [hconserves.total A hcaller hid hpaid, if_pos ⟨hnative, rfl⟩] at hlost
    omega
  · intro hscripted
    have hscripted := hscripted contract hcontract
    refine ⟨fun A hcaller hid hpaid i => ?_, fun i => ?_⟩
    · rw [hsum A hcaller hid hpaid, if_neg fun h => hscripted h.1, Int.sub_zero]
    · rw [hbalance, if_neg fun h => hne h.1.symm, Int.sub_zero]
      simp [deposited, hscripted]

/-! ### A deposit that is lost -/

/-- The contract 8 is a script and the contract 9 is native; both react to deposits. -/
def twoContracts : ChainView where
  contracts a :=
    if a = 8 then some ⟨.normal, 1, "", 0, ["on_deposit_asset"], [], false⟩
    else if a = 9 then some ⟨.native, 1, "", 0, ["on_deposit_asset"], [], true⟩
    else none
  nameTaken _ := false
  assetExists _ := true
  transferFeeRate := 20000
  feeShare amount rate := amount * rate / 100000
  feeShare_nonneg hamount hrate := Int.ediv_nonneg (Int.mul_nonneg hamount hrate) (by decide)
  minGasPrice := none
  throwOverLimit := false
  isContract a := decide (8 ≤ a)
  addressOf key := key % 8
  addressOf_normal key := decide_eq_false (Nat.not_le.mpr (Nat.mod_lt key (by decide)))

/-- The address 1 has a hundred units of the core asset. -/
def oneHundred : FeeState where
  accounts := ⟨fun a i => if a = 1 ∧ i = 0 then some ⟨100, 0⟩ else none, fun _ => 1000⟩
  guarantees := []
  collected _ := 0

/-- The address 1 transfers ten units to a contract. -/
def tenTo (contract : Address) : TransferOp :=
  ⟨⟨⟨1, 0, Safe.fits_one⟩, none, 200, 1, 1, 1, contract⟩, ⟨10, 0, Safe.fits_ten⟩⟩

/-- The contract 8 pays five units to the address 2. -/
def paysFive : Execution := ⟨[⟨some 8, some 2, some 0, 5, by decide⟩], .done 100⟩

theorem transfer_conserves_iff_script :
    ∃ run s', transferContract twoContracts (tenTo 8) paysFive oneHundred = .ok (run, s') ∧
      Conserves (tenTo 8) run.paid oneHundred s' := by
  have hok : (transferContract twoContracts (tenTo 8) paysFive oneHundred).isOk = true := by
    decide +kernel
  obtain ⟨⟨run, s'⟩, h⟩ := exists_eq_ok hok
  have hsucceed : ((transferContract twoContracts (tenTo 8) paysFive oneHundred).map
      fun x => x.1.result.execSucceed) = .ok true := by decide +kernel
  rw [h] at hsucceed
  refine ⟨run, s', h, (transfer_conserves_iff h (Except.ok.inj hsucceed)).mpr ?_⟩
  rintro contract ⟨⟩
  decide

/-- **A native contract does not receive.** The caller pays ten units, and nobody has them. -/
theorem native_transfer_lost :
    ∃ run s', transferContract twoContracts (tenTo 9) ⟨[], .done 100⟩ oneHundred = .ok (run, s') ∧
      run.result.execSucceed = true ∧ s'.accounts.balance 1 0 = 90 ∧
      s'.accounts.balance 9 0 = 0 ∧ ¬ Conserves (tenTo 9) run.paid oneHundred s' := by
  have hok : (transferContract twoContracts (tenTo 9) ⟨[], .done 100⟩ oneHundred).isOk = true := by
    decide +kernel
  obtain ⟨⟨run, s'⟩, h⟩ := exists_eq_ok hok
  have hfacts : ((transferContract twoContracts (tenTo 9) ⟨[], .done 100⟩ oneHundred).map
      fun x => (x.1.result.execSucceed, x.2.accounts.balance 1 0, x.2.accounts.balance 9 0,
        Journal.effects x.1.paid 9 0)) = .ok (true, 90, 0, 0) := by decide +kernel
  rw [h] at hfacts
  simp only [Except.map, Except.ok.injEq, Prod.mk.injEq] at hfacts
  obtain ⟨hsucceed, hcaller, hcontract, hpaid⟩ := hfacts
  refine ⟨run, s', h, hsucceed, hcaller, hcontract, fun hconserves => ?_⟩
  have hreceived := hconserves.contract 0
  change s'.accounts.balance 9 0 = 0 + 10 + Journal.effects run.paid 9 0 at hreceived
  omega

end Whitecoin.Contract
