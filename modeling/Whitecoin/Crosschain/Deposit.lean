import Whitecoin.Crosschain.Record

/-!
# Deposits

A user binds addresses of other chains to an account; a deposit that comes from a bound address is
credited to the account. The deposit is checked and credited through two different indexes of the
bindings: the check looks for the address together with the chain, and compares the owner it finds
with the one the operation declares; the credit goes to the owner found by the address alone. An
address that is bound for several chains has several owners there, and the oldest of them is
found.
-/

namespace Whitecoin.Crosschain

open Check Ledger

/-! ### Bindings -/

namespace State

variable (s : State)

/-- The unique index by owner and chain. -/
def bindingOf (owner : Address) (chain : String) : Option AccountBinding :=
  s.bindings.find? fun b => b.owner = owner ∧ b.chainType = chain

/-- The unique index by external address and chain. -/
def tunnelBinding (account : String) (chain : String) : Option AccountBinding :=
  s.bindings.find? fun b => b.bindAccount = account ∧ b.chainType = chain

/-- The index by external address alone: bindings with one address stand in the order in which they
were created, and the first is found. -/
def boundAccount (account : String) : Option AccountBinding :=
  s.bindings.find? fun b => b.bindAccount = account

end State

/-- `account_bind_evaluator`. Without a handle nothing is checked, but the two unique indexes still
refuse a second binding. -/
def accountBind (env : Env) (o : AccountBindOp) (s : State) : Except String State := do
  require (∀ hdl ∈ env.handle o.crosschainType, env.late = false →
    hdl.validateSignature o.tunnelAddress o.tunnelAddress o.tunnelSignature = true)
    "validate_signature"
  require (s.bindingOf o.addr o.crosschainType = none) "bind_itr == bind_idx.end()"
  require (s.tunnelBinding o.tunnelAddress o.crosschainType = none) "tunnel_itr == tunnel_idx.end()"
  return { s with bindings := s.bindings ++ [⟨o.addr, o.crosschainType, o.tunnelAddress⟩] }

/-- `account_unbind_evaluator`. -/
def accountUnbind (env : Env) (o : AccountBindOp) (s : State) : Except String State := do
  require (∀ hdl ∈ env.handle o.crosschainType, env.late = false →
    hdl.validateSignature o.tunnelAddress o.tunnelAddress o.tunnelSignature = true)
    "validate_signature"
  let _ ← found (s.bindingOf o.addr o.crosschainType) "bind_itr != bind_idx.end()"
  require ((env.handle o.crosschainType).isSome →
    s.tunnelBinding o.tunnelAddress o.crosschainType ≠ none)
    "tunnel_itr != tunnel_idx.end()"
  return { s with
    bindings := s.bindings.filter fun b => ¬ (b.owner = o.addr ∧ b.chainType = o.crosschainType) }

/-! ### Deposits -/

/-- The external account a deposit is paid to. -/
def depositAccount (trx : HdTrx) : String :=
  if ethSeries trx.assetSymbol then beforeBar trx.toAccount else trx.toAccount

/-- The account is, or was until lately, the multi-signature account of the chain. -/
def checkMultisig (env : Env) (trx : HdTrx) : Except String Unit := do
  let pair ← found (env.multisigAccount (depositAccount trx) trx.assetSymbol)
    "multisig address does not exist."
  require (0 < pair.effectiveBlockNum) "multisig address has not worked yet."
  let current ← found (env.currentMultisigAccount trx.assetSymbol)
    "there is no worked multisig address."
  require (pair.effectiveBlockNum ≠ current.effectiveBlockNum →
    (env.headBlockNum + 2 ^ 32 - pair.endBlock) % 2 ^ 32 ≤ 20000) "this multi addr has expired"

/-- The other chain knows the transaction. -/
def checkLink (env : Env) (trx : HdTrx) : Except String Unit :=
  match env.handle trx.assetSymbol with
  | none => .ok ()
  | some hdl => do
    let asset ← found (env.assets.bySymbol trx.assetSymbol) "obj.valid()"
    if env.late then return ()
    else if "ERC".toList <:+: trx.assetSymbol.toList then
      require (hdl.validateLinkTrx (trx.described asset) = true) "This transaction doesnt valid"
    else if crosschainRecordEvaluate220000 ≤ env.headBlockNum then
      require (hdl.validateLinkTrxV1 trx = true) "This transaction doesnt valid"
    else require (hdl.validateLinkTrx trx = true) "This transaction doesnt valid"

/-- `crosschain_record_evaluate::do_evaluate`. -/
def evaluateRecord (env : Env) (o : RecordOp) (s : State) : Except String Unit := do
  require (¬ UsedUp s o.crossChainTrx.trxId) "deposit transaction exist"
  let tunnel ← found (s.tunnelBinding o.crossChainTrx.fromAccount o.crossChainTrx.assetSymbol)
    "tunnel_itr != tunnel_idx.end()"
  require (tunnel.owner = o.depositAddress) "tunnel_itr->owner == o.deposit_address"
  let asset ← found (env.assets.byId o.assetId) "asset_itr != asset_idx.end()"
  require (asset.symbol = o.crossChainTrx.assetSymbol) "asset_itr->symbol"
  require (asset.allowWithdrawDeposit = true) "allow_withdraw_deposit"
  checkMultisig env o.crossChainTrx
  checkLink env o.crossChainTrx

/-- `crosschain_record_evaluate::do_apply`. -/
def applyRecord (env : Env) (o : RecordOp) (s : State) : Except String State := do
  let tunnel ← found (s.boundAccount o.crossChainTrx.fromAccount) "tunnel_itr"
  let asset ← found (env.assets.byId o.assetId) "asset_itr"
  let amount ← asset.amount o.crossChainTrx.amount
  let accounts ← s.accounts.adjustBalance tunnel.owner o.assetId amount false
  let accounts ← accounts.raiseSupply o.assetId amount
  return { s with
    accounts, acquired := Function.update s.acquired o.crossChainTrx.trxId (some .create) }

/-- `crosschain_record_operation`, evaluated and applied. -/
def record (env : Env) (o : RecordOp) (s : State) : Except String State := do
  evaluateRecord env o s
  applyRecord env o s

variable {env : Env} {o : RecordOp} {s s' : State}

/-- What an accepted deposit does. -/
structure Recorded (env : Env) (o : RecordOp) (s s' : State) (tunnel : AccountBinding)
    (asset : Asset) (amount : ℤ) : Prop where
  fresh : ¬ UsedUp s o.crossChainTrx.trxId
  bound : s.boundAccount o.crossChainTrx.fromAccount = some tunnel
  byId : env.assets.byId o.assetId = some asset
  amount_eq : asset.amount o.crossChainTrx.amount = .ok amount
  balance : ∀ a i, s'.accounts.balance a i =
    s.accounts.balance a i + if a = tunnel.owner ∧ i = o.assetId then amount else 0
  acquired : s'.acquired = Function.update s.acquired o.crossChainTrx.trxId (some .create)
  records : s'.records = s.records
  transfers : s'.transfers = s.transfers
  history : s'.history = s.history

theorem record_eq_ok (h : record env o s = .ok s') :
    ∃ tunnel asset amount, Recorded env o s s' tunnel asset amount := by
  simp only [record, applyRecord, bind_eq_ok, found_eq_ok, pure_eq_ok] at h
  obtain ⟨_, heval, tunnel, htunnel, asset, hasset, amount, hamount, accounts, hadjust, accounts',
    hraise, rfl⟩ := h
  have hfresh : ¬ UsedUp s o.crossChainTrx.trxId := by
    simp only [evaluateRecord, bind_eq_ok, require_eq_ok, exists_and_left] at heval
    exact heval.1
  refine ⟨tunnel, asset, amount, hfresh, htunnel, hasset, hamount, fun a i => ?_, rfl, rfl, rfl,
    rfl⟩
  obtain rfl := Accounts.raiseSupply_eq_ok hraise
  exact Accounts.balance_adjustBalance hadjust a i

/-- The declared owner is credited with the parsed amount of the declared asset, and no other
balance changes. -/
def CreditsOwner (env : Env) (o : RecordOp) (s s' : State) : Prop :=
  ∃ asset amount, env.assets.byId o.assetId = some asset ∧
    asset.amount o.crossChainTrx.amount = .ok amount ∧
    ∀ a i, s'.accounts.balance a i =
      s.accounts.balance a i + if a = o.depositAddress ∧ i = o.assetId then amount else 0

/-- The oldest binding of the paying address, for whatever chain, is the declared owner's. -/
def OldestBindingOwned (o : RecordOp) (s : State) : Prop :=
  (s.boundAccount o.crossChainTrx.fromAccount).map (·.owner) = some o.depositAddress

/-- The amount is worth nothing. -/
def ZeroDeposit (env : Env) (o : RecordOp) : Prop :=
  ∃ asset, env.assets.byId o.assetId = some asset ∧ asset.amount o.crossChainTrx.amount = .ok 0

/-- **A deposit reaches the declared owner exactly when the oldest binding of the paying address is
that owner's.** -/
theorem record_creditsOwner_iff (h : record env o s = .ok s') :
    CreditsOwner env o s s' ↔ OldestBindingOwned o s ∨ ZeroDeposit env o := by
  obtain ⟨tunnel, asset, amount, hr⟩ := record_eq_ok h
  have howned : OldestBindingOwned o s ↔ tunnel.owner = o.depositAddress := by
    rw [OldestBindingOwned, hr.bound, Option.map_some, Option.some.injEq]
  rw [howned]
  constructor
  · rintro ⟨asset', amount', hid, ham, hbal⟩
    obtain rfl := Option.mem_unique hr.byId hid
    obtain rfl := Except.ok.inj (hr.amount_eq.symm.trans ham)
    by_cases hne : tunnel.owner = o.depositAddress
    · exact .inl hne
    · -- the credit of the other account is missing from the declared effect
      have hstranger := (hbal tunnel.owner o.assetId).symm.trans (hr.balance tunnel.owner o.assetId)
      rw [if_neg fun hc => hne hc.1, if_pos ⟨rfl, rfl⟩] at hstranger
      obtain rfl : amount = 0 := by omega
      exact .inr ⟨asset, hr.byId, hr.amount_eq⟩
  · rintro (howner | ⟨asset', hid, ham⟩)
    · exact ⟨asset, amount, hr.byId, hr.amount_eq, howner ▸ hr.balance⟩
    · obtain rfl := Option.mem_unique hr.byId hid
      obtain rfl := Except.ok.inj (hr.amount_eq.symm.trans ham)
      refine ⟨asset, 0, hr.byId, hr.amount_eq, fun a i => ?_⟩
      rw [hr.balance a i]
      simp

/-! ### One address, two chains -/

/-- The account 7 binds an address for bitcoins. -/
def boundOnce : State :=
  attempted tenBitcoins (accountBind quietEnv ⟨"BTC", 7, "0xabc", ""⟩ tenBitcoins)

/-- Before it, the account 8 has bound the same address for ether. -/
def boundTwice : State :=
  let s := attempted tenBitcoins (accountBind quietEnv ⟨"ETH", 8, "0xabc", ""⟩ tenBitcoins)
  attempted s (accountBind quietEnv ⟨"BTC", 7, "0xabc", ""⟩ s)

/-- A deposit of five bitcoins, declared for the account 7. -/
def bitcoinDeposit : RecordOp :=
  ⟨⟨"external", "0xabc", "multisig", "5", "BTC"⟩, 7, 1⟩

theorem record_creditsOwner_iff_once : ∃ s',
    record quietEnv bitcoinDeposit boundOnce = .ok s' ∧
      CreditsOwner quietEnv bitcoinDeposit boundOnce s' := by
  have hok : (record quietEnv bitcoinDeposit boundOnce).isOk = true := by decide +kernel
  have howned : OldestBindingOwned bitcoinDeposit boundOnce := by
    unfold OldestBindingOwned
    decide +kernel
  exact ⟨_, eq_ok_attempted boundOnce hok,
    (record_creditsOwner_iff (eq_ok_attempted boundOnce hok)).mpr (.inl howned)⟩

/-- **A deposit from an address that is bound for two chains goes to the wrong account**: both
bindings exist, the deposit is accepted, and the account 8 has it. -/
theorem record_credits_stranger :
    boundTwice.bindings = [⟨8, "ETH", "0xabc"⟩, ⟨7, "BTC", "0xabc"⟩] ∧ ∃ s',
      record quietEnv bitcoinDeposit boundTwice = .ok s' ∧
      ¬ CreditsOwner quietEnv bitcoinDeposit boundTwice s' ∧
      s'.accounts.balance 8 1 = boundTwice.accounts.balance 8 1 + 500 := by
  have hok : (record quietEnv bitcoinDeposit boundTwice).isOk = true := by decide +kernel
  have hok' := eq_ok_attempted boundTwice hok
  have hbal : (attempted boundTwice (record quietEnv bitcoinDeposit boundTwice)).accounts.balance 8 1
      = boundTwice.accounts.balance 8 1 + 500 := by decide +kernel
  refine ⟨by decide +kernel, _, hok', ?_, hbal⟩
  rintro ⟨asset, amount, -, -, hcredit⟩
  have := hcredit 8 1
  rw [hbal, if_neg (by decide)] at this
  omega

end Whitecoin.Crosschain
