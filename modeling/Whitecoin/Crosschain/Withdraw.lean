import Whitecoin.Crosschain.Record

/-!
# Withdrawals

`crosschain_withdraw_evaluate`. A withdrawal is meant to take money out of the chain: the balance
of the user and the supply of the asset fall by the same amount. The amount is a text that the
user writes, and its sign is looked at in one place only, the comparison with the withdrawal limit.
That comparison stands behind two early returns: it is made only if this node has a handle for the
symbol the operation names, which need not be the symbol of the asset it debits.
-/

namespace Whitecoin.Crosschain

open Check Ledger

/-- The digits after the point are no more than the precision. -/
def PlacesWithin (amount : String) (precision : ℕ) : Prop :=
  '.' ∈ amount.toList →
    (amount.toList.drop (amount.toList.findIdx (· = '.') + 1)).length ≤ precision

instance (amount : String) (precision : ℕ) : Decidable (PlacesWithin amount precision) :=
  inferInstanceAs (Decidable (_ → _))

/-- `crosschain_withdraw_evaluate::do_evaluate`. -/
def evaluateWithdraw (env : Env) (trx : Transaction) (o : WithdrawOp) (s : State) :
    Except String Unit := do
  require (s.find trx.id = none) "This Transaction exist"
  let asset ← found (env.assets.byId o.assetId) "asset_itr != asset_idx.end()"
  require (asset.allowWithdrawDeposit = true)
    "this asset does not allow to withdraw and deposit."
  require (PlacesWithin o.amount asset.precision) "amount precision error"
  match env.handle o.assetSymbol with
  | none => return ()
  | some hdl => do
    require (hdl.validateAddress o.crosschainAccount = true) "crosschain address isn`t valid"
    require (trx.operations.length = 1) "operation error"
    let amount ← asset.amount o.amount
    if crosschainRecordEvaluate480000 < env.headBlockNum ∧ "ERC".toList <:+: asset.symbol.toList then
      require (asset.withdrawLimition < amount) "amount > withdraw_limition"
    else
      require (asset.withdrawLimition ≤ amount) "amount >= withdraw_limition"

/-- The record of a withdrawal. -/
def withdrawRecord (trx : Transaction) : Record where
  relateTransactionId := 0
  transactionId := trx.id
  allRelatedOriginTransactionIds := []
  realTransaction := trx
  opType := .withdraw
  trxState := .withoutSignTrxUncreate
  crosschainTrxId := ""
  crosschainFee := 0

/-- `crosschain_withdraw_evaluate::do_apply`. -/
def applyWithdraw (env : Env) (trx : Transaction) (o : WithdrawOp) (s : State) :
    Except String State := do
  let asset ← found (env.assets.byId o.assetId) "asset"
  let amount ← asset.amount o.amount
  let accounts ← s.accounts.adjustBalance o.withdrawAccount o.assetId (← Safe.neg amount) false
  let _ ← found trx.withdrawOp "operations[0]"
  let s ← { s with accounts }.create (withdrawRecord trx)
  let accounts ← s.accounts.lowerSupply o.assetId amount
  return { s with accounts }.log [.debited trx.id o.withdrawAccount o.assetId amount]

/-- `crosschain_withdraw_operation`, evaluated and applied. -/
def withdraw (env : Env) (trx : Transaction) (o : WithdrawOp) (s : State) : Except String State := do
  evaluateWithdraw env trx o s
  applyWithdraw env trx o s

variable {env : Env} {trx : Transaction} {o : WithdrawOp} {s s' : State}

/-- What an accepted withdrawal does. -/
structure Withdrawn (env : Env) (trx : Transaction) (o : WithdrawOp) (s s' : State)
    (asset : Asset) (amount : ℤ) : Prop where
  evaluated : evaluateWithdraw env trx o s = .ok ()
  byId : env.assets.byId o.assetId = some asset
  amount_eq : asset.amount o.amount = .ok amount
  first : ∃ o', trx.withdrawOp = some o'
  fresh : s.find trx.id = none
  balance : ∀ a i, s'.accounts.balance a i =
    s.accounts.balance a i - if a = o.withdrawAccount ∧ i = o.assetId then amount else 0
  supply : s'.accounts.currentSupply = Function.update s.accounts.currentSupply o.assetId
    (s.accounts.currentSupply o.assetId - amount)
  records : s'.records = s.records ++ [withdrawRecord trx]
  transfers : s'.transfers = s.transfers
  acquired : s'.acquired = s.acquired
  bindings : s'.bindings = s.bindings
  history : s'.history = .debited trx.id o.withdrawAccount o.assetId amount :: s.history

theorem withdraw_eq_ok (h : withdraw env trx o s = .ok s') :
    ∃ asset amount, Withdrawn env trx o s s' asset amount := by
  simp only [withdraw, applyWithdraw, bind_eq_ok, found_eq_ok, pure_eq_ok] at h
  obtain ⟨_, heval, asset, hasset, amount, hamount, debit, hdebit, accounts, hadjust, o', hfirst, t,
    ht, accounts', hlower, rfl⟩ := h
  obtain ⟨hfresh, rfl⟩ := State.create_eq_ok ht
  have hsupply := Accounts.lowerSupply_eq_ok hlower
  have hkeep := Accounts.currentSupply_adjustBalance hadjust
  subst hsupply
  refine ⟨asset, amount, heval, hasset, hamount, ⟨o', hfirst⟩, hfresh, fun a i => ?_, ?_, rfl, rfl,
    rfl, rfl, rfl⟩
  · have hbal := Accounts.balance_adjustBalance hadjust a i
    rw [Safe.neg_eq_ok hdebit] at hbal
    change accounts.balance a i = _
    rw [hbal]
    split <;> omega
  · change Function.update accounts.currentSupply o.assetId _ = _
    rw [hkeep]

/-- The balance of the withdrawing account and the supply fall by the same positive amount. -/
def Debits (o : WithdrawOp) (s s' : State) : Prop :=
  ∃ amount : ℤ, 0 < amount ∧
    s'.accounts.balance o.withdrawAccount o.assetId =
      s.accounts.balance o.withdrawAccount o.assetId - amount ∧
    s'.accounts.currentSupply o.assetId = s.accounts.currentSupply o.assetId - amount

/-- The text denotes a positive number of smallest units of the asset that is debited. -/
def PositiveAmount (env : Env) (o : WithdrawOp) : Prop :=
  ∃ asset amount, env.assets.byId o.assetId = some asset ∧ asset.amount o.amount = .ok amount ∧
    0 < amount

/-- With a handle for the symbol, the amount of an accepted withdrawal is at least the limit. -/
theorem withdrawLimition_le {asset : Asset} {amount : ℤ} (h : evaluateWithdraw env trx o s = .ok ())
    (hasset : env.assets.byId o.assetId = some asset) (hamount : asset.amount o.amount = .ok amount)
    (hhandle : env.handle o.assetSymbol ≠ none) : asset.withdrawLimition ≤ amount := by
  obtain ⟨hdl, hhdl⟩ := Option.ne_none_iff_exists'.mp hhandle
  simp only [evaluateWithdraw, bind_eq_ok, require_eq_ok, found_eq_ok, exists_and_left, exists_const,
    hhdl, hasset, Option.some.injEq, exists_eq_left', hamount, Except.ok.injEq] at h
  obtain ⟨-, -, -, -, -, h⟩ := h
  split at h
  · exact le_of_lt (require_eq_ok.mp h)
  · exact require_eq_ok.mp h

/-- A withdrawal of bitcoins by the account 7, which has ten of them. -/
def bitcoinWithdrawal (amount : String) : WithdrawOp :=
  ⟨7, amount, "BTC", 1, "somewhere"⟩

def bitcoinTransaction (amount : String) : Transaction :=
  ⟨20, [.withdraw (bitcoinWithdrawal amount)], [7], by decide⟩

end Whitecoin.Crosschain
