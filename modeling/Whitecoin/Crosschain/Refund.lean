import Whitecoin.Crosschain.Record

/-!
# Refunds and decisions of the wallfacers

The operations that end a withdrawal without a report of the other chain. A user may take back a
withdrawal that is in no batch yet; the wallfacers may cancel a batch, which refunds all its
withdrawals, pass it as paid, or send it back to be combined again.

The four operations on a batch repeat one check of the batch and its withdrawals, and the three
that cancel repeat one loop of refunds. The check asks for the types and the assets of the records,
not for their states: what a batch may do is decided by the state of the one record that the
operation names.
-/

namespace Whitecoin.Crosschain

open Check Ledger

/-! ### A withdrawal that is in no batch -/

/-- `wallfacer_refund_balance_evaluator`. -/
def refundBalance (env : Env) (o : RefundBalanceOp) (s : State) : Except String State := do
  let r ← found (s.find o.txid) "transaction not exist."
  require (r.trxState = .withoutSignTrxUncreate)
    "refund if only crosschain transaction is not created."
  require (r.realTransaction.operations.length = 1) "operation size error"
  let w ← found r.realTransaction.withdrawOp "operation type error"
  require (o.refundAddr ∈ r.realTransaction.signers) "withdraw is not created by this account."
  let asset ← found (env.assets.byId w.assetId) "d.get(asset_id)"
  let amount ← asset.amount w.amount
  let accounts ← s.accounts.adjustBalance o.refundAddr w.assetId amount false
  let s := { s with accounts }.move (·.transactionId = o.txid) .canceled
  let accounts ← s.accounts.raiseSupply w.assetId amount
  return { s with accounts }.log [.refunded o.txid o.refundAddr]

/-! ### What the operations on a batch share -/

/-- The wallfacer exists, has the address it gives, and is a permanent one where that is asked. -/
def checkWallfacer (env : Env) (o : WallfacerOp) (permanent : Bool) : Except String Unit := do
  let wallfacer ← found (env.wallfacer o.wallfacerId) "cant find this wallfacer"
  require (permanent = true → wallfacer.permanent = true) "wallfacer_type == PERMANENT"
  let addr ← found (env.accountAddr wallfacer.memberAccount) "cant find this account"
  require (addr = o.wallfacerAddress) "wallfacer address error"

/-- The transaction is more than 720 blocks old. -/
def checkAge (env : Env) (id : TrxId) : Except String Unit := do
  let blockNum ← found (env.fetchTrx id) "trx_history_iter.valid()"
  require (blockNum + 720 < env.headBlockNum) "block_num + 720 < current_blockNum"

/-- The batch lists withdrawals of its own asset. -/
def checkSources (env : Env) (s : State) (batch : Record) :
    Except String (WithoutSignOp × Asset) := do
  let o ← found batch.realTransaction.withoutSignOp "operation type error"
  let asset ← found (env.assets.byId o.assetId) "without_sign_op.asset_id(d)"
  require (o.assetSymbol = asset.symbol) "asset_symbol == asset_type.symbol"
  forM o.ccwTrxIds fun id => do
    let r ← found (s.find id) "source trx exist error"
    require (r.realTransaction.operations.length = 1) "source trx operation size error"
    let w ← found r.realTransaction.withdrawOp "get<crosschain_withdraw_operation>"
    require (o.assetSymbol = w.assetSymbol) "asset_symbol == source_op.asset_symbol"
    require (o.assetId = w.assetId) "asset_id == source_op.asset_id"
  return (o, asset)

/-- Refund one withdrawal of a batch. -/
def refundSource (asset : Asset) (s : State) (id : TrxId) : Except String State := do
  let r ← found (s.find id) "source_iter"
  let w ← found r.realTransaction.withdrawOp "get<crosschain_withdraw_operation>"
  let amount ← asset.amount w.amount
  let accounts ← s.accounts.adjustBalance w.withdrawAccount w.assetId amount false
  let s := { s with accounts }.move (·.transactionId = id) .canceled
  let accounts ← s.accounts.raiseSupply asset.id amount
  return { s with accounts }.log [.refunded id w.withdrawAccount]

/-- Refund the withdrawals a batch lists. -/
def refundSources (asset : Asset) (ids : List TrxId) (s : State) : Except String State :=
  ids.foldlM (refundSource asset) s

/-- Cancel a batch: the records that follow it, the refunds, the record the operation named, the
batch, and the fee that its creation had added to the supply. -/
def cancelBatch (asset : Asset) (o : WithoutSignOp) (named batch : TrxId) (s : State) :
    Except String State := do
  let s := s.move (·.relateTransactionId = batch) .canceled
  let s ← refundSources asset o.ccwTrxIds s
  let s := s.move (·.transactionId = named) .canceled
  let s := s.move (·.transactionId = batch) .canceled
  let accounts ← s.accounts.lowerSupply asset.id o.crosschainFee
  return { s with accounts }

/-! ### The operations -/

/-- `wallfacer_refund_crosschain_trx_evaluator`: cancel a batch before it is combined. -/
def refundCrosschainTrx (env : Env) (o : WallfacerOp) (s : State) : Except String State := do
  checkWallfacer env o false
  let r ← found (s.find o.trxId) "transaction not exist."
  require (r.trxState = .withoutSignTrxCreate) "cross chain trx state error"
  require (r.realTransaction.operations.length = 1) "operation size error"
  let (w, asset) ← checkSources env s r
  cancelBatch asset w o.trxId o.trxId s

/-- `wallfacer_cancel_combine_trx_evaluator`: cancel a batch after it was combined. -/
def cancelCombineTrx (env : Env) (o : WallfacerOp) (s : State) : Except String State := do
  checkWallfacer env o true
  let r ← found (s.find o.trxId) "transaction not exist."
  require (r.trxState = .combineTrxCreate) "cross chain trx state error"
  require (r.realTransaction.operations.length = 1) "operation size error"
  checkAge env o.trxId
  let batch ← found (s.find r.relateTransactionId) "without transaction not exist."
  require (batch.realTransaction.operations.length = 1) "operation size error"
  let (w, asset) ← checkSources env s batch
  cancelBatch asset w o.trxId r.relateTransactionId s

/-- `wallfacer_pass_success_trx_evaluate`: take a combined batch as paid. -/
def passSuccessTrx (env : Env) (o : WallfacerOp) (s : State) : Except String State := do
  require (passXwcBlockNum ≤ env.headBlockNum) "You cant use this function now"
  checkWallfacer env o true
  let r ← found (s.find o.trxId) "transaction not exist."
  require (r.trxState = .combineTrxCreate) "cross chain trx state error"
  require (r.realTransaction.operations.length = 1) "operation size error"
  require (r.realTransaction.combineSignOp ≠ none) "operations[0].which()"
  let batch ← found (s.find r.relateTransactionId) "without transaction not exist."
  require (batch.realTransaction.operations.length = 1) "operation size error"
  let (w, _) ← checkSources env s batch
  let s := s.move (·.relateTransactionId = r.relateTransactionId) .transactionConfirm
  let s := s.move (fun x => x.transactionId ∈ w.ccwTrxIds) .transactionConfirm
  let s := s.move (·.transactionId = o.trxId) .transactionConfirm
  return s.move (·.transactionId = r.relateTransactionId) .transactionConfirm

/-- The receipt of the external transaction: above the height, the logs are all that tells a failed
one. -/
def checkReceipt (env : Env) (signed : EthSignOp) : Except String Unit :=
  match env.handle signed.chainType with
  | none => .ok ()
  | some hdl => do
    let receipt ← found (hdl.transactionQuery (beforeBar signed.signedCrosschainTrxId))
      "eth_transaction.contains"
    require (receipt.logs ≤ 1) "this trasnaction not fail"
    require (env.headBlockNum < coldhotTransferEvaluateHeight → receipt.gas = receipt.gasUsed)
      "source_trx[gas]"

/-- `eth_cancel_fail_crosschain_trx_evaluate`: cancel a batch whose external transaction failed.
The number of operations of the batch is not looked at. -/
def ethCancelFailCrosschainTrx (env : Env) (o : WallfacerOp) (s : State) : Except String State := do
  checkWallfacer env o true
  let r ← found (s.find o.trxId) "transaction not exist."
  require (r.trxState = .ethWallfacerSign) "cross chain trx state error"
  require (r.realTransaction.operations.length = 1) "operation size error"
  checkAge env o.trxId
  let signed ← found r.realTransaction.ethSignFinalOp "operation type error"
  let batch ← found (s.find r.relateTransactionId) "without transaction not exist."
  let (w, asset) ← checkSources env s batch
  require (ethSeries w.assetSymbol = true) "asset_symbol"
  checkReceipt env signed
  cancelBatch asset w o.trxId r.relateTransactionId s

/-- `eths_cancel_unsigned_transaction_evaluator`: send a batch that waits for its final signature
back, and drop the combined signature. -/
def ethsCancelUnsignedTransaction (env : Env) (o : WallfacerOp) (s : State) :
    Except String State := do
  checkWallfacer env o true
  let r ← found (s.find o.trxId) "transaction not exist."
  require (r.trxState = .ethWallfacerNeedSign) "cross chain trx state error"
  require (r.realTransaction.operations.length = 1) "operation size error"
  require (r.realTransaction.combineSignOp ≠ none) "operation type error 1"
  checkAge env o.trxId
  let batch ← found (s.find r.relateTransactionId) "without transaction not exist."
  require (batch.realTransaction.operations.length = 1) "operation size error"
  let (w, _) ← checkSources env s batch
  let s := s.move (·.relateTransactionId = r.relateTransactionId) .signTrx
  let s := s.move (fun x => x.transactionId ∈ w.ccwTrxIds) .withoutSignTrxCreate
  let s := s.move (·.transactionId = r.relateTransactionId) .withoutSignTrxCreate
  return s.remove o.trxId

end Whitecoin.Crosschain
