import Whitecoin.Crosschain.Payout
import Whitecoin.Crosschain.Refund
import Whitecoin.Crosschain.Withdraw

/-!
# Cold-hot transfers

The reserve of another chain lies on two multi-signature accounts, a hot one and a cold one. A
transfer between them runs through the stages of a withdrawal: the transfer, one transaction that
carries the external transaction without signatures, one for each signature, one that combines
them, for the Ethereum family a final signature, and the report. The wallfacers may cancel it at
several of these stages, or pass it.

The evaluators are those of `coldhot_transfer_evaluate.cpp` and the two of
`eth_seri_record_evaluate.cpp` for the final signature; what they write is in
`database::adjust_coldhot_transaction`. Where the source goes on with a record that a lookup may not
have found, the model rejects the operation.
-/

namespace Whitecoin.Coldhot

open Check Ledger Crosschain

/-! ### The transfer -/

/-- The account is one of the multi-signature accounts of the chain. -/
def IsMultisig (env : Env) (symbol account : String) : Prop :=
  ∃ pair ∈ env.bindAccounts symbol, account = pair.bindAccountHot ∨ account = pair.bindAccountCold

instance (env : Env) (symbol account : String) : Decidable (IsMultisig env symbol account) :=
  inferInstanceAs (Decidable (∃ pair ∈ _, _))

/-- `coldhot_transfer_evaluate::do_evaluate`. -/
def evaluateTransfer (env : Env) (trx : Transaction) (o : ColdhotTransferOp) (s : State) :
    Except String Unit := do
  let asset ← found (env.assets.byId o.assetId) "asset_itr != asset_idx.end()"
  require (asset.symbol = o.assetSymbol) "asset_itr->symbol == o.asset_symbol"
  require (PlacesWithin o.amount asset.precision) "amount precision error"
  require (0 < (← asset.amount o.amount)) "transfer amount should exceed zero."
  require (IsMultisig env o.assetSymbol o.multiAccountWithdraw ∧
    IsMultisig env o.assetSymbol o.multiAccountDeposit)
    "Cant Transfer account which is not multi account"
  require (s.findTransfer trx.id = none) "This coldhot Transaction exist"

/-- The record of an operation. -/
def record (trx : Transaction) (opType : ColdhotOpType) (relate : TrxId) (st : ColdhotTrxState)
    (external : String) : Transfer where
  relateTrxId := relate
  currentId := trx.id
  currentTrx := trx
  originalTrxId := external
  opType := opType
  curretTrxState := st

def transfer (env : Env) (trx : Transaction) (o : ColdhotTransferOp) (s : State) :
    Except String State := do
  evaluateTransfer env trx o s
  s.createTransfer (record trx .transfer 0 .withoutSignTrxUncreate "")

/-! ### Without signatures -/

/-- Read the external transaction, in the way its chain needs. -/
def turnWithoutSign (env : Env) (hdl : Handle) (o : ColdhotWithoutSignOp) (symbolAsset : Asset) :
    Except String CrosschainTrx :=
  if "ERC".toList <:+: o.assetSymbol.toList then do
    hdl.turnTrxs (.erc (← env.ercPrecision symbolAsset) o.coldhotTrxOriginalChain)
  else if o.assetSymbol = "USDT" then do
    let turned ← hdl.turnTrxs (.usdt o.coldhotTrxOriginalChain)
    require (turned.trxs.length = 1) "USDT transaction count error"
    require ((turned.trxs.head?.map fun t => env.coldhotUsdtOutputs t.2) = some true) "Not USDT trx"
    return turned
  else if o.assetSymbol = "ETH" then hdl.turnTrxs (.eth o.coldhotTrxOriginalChain)
  else hdl.turnTrxs (.plain o.coldhotTrxOriginalChain)

/-- The external transaction moves what the transfer says. -/
def checkTransfer (env : Env) (t : Transfer) (o : ColdhotWithoutSignOp) (turned : CrosschainTrx) :
    Except String Unit := do
  require (t.currentTrx.operations.length = 1) "operations.size() == 1"
  let w ← found t.currentTrx.coldhotTransferOp "get<coldhot_transfer_operation>"
  require (env.multisigAddressCount w.multiAccountWithdraw w.assetSymbol = o.withdrawAccountCount)
    "withdraw multi account count error"
  let one ← found (turned.trxs.lookup w.multiAccountDeposit) "created_trx.trxs.count == 1"
  require (one.toAccount = w.multiAccountDeposit) "one_trx.to_account"
  require (if o.assetSymbol = "USDT" then env.usdtFrom one = some w.multiAccountWithdraw
    else one.fromAccount = w.multiAccountWithdraw) "one_trx.from_account"
  let asset ← found (env.assets.bySymbol w.assetSymbol) "asset_itr != asset_idx.end()"
  require (one.assetSymbol = w.assetSymbol) "one_trx.asset_symbol"
  require ((← asset.amount one.amount) = (← asset.amount w.amount)) "amount_from_string"

/-- `coldhot_transfer_without_sign_evaluate::do_evaluate`. The state of the transfer is not looked
at; the check that it was not created before looks for records that follow this very transaction. -/
def evaluateWithoutSign (env : Env) (trx : Transaction) (o : ColdhotWithoutSignOp) (s : State) :
    Except String Unit := do
  let symbolAsset ← found (env.assets.bySymbol o.assetSymbol) "obj.valid()"
  let t ← found (s.findTransfer o.coldhotTrxId) "coldhot original trx doesn`t exist"
  require (s.relatedTransfers trx.id = []) "coldhot trx without sign has been created"
  require (o.assetSymbol = "BCH" → env.bchFields o.coldhotTrxOriginalChain = true)
    "No amount in bch vin"
  match env.handle o.assetSymbol with
  | none => return ()
  | some hdl =>
    if env.late then return () else do
      let turned ← turnWithoutSign env hdl o symbolAsset
      checkTransfer env t o turned

def withoutSign (env : Env) (trx : Transaction) (o : ColdhotWithoutSignOp) (s : State) :
    Except String State := do
  evaluateWithoutSign env trx o s
  let s := s.moveTransfers (·.currentId = o.coldhotTrxId) .withoutSignTrxCreate
  s.createTransfer (record trx .withoutSign o.coldhotTrxId .withoutSignTrxCreate "")

/-! ### Signatures -/

/-- The related records are open, and those that hold a signature name another signer. -/
def checkSigners (related : List Transfer) (signer : WallfacerId) : Except String Unit :=
  forM related fun t => do
    require (t.curretTrxState = .withoutSignTrxCreate ∨ t.curretTrxState = .signTrx)
      "coldhot_sign_tx.curret_trx_state"
    if t.curretTrxState = .signTrx then do
      require (t.currentTrx.operations.length = 1) "operations.size() == 1"
      let o ← found t.currentTrx.coldhotWithSignOp "get<coldhot_transfer_with_sign_operation>"
      require (o.signWallfacer ≠ signer) "Guard has sign this transaction"
    else return ()

/-- The account an external transaction is paid from. -/
def fromAccount (hdl : Handle) (o : ColdhotWithSignOp) : Except String String :=
  if ethSeries o.assetSymbol then do
    let turned ← hdl.turnTrxs (.eth o.coldhotTrxOriginalChain)
    let first ← found turned.trxs.head? "hd_trxs.trxs.size() >= 1"
    return first.2.fromAccount
  else hdl.getFromAddress o.coldhotTrxOriginalChain

/-- The signature is one of a wallfacer of the paying account. -/
def validateSign (env : Env) (hdl : Handle) (batch : Transfer) (o : ColdhotWithSignOp) :
    Except String Unit := do
  let payer ← fromAccount hdl o
  let members := env.multiAccountWallfacers payer o.assetSymbol
  require (members ≠ []) "wallfacer_pubks.size() > 0"
  let account ← found (env.accountByAddress o.wallfacerAddress) "acc_itr != acc_idx.end()"
  let member ← found (members.find? (·.wallfacerAccount = account)) "index < wallfacer_pubks.size()"
  let signature ← (if o.assetSymbol = "BCH" then do
      require (batch.currentTrx.operations.length = 1) "without_trx.operations.size() == 1"
      let w ← found batch.currentTrx.coldhotWithoutSignOp
        "get<coldhot_transfer_without_sign_operation>"
      return o.coldhotTransferSign ++ "|" ++ w.coldhotTrxOriginalChain
    else .ok o.coldhotTransferSign)
  require (hdl.validateTransaction member.newPubkeyHot member.redeemScriptHot signature = true ∨
    hdl.validateTransaction member.newPubkeyCold member.redeemScriptCold signature = true)
    "hdl->validate_transaction"

/-- `coldhot_transfer_with_sign_evaluate::do_evaluate`. -/
def evaluateWithSign (env : Env) (trx : Transaction) (o : ColdhotWithSignOp) (s : State) :
    Except String Unit := do
  let batch ← found (s.findTransfer o.coldhotTrxId) "coldhot original trx doesn`t exist"
  require (s.findTransfer trx.id = none) "coldhot trx with this sign has been created"
  checkSigners (s.relatedTransfers o.coldhotTrxId) o.signWallfacer
  match env.handle o.assetSymbol with
  | none => return ()
  | some hdl => if env.late then return () else validateSign env hdl batch o

def withSign (env : Env) (trx : Transaction) (o : ColdhotWithSignOp) (s : State) :
    Except String State := do
  evaluateWithSign env trx o s
  s.createTransfer (record trx .withSign o.coldhotTrxId .signTrx "")

/-! ### The combined signature -/

/-- `coldhot_transfer_combine_sign_evaluate::do_evaluate`. No state is looked at. The external
transaction is read only if the configuration of the handle is *not* valid. -/
def evaluateCombineSign (env : Env) (trx : Transaction) (o : ColdhotCombineSignOp) (s : State) :
    Except String Unit := do
  let batch ← found (s.findTransfer o.coldhotTransferTrxId) "coldhot without sign trx doesn`t exist"
  require (s.findTransfer trx.id = none) "coldhot trx combine has been created"
  let _ ← found (s.findTransfer batch.relateTrxId) "coldhot transfer trx doesn`t exist"
  require (trx.operations.length = 1) "operations.size() == 1"
  let _ ← found trx.coldhotCombineSignOp "get<coldhot_transfer_combine_sign_operation>"
  require (∀ id ∈ o.signedTrxIds, id ∈ (s.relatedTransfers o.coldhotTransferTrxId).map (·.currentId))
    "sign_iter != sign_ids.end()"
  require (ethSeries o.assetSymbol = true →
    (o.coldhotTrxOriginalChain.lookup "without_sign").isSome ∧
      (o.coldhotTrxOriginalChain.lookup "signer").isSome) "coldhot_trx_original_chain.contains"
  match env.idleHandle o.assetSymbol with
  | none => return ()
  | some hdl =>
    if env.late then return () else do
      let turned ← hdl.turnTrxs (.plain o.source)
      let first ← found turned.trxs.head? "coldhot_trx.trxs.begin()"
      require (first.2.trxId = o.originalTrxId) "trx_id == o.original_trx_id"

/-- The state a transfer gets with its combined signature. Unlike elsewhere, a symbol that contains
the name of the chain is enough. -/
def combinedState (symbol : String) : ColdhotTrxState :=
  if "ETH".toList <:+: symbol.toList ∨ "ERC".toList <:+: symbol.toList then .ethWallfacerNeedSign
  else .combineTrxCreate

def combineSign (env : Env) (trx : Transaction) (o : ColdhotCombineSignOp) (s : State) :
    Except String State := do
  evaluateCombineSign env trx o s
  let batch := o.coldhotTransferTrxId
  let u ← found (s.findTransfer batch) "coldhot_without_sign_trx_iter"
  let combine ← found trx.coldhotCombineSignOp "get<coldhot_transfer_combine_sign_operation>"
  let st := combinedState combine.assetSymbol
  let s := s.moveTransfers (·.currentId = u.relateTrxId) st
  let s := s.moveTransfers (·.currentId = batch) st
  let s := s.moveTransfers (fun t => t.relateTrxId = batch ∧ t.curretTrxState = .signTrx) st
  s.createTransfer (record trx .combineSign batch st combine.originalTrxId)

/-! ### The report -/

/-- The index by external id and type of operation, at the combined signatures. -/
def findCombine (s : State) (external : String) : Option Transfer :=
  s.transfers.find? fun t => t.originalTrxId = external ∧ t.opType = .combineSign

/-- `coldhot_transfer_result_evaluate::do_evaluate`. The state is looked at for the Ethereum family
only. The other chain is asked only if the configuration of the handle is *not* valid. The result is
the id of the record taken for the batch, and that of the transfer. -/
def evaluateResult (env : Env) (trx : HdTrx) (s : State) : Except String (TrxId × TrxId) := do
  let c ← found (findCombine s trx.key) "combine sign trx doesn`t exist"
  require (ethSeries trx.assetSymbol = true → c.curretTrxState = .ethWallfacerSign)
    "curret_trx_state == coldhot_eth_wallfacer_sign"
  let u ← found (s.findTransfer c.relateTrxId) "without sign trx doesn`t exist"
  let _ ← found (s.findTransfer u.relateTrxId) "coldhot transfer trx doesn`t exist"
  require (¬ UsedUp s trx.key) "deposit to link transaction doesn`t exist"
  match env.idleHandle trx.assetSymbol with
  | none => return (c.relateTrxId, u.relateTrxId)
  | some hdl => do
    let asset ← found (env.assets.bySymbol trx.assetSymbol) "obj.valid()"
    require (env.late = true ∨ hdl.validateLinkTrx (trx.described asset) = true)
      "This transaction doesnt valid"
    return (c.relateTrxId, u.relateTrxId)

def result (env : Env) (trx : HdTrx) (s : State) : Except String State := do
  let (batch, original) ← evaluateResult env trx s
  let s := s.moveTransfers (·.currentId = batch) .transactionConfirm
  let s := s.moveTransfers (·.currentId = original) .transactionConfirm
  let s := s.moveTransfers (fun t => t.relateTrxId = batch ∧
    (t.curretTrxState = .combineTrxCreate ∨ t.curretTrxState = .ethWallfacerSign))
    .transactionConfirm
  let s := s.confirmExternal trx.key
  let asset ← found (env.assets.bySymbol trx.assetSymbol) "get_asset"
  let accounts ← s.accounts.lowerSupply asset.id asset.feePool
  return { s with accounts }

/-! ### Decisions of the wallfacers -/

/-- The batch a record follows, with all that follows it and the transfer, gets a state. -/
def closeTransfer (named batch : TrxId) (st : ColdhotTrxState) (s : State) :
    Except String State := do
  let u ← found (s.findTransfer batch) "tx_coldhot_without_sign_iter"
  let _ ← found (s.findTransfer u.relateTrxId) "tx_coldhot_original_iter"
  let s := s.moveTransfers (·.currentId = named) st
  let s := s.moveTransfers (·.currentId = batch) st
  let s := s.moveTransfers (·.relateTrxId = batch) st
  return s.moveTransfers (·.currentId = u.relateTrxId) st

/-- `coldhot_cancel_transafer_transaction_evaluate`. -/
def cancelTransfer (trx : Transaction) (o : WallfacerOp) (s : State) : Except String State := do
  let t ← found (s.findTransfer o.trxId) "coldhot_iter != coldhot_db.end()"
  require (t.curretTrxState = .withoutSignTrxUncreate) "Coldhot transaction has been create"
  let s := s.moveTransfers (·.currentId = o.trxId) .transactionFail
  s.createTransfer (record trx .cancelTransfer o.trxId .transactionFail "")

/-- `coldhot_cancel_uncombined_trx_evaluate`. -/
def cancelUncombined (trx : Transaction) (o : WallfacerOp) (s : State) : Except String State := do
  let t ← found (s.findTransfer o.trxId) "coldhot_iter != coldhot_db.end()"
  require (t.curretTrxState = .withoutSignTrxCreate) "Coldhot transaction state error"
  let _ ← found (s.findTransfer t.relateTrxId) "source trx exist error"
  require (trx.operations.length = 1) "operation error"
  let s ← closeTransfer o.trxId o.trxId .transactionFail s
  s.createTransfer (record trx .cancelUncombined o.trxId .transactionFail "")

/-- `coldhot_cancel_combined_trx_evaluate`. Its record follows the record that was named. -/
def cancelCombined (env : Env) (trx : Transaction) (o : WallfacerOp) (s : State) :
    Except String State := do
  let t ← found (s.findTransfer o.trxId) "coldhot_iter != coldhot_db.end()"
  require (t.curretTrxState = .combineTrxCreate) "Coldhot transaction state error"
  checkAge env o.trxId
  let _ ← found (s.findTransfer t.relateTrxId) "source trx exist error"
  require (trx.operations.length = 1) "operation error"
  let s ← closeTransfer o.trxId t.relateTrxId .transactionFail s
  s.createTransfer (record trx .cancelCombined o.trxId .transactionFail "")

/-- `coldhot_pass_combine_trx_evaluate`. -/
def passCombine (env : Env) (trx : Transaction) (o : WallfacerOp) (s : State) :
    Except String State := do
  require (passXwcBlockNum ≤ env.headBlockNum) "You cant use this function now"
  let t ← found (s.findTransfer o.trxId) "coldhot_iter != coldhot_db.end()"
  require (t.curretTrxState = .combineTrxCreate) "Coldhot transaction state error"
  let wallfacer ← found (env.wallfacer o.wallfacerId) "wallfacer_iter != wallfacer_db.end()"
  require (wallfacer.permanent = true) "wallfacer_type == PERMANENT"
  let _ ← found (s.findTransfer t.relateTrxId) "source trx exist error"
  require (trx.operations.length = 1) "operation error"
  closeTransfer o.trxId t.relateTrxId .transactionConfirm s

/-- The receipt of the external transaction: above the height it need not show a failure. -/
def checkReceipt (env : Env) (signed : EthSignOp) : Except String Unit :=
  match env.handle signed.chainType with
  | none => .ok ()
  | some hdl => do
    let receipt ← found (hdl.transactionQuery (beforeBar signed.signedCrosschainTrxId))
      "eth_transaction.contains"
    require (env.headBlockNum < coldhotTransferEvaluateHeight →
      receipt.logs = 0 ∧ receipt.gas = receipt.gasUsed) "this trasnaction not fail"

/-- `eth_cancel_coldhot_fail_trx_evaluate`. -/
def ethCancelFail (env : Env) (trx : Transaction) (o : WallfacerOp) (s : State) :
    Except String State := do
  let wallfacer ← found (env.wallfacer o.wallfacerId) "cant find this wallfacer"
  require (wallfacer.permanent = true) "wallfacer_type == PERMANENT"
  let t ← found (s.findTransfer o.trxId) "coldhot_iter != coldhot_db.end()"
  require (t.curretTrxState = .ethWallfacerSign) "Coldhot transaction state error"
  let _ ← found (s.findTransfer t.relateTrxId) "source trx exist error"
  require (trx.operations.length = 1) "operation error"
  require (t.currentTrx.operations.length = 1) "operation size error"
  checkAge env o.trxId
  let signed ← found t.currentTrx.coldhotEthSignFinalOp "operation type error"
  require (ethSeries signed.chainType = true) "chain_type"
  checkReceipt env signed
  let s ← closeTransfer o.trxId t.relateTrxId .transactionFail s
  s.createTransfer (record trx .ethCancelFail t.relateTrxId .transactionFail "")

/-! ### The final signature -/

/-- The check of both final signatures: the record named is a combined signature. Its state is not
looked at. -/
def checkFinal (env : Env) (o : EthSignOp) (s : State)
    (agrees : Handle → ColdhotCombineSignOp → Except String Unit) : Except String Unit := do
  let t ← found (s.findTransfer o.combineTrxId) "trx_iter != coldhot_db.end()"
  let combine ← found t.currentTrx.coldhotCombineSignOp
    "get<coldhot_transfer_combine_sign_operation>"
  match env.handle o.chainType with
  | none => return ()
  | some hdl => agrees hdl combine

/-- `eths_coldhot_wallfacer_sign_final_evaluator::do_evaluate`. -/
def evaluateEthSignFinal (env : Env) (o : EthSignOp) (s : State) : Except String Unit := do
  let _ ← found (env.wallfacer o.wallfacerToSign) "This Guard doesnt exist"
  checkFinal env o s fun hdl combine => do
    let turned ← hdl.turnTrx "get_without_sign" o.signedCrosschainTrx
    require (some turned.toAccount = combine.coldhotTrxOriginalChain.lookup "without_sign")
      "coldhot_trx.to_account"

/-- `eths_wallfacer_coldhot_change_signer_evaluator::do_evaluate`. -/
def evaluateEthChangeSigner (env : Env) (o : EthSignOp) (s : State) : Except String Unit := do
  let wallfacer ← found (env.wallfacer o.wallfacerToSign) "This Guard doesnt exist"
  require (wallfacer.permanent = true) "wallfacer_type == PERMANENT"
  checkFinal env o s fun hdl combine => do
    let changed ← hdl.turnTrx "change_signer" o.signedCrosschainTrx
    let unsigned ← found (combine.coldhotTrxOriginalChain.lookup "without_sign") "without_sign"
    let combined ← hdl.turnTrx "change_signer" unsigned
    require (combined.toAccount = changed.toAccount) "combine_trx_input.to_account"

/-- The two branches of `adjust_coldhot_transaction` for a final signature, which differ in the type
of operation only: the combined signature, the batch, the transfer, and what else waits for it. -/
def adjustEthSign (trx : Transaction) (opType : ColdhotOpType) (signed : EthSignOp)
    (combine : TrxId) (s : State) : Except String State := do
  let c ← found (s.findTransfer combine) "tx_combine_sign_iter"
  let batch := c.relateTrxId
  let u ← found (s.findTransfer batch) "tx_without_sign_iter"
  let _ ← found (s.findTransfer u.relateTrxId) "tx_user_crosschain_iter"
  let external := afterBar signed.signedCrosschainTrxId
  let signing : Transfer → Bool := fun t =>
    t.currentId = combine ∨ t.currentId = batch ∨ t.currentId = u.relateTrxId ∨
      (t.relateTrxId = batch ∧ t.curretTrxState = .ethWallfacerNeedSign)
  let s := (s.nameTransfers signing external).moveTransfers signing .ethWallfacerSign
  s.createTransfer (record trx opType batch .ethWallfacerSign external)

def ethSignFinal (env : Env) (trx : Transaction) (o : EthSignOp) (s : State) :
    Except String State := do
  evaluateEthSignFinal env o s
  let signed ← found trx.coldhotEthSignFinalOp "get<eths_coldhot_wallfacer_sign_final_operation>"
  adjustEthSign trx .ethSignFinal signed o.combineTrxId s

def ethChangeSigner (env : Env) (trx : Transaction) (o : EthSignOp) (s : State) :
    Except String State := do
  evaluateEthChangeSigner env o s
  let signed ← found trx.coldhotEthChangeSignerOp
    "get<eths_wallfacer_coldhot_change_signer_operation>"
  adjustEthSign trx .ethChangeSigner signed o.combineTrxId s

/-! ### All operations -/

def apply (env : Env) (trx : Transaction) (op : ColdhotOperation) (s : State) :
    Except String State :=
  match op with
  | .transfer o => transfer env trx o s
  | .withoutSign o => withoutSign env trx o s
  | .withSign o => withSign env trx o s
  | .combineSign o => combineSign env trx o s
  | .result t => result env t s
  | .cancelTransfer o => cancelTransfer trx o s
  | .cancelUncombined o => cancelUncombined trx o s
  | .cancelCombined o => cancelCombined env trx o s
  | .passCombine o => passCombine env trx o s
  | .ethCancelFail o => ethCancelFail env trx o s
  | .ethSignFinal o => ethSignFinal env trx o s
  | .ethChangeSigner o => ethChangeSigner env trx o s

end Whitecoin.Coldhot
