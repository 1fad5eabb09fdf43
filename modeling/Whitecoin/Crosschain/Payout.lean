import Whitecoin.Crosschain.Record

/-!
# Paying withdrawals out

The evaluators that carry a batch of withdrawals to the other chain, and the one that takes the
report of the other chain: `crosschain_withdraw_without_sign`, `_with_sign`, `_combine_sign` and
`_result`, and the final signature of the Ethereum family. What they write is in
`database::adjust_crosschain_transaction`.

A batch is the record of a without-sign transaction with the withdrawals it lists. The later
operations find it through ids that their submitter chooses.
-/

namespace Whitecoin.Crosschain

open Check Ledger

/-! ### The external transaction against the withdrawals -/

/-- What a batch pays to one external account: the sum of the withdrawals and of their fees. -/
structure Total where
  account : String
  asset : AssetId
  amount : ℤ
  fee : ℤ
  deriving DecidableEq

/-- Add a withdrawal to the maps `all_balances` and `fees_cal`. -/
def addTotal (account : String) (asset : AssetId) (amount fee : ℤ) :
    List Total → Except String (List Total)
  | [] => do return [⟨account, asset, amount, ← Safe.add 0 fee⟩]
  | t :: ts =>
    if t.account = account then do
      require (t.asset = asset) "asset_id == o.asset_id"
      return ⟨account, asset, ← Safe.add t.amount amount, ← Safe.add t.fee fee⟩ :: ts
    else do return t :: (← addTotal account asset amount fee ts)

/-- The external account of a withdrawal, with the prefix BCH addresses have. -/
def externalAccount (env : Env) (symbol : String) (w : WithdrawOp) : String :=
  if useModChangeListHeight ≤ env.headBlockNum ∧ symbol = "BCH" ∧ ':' ∉ w.crosschainAccount.toList
  then "bitcoincash" ++ ":" ++ w.crosschainAccount else w.crosschainAccount

/-- One listed withdrawal is added to the totals. The amount is read with the asset that the
withdrawal names by symbol. -/
def countWithdrawal (env : Env) (s : State) (o : WithoutSignOp) (assetFee : ℤ)
    (turned : CrosschainTrx) (totals : List Total) (id : TrxId) : Except String (List Total) := do
  let r ← found (s.find id) "trx_itr != trx_db.end()"
  require (r.realTransaction.operations.length = 1) "operations.size() == 1"
  let w ← found r.realTransaction.withdrawOp "get<crosschain_withdraw_operation>"
  let account := externalAccount env o.assetSymbol w
  let trx ← found (turned.trxs.lookup account) "create_trxs.trxs.count(crosschain_account) == 1"
  require (trx.toAccount = account) "one_trx.to_account == crosschain_account"
  let asset ← found (env.assets.bySymbol w.assetSymbol) "asset_itr != asset_idx.end()"
  require (trx.assetSymbol = w.assetSymbol) "one_trx.asset_symbol == withdraw_op.asset_symbol"
  addTotal account asset.id (← asset.amount w.amount) assetFee totals

/-- Each external payment is what the withdrawals to its account leave after the fees. The result
is the sum of the withdrawals. -/
def compareTotals (symbolAsset : Asset) (turned : CrosschainTrx) (totals : List Total) :
    Except String ℤ :=
  totals.foldlM (fun total t => do
    let trx ← found (turned.trxs.lookup t.account) "create_trxs.trxs.count == 1"
    require (t.amount = (← Safe.add (← symbolAsset.amount trx.amount) t.fee))
      "one_balance.second.amount"
    Safe.add total t.amount) 0

/-- The sum of the external payments. -/
def totalOpAmount (optAsset : Asset) (turned : CrosschainTrx) : Except String ℤ :=
  turned.trxs.foldlM (fun total t => do Safe.add total (← optAsset.amount t.2.amount)) 0

/-- The miner fee of the external transaction. -/
def crossFee (optAsset : Asset) (turned : CrosschainTrx) : Except String ℤ :=
  optAsset.amount (turned.feeText optAsset.precision)

/-- The external transaction pays the listed withdrawals, less the fees. -/
def reconcile (env : Env) (s : State) (o : WithoutSignOp) (symbolAsset : Asset)
    (turned : CrosschainTrx) : Except String Unit := do
  let totals ← o.ccwTrxIds.foldlM (countWithdrawal env s o symbolAsset.feePool turned) []
  require (totals.length = turned.trxs.length) "all_balances.size() == create_trxs.trxs.size()"
  let optAsset ← found (env.assets.byId o.assetId) "db().get(o.asset_id)"
  let fee ← crossFee optAsset turned
  let totalAmount ← compareTotals symbolAsset turned totals
  let totalOp ← totalOpAmount optAsset turned
  require (0 ≤ o.crosschainFee) "o.crosschain_fee.amount >= 0"
  require (totalAmount = (← Safe.add (← Safe.add totalOp o.crosschainFee) fee)) "total_amount"

/-! ### `crosschain_withdraw_without_sign` -/

/-- Read the external transaction, in the way its chain needs. -/
def turnWithoutSign (env : Env) (hdl : Handle) (o : WithoutSignOp) (symbolAsset : Asset) :
    Except String CrosschainTrx :=
  if "ERC".toList <:+: o.assetSymbol.toList then do
    hdl.turnTrxs (.erc (← env.ercPrecision symbolAsset) o.withdrawSourceTrx)
  else if o.assetSymbol = "ETH" then hdl.turnTrxs (.eth o.withdrawSourceTrx)
  else if o.assetSymbol = "USDT" then do
    require (o.ccwTrxIds.length = 1) "USDT cant combine"
    let turned ← hdl.turnTrxs (.usdt o.withdrawSourceTrx)
    require (turned.trxs.length = 1) "USDT transaction count error"
    require ((turned.trxs.head?.map fun t => env.usdtOutputs t.2) = some true) "Not USDT trx"
    return turned
  else hdl.turnTrxs (.plain o.withdrawSourceTrx)

/-- `crosschain_withdraw_without_sign_evaluate::do_evaluate`. -/
def evaluateWithoutSign (env : Env) (trx : Transaction) (o : WithoutSignOp) (s : State) :
    Except String Unit := do
  let symbolAsset ← found (env.assets.bySymbol o.assetSymbol) "obj.valid()"
  forM o.ccwTrxIds fun id => do
    let r ← found (s.find id) "Source Transaction doesn`t exist"
    require (crosschainRecordEvaluate310000 ≤ env.headBlockNum →
      r.trxState = .withoutSignTrxUncreate) "this transaction has been created."
  require (o.assetSymbol = "BCH" → env.bchFields o.withdrawSourceTrx = true) "No amount in bch vin"
  require (s.find trx.id = none) "Crosschain transaction has been created"
  match env.handle o.assetSymbol with
  | none => return ()
  | some hdl =>
    if env.late then return () else do
      let turned ← turnWithoutSign env hdl o symbolAsset
      reconcile env s o symbolAsset turned

/-- The record of a without-sign transaction. -/
def withoutSignRecord (trx : Transaction) (o : WithoutSignOp) (first : TrxId) : Record where
  relateTransactionId := first
  transactionId := trx.id
  allRelatedOriginTransactionIds := o.ccwTrxIds
  realTransaction := trx
  opType := .withoutSign
  trxState := .withoutSignTrxCreate
  crosschainTrxId := ""
  crosschainFee := 0

/-- The branch of `adjust_crosschain_transaction` for one listed withdrawal: the first one creates
the record of the batch. -/
def adjustWithoutSign (trx : Transaction) (o : WithoutSignOp) (s : State) (id : TrxId) :
    Except String State :=
  let exists_ := (s.find trx.id).isSome
  let s := s.move (·.transactionId = id) .withoutSignTrxCreate
  if exists_ then .ok s else s.create (withoutSignRecord trx o id)

/-- `crosschain_withdraw_without_sign_evaluate::do_apply`. -/
def applyWithoutSign (trx : Transaction) (o : WithoutSignOp) (s : State) : Except String State := do
  let s ← o.ccwTrxIds.foldlM (adjustWithoutSign trx o) s
  let _ ← found (s.find trx.id) "trx_db.find(trx_state->_trx->id())"
  let s := s.modify fun r =>
    if r.transactionId = trx.id then { r with crosschainFee := o.crosschainFee } else r
  let accounts ← s.accounts.raiseSupply o.assetId o.crosschainFee
  return { s with accounts }

def withoutSign (env : Env) (trx : Transaction) (o : WithoutSignOp) (s : State) :
    Except String State := do
  evaluateWithoutSign env trx o s
  applyWithoutSign trx o s

/-! ### `crosschain_withdraw_with_sign` -/

/-- The wallfacers that have signed: the related records must be open, and those that hold a
signature name their signer. -/
def signedBy (related : List Record) : Except String (List WallfacerId) :=
  related.foldlM (fun signs r => do
    require (r.trxState = .withoutSignTrxCreate ∨ r.trxState = .signTrx) "sign_obj.trx_state"
    if r.trxState = .signTrx then do
      let o ← found r.realTransaction.withSignOp "get<crosschain_withdraw_with_sign_operation>"
      return o.signWallfacer :: signs
    else return signs) []

/-- The account an external transaction is paid from. -/
def fromAccount (hdl : Handle) (o : WithSignOp) : Except String String :=
  if ethSeries o.assetSymbol then do
    let turned ← hdl.turnTrxs (.eth o.withdrawSourceTrx)
    let first ← found turned.trxs.head? "hd_trxs.trxs.size() >= 1"
    return first.2.fromAccount
  else hdl.getFromAddress o.withdrawSourceTrx

/-- The signature is one of a wallfacer of the paying account. -/
def validateSign (env : Env) (hdl : Handle) (batch : Record) (o : WithSignOp) :
    Except String Unit := do
  let payer ← fromAccount hdl o
  let members := env.multiAccountWallfacers payer o.assetSymbol
  require (members ≠ []) "wallfacer_pubks.size() > 0"
  let account ← found (env.accountByAddress o.wallfacerAddress) "acc_itr != acc_idx.end()"
  let member ← found (members.find? (·.wallfacerAccount = account)) "index < wallfacer_pubks.size()"
  let signature ← (if o.assetSymbol = "BCH" then do
      require (batch.realTransaction.operations.length = 1) "without_trx.operations.size() == 1"
      let w ← found batch.realTransaction.withoutSignOp
        "get<crosschain_withdraw_without_sign_operation>"
      return o.ccwTrxSignature ++ "|" ++ w.withdrawSourceTrx
    else .ok o.ccwTrxSignature)
  require (hdl.validateTransaction member.newPubkeyHot member.redeemScriptHot signature = true ∨
    hdl.validateTransaction member.newPubkeyCold member.redeemScriptCold signature = true)
    "hdl->validate_transaction"

/-- `crosschain_withdraw_with_sign_evaluate::do_evaluate`. -/
def evaluateWithSign (env : Env) (trx : Transaction) (o : WithSignOp) (s : State) :
    Except String Unit := do
  let batch ← found (s.find o.ccwTrxId) "without sign trx doesn`t exist"
  require (s.find trx.id = none) "This sign tx exist"
  let signs ← signedBy (s.related o.ccwTrxId)
  require (o.signWallfacer ∉ signs) "Guard has sign this transaction"
  match env.handle o.assetSymbol with
  | none => return ()
  | some hdl => if env.late then return () else validateSign env hdl batch o

/-- The record of a signature. -/
def withSignRecord (trx : Transaction) (batch : TrxId) : Record where
  relateTransactionId := batch
  transactionId := trx.id
  allRelatedOriginTransactionIds := []
  realTransaction := trx
  opType := .withSign
  trxState := .signTrx
  crosschainTrxId := ""
  crosschainFee := 0

def withSign (env : Env) (trx : Transaction) (o : WithSignOp) (s : State) : Except String State := do
  evaluateWithSign env trx o s
  s.create (withSignRecord trx o.ccwTrxId)

/-! ### `crosschain_withdraw_combine_sign` -/

/-- `crosschain_withdraw_combine_sign_evaluate::do_evaluate`. The batch is found through the first
of the signatures the operation names; the others are not looked at. The result is the id of the
record taken for the batch. -/
def evaluateCombineSign (env : Env) (trx : Transaction) (o : CombineSignOp) (s : State) :
    Except String TrxId := do
  let first ← found o.signedTrxIds.head? "o.signed_trx_ids.begin()"
  let r ← found (s.find first) "trx_iter != tx_db_objs.end()"
  let batch ← found (s.find r.relateTransactionId) "without sign tx exist error"
  require (s.find trx.id = none) "combine sign tx has create"
  forM batch.allRelatedOriginTransactionIds fun id => do
    let w ← found (s.find id) "user cross chain tx exist error"
    require (crosschainRecordEvaluate480000 < env.headBlockNum →
      w.trxState = .withoutSignTrxCreate) "trx_state == withdraw_without_sign_trx_create"
  require (ethSeries o.assetSymbol = true → crosschainRecordEvaluate680000 < env.headBlockNum →
    (o.crossChainTrx.lookup "without_sign").isSome ∧ (o.crossChainTrx.lookup "signer").isSome)
    "o.cross_chain_trx.contains"
  require (trx.operations.length = 1) "operation error"
  return r.relateTransactionId

/-- The state a batch gets with its combined signature. -/
def combinedState (symbol : String) : TrxState :=
  if ethSeries symbol then .ethWallfacerNeedSign else .combineTrxCreate

/-- The record of a combined signature. -/
def combineSignRecord (trx : Transaction) (o : CombineSignOp) (batch : TrxId) : Record where
  relateTransactionId := batch
  transactionId := trx.id
  allRelatedOriginTransactionIds := []
  realTransaction := trx
  opType := .combineSign
  trxState := combinedState o.assetSymbol
  crosschainTrxId := o.crosschainTrxId
  crosschainFee := 0

/-- Set the external id of the records that `p` picks. -/
def State.nameExternal (s : State) (p : Record → Bool) (id : String) : State :=
  s.modify (Record.setExternal p id)

/-- The branch of `adjust_crosschain_transaction` for a combined signature. -/
def adjustCombineSign (trx : Transaction) (batch : TrxId) (s : State) : Except String State := do
  let o ← found trx.combineSignOp "get<crosschain_withdraw_combine_sign_operation>"
  let st := combinedState o.assetSymbol
  let u ← found (s.find batch) "tx_without_sign_iter"
  let listed : Record → Bool := fun r => r.transactionId ∈ u.allRelatedOriginTransactionIds
  let s := s.move (·.transactionId = batch) st
  let s := (s.move listed st).nameExternal listed o.crosschainTrxId
  let s := s.move (fun r => r.relateTransactionId = batch ∧ r.trxState = .signTrx) st
  s.create (combineSignRecord trx o batch)

def combineSign (env : Env) (trx : Transaction) (o : CombineSignOp) (s : State) :
    Except String State := do
  adjustCombineSign trx (← evaluateCombineSign env trx o s) s

/-! ### The final signature of the Ethereum family -/

/-- `eths_wallfacer_sign_final_evaluator::do_evaluate`. The state of the record is not looked at. -/
def evaluateEthSignFinal (env : Env) (o : EthSignOp) (s : State) : Except String Unit := do
  let _ ← found (env.wallfacer o.wallfacerToSign) "This Guard doesnt exist"
  let r ← found (s.find o.combineTrxId) "trx_iter != crosschain_db.end()"
  let c ← found r.realTransaction.combineSignOp "get<crosschain_withdraw_combine_sign_operation>"
  match env.handle o.chainType with
  | none => return ()
  | some hdl => do
    let turned ← hdl.turnTrx "get_without_sign" o.signedCrosschainTrx
    require (some turned.toAccount = c.crossChainTrx.lookup "without_sign") "combine_trx.to_account"

/-- `eths_wallfacer_change_signer_evaluator::do_evaluate`. -/
def evaluateEthChangeSigner (env : Env) (o : EthSignOp) (s : State) : Except String Unit := do
  let wallfacer ← found (env.wallfacer o.wallfacerToSign) "This Guard doesnt exist"
  require (wallfacer.permanent = true) "wallfacer_type == PERMANENT"
  let r ← found (s.find o.combineTrxId) "trx_iter != crosschain_db.end()"
  require (r.trxState = .ethWallfacerNeedSign) "trx_state == withdraw_eth_wallfacer_need_sign"
  let c ← found r.realTransaction.combineSignOp "get<crosschain_withdraw_combine_sign_operation>"
  match env.handle o.chainType with
  | none => return ()
  | some hdl => do
    let unsigned ← found (c.crossChainTrx.lookup "without_sign") "without_sign"
    let changed ← hdl.turnTrx "change_signer" o.signedCrosschainTrx
    let combined ← hdl.turnTrx "change_signer" unsigned
    require (combined.toAccount = changed.toAccount) "combine_trx_input.to_account"

/-- The record of a final signature. -/
def ethSignRecord (trx : Transaction) (opType : OpType) (batch : TrxId) (external : String) :
    Record where
  relateTransactionId := batch
  transactionId := trx.id
  allRelatedOriginTransactionIds := []
  realTransaction := trx
  opType := opType
  trxState := .ethWallfacerSign
  crosschainTrxId := external
  crosschainFee := 0

/-- The two branches of `adjust_crosschain_transaction` for a final signature, which differ in the
type of operation only. -/
def adjustEthSign (trx : Transaction) (opType : OpType) (signed : EthSignOp) (combine : TrxId)
    (s : State) : Except String State := do
  let c ← found (s.find combine) "tx_combine_sign_iter"
  let batch := c.relateTransactionId
  let u ← found (s.find batch) "tx_without_sign_iter"
  let external := afterBar signed.signedCrosschainTrxId
  let combined : Record → Bool := fun r => r.transactionId = combine
  let listed : Record → Bool := fun r => r.transactionId ∈ u.allRelatedOriginTransactionIds
  let waiting : Record → Bool := fun r =>
    r.relateTransactionId = batch ∧ r.trxState = .ethWallfacerNeedSign
  let s := (s.move combined .ethWallfacerSign).nameExternal combined external
  let s := s.move (·.transactionId = batch) .ethWallfacerSign
  let s := (s.move listed .ethWallfacerSign).nameExternal listed external
  let s := (s.nameExternal waiting external).move waiting .ethWallfacerSign
  s.create (ethSignRecord trx opType batch external)

def ethSignFinal (env : Env) (trx : Transaction) (o : EthSignOp) (s : State) :
    Except String State := do
  evaluateEthSignFinal env o s
  let signed ← found trx.ethSignFinalOp "get<eths_wallfacer_sign_final_operation>"
  adjustEthSign trx .ethSignFinal signed o.combineTrxId s

def ethChangeSigner (env : Env) (trx : Transaction) (o : EthSignOp) (s : State) :
    Except String State := do
  evaluateEthChangeSigner env o s
  let signed ← found trx.ethChangeSignerOp "get<eths_wallfacer_change_signer_operation>"
  adjustEthSign trx .ethChangeSigner signed o.combineTrxId s

/-! ### `crosschain_withdraw_result` -/

/-- The index by external id and type of operation, at the combined signatures. -/
def State.findCombine (s : State) (external : String) : Option Record :=
  s.records.find? fun r => r.crosschainTrxId = external ∧ r.opType = .combineSign

/-- `crosschain_withdraw_result_evaluate::do_evaluate`. The result is the id of the record taken
for the batch. -/
def evaluateWithdrawResult (env : Env) (trx : HdTrx) (s : State) : Except String TrxId := do
  let c ← found (s.findCombine trx.key) "combine_trx_iter != originaldb.end()"
  let u ← found (s.find c.relateTransactionId) "user cross chain tx exist error"
  require (crosschainRecordEvaluate1000000 < env.headBlockNum → ethSeries trx.assetSymbol = true →
    c.trxState = .ethWallfacerSign) "trx_state == withdraw_eth_wallfacer_sign"
  forM u.allRelatedOriginTransactionIds fun id => do
    let _ ← found (s.find id) "user cross chain tx exist error"
  require (¬ UsedUp s trx.key) "deposit transaction exist"
  match env.handle trx.assetSymbol with
  | none => return c.relateTransactionId
  | some hdl => do
    let asset ← found (env.assets.bySymbol trx.assetSymbol) "obj.valid()"
    require (env.late = true ∨ hdl.validateLinkTrx (trx.described asset) = true)
      "This transaction doesnt valid"
    return c.relateTransactionId

/-- `adjust_crosschain_confirm_trx`. -/
def State.confirmExternal (s : State) (key : String) : State :=
  { s with acquired := Function.update s.acquired key (some .comfirmed) }

/-- The branch of `adjust_crosschain_transaction` for a report. -/
def adjustWithdrawResult (batch : TrxId) (s : State) : Except String State := do
  let u ← found (s.find batch) "user cross chain tx exist error"
  let s := s.move (·.transactionId = batch) .transactionConfirm
  let s := s.move (fun r => r.transactionId ∈ u.allRelatedOriginTransactionIds) .transactionConfirm
  return s.move (fun r => r.relateTransactionId = batch ∧
    (r.trxState = .combineTrxCreate ∨ r.trxState = .ethWallfacerSign)) .transactionConfirm

def withdrawResult (env : Env) (trx : HdTrx) (s : State) : Except String State := do
  let batch ← evaluateWithdrawResult env trx s
  adjustWithdrawResult batch (s.confirmExternal trx.key)

end Whitecoin.Crosschain
