import Mathlib.Data.List.Infix
import Whitecoin.Ledger.Balance

/-!
# Operations of the cross-chain part

The operations with which withdrawals, deposits and cold-hot transfers are driven, and the
transactions that carry them. An operation has the fields that an evaluator reads.

Many evaluators read the operation that a stored transaction stands for as the *first* operation of
that transaction, and throw if it is of another type. `Transaction.withdrawOp` and its siblings are
these accesses.
-/

namespace Whitecoin.Crosschain

open Ledger

/-- Transaction ids; `0` is the empty id `transaction_id_type()`. -/
abbrev TrxId := ℕ

abbrev WallfacerId := ℕ

abbrev AccountId := ℕ

/-! ### Operations -/

/-- `hd_trx`: a transaction of another chain. -/
structure HdTrx where
  trxId : String
  fromAccount : String
  toAccount : String
  amount : String
  assetSymbol : String
  deriving DecidableEq

structure RecordOp where
  crossChainTrx : HdTrx
  depositAddress : Address
  assetId : AssetId
  deriving DecidableEq

/-- `account_bind_operation` and `account_unbind_operation`. -/
structure AccountBindOp where
  crosschainType : String
  addr : Address
  tunnelAddress : String
  tunnelSignature : String
  deriving DecidableEq

structure WithdrawOp where
  withdrawAccount : Address
  amount : String
  assetSymbol : String
  assetId : AssetId
  crosschainAccount : String
  deriving DecidableEq

structure WithoutSignOp where
  ccwTrxIds : List TrxId
  withdrawSourceTrx : String
  assetSymbol : String
  assetId : AssetId
  crosschainFee : ℤ
  deriving DecidableEq

structure WithSignOp where
  ccwTrxId : TrxId
  withdrawSourceTrx : String
  signWallfacer : WallfacerId
  assetSymbol : String
  wallfacerAddress : Address
  ccwTrxSignature : String
  deriving DecidableEq

structure CombineSignOp where
  /-- The fields of the JSON object. -/
  crossChainTrx : List (String × String)
  signedTrxIds : List TrxId
  assetSymbol : String
  crosschainTrxId : String
  deriving DecidableEq

/-- `eths_wallfacer_sign_final_operation` and `eths_wallfacer_change_signer_operation`. -/
structure EthSignOp where
  wallfacerToSign : WallfacerId
  combineTrxId : TrxId
  signedCrosschainTrxId : String
  signedCrosschainTrx : String
  chainType : String
  deriving DecidableEq

/-- The operations with which a wallfacer decides about one transaction: each has the wallfacer,
its address and the id of that transaction. -/
structure WallfacerOp where
  wallfacerId : WallfacerId
  wallfacerAddress : Address
  trxId : TrxId
  deriving DecidableEq

structure RefundBalanceOp where
  refundAddr : Address
  txid : TrxId
  deriving DecidableEq

/-! Transfers between the cold and the hot multi-signature account of a chain run through the same
stages as withdrawals, with operations of their own. -/

structure ColdhotTransferOp where
  multiAccountWithdraw : String
  multiAccountDeposit : String
  amount : String
  assetSymbol : String
  assetId : AssetId
  deriving DecidableEq

structure ColdhotWithoutSignOp where
  coldhotTrxId : TrxId
  coldhotTrxOriginalChain : String
  withdrawAccountCount : ℤ
  assetSymbol : String
  deriving DecidableEq

structure ColdhotWithSignOp where
  coldhotTrxId : TrxId
  coldhotTrxOriginalChain : String
  signWallfacer : WallfacerId
  assetSymbol : String
  wallfacerAddress : Address
  coldhotTransferSign : String
  deriving DecidableEq

structure ColdhotCombineSignOp where
  /-- The fields of the JSON object, and its text. -/
  coldhotTrxOriginalChain : List (String × String)
  source : String
  signedTrxIds : List TrxId
  coldhotTransferTrxId : TrxId
  assetSymbol : String
  originalTrxId : String
  deriving DecidableEq

inductive ColdhotOperation where
  | transfer (o : ColdhotTransferOp)
  | withoutSign (o : ColdhotWithoutSignOp)
  | withSign (o : ColdhotWithSignOp)
  | combineSign (o : ColdhotCombineSignOp)
  | result (coldhotTrxOriginalChain : HdTrx)
  | cancelTransfer (o : WallfacerOp)
  | cancelUncombined (o : WallfacerOp)
  | cancelCombined (o : WallfacerOp)
  | passCombine (o : WallfacerOp)
  | ethCancelFail (o : WallfacerOp)
  | ethSignFinal (o : EthSignOp)
  | ethChangeSigner (o : EthSignOp)
  deriving DecidableEq

inductive Operation where
  | accountBind (o : AccountBindOp)
  | accountUnbind (o : AccountBindOp)
  | record (o : RecordOp)
  | withdraw (o : WithdrawOp)
  | withoutSign (o : WithoutSignOp)
  | withSign (o : WithSignOp)
  | combineSign (o : CombineSignOp)
  | withdrawResult (crossChainTrx : HdTrx)
  | ethSignFinal (o : EthSignOp)
  | ethChangeSigner (o : EthSignOp)
  | refundBalance (o : RefundBalanceOp)
  | refundCrosschainTrx (o : WallfacerOp)
  | cancelCombineTrx (o : WallfacerOp)
  | passSuccessTrx (o : WallfacerOp)
  | ethCancelFailCrosschainTrx (o : WallfacerOp)
  | ethsCancelUnsignedTransaction (o : WallfacerOp)
  | coldhot (o : ColdhotOperation)
  /-- Any operation that does not touch the objects of this model. -/
  | other
  deriving DecidableEq

/-- The operations that leave a record of a withdrawal, which is what `op_type` of the record
tells. -/
inductive OpType where
  | withdraw
  | withoutSign
  | withSign
  | combineSign
  | ethSignFinal
  | ethChangeSigner
  deriving DecidableEq

/-- The operations that leave a record of a cold-hot transfer. -/
inductive ColdhotOpType where
  | transfer
  | withoutSign
  | withSign
  | combineSign
  | cancelTransfer
  | cancelUncombined
  | cancelCombined
  | ethCancelFail
  | ethSignFinal
  | ethChangeSigner
  deriving DecidableEq

namespace Operation

/-- The type of the record the operation leaves, if it leaves one. -/
def opType : Operation → Option OpType
  | withdraw _ => some .withdraw
  | withoutSign _ => some .withoutSign
  | withSign _ => some .withSign
  | combineSign _ => some .combineSign
  | ethSignFinal _ => some .ethSignFinal
  | ethChangeSigner _ => some .ethChangeSigner
  | _ => none

end Operation

/-- `signed_transaction`, with the addresses of the keys that signed it. No transaction hashes to
the empty id. -/
structure Transaction where
  id : TrxId
  operations : List Operation
  signers : List Address
  id_ne : id ≠ 0
  deriving DecidableEq

namespace Transaction

/-- The transaction with the id `n + 1`. -/
def numbered (n : ℕ) (operations : List Operation) (signers : List Address) : Transaction :=
  ⟨n + 1, operations, signers, Nat.succ_ne_zero n⟩

/-- `operations[0].get<crosschain_withdraw_operation>()`. -/
def withdrawOp (trx : Transaction) : Option WithdrawOp :=
  match trx.operations.head? with
  | some (.withdraw o) => some o
  | _ => none

def withoutSignOp (trx : Transaction) : Option WithoutSignOp :=
  match trx.operations.head? with
  | some (.withoutSign o) => some o
  | _ => none

def withSignOp (trx : Transaction) : Option WithSignOp :=
  match trx.operations.head? with
  | some (.withSign o) => some o
  | _ => none

def combineSignOp (trx : Transaction) : Option CombineSignOp :=
  match trx.operations.head? with
  | some (.combineSign o) => some o
  | _ => none

def ethSignFinalOp (trx : Transaction) : Option EthSignOp :=
  match trx.operations.head? with
  | some (.ethSignFinal o) => some o
  | _ => none

def ethChangeSignerOp (trx : Transaction) : Option EthSignOp :=
  match trx.operations.head? with
  | some (.ethChangeSigner o) => some o
  | _ => none

def coldhotTransferOp (trx : Transaction) : Option ColdhotTransferOp :=
  match trx.operations.head? with
  | some (.coldhot (.transfer o)) => some o
  | _ => none

def coldhotWithoutSignOp (trx : Transaction) : Option ColdhotWithoutSignOp :=
  match trx.operations.head? with
  | some (.coldhot (.withoutSign o)) => some o
  | _ => none

def coldhotWithSignOp (trx : Transaction) : Option ColdhotWithSignOp :=
  match trx.operations.head? with
  | some (.coldhot (.withSign o)) => some o
  | _ => none

def coldhotCombineSignOp (trx : Transaction) : Option ColdhotCombineSignOp :=
  match trx.operations.head? with
  | some (.coldhot (.combineSign o)) => some o
  | _ => none

def coldhotEthSignFinalOp (trx : Transaction) : Option EthSignOp :=
  match trx.operations.head? with
  | some (.coldhot (.ethSignFinal o)) => some o
  | _ => none

def coldhotEthChangeSignerOp (trx : Transaction) : Option EthSignOp :=
  match trx.operations.head? with
  | some (.coldhot (.ethChangeSigner o)) => some o
  | _ => none

variable {trx : Transaction}

theorem withdrawOp_eq_some {o : WithdrawOp} :
    trx.withdrawOp = some o ↔ trx.operations.head? = some (.withdraw o) := by
  unfold withdrawOp
  split <;> simp_all

theorem withoutSignOp_eq_some {o : WithoutSignOp} :
    trx.withoutSignOp = some o ↔ trx.operations.head? = some (.withoutSign o) := by
  unfold withoutSignOp
  split <;> simp_all

theorem withSignOp_eq_some {o : WithSignOp} :
    trx.withSignOp = some o ↔ trx.operations.head? = some (.withSign o) := by
  unfold withSignOp
  split <;> simp_all

theorem combineSignOp_eq_some {o : CombineSignOp} :
    trx.combineSignOp = some o ↔ trx.operations.head? = some (.combineSign o) := by
  unfold combineSignOp
  split <;> simp_all

end Transaction

end Whitecoin.Crosschain
