import Whitecoin.Crosschain.Operation
import Whitecoin.Ledger.Amount
import Whitecoin.Lib.Table

/-!
# Cross-chain records

A withdrawal to another chain runs through several transactions. Each of them leaves a
`crosschain_trx_object`, and the later ones name the earlier ones by transaction id:

* the withdrawal of a user, which debits the user's balance;
* a *without-sign* transaction, which lists the withdrawals that one external transaction pays;
* one *with-sign* transaction for each signature of a wallfacer;
* a *combine-sign* transaction, which carries the signed external transaction;
* for the chains of the Ethereum family, a final signature.

The state of a record is moved by these operations, by the report of the external chain, and by
the operations with which the wallfacers cancel or pass a transaction by hand. This module has the
records and the tables they read; the evaluators are in the modules after it.

## What is taken as given

The handles of the other chains, the wall clock, the wallfacers and the history of transactions
are read and never written by the code modelled here. They are the fields of `Env`, and nothing is
assumed about them. `State.history` is written and never read: it is the account of the money that
the records are meant to keep.
-/

namespace Whitecoin.Crosschain

open Check Ledger

/-! ### Records -/

/-- `transaction_stata`. -/
inductive TrxState where
  | withoutSignTrxUncreate
  | withoutSignTrxCreate
  | signTrx
  | combineTrxCreate
  | transactionConfirm
  | transactionFail
  | canceled
  | ethWallfacerNeedSign
  | ethWallfacerSign
  deriving DecidableEq

/-- `acquired_trx_state`. -/
inductive AcquiredTrxState where
  | uncreate
  | create
  | comfirmed
  | depositFailure
  deriving DecidableEq

/-- `crosschain_trx_object`. -/
structure Record where
  relateTransactionId : TrxId
  transactionId : TrxId
  allRelatedOriginTransactionIds : List TrxId
  realTransaction : Transaction
  opType : OpType
  trxState : TrxState
  crosschainTrxId : String
  crosschainFee : ℤ
  deriving DecidableEq

/-- `coldhot_trx_state`. -/
inductive ColdhotTrxState where
  | withoutSignTrxUncreate
  | withoutSignTrxCreate
  | signTrx
  | combineTrxCreate
  | transactionConfirm
  | transactionFail
  | ethWallfacerNeedSign
  | ethWallfacerSign
  deriving DecidableEq

/-- `coldhot_transfer_object`. -/
structure Transfer where
  relateTrxId : TrxId
  currentId : TrxId
  currentTrx : Transaction
  originalTrxId : String
  opType : ColdhotOpType
  curretTrxState : ColdhotTrxState
  deriving DecidableEq

/-- `account_binding_object`: the address of another chain from which `owner` pays in. -/
structure AccountBinding where
  owner : Address
  chainType : String
  bindAccount : String
  deriving DecidableEq

namespace Record

/-- Set the state, if `p` picks the record. -/
def setState (p : Record → Bool) (st : TrxState) (r : Record) : Record :=
  if p r then { r with trxState := st } else r

/-- Set the external id, if `p` picks the record. -/
def setExternal (p : Record → Bool) (id : String) (r : Record) : Record :=
  if p r then { r with crosschainTrxId := id } else r

/-- The change keeps what links a record to others: only its state, its external id and its fee
change. -/
structure Frame (f : Record → Record) : Prop where
  transactionId : ∀ r, (f r).transactionId = r.transactionId
  relate : ∀ r, (f r).relateTransactionId = r.relateTransactionId
  allRelated : ∀ r, (f r).allRelatedOriginTransactionIds = r.allRelatedOriginTransactionIds
  realTransaction : ∀ r, (f r).realTransaction = r.realTransaction
  opType : ∀ r, (f r).opType = r.opType

theorem frame_setState (p : Record → Bool) (st : TrxState) : Frame (setState p st) := by
  constructor <;> intro r <;> unfold setState <;> split <;> rfl

theorem frame_setExternal (p : Record → Bool) (id : String) : Frame (setExternal p id) := by
  constructor <;> intro r <;> unfold setExternal <;> split <;> rfl

theorem Frame.comp {f g : Record → Record} (hf : Frame f) (hg : Frame g) : Frame (f ∘ g) where
  transactionId r := (hf.transactionId (g r)).trans (hg.transactionId r)
  relate r := (hf.relate (g r)).trans (hg.relate r)
  allRelated r := (hf.allRelated (g r)).trans (hg.allRelated r)
  realTransaction r := (hf.realTransaction (g r)).trans (hg.realTransaction r)
  opType r := (hf.opType (g r)).trans (hg.opType r)

@[simp] theorem transactionId_setState (p : Record → Bool) (st : TrxState) (r : Record) :
    (setState p st r).transactionId = r.transactionId :=
  (frame_setState p st).transactionId r

@[simp] theorem relate_setState (p : Record → Bool) (st : TrxState) (r : Record) :
    (setState p st r).relateTransactionId = r.relateTransactionId :=
  (frame_setState p st).relate r

@[simp] theorem transactionId_setExternal (p : Record → Bool) (id : String) (r : Record) :
    (setExternal p id r).transactionId = r.transactionId :=
  (frame_setExternal p id).transactionId r

@[simp] theorem relate_setExternal (p : Record → Bool) (id : String) (r : Record) :
    (setExternal p id r).relateTransactionId = r.relateTransactionId :=
  (frame_setExternal p id).relate r

theorem trxState_setState (p : Record → Bool) (st : TrxState) (r : Record) :
    (setState p st r).trxState = if p r then st else r.trxState := by
  unfold setState
  split <;> rfl

@[simp] theorem trxState_setExternal (p : Record → Bool) (id : String) (r : Record) :
    (setExternal p id r).trxState = r.trxState := by
  unfold setExternal
  split <;> rfl

end Record

namespace Transfer

/-- Set the state, if `p` picks the transfer. -/
def setState (p : Transfer → Bool) (st : ColdhotTrxState) (t : Transfer) : Transfer :=
  if p t then { t with curretTrxState := st } else t

/-- Set the external id, if `p` picks the transfer. -/
def setExternal (p : Transfer → Bool) (id : String) (t : Transfer) : Transfer :=
  if p t then { t with originalTrxId := id } else t

end Transfer

/-- What happened to the money of a withdrawal. -/
inductive Event where
  | debited (trx : TrxId) (account : Address) (asset : AssetId) (amount : ℤ)
  | refunded (trx : TrxId) (account : Address)
  | confirmed (trx : TrxId)
  deriving DecidableEq

/-- How often a withdrawal was refunded. -/
def refunds (history : List Event) (id : TrxId) : ℕ :=
  history.countP fun
    | .refunded t _ => t = id
    | _ => false

theorem refunds_cons_refunded (history : List Event) (w id : TrxId) (account : Address) :
    refunds (.refunded w account :: history) id = refunds history id + if id = w then 1 else 0 := by
  rw [refunds, refunds, List.countP_cons]
  by_cases h : id = w
  · simp [h]
  · simp [h, Ne.symm h]

/-- The debits of a withdrawal: account, asset and amount. -/
def debits (history : List Event) (id : TrxId) : List (Address × AssetId × ℤ) :=
  history.filterMap fun
    | .debited t account asset amount => if t = id then some (account, asset, amount) else none
    | _ => none

theorem debits_cons_debited (history : List Event) (w id : TrxId) (account : Address)
    (asset : AssetId) (amount : ℤ) :
    debits (.debited w account asset amount :: history) id =
      if w = id then (account, asset, amount) :: debits history id else debits history id := by
  rw [debits, debits, List.filterMap_cons]
  split_ifs <;> simp_all

@[simp] theorem debits_cons_refunded (history : List Event) (w id : TrxId) (account : Address) :
    debits (.refunded w account :: history) id = debits history id := rfl

structure State where
  accounts : Accounts
  /-- In the order in which they were created. -/
  records : List Record
  /-- The records of cold-hot transfers, in the order in which they were created. -/
  transfers : List Transfer
  /-- The external transactions that were used up, by their id. -/
  acquired : String → Option AcquiredTrxState
  /-- In the order in which they were created. -/
  bindings : List AccountBinding
  history : List Event

/-! ### What the evaluators read -/

structure Asset where
  id : AssetId
  symbol : String
  precision : ℕ
  maxSupply : ℤ
  allowWithdrawDeposit : Bool
  description : String
  withdrawLimition : ℤ
  feePool : ℤ
  deriving DecidableEq

namespace Asset

/-- `amount_from_string`. -/
def amount (a : Asset) (s : String) : Except String ℤ :=
  amountFromString a.precision a.maxSupply s.toList

end Asset

/-- The assets; their index by symbol is unique. -/
structure AssetTable where
  assets : List Asset
  nodup_id : (assets.map (·.id)).Nodup
  nodup_symbol : (assets.map (·.symbol)).Nodup

namespace AssetTable

variable {t : AssetTable} {a b : Asset}

def byId (t : AssetTable) (id : AssetId) : Option Asset := t.assets.find? (·.id = id)

def bySymbol (t : AssetTable) (symbol : String) : Option Asset :=
  t.assets.find? (·.symbol = symbol)

theorem id_of_byId {id : AssetId} (h : t.byId id = some a) : a ∈ t.assets ∧ a.id = id :=
  ⟨List.mem_of_find?_eq_some h, by simpa using List.find?_some h⟩

theorem symbol_of_bySymbol {symbol : String} (h : t.bySymbol symbol = some a) :
    a ∈ t.assets ∧ a.symbol = symbol :=
  ⟨List.mem_of_find?_eq_some h, by simpa using List.find?_some h⟩

end AssetTable

/-- `crosschain_trx`: the payments of an external transaction by destination, and its fee. The fee
is a floating-point number; only its decimal text with a given number of places is used. -/
structure CrosschainTrx where
  trxs : List (String × HdTrx)
  nodup_account : (trxs.map (·.1)).Nodup
  feeText : ℕ → String

/-- What the handle of a chain is asked to read. -/
inductive TurnRequest where
  | erc (precision : ℤ) (source : String)
  | eth (source : String)
  | usdt (source : String)
  | plain (source : String)

/-- What a handle finds about a transaction of the Ethereum family: the number of logs of its
receipt, the gas it used and the gas it was given. -/
structure Receipt where
  logs : ℕ
  gasUsed : String
  gas : String
  deriving DecidableEq

/-- The handle of another chain. -/
structure Handle where
  validateAddress : String → Bool
  turnTrxs : TurnRequest → Except String CrosschainTrx
  turnTrx : String → String → Except String HdTrx
  getFromAddress : String → Except String String
  validateLinkTrx : HdTrx → Bool
  validateLinkTrxV1 : HdTrx → Bool
  validateSignature : String → String → String → Bool
  validateTransaction : String → String → String → Bool
  /-- `transaction_query`; nothing if a field is missing in the answer. -/
  transactionQuery : String → Option Receipt

structure Wallfacer where
  permanent : Bool
  memberAccount : AccountId
  deriving DecidableEq

/-- `multisig_address_object`, with the scripts of its pair. -/
structure MultisigAddress where
  wallfacerAccount : AccountId
  newPubkeyHot : String
  newPubkeyCold : String
  redeemScriptHot : String
  redeemScriptCold : String
  deriving DecidableEq

/-- `multisig_account_pair_object`. -/
structure MultisigAccountPair where
  effectiveBlockNum : ℕ
  endBlock : ℕ
  deriving DecidableEq

/-- The hot and the cold account of a pair. -/
structure BindAccounts where
  bindAccountHot : String
  bindAccountCold : String
  deriving DecidableEq

structure Env where
  headBlockNum : ℕ
  assets : AssetTable
  /-- The number after the bar of an asset's description; reading it may fail. -/
  ercPrecision : Asset → Except String ℤ
  /-- The outputs of a USDT transaction have the shape the evaluator asks for. -/
  usdtOutputs : HdTrx → Bool
  /-- The same for a cold-hot transfer, whose receiver must be a multi-signature account. -/
  coldhotUsdtOutputs : HdTrx → Bool
  /-- The sender that the outputs of a USDT transaction name. -/
  usdtFrom : HdTrx → Option String
  /-- The JSON object of a BCH transaction has the fields the evaluator asks for. -/
  bchFields : String → Bool
  /-- The clock is more than `validate_time_period` ahead of the head block. -/
  late : Bool
  /-- The handle of a chain, if there is one and its configuration is valid. -/
  handle : String → Option Handle
  /-- The handle of a chain whose configuration is not valid. -/
  idleHandle : String → Option Handle
  wallfacer : WallfacerId → Option Wallfacer
  accountAddr : AccountId → Option Address
  accountByAddress : Address → Option AccountId
  /-- `get_multi_account_wallfacer`, by paying account and symbol. -/
  multiAccountWallfacers : String → String → List MultisigAddress
  multisigAccount : String → String → Option MultisigAccountPair
  currentMultisigAccount : String → Option MultisigAccountPair
  /-- The multi-signature accounts of a chain. -/
  bindAccounts : String → List BindAccounts
  /-- The number of addresses of the pair that has the account, by account and symbol. -/
  multisigAddressCount : String → String → ℕ
  /-- The block of an earlier transaction. -/
  fetchTrx : TrxId → Option ℕ

/-- The chains of the Ethereum family. -/
def ethSeries (symbol : String) : Bool :=
  symbol == "ETH" || decide ("ERC".toList <:+: symbol.toList)

/-- The part of an id after the first bar, or the whole id. -/
def afterBar (id : String) : String :=
  if '|' ∈ id.toList then String.ofList (id.toList.drop (id.toList.idxOf '|' + 1)) else id

/-- The part of an id before the first bar, or the whole id. -/
def beforeBar (id : String) : String := String.ofList (id.toList.takeWhile (· ≠ '|'))

/-- The key under which an external transaction is used up. -/
def HdTrx.key (trx : HdTrx) : String :=
  if ethSeries trx.assetSymbol then afterBar trx.trxId else trx.trxId

/-- The name under which a handle knows an external transaction: tokens carry the description of
their asset. -/
def HdTrx.described (trx : HdTrx) (asset : Asset) : HdTrx :=
  if "ERC".toList <:+: trx.assetSymbol.toList then
    { trx with assetSymbol := trx.assetSymbol ++ "|" ++ asset.description }
  else trx

/-- The external transaction was used up: by a deposit, or by the report of a payment. -/
def UsedUp (s : State) (key : String) : Prop :=
  s.acquired key ≠ none ∧ s.acquired key ≠ some .uncreate

instance (s : State) (key : String) : Decidable (UsedUp s key) :=
  inferInstanceAs (Decidable (_ ∧ _))

/-! ### Heights

The heights at which the rules of the evaluators changed. All of them are defined as 1. -/

def crosschainRecordEvaluate220000 : ℕ := 1

def crosschainRecordEvaluate310000 : ℕ := 1

def crosschainRecordEvaluate480000 : ℕ := 1

def crosschainRecordEvaluate680000 : ℕ := 1

def crosschainRecordEvaluate1000000 : ℕ := 1

def useModChangeListHeight : ℕ := 1

def passXwcBlockNum : ℕ := 1

def coldhotTransferEvaluateHeight : ℕ := 1

/-! ### Accesses to the records -/

namespace State

variable {s s' : State} {r : Record} {id : TrxId}

/-- The unique index by transaction id. -/
def find (s : State) (id : TrxId) : Option Record :=
  s.records.find? (·.transactionId = id)

/-- The records that name `id` as the one they follow. -/
def related (s : State) (id : TrxId) : List Record :=
  s.records.filter (·.relateTransactionId = id)

def create (s : State) (r : Record) : Except String State := do
  require (s.find r.transactionId = none) "unique constraint: by_transaction_id"
  return { s with records := s.records ++ [r] }

/-- Change the records in place. -/
def modify (s : State) (f : Record → Record) : State :=
  { s with records := s.records.map f }

def log (s : State) (events : List Event) : State :=
  { s with history := events ++ s.history }

/-- Set the state of the records that `p` picks. -/
def move (s : State) (p : Record → Bool) (st : TrxState) : State :=
  (s.modify (Record.setState p st)).log
    (if st = .transactionConfirm then
      (s.records.filter p).map fun r => .confirmed r.transactionId
    else [])

def remove (s : State) (id : TrxId) : State :=
  { s with records := s.records.filter (·.transactionId ≠ id) }

theorem transactionId_of_find (h : s.find id = some r) : r.transactionId = id :=
  Table.key_of_find h

theorem create_eq_ok (h : s.create r = .ok s') :
    s.find r.transactionId = none ∧ s' = { s with records := s.records ++ [r] } := by
  simp only [create, bind_eq_ok, require_eq_ok, exists_and_left, exists_const, pure_eq_ok] at h
  exact ⟨h.1, h.2.symm⟩

theorem find_move (s : State) (p : Record → Bool) (st : TrxState) (id : TrxId) :
    (s.move p st).find id = (s.find id).map (Record.setState p st) :=
  Table.find_map (Record.frame_setState p st).transactionId s.records id

theorem find_remove (s : State) (x id : TrxId) :
    (s.remove x).find id = if id = x then none else s.find id :=
  Table.find_filter s.records x id

/-! The records of cold-hot transfers have an index of their own. -/

def findTransfer (s : State) (id : TrxId) : Option Transfer :=
  s.transfers.find? (·.currentId = id)

/-- The transfers that name `id` as the one they follow. -/
def relatedTransfers (s : State) (id : TrxId) : List Transfer :=
  s.transfers.filter (·.relateTrxId = id)

def createTransfer (s : State) (t : Transfer) : Except String State := do
  require (s.findTransfer t.currentId = none) "unique constraint: by_current_trx_id"
  return { s with transfers := s.transfers ++ [t] }

/-- Set the state of the transfers that `p` picks. -/
def moveTransfers (s : State) (p : Transfer → Bool) (st : ColdhotTrxState) : State :=
  { s with transfers := s.transfers.map (Transfer.setState p st) }

/-- Set the external id of the transfers that `p` picks. -/
def nameTransfers (s : State) (p : Transfer → Bool) (external : String) : State :=
  { s with transfers := s.transfers.map (Transfer.setExternal p external) }

end State

/-! ### A small chain -/

def bitcoin : Asset := ⟨1, "BTC", 2, 1000000, true, "", 1, 0⟩

def ether : Asset := ⟨2, "ETH", 2, 1000000, true, "", 1, 0⟩

/-- A node without handles. Every wallfacer is permanent, has the account and the address of its
own number, and all transactions are old. -/
def quietEnv : Env where
  headBlockNum := 1000
  assets := ⟨[bitcoin, ether], by decide, by decide⟩
  ercPrecision _ := .ok 18
  usdtOutputs _ := true
  coldhotUsdtOutputs _ := true
  usdtFrom _ := none
  bchFields _ := true
  late := false
  handle _ := none
  idleHandle _ := none
  wallfacer id := some ⟨true, id⟩
  accountAddr id := some id
  accountByAddress addr := some addr
  multiAccountWallfacers _ _ := []
  multisigAccount _ _ := some ⟨1, 1⟩
  currentMultisigAccount _ := some ⟨1, 1⟩
  bindAccounts _ := [⟨"hot", "cold"⟩]
  multisigAddressCount _ _ := 3
  fetchTrx _ := some 1

/-- The account 7 has ten bitcoins, and nothing is under way. -/
def tenBitcoins : State where
  accounts := ⟨fun addr asset => if addr = 7 ∧ asset = 1 then some ⟨1000, 0⟩ else none,
    fun asset => if asset = 1 then 1000 else 0⟩
  records := []
  transfers := []
  acquired _ := none
  bindings := []
  history := []

end Whitecoin.Crosschain
