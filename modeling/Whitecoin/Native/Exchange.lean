import Whitecoin.Native.Accounts
import Whitecoin.Native.SafeNumber
import Whitecoin.Native.Token

/-!
# The native exchange contract

`exchange_native_contract`. Users deposit assets and sign orders, which a relayer matches: one order
is the taker, and the others are the makers that it is filled with. For every order the contract
checks the limits that its owner has signed, charges the owner, and keeps a record of what was spent
and received under the id of the order. An order is cancelled by a mark in its record.

Recovering the owner from a signature, hashing and reading the text of an order are parameters. The
arguments of `fillOrder`, `cancelOrders` and `on_deposit_asset` are given by what their JSON texts
stand for. Events are left out, and so are the apis that only read.
-/

namespace Whitecoin.Native

open Check Cbor

namespace Exchange

structure OrderInfo where
  purchaseAsset : Text
  purchaseNum : Int64
  payAsset : Text
  payNum : Int64
  relayer : Text
  fee : Text
  type : Text
  expiredAt : UInt64

structure Order where
  orderInfo : Text
  sig : Text
  id : Text
  deriving DecidableEq

structure FillOrder where
  order : Order
  getNum : Int64
  spentNum : Int64

structure MatchInfo where
  fillTakerOrder : FillOrder
  fillMakerOrders : List FillOrder

def isHexDigit (c : UInt8) : Bool := isDigit c || (97 ≤ c && c ≤ 102)

/-- A hash as a text. -/
abbrev OrderId := { id : Text // ∀ c ∈ id, isHexDigit c = true }

/-- What the contract takes from its environment. -/
structure Env where
  numerals : Numerals
  sha256 : Text → OrderId
  /-- The owner that is recovered from a signature and the text it signs. A signature may be
  refused, or make the call fail. -/
  signer : Text → Text → Except String (Option Address)
  /-- The JSON text of an order. -/
  readOrderInfo : Text → Except String OrderInfo
  isValidAddress : Text → Bool
  isAddress_of_valid : ∀ a, isValidAddress a = true → IsAddress a

def notInited : Text := text "NOT_INITED"

def common : Text := text "COMMON"

/-- `init_api`. -/
def init (caller : Address) (o : Overlay) : Except String Overlay := do
  let o ← o.setAll
    [(text "name", .string []),
      (text "feeReceiver", .string []),
      (text "state", .string notInited)]
  require (caller.1 ≠ []) "caller_address can't be empty"
  o.set (text "admin") (.string caller)

/-- `check_admin`. -/
def checkAdmin (caller : Address) (o : Overlay) : Except String Unit :=
  Token.checkAdmin caller o

/-- The apis for users need the state after `init_config`. -/
def checkCommon (o : Overlay) : Except String Unit := do
  let state ← o.getString (text "state")
  require (state = common) "this exchange contract state is not common"

/-- `getOrderOwnerAddressAndId`: nothing unless the result of the source is `"OK"`. -/
def getOrderOwnerAddressAndId (env : Env) (o : Order) :
    Except String (Option (Address × OrderId)) := do
  let id := env.sha256 (o.orderInfo ++ o.sig)
  if o.id ≠ id then pure none
  else
    let addr ← env.signer o.sig o.orderInfo
    pure (addr.map fun a => (a, id))

/-! ### Filling an order -/

/-- The receiver of the fee. -/
def feeReceiverOf (env : Env) (info : OrderInfo) (o : Overlay) : Except String Text :=
  if info.relayer = [] then o.getString (text "feeReceiver")
  else do
    require (env.isValidAddress info.relayer) "relayer is invalid address"
    pure info.relayer

/-- The fee for what is spent. -/
def spentFeeOf (fee : Text) (spentNum minFee : Int64) : Except String Int64 := do
  let product ← SafeNumber.multiply (← SafeNumber.createInt spentNum)
    (← SafeNumber.createString fee)
  let spentFee ← SafeNumber.toInt64 product
  if spentFee < 0 then .error "fee percentage must positive"
  else if spentFee < minFee then pure minFee
  else if spentNum ≤ spentFee then .error "fee percentage must < 100%"
  else pure spentFee

/-- The price is at most the one of the order. -/
def checkPrice (info : OrderInfo) (getNum spentNum : Int64) : Except String Unit := do
  let purchaseNum ← SafeNumber.createInt info.purchaseNum
  let payNum ← SafeNumber.createInt info.payNum
  let a ← SafeNumber.multiply (← SafeNumber.createInt spentNum) purchaseNum
  let b ← SafeNumber.multiply (← SafeNumber.createInt getNum) payNum
  require (¬ (← SafeNumber.gt a b)) "fill order price not satify"

/-- The record of an order after a fill. -/
def recordFill (payNum getNum spentNum : Int64) (orderStore : CborObject) :
    Except String CborObject :=
  match orderStore with
  | .map o => do
    match OrdMap.get? o (text "state") with
    | some state =>
      let state ← state.forceAsInt
      if state = 0 then .error "order has been canceled"
      else if state = 1 then .error "order has been completely filled"
      else .error "wrong order state"
    | none =>
      match OrdMap.get? o (text "spentNum") with
      | some last =>
        let lastSpentNum ← last.forceAsInt
        require (¬ payNum - lastSpentNum < spentNum) "order remain not enough"
        let o := OrdMap.set o (text "spentNum") (.int (lastSpentNum + spentNum))
        let last ← found (OrdMap.get? o (text "gotNum")) "wrong order info stored"
        let lastGotNum ← last.forceAsInt
        pure (.map (OrdMap.set o (text "gotNum") (.int (lastGotNum + getNum))))
      | none =>
        let o := OrdMap.set o (text "gotNum") (.int getNum)
        pure (.map (OrdMap.set o (text "spentNum") (.int spentNum)))
  | _ => .ok (.map [(text "gotNum", .int getNum), (text "spentNum", .int spentNum)])

/-- An order that was filled, with the storage before it, after its owner was charged, after its
owner was credited, and after the fee. -/
structure Fill where
  order : FillOrder
  info : OrderInfo
  owner : Address
  id : OrderId
  feeReceiver : Text
  minFee : Int64
  spentFee : Int64
  before : Overlay
  charged : Overlay
  credited : Overlay
  after : Overlay

/-- The balance of the receiver of the fee is replaced by the fee: the balance that is read goes
into another variable than the one that is added. -/
def payFee (feeReceiver payAsset : Text) (spentFee : Int64) (o : Overlay) :
    Except String Overlay := do
  if 0 < spentFee then
    let _ ← o.entry feeReceiver payAsset
    o.setEntry feeReceiver payAsset (.int (0 + spentFee))
  else pure o

/-- `checkOrder`. -/
def checkOrder (env : Env) (now : UInt64) (fillOrder : FillOrder) (o : Overlay) :
    Except String Fill := do
  let (addr, id) ← found (← getOrderOwnerAddressAndId env fillOrder.order) "fillOrder wrong"
  let info ← env.readOrderInfo fillOrder.order.orderInfo
  let getNum := fillOrder.getNum
  let spentNum := fillOrder.spentNum
  require (¬ info.expiredAt ≤ now) "order expired"
  require (0 < info.purchaseNum ∧ 0 < info.payNum ∧ 0 < getNum ∧ 0 < spentNum) "num must > 0"
  require (¬ info.payNum < spentNum) "spentNum must < payNum"
  let feeReceiver ← feeReceiverOf env info o
  require (env.numerals.isNumeric info.fee) "invalid fee percentage"
  let minFee ← o.intOf (entryKey info.payAsset (text "minFee"))
  let spentFee ← spentFeeOf info.fee spentNum minFee
  require (info.type = text "buy" ∨ info.type = text "sell") "order type wrong"
  checkPrice info getNum spentNum
  let balance ← o.entry addr info.payAsset
  require balance.isInteger "no balance of user"
  let bal ← balance.forceAsInt
  require (¬ bal < spentNum + spentFee) "not enough balance"
  let record ← recordFill info.payNum getNum spentNum (← o.entry id (text "info"))
  let recorded ← o.setEntry id (text "info") record
  let charged ← recorded.setEntry addr info.payAsset (.int (bal - spentNum - spentFee))
  let credited ← charged.credit addr info.purchaseAsset getNum
  let after ← payFee feeReceiver info.payAsset spentFee credited
  pure ⟨fillOrder, info, addr, id, feeReceiver, minFee, spentFee, o, charged, credited, after⟩

/-- The makers of a match. -/
def checkMakers (env : Env) (now : UInt64) (taker : OrderInfo) :
    List FillOrder → Overlay → Except String (List Fill)
  | [], _ => .ok []
  | m :: makers, o => do
    let fill ← checkOrder env now m o
    require (taker.purchaseAsset = fill.info.payAsset ∧ taker.payAsset = fill.info.purchaseAsset)
      "asset not match"
    require (taker.type ≠ fill.info.type) "order type not match"
    pure (fill :: (← checkMakers env now taker makers fill.after))

/-- The sum of numbers of orders, in 64 bits. -/
def total (num : FillOrder → Int64) (orders : List FillOrder) : Int64 :=
  orders.foldl (fun sum m => num m + sum) 0

/-- `checkMatchedOrders`. -/
def checkMatchedOrders (env : Env) (now : UInt64) (matched : MatchInfo) (o : Overlay) :
    Except String (List Fill) := do
  let taker ← checkOrder env now matched.fillTakerOrder o
  let makers ← checkMakers env now taker.info matched.fillMakerOrders taker.after
  require (total (·.getNum) matched.fillMakerOrders = matched.fillTakerOrder.spentNum ∧
    total (·.spentNum) matched.fillMakerOrders = matched.fillTakerOrder.getNum)
    "total exchange num not match"
  pure (taker :: makers)

/-- The storage after the fills. -/
def lastAfter : Overlay → List Fill → Overlay
  | o, [] => o
  | _, f :: fills => lastAfter f.after fills

/-! ### The apis -/

/-- `init_config_api`. -/
def initConfig (env : Env) (caller : Address) (arg : Text) (o : Overlay) :
    Except String Overlay := do
  checkAdmin caller o
  let state ← o.getString (text "state")
  require (state = notInited) "this exchange contract inited before"
  let feeReceiver := trim arg
  require (feeReceiver ≠ []) "feeReceiver is empty"
  require (env.isValidAddress feeReceiver) "feeReceiver is invalid address"
  o.setAll [(text "feeReceiver", .string feeReceiver), (text "state", .string common)]

/-- `setMinFee_api`. -/
def setMinFee (env : Env) (caller : Address) (arg : Text) (o : Overlay) :
    Except String Overlay := do
  checkAdmin caller o
  checkCommon o
  match splitArgs arg with
  | [symbol, minFee] =>
    require (symbol ≠ []) "symbol is empty"
    require (env.numerals.isIntegral minFee) "argument format error, minFee must be integral"
    let minFee ← toInt64 minFee
    require (0 ≤ minFee) "amount must >= 0"
    o.setEntry symbol (text "minFee") (.int minFee)
  | _ => .error "argument format error, need format: asset_symbol,minFee"

/-- The record of an order that is cancelled, or nothing if it was cancelled before. A record that
exists is stored again as it was read: the mark is put into a copy. -/
def cancelRecord (orderInfo : CborObject) : Except String (Option CborObject) :=
  match orderInfo with
  | .map o => do
    let canceled ← match OrdMap.get? o (text "state") with
      | some state => do pure (decide ((← state.forceAsInt) = 0))
      | none => pure false
    pure (if canceled then none else some orderInfo)
  | _ => .ok (some (.map [(text "state", .int 0)]))

/-- One round of the loop of `cancelOrders_api`, with the ids that are reported. -/
def cancelOrder (env : Env) (caller : Address) (canceled : List OrderId × Overlay) (order : Order) :
    Except String (List OrderId × Overlay) := do
  match ← getOrderOwnerAddressAndId env order with
  | some (addr, id) =>
    if addr = caller then
      match ← cancelRecord (← canceled.2.entry id (text "info")) with
      | some record =>
        pure (canceled.1 ++ [id], ← canceled.2.setEntry id (text "info") record)
      | none => pure canceled
    else pure canceled
  | none => pure canceled

/-- `cancelOrders_api`. -/
def cancelOrders (env : Env) (caller : Address) (orders : List Order) (o : Overlay) :
    Except String (List OrderId × Overlay) := do
  checkCommon o
  orders.foldlM (cancelOrder env caller) ([], o)

/-- `on_deposit_asset_api`. -/
def onDepositAsset (caller : Address) (num : Int64) (symbol : Text) (o : Overlay) :
    Except String Overlay := do
  checkCommon o
  require (0 < num) "amount must > 0"
  o.credit caller symbol num

/-- `withdraw_api`. -/
def withdraw (env : Env) (pays : Bool) (caller : Address) (arg : Text) (o : Overlay) :
    Except String ((Text × Int64) × Overlay) := do
  checkCommon o
  Native.withdraw env.numerals pays caller arg o

/-- The apis that change the storage and can be called after the registration. -/
inductive Api where
  | initConfig (arg : Text)
  | setMinFee (arg : Text)
  | fillOrder (matched : MatchInfo)
  | cancelOrders (orders : List Order)
  | onDepositAsset (num : Int64) (symbol : Text)
  | withdraw (arg : Text)

/-- A call, with the time and with whether the chain makes a transfer out of the contract. -/
structure Invocation where
  api : Api
  caller : Address
  now : UInt64
  pays : Bool

/-- What an accepted call did besides changing the storage. -/
structure Receipt where
  fills : List Fill
  canceled : List OrderId
  deposited : List (Text × Int64)
  withdrawn : List (Text × Int64)

def Receipt.none : Receipt := ⟨[], [], [], []⟩

/-- The api of a call. -/
def execute (env : Env) (call : Invocation) (o : Overlay) : Except String (Receipt × Overlay) :=
  match call.api with
  | .initConfig arg => do pure (.none, ← initConfig env call.caller arg o)
  | .setMinFee arg => do pure (.none, ← setMinFee env call.caller arg o)
  | .fillOrder matched => do
    checkCommon o
    let fills ← checkMatchedOrders env call.now matched o
    pure ({ Receipt.none with fills := fills }, lastAfter o fills)
  | .cancelOrders orders => do
    let (canceled, o) ← cancelOrders env call.caller orders o
    pure ({ Receipt.none with canceled := canceled }, o)
  | .onDepositAsset num symbol => do
    pure ({ Receipt.none with deposited := [(symbol, num)] },
      ← onDepositAsset call.caller num symbol o)
  | .withdraw arg => do
    let (paid, o) ← withdraw env call.pays call.caller arg o
    pure ({ Receipt.none with withdrawn := [paid] }, o)

/-- `invoke`. -/
def invoke (env : Env) (call : Invocation) (s : Storage) : Except String (Receipt × Storage) := do
  let (receipt, o) ← execute env call ⟨s, s⟩
  pure (receipt, o.current)

/-- The storages that a contract reaches after its registration by accepted calls that all meet a
condition, with the receipts of these calls, the last one first. -/
inductive Runs (env : Env) (Meets : Storage → Invocation → Receipt → Prop) :
    Storage → List Receipt → Prop
  | init {caller : Address} {s : Storage} (h : perform (init caller) .empty = .ok s) :
    Runs env Meets s []
  | call {s s' : Storage} {receipts : List Receipt} {call : Invocation} {receipt : Receipt}
    (h : Runs env Meets s receipts) (hcall : invoke env call s = .ok (receipt, s'))
    (hmeets : Meets s call receipt) : Runs env Meets s' (receipt :: receipts)

end Exchange

end Whitecoin.Native
