import Whitecoin.Native.Accounts
import Whitecoin.Native.SafeNumber
import Whitecoin.Native.Token

/-!
# The native market maker contract

`uniswap_native_contract`. Two assets lie in two pools. A user deposits assets into the contract and
moves them into both pools at the ratio that they have, for which liquidity tokens are minted;
tokens are given back for a share of the pools. A deposit with a parameter is a swap: it goes into
one pool, and the other asset is paid out of the other pool, so that the product of the pools does
not shrink.

The liquidity tokens are those of the token contract, which this contract inherits. The argument of
`on_deposit_asset` is given by what its JSON text stands for. Events are left out, and so are the
apis that only read.
-/

namespace Whitecoin.Native

open Check Cbor

namespace Uniswap

/-- `MAX_ASSET_AMOUNT`. -/
def maxAssetAmount : Int64 := 4000000000000000

/-- `init_api`. -/
def init (caller : Address) (o : Overlay) : Except String Overlay := do
  let o ← Token.init caller o
  o.setAll
    [(text "fee_rate", .string (text "0.0")),
      (text "asset_1_symbol", .string []),
      (text "asset_2_symbol", .string []),
      (text "asset_1_pool_amount", .int 0),
      (text "asset_2_pool_amount", .int 0),
      (text "min_asset1_amount", .int 0),
      (text "min_asset2_amount", .int 0)]

/-- The apis for users need the state after `init_config`. -/
def checkCommon (o : Overlay) : Except String Unit := do
  let state ← o.getString (text "state")
  require (state = Token.common) "state not common"

/-- `setMinAddAmount_api`. -/
def setMinAddAmount (numerals : Numerals) (caller : Address) (arg : Text) (o : Overlay) :
    Except String Overlay := do
  Token.checkAdmin caller o
  checkCommon o
  let format := "argument format error, need format: min_asset1_amount,min_asset2_amount"
  match splitArgs arg with
  | [minAmount1, minAmount2] =>
    require (numerals.isIntegral minAmount1 ∧ numerals.isIntegral minAmount2) format
    let minAmount1 ← stoll minAmount1
    let minAmount2 ← stoll minAmount2
    require (0 < minAmount1 ∧ 0 < minAmount2)
      "argument format error, min_asset_amount to add liquidity must be positive integer"
    o.setAll
      [(text "min_asset1_amount", .int minAmount1), (text "min_asset2_amount", .int minAmount2)]
  | _ => .error format

/-- `init_config_api`. -/
def initConfig (numerals : Numerals) (caller : Address) (arg : Text) (o : Overlay) :
    Except String Overlay := do
  Token.checkAdmin caller o
  let state ← o.getString (text "state")
  require (state = Token.notInited) "this contract inited before"
  let format := "argument format error, need format: asset1,asset2,min_asset1_amount," ++
    "min_asset2_amount,fee_rate,token_name,token_symbol"
  match splitArgs arg with
  | [asset1, asset2, minAmount1, minAmount2, feeRate, tokenName, tokenSymbol] =>
    let asset1 := trim asset1
    let asset2 := trim asset2
    require (asset1 ≠ [] ∧ asset2 ≠ []) format
    require (asset1 ≠ asset2) "asset1 is same with asset2"
    require (numerals.isIntegral minAmount1 ∧ numerals.isIntegral minAmount2 ∧
      numerals.isNumeric feeRate) format
    let minAmount1 ← stoll minAmount1
    let minAmount2 ← stoll minAmount2
    let rate ← SafeNumber.createString feeRate
    require (0 < minAmount1 ∧ 0 < minAmount2)
      "argument format error, min_asset_amount to add liquidity must be positive integer"
    let negative ← SafeNumber.lt rate (← SafeNumber.createInt 0)
    let tooLarge ← SafeNumber.gte rate (← SafeNumber.createInt 1)
    require (¬ negative ∧ ¬ tooLarge) "argument format error, fee rate must be >=0 and < 1"
    let tokenName := trim tokenName
    let tokenSymbol := trim tokenSymbol
    require (tokenName ≠ [] ∧ tokenSymbol ≠ []) format
    o.setAll
      [(text "fee_rate", .string feeRate),
        (text "asset_1_symbol", .string asset1),
        (text "asset_2_symbol", .string asset2),
        (text "min_asset1_amount", .int minAmount1),
        (text "min_asset2_amount", .int minAmount2),
        (text "state", .string Token.common),
        (text "name", .string tokenName),
        (text "symbol", .string tokenSymbol),
        (text "precision", .int 1)]
  | _ => .error format

/-- The number of a block has not been reached. -/
def checkExpired (head : UInt64) (expired : Int64) : Except String Unit := do
  require (0 < expired) "argument format error, expired_blocknum must be positive integer"
  require (¬ expired.toUInt64 ≤ head) "expired blocknum"

/-! ### Liquidity -/

/-- The amount of the second asset for `amount` of the first, at the ratio of the pools. It is
rounded up. -/
def caculateAsset2 (amount pool1 pool2 : Int64) : Except String Int64 := do
  let product ← SafeNumber.multiply (← SafeNumber.createInt amount) (← SafeNumber.createInt pool2)
  let temp ← SafeNumber.div product (← SafeNumber.createInt pool1)
  let result ← SafeNumber.toInt64 temp
  if SafeNumber.ne (← SafeNumber.createInt result) temp then pure (result + 1) else pure result

/-- The amount of the second asset that is added: all of it goes into empty pools. -/
def addedAsset2 (amount max2 pool1 pool2 : Int64) : Except String Int64 :=
  if pool1 ≠ 0 ∧ pool2 ≠ 0 then do
    let amount2 ← caculateAsset2 amount pool1 pool2
    require (¬ max2 < amount2) "caculate_asset2_amount > max_add_asset2_amount"
    pure amount2
  else pure max2

/-- The tokens for `amount` of the first asset. -/
def mintedToken (amount pool1 pool2 supply : Int64) : Except String Int64 :=
  if pool1 = 0 ∧ pool2 = 0 ∧ supply = 0 then pure (amount * 1000)
  else if pool1 ≠ 0 ∧ pool2 ≠ 0 ∧ supply ≠ 0 then do
    let product ← SafeNumber.multiply (← SafeNumber.createInt amount)
      (← SafeNumber.createInt supply)
    SafeNumber.toInt64 (← SafeNumber.div product (← SafeNumber.createInt pool1))
  else .error "internal error, asset_1_pool_amount,asset_2_pool_amount,supply not unified 0"

/-- `addLiquidity_api`, with the amounts of both assets and of tokens. -/
def addLiquidity (numerals : Numerals) (head : UInt64) (caller : Address) (arg : Text)
    (o : Overlay) : Except String ((Int64 × Int64 × Int64) × Overlay) := do
  checkCommon o
  let format :=
    "argument format error, need format: add_asset1_amount,max_add_asset2_amount,expired_blocknum"
  match splitArgs arg with
  | [amount1, max2, expired] =>
    require (numerals.isIntegral amount1 ∧ numerals.isIntegral max2 ∧ numerals.isIntegral expired)
      format
    let amount1 ← stoll amount1
    let max2 ← stoll max2
    let expired ← stoll expired
    require (0 < amount1 ∧ 0 < max2)
      "argument format error, add_asset_amount to add liquidity must be positive integer"
    checkExpired head expired
    require (¬ amount1 < (← o.getInt (text "min_asset1_amount")))
      "add_asset1_amount must >= min_asset1_amount"
    require (¬ max2 < (← o.getInt (text "min_asset2_amount")))
      "max_add_asset2_amount must >= min_asset2_amount"
    let pool1 ← o.getInt (text "asset_1_pool_amount")
    let pool2 ← o.getInt (text "asset_2_pool_amount")
    let amount2 ← addedAsset2 amount1 max2 pool1 pool2
    let asset1 ← o.getString (text "asset_1_symbol")
    let asset2 ← o.getString (text "asset_2_symbol")
    let entry1 ← o.entry caller asset1
    require entry1.isInteger "no balance of asset1"
    let entry2 ← o.entry caller asset2
    require entry2.isInteger "no balance of asset2"
    let balance1 ← entry1.forceAsInt
    let balance2 ← entry2.forceAsInt
    require (¬ (balance1 < amount1 ∨ balance2 < amount2)) "not enough balance"
    let o ← o.setEntry caller asset1 (.int (balance1 - amount1))
    let o ← o.setEntry caller asset2 (.int (balance2 - amount2))
    let supply ← o.getInt (text "supply")
    let token ← mintedToken amount1 pool1 pool2 supply
    require (0 < token) "get token_amount is 0"
    require (¬ maxAssetAmount < pool1 + amount1) "EXCEED MAX ASSET AMOUNT"
    let o ← o.setAll
      [(text "asset_1_pool_amount", .int (pool1 + amount1)),
        (text "asset_2_pool_amount", .int (pool2 + amount2)),
        (text "supply", .int (supply + token))]
    let balance ← Token.balanceOf o caller
    let o ← o.fastMapSet "users" caller (.int (balance + token))
    pure ((amount1, amount2, token), o)
  | _ => .error format

/-- The amounts of both assets for `token` tokens. -/
def removedAmounts (token pool1 pool2 supply : Int64) : Except String (Int64 × Int64) :=
  if supply = token then pure (pool1, pool2)
  else do
    let quota ← SafeNumber.div (← SafeNumber.createInt token) (← SafeNumber.createInt supply)
    let amount1 ← SafeNumber.toInt64 (← SafeNumber.multiply quota (← SafeNumber.createInt pool1))
    let amount2 ← SafeNumber.toInt64 (← SafeNumber.multiply quota (← SafeNumber.createInt pool2))
    pure (amount1, amount2)

/-- The balances of both assets that are added to. The balance of the second asset is taken from the
entry of the first one. -/
def origBalances (entry1 entry2 : CborObject) : Except String (Int64 × Int64) := do
  let balance1 ← if entry1.isInteger then entry1.forceAsInt else pure 0
  let balance2 ← if entry2.isInteger then entry1.forceAsInt else pure 0
  pure (balance1, balance2)

/-- `removeLiquidity_api`, with the amounts of both assets and of tokens. -/
def removeLiquidity (numerals : Numerals) (head : UInt64) (caller : Address) (arg : Text)
    (o : Overlay) : Except String ((Int64 × Int64 × Int64) × Overlay) := do
  checkCommon o
  let format := "argument format error, need format: destory_token_amount," ++
    "min_remove_asset1_amount,min_remove_asset2_amount,expired_blocknum"
  match splitArgs arg with
  | [token, min1, min2, expired] =>
    require (numerals.isIntegral min1 ∧ numerals.isIntegral min2 ∧ numerals.isIntegral token ∧
      numerals.isIntegral expired) format
    let token ← stoll token
    let min1 ← stoll min1
    let min2 ← stoll min2
    let expired ← stoll expired
    require (0 ≤ min1 ∧ 0 ≤ min2 ∧ 0 < token)
      "argument format error, input args must be positive integers"
    checkExpired head expired
    let balance ← Token.balanceOf o caller
    require (¬ balance < token) "you have not enough liquidity to remove"
    let pool1 ← o.getInt (text "asset_1_pool_amount")
    let pool2 ← o.getInt (text "asset_2_pool_amount")
    let supply ← o.getInt (text "supply")
    require (0 < pool1 ∧ 0 < supply ∧ 0 < pool2) "pool is empty"
    require (¬ (pool1 < min1 ∨ pool2 < min2)) "wrong remove_asset_amount"
    let (amount1, amount2) ← removedAmounts token pool1 pool2 supply
    require (¬ amount1 < min1) "caculate_asset1_amount < min_remove_asset1_amount"
    require (¬ amount2 < min2) "caculate_asset2_amount < min_remove_asset2_amount"
    let asset1 ← o.getString (text "asset_1_symbol")
    let asset2 ← o.getString (text "asset_2_symbol")
    let (balance1, balance2) ← origBalances (← o.entry caller asset1) (← o.entry caller asset2)
    let o ← o.setEntry caller asset1 (.int (balance1 + amount1))
    let o ← o.setEntry caller asset2 (.int (balance2 + amount2))
    require ((pool1 - amount1 = 0 ∧ pool2 - amount2 = 0 ∧ supply - token = 0) ∨
      (pool1 - amount1 ≠ 0 ∧ pool2 - amount2 ≠ 0 ∧ supply - token ≠ 0))
      "internal error, pool 0 when supply is not 0"
    let o ← o.setAll
      [(text "asset_1_pool_amount", .int (pool1 - amount1)),
        (text "asset_2_pool_amount", .int (pool2 - amount2)),
        (text "supply", .int (supply - token))]
    let o ← o.fastMapSet "users" caller (.int (balance - token))
    pure ((amount1, amount2, token), o)
  | _ => .error format

/-! ### Swaps -/

/-- `getInputPrice`. -/
def getInputPrice (inputAmount inputReserve outputReserve : Int64) : Except String Int64 := do
  let a ← SafeNumber.createInt inputReserve
  let b ← SafeNumber.createInt outputReserve
  let x ← SafeNumber.createInt inputAmount
  let n ← SafeNumber.multiply x b
  SafeNumber.toInt64 (← SafeNumber.div n (← SafeNumber.add a x))

/-- The fee of a swap, which is rounded up and at least one. -/
def swapFee (amount : Int64) (feeRate : Text) : Except String Int64 := do
  let temp ← SafeNumber.multiply (← SafeNumber.createInt amount)
    (← SafeNumber.createString feeRate)
  let fee ← SafeNumber.toInt64 temp
  let fee := if SafeNumber.ne (← SafeNumber.createInt fee) temp then fee + 1 else fee
  pure (if fee ≤ 0 then 1 else fee)

/-- What is bought out of a pool, which has to be at least what is wanted. -/
def buy (input want inputReserve outputReserve : Int64) : Except String Int64 := do
  require (¬ outputReserve ≤ want) "pool amount not enough"
  let amount ← getInputPrice input inputReserve outputReserve
  require (0 < amount) "get_asset_amount <= 0"
  require (¬ amount < want) "can't get what you want amount"
  pure amount

/-- The branch of `on_deposit_asset_api` for an exchange, with the asset and the amount that are
paid out. The transfer out of the contract is made by the chain, which may refuse it. -/
def swap (numerals : Numerals) (head : UInt64) (pays : Bool) (amount : Int64)
    (symbol param : Text) (o : Overlay) : Except String ((Text × Int64) × Overlay) := do
  let asset1 ← o.getString (text "asset_1_symbol")
  let asset2 ← o.getString (text "asset_2_symbol")
  let format := "argument format error, need format: want_buy_asset_symbol," ++
    "min_want_buy_asset_amount,expired_blocknum"
  match splitArgs param with
  | [wantSymbol, want, expired] =>
    require (numerals.isIntegral want ∧ numerals.isIntegral expired) format
    let want ← stoll want
    let expired ← stoll expired
    require (0 < want) "want_buy_asset_amount must > 0"
    checkExpired head expired
    require (wantSymbol = asset1 ∨ wantSymbol = asset2) "not support buy asset"
    require (symbol = asset1 ∨ symbol = asset2) "not support sell asset"
    require (wantSymbol ≠ symbol) "deposit asset and want_buy_asset_symbol is same"
    let pool1 ← o.getInt (text "asset_1_pool_amount")
    let pool2 ← o.getInt (text "asset_2_pool_amount")
    require (0 < pool1 ∧ 0 < pool2) "pool is empty"
    let fee ← swapFee amount (← o.getString (text "fee_rate"))
    require (¬ amount ≤ fee) "can't get any"
    let (get, pool1, pool2) ← if symbol = asset1 then do
        let get ← buy (amount - fee) want pool1 pool2
        pure (get, pool1 + amount, pool2 - get)
      else do
        let get ← buy (amount - fee) want pool2 pool1
        pure (get, pool1 - get, pool2 + amount)
    require (0 < pool1 ∧ 0 < pool2) "caculate internal error"
    let o ← o.setAll
      [(text "asset_1_pool_amount", .int pool1), (text "asset_2_pool_amount", .int pool2)]
    require pays "the transfer is refused"
    pure ((wantSymbol, get), o)
  | _ => .error format

/-! ### Calls -/

/-- What an accepted call did besides changing the storage. -/
inductive Receipt where
  | none
  | added (amount1 amount2 token : Int64)
  | removed (amount1 amount2 token : Int64)
  | deposited (symbol : Text) (amount : Int64)
  | swapped (symbol : Text) (amount : Int64) (wantSymbol : Text) (get : Int64)
  | withdrawn (symbol : Text) (amount : Int64)

/-- `on_deposit_asset_api`: a deposit if there is no parameter, and an exchange otherwise. -/
def onDepositAsset (numerals : Numerals) (head : UInt64) (pays : Bool) (caller : Address)
    (amount : Int64) (symbol param : Text) (o : Overlay) : Except String (Receipt × Overlay) := do
  checkCommon o
  require (0 < amount) "amount must > 0"
  let asset1 ← o.getString (text "asset_1_symbol")
  let asset2 ← o.getString (text "asset_2_symbol")
  require (symbol = asset1 ∨ symbol = asset2) "not allowed deposit asset"
  if param = [] then do
    pure (.deposited symbol amount, ← o.credit caller symbol amount)
  else do
    let ((wantSymbol, get), o) ← swap numerals head pays amount symbol param o
    pure (.swapped symbol amount wantSymbol get, o)

/-- The apis that change the storage and can be called after the registration. -/
inductive Api where
  | initConfig (arg : Text)
  | setMinAddAmount (arg : Text)
  | addLiquidity (arg : Text)
  | removeLiquidity (arg : Text)
  | onDepositAsset (amount : Int64) (symbol param : Text)
  | withdraw (arg : Text)
  | transfer (arg : Text)
  | approve (arg : Text)
  | transferFrom (arg : Text)

/-- A call, with the number of the last block and with whether the chain makes a transfer out of the
contract. -/
structure Invocation where
  api : Api
  caller : Address
  head : UInt64
  pays : Bool

/-- The api of a call. -/
def execute (numerals : Numerals) (call : Invocation) (o : Overlay) :
    Except String (Receipt × Overlay) :=
  match call.api with
  | .initConfig arg => do pure (.none, ← initConfig numerals call.caller arg o)
  | .setMinAddAmount arg => do pure (.none, ← setMinAddAmount numerals call.caller arg o)
  | .addLiquidity arg => do
    let ((amount1, amount2, token), o) ← addLiquidity numerals call.head call.caller arg o
    pure (.added amount1 amount2 token, o)
  | .removeLiquidity arg => do
    let ((amount1, amount2, token), o) ← removeLiquidity numerals call.head call.caller arg o
    pure (.removed amount1 amount2 token, o)
  | .onDepositAsset amount symbol param =>
    onDepositAsset numerals call.head call.pays call.caller amount symbol param o
  | .withdraw arg => do
    checkCommon o
    let ((symbol, amount), o) ← Native.withdraw numerals call.pays call.caller arg o
    pure (.withdrawn symbol amount, o)
  | .transfer arg => do pure (.none, ← Token.transfer numerals call.caller arg o)
  | .approve arg => do pure (.none, ← Token.approve numerals call.caller arg o)
  | .transferFrom arg => do pure (.none, ← Token.transferFrom numerals call.caller arg o)

/-- `invoke`. -/
def invoke (numerals : Numerals) (call : Invocation) (s : Storage) :
    Except String (Receipt × Storage) := do
  let (receipt, o) ← execute numerals call s.view
  pure (receipt, o.current)

/-- An accepted call, with the storages before and after it. -/
structure Step where
  before : Storage
  call : Invocation
  receipt : Receipt
  after : Storage

/-- The storages that a contract reaches after its registration by accepted calls that all meet a
condition, with these calls, the last one first. -/
inductive Runs (numerals : Numerals) (Meets : Step → Prop) : Storage → List Step → Prop
  | init {caller : Address} {s : Storage} (h : perform (init caller) .empty = .ok s) :
    Runs numerals Meets s []
  | call {s s' : Storage} {steps : List Step} {call : Invocation} {receipt : Receipt}
    (h : Runs numerals Meets s steps) (hcall : invoke numerals call s = .ok (receipt, s'))
    (hmeets : Meets ⟨s, call, receipt, s'⟩) :
    Runs numerals Meets s' (⟨s, call, receipt, s'⟩ :: steps)

end Uniswap

end Whitecoin.Native
