import Whitecoin.Native.Args
import Whitecoin.Native.Storage

/-!
# The native token contract

`token_native_contract`. The contract is initialised in two steps: `init` at its registration, and
`init_token` by its admin, which gives the whole supply to the admin. Balances are kept in the fast
map `users`, where a balance of zero is null, and allowances in the fast map `allowed`, one map from
spenders to amounts for every owner.

The apis that only read are left out, and so are the events.
-/

namespace Whitecoin.Native

open Check Cbor

namespace Token

def notInited : Text := text "NOT_INITED"

def common : Text := text "COMMON"

/-- `init_api`. -/
def init (caller : Text) (o : Overlay) : Except String Overlay := do
  let o ← o.setAll
    [(text "name", .string []),
      (text "symbol", .string []),
      (text "supply", .int 0),
      (text "precision", .int 0),
      (text "state", .string notInited)]
  require (caller ≠ []) "caller_address can't be empty"
  o.set (text "admin") (.string caller)

/-- `check_admin`. -/
def checkAdmin (caller : Text) (o : Overlay) : Except String Unit := do
  let admin ← o.getString (text "admin")
  require (admin = caller) "only admin can call this api"

/-- `get_balance_of_user`. -/
def balanceOf (o : Overlay) (owner : Text) : Except String Int64 := do
  let balance ← o.fastMapGet "users" owner
  if balance.isInteger then balance.forceAsInt else pure 0

/-- `get_allowed_of_user`. -/
def allowedOf (o : Overlay) (owner : Text) : Except String (List (Text × CborObject)) := do
  let allowed ← o.fastMapGet "allowed" owner
  pure allowed.asMap

def allowedPrecisions : List Int64 :=
  [1, 10, 100, 1000, 10000, 100000, 1000000, 10000000, 100000000]

/-- `init_token_api`. -/
def initToken (numerals : Numerals) (caller arg : Text) (o : Overlay) : Except String Overlay := do
  checkAdmin caller o
  let state ← o.getString (text "state")
  require (state = notInited) "this token contract inited before"
  let format := "argument format error, need format: name,symbol,supply,precision"
  match splitArgs arg with
  | name :: symbol :: supply :: precision :: _ =>
    let name := trim name
    let symbol := trim symbol
    require (name ≠ [] ∧ symbol ≠ []) format
    let supply ← numerals.positive supply format
      "argument format error, supply must be positive integer"
    let precision ← numerals.positive precision format
      "argument format error, precision must be positive integer"
    require (precision ∈ allowedPrecisions) "argument format error, precision must be any one of"
    let o ← o.setAll
      [(text "state", .string common),
        (text "precision", .int precision),
        (text "supply", .int supply),
        (text "name", .string name),
        (text "symbol", .string symbol)]
    o.fastMapSet "users" caller (.int supply)
  | _ => .error format

/-- The balances after a transfer, as `transfer_api` and `transfer_from_api` write them. -/
def moveBalance (fromAddress toAddress : Text) (amount : Int64) (o : Overlay) :
    Except String Overlay := do
  let remain := (← balanceOf o fromAddress) - amount
  let o ← o.fastMapSet "users" fromAddress (if 0 < remain then .int remain else .null)
  let toAmount ← balanceOf o toAddress
  o.fastMapSet "users" toAddress (.int (toAmount + amount))

/-- `transfer_api`. -/
def transfer (numerals : Numerals) (caller arg : Text) (o : Overlay) : Except String Overlay := do
  let state ← o.getString (text "state")
  require (state = common) "this token contract state doesn't allow transfer"
  match splitArgs arg with
  | toAddress :: amount :: _ =>
    let message := "argument format error, amount must be positive integer"
    let amount ← numerals.positive (trim amount) message message
    let balance ← balanceOf o caller
    require (¬ balance < amount) "you have not enoungh amount to transfer out"
    moveBalance caller (trim toAddress) amount o
  | _ => .error "argument format error, need format: toAddress,amount(with precision, integer)"

/-- `approve_api`. -/
def approve (numerals : Numerals) (caller arg : Text) (o : Overlay) : Except String Overlay := do
  let state ← o.getString (text "state")
  require (state = common) "this token contract state doesn't allow approve"
  match splitArgs arg with
  | spender :: amount :: _ =>
    let message := "argument format error, amount must be positive integer"
    let amount ← numerals.positive (trim amount) message message
    let allowed ← allowedOf o caller
    let allowed := OrdMap.set allowed (trim spender) (.int amount)
    require (allowed.length ≤ 1000) "you approved to too many users"
    o.fastMapSet "allowed" caller (.map allowed)
  | _ => .error "argument format error, need format: spenderAddress, amount(with precision, integer)"

/-- The allowances of an owner after one of them was used. -/
def spend (allowed : List (Text × CborObject)) (spender : Text) (rest : Int64) :
    List (Text × CborObject) :=
  if rest = 0 then OrdMap.erase allowed spender else OrdMap.set allowed spender (.int rest)

/-- `transfer_from_api`. -/
def transferFrom (numerals : Numerals) (caller arg : Text) (o : Overlay) :
    Except String Overlay := do
  let state ← o.getString (text "state")
  require (state = common) "this token contract state doesn't allow transferFrom"
  match splitArgs arg with
  | fromAddress :: toAddress :: amount :: _ =>
    let fromAddress := trim fromAddress
    let message := "argument format error, amount must be positive integer"
    let amount ← numerals.positive (trim amount) message message
    let balance ← balanceOf o fromAddress
    require (¬ balance < amount) "fromAddress not have enough token to withdraw"
    let allowed ← allowedOf o fromAddress
    let approved ← found (OrdMap.get? allowed caller) "not enough approved amount to withdraw"
    let approved ← approved.forceAsInt
    require (¬ approved < amount) "not enough approved amount to withdraw"
    let o ← moveBalance fromAddress (trim toAddress) amount o
    o.fastMapSet "allowed" fromAddress (.map (spend allowed caller (approved - amount)))
  | _ => .error "argument format error, need format:fromAddress, toAddress, amount(with precision, integer)"

/-- The apis that change the storage and can be called after the registration. -/
inductive Api where
  | initToken
  | transfer
  | approve
  | transferFrom

structure Invocation where
  api : Api
  caller : Text
  arg : Text

/-- `invoke`. -/
def invoke (numerals : Numerals) (call : Invocation) : Storage → Except String Storage :=
  perform <| match call.api with
    | .initToken => initToken numerals call.caller call.arg
    | .transfer => transfer numerals call.caller call.arg
    | .approve => approve numerals call.caller call.arg
    | .transferFrom => transferFrom numerals call.caller call.arg

/-- Calls one after the other, accepted and rejected ones. -/
def run (numerals : Numerals) (calls : List Invocation) (s : Storage) : Storage :=
  calls.foldl (fun s call => attempted s (invoke numerals call s)) s

/-- The storages that a contract reaches after its registration, by accepted and rejected calls. -/
inductive Reached (numerals : Numerals) : Storage → Prop
  | init {caller : Text} {s : Storage} (h : perform (init caller) .empty = .ok s) :
    Reached numerals s
  | call {s : Storage} (hs : Reached numerals s) (call : Invocation) :
    Reached numerals (attempted s (invoke numerals call s))

end Token

end Whitecoin.Native
