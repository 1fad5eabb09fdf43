import Whitecoin.Fees.Asset
import Whitecoin.Lib.Journal

/-!
# The objects of mining

An account can lock balances in favour of a miner. A lock is an object of its own, one for each
miner, account and asset. Besides, every miner has a table of the totals that are locked in its
favour, by the symbol of the asset, from which its weight is computed at the beginning of a round.
The prices and the locks that count for a round are kept apart from the current ones.
-/

namespace Whitecoin.Mining

open Ledger Fees

abbrev MinerId := ℕ

abbrev AccountId := ℕ

/-- `miner_object`. -/
structure MinerObject where
  minerAccount : AccountId
  totalProduced : ℕ
  lockbalanceTotal : AList fun _ : String => Asset
  /-- A 128-bit integer. -/
  pledgeWeight : ℕ
  participationRate : ℕ

/-- What locks are found by. -/
structure LockKey where
  locktoMinerAccount : MinerId
  lockBalanceAccount : AccountId
  lockAssetId : AssetId
  deriving DecidableEq

/-- `lockbalance_object`. -/
structure LockbalanceObject where
  key : LockKey
  /-- No code writes it: it is the empty address. -/
  lockBalanceContractAddr : Address
  lockAssetAmount : ℤ

/-- The prices of an `asset_object`: what was published by whom and when, and their median. -/
structure PriceFeeds where
  feeds : AList fun _ : Address => ℕ × Price
  currentFeed : Price

/-- The objects that locks and rewards are about. -/
structure MiningState where
  accounts : Accounts
  miners : MinerId → MinerObject
  locks : Book LockKey
  /-- `lockbalance_record_object`. -/
  records : Address → AssetId → ℤ
  symbol : AssetId → String
  /-- The symbols are a unique index. -/
  symbol_injective : Function.Injective symbol
  feeds : AssetId → PriceFeeds
  currentShuffledMiners : List MinerId
  currentRoundLockbalanceCache : MinerId → Option (List LockbalanceObject)
  currentPriceFeed : AssetId → Option Price
  /-- `pay_back_object`, by owner and miner; all of them are of the core asset. -/
  payBacks : Book (Address × MinerId)

def MiningState.setMiner (s : MiningState) (m : MinerId) (miner : MinerObject) : MiningState :=
  { s with miners := Function.update s.miners m miner }

/-- A price that was published. -/
def Sensible (p : Price) : Prop := 0 < p.base.amount ∧ 0 < p.quote.amount

/-- All prices are empty or were published. -/
structure Priced (s : MiningState) : Prop where
  published : ∀ a, ∀ e ∈ (s.feeds a).feeds.entries, Sensible e.2.2
  current : ∀ a, (s.feeds a).currentFeed = .null ∨ Sensible (s.feeds a).currentFeed

end Whitecoin.Mining
