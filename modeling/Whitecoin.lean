import Whitecoin.Db.UndoExact
import Whitecoin.Db.UniqueKeys
import Whitecoin.Db.Restart
import Whitecoin.Chain.Irreversible
import Whitecoin.Chain.ForkFile
import Whitecoin.Chain.BranchSearch
import Whitecoin.Chain.BlockFiles
import Whitecoin.Chain.AllOrNothing
import Whitecoin.Chain.HeadAgreement
import Whitecoin.Chain.Governance
import Whitecoin.Chain.MerkleRoot
import Whitecoin.Chain.Transactions
import Whitecoin.Crosschain.Acquired
import Whitecoin.Coldhot.Absorbing
import Whitecoin.Crosschain.Quorum
import Whitecoin.Fees.Filled
import Whitecoin.Contract.EventOrder
import Whitecoin.Contract.Overlay
import Whitecoin.Contract.GasPaid
import Whitecoin.Cbor.DiffExact
import Whitecoin.Native.SimpleUint
import Whitecoin.Native.SafeNumberInt
import Whitecoin.Native.SafeNumberText
import Whitecoin.Native.ExchangeOverdraft
import Whitecoin.Native.ExchangeOrders
import Whitecoin.Native.UniswapBalances
import Whitecoin.Mining.PayMiner
import Whitecoin.Mining.ActiveMiners
import Whitecoin.Mining.Slots
import Whitecoin.Ledger.AmountText
import Whitecoin.Accounts.Authority
