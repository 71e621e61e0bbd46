import Wanchain.Basic.Bytes
import Wanchain.Basic.Config
import Wanchain.Incentive.Subsidy
import Wanchain.Incentive.Allocate
import Wanchain.Incentive.Run
import Wanchain.Lib.Machine
import Wanchain.Lib.KeyedList
import Wanchain.Lib.Storage
import Wanchain.Lib.ExchangeSort
import Wanchain.Lib.CurveGroup
import Wanchain.Lib.Interpolation
import Wanchain.Staking.Types
import Wanchain.Basic.Evm
import Wanchain.Staking.Contract
import Wanchain.Staking.StakeOut
import Wanchain.Staking.Invariant
import Wanchain.Staking.Refund
import Wanchain.Privacy.Ota
import Wanchain.Privacy.Contracts
import Wanchain.Privacy.Transition
import Wanchain.SlotLeader.Dleq
import Wanchain.SlotLeader.Selection
import Wanchain.Rlp.Encode
import Wanchain.Rlp.Decode
import Wanchain.Rlp.Canonical
import Wanchain.SlotLeader.Stage
import Wanchain.RandomBeacon.Shares
import Wanchain.RandomBeacon.Dleq
import Wanchain.RandomBeacon.Contract
import Wanchain.RandomBeacon.Store
import Wanchain.RandomBeacon.Output
import Wanchain.Lib.Search
import Wanchain.EpochLeader.Selection
import Wanchain.Trie.Encoding
import Wanchain.Consensus.Difficulty
import Wanchain.PosControl.WhiteList
import Wanchain.Lib.Heap
import Wanchain.Types.Transaction
import Wanchain.Posdb.Database
import Wanchain.Cfm.BlockConfirm
import Wanchain.Privacy.OtaSet
import Wanchain.Privacy.Hex
import Wanchain.Privacy.RingSign
import Wanchain.Rlp.Array
import Wanchain.SlotLeader.Contract
import Wanchain.SlotLeader.Store
import Wanchain.Lib.WordMap
import Wanchain.Trie.Node
import Wanchain.Trie.Map
import Wanchain.Trie.History
