import Wanchain.Basic.Bytes
import Wanchain.Lib.KeyedList

/-!
# Staker records

The storage structures of `core/vm/pos_staking_contracts.go`: a validator's `StakerInfo`
with its delegators (`ClientInfo`) and partners (`PartnerInfo`), and the store of
`StakersInfoAddr`, which keeps one record per validator address.

Records are stored RLP-encoded under `GetStakeInKeyHash(Address)`, the address padded to a
hash; the model keeps the decoded records. Decoding an RLP `big.Int` gives a non-negative
number, so amounts are natural numbers. `StoreInfo` refuses the zero hash, so no record is
stored under the zero address. The store iterates (`GetStakersSnap`) in the order of the
storage trie; the model keeps a fixed list order.
-/

namespace Wanchain

/-- `vm.ClientInfo`: a delegator of a validator. -/
structure ClientInfo where
  Address : Address
  Amount : ℕ
  StakeAmount : ℕ
  QuitEpoch : UInt64
  deriving DecidableEq, Repr

/-- `vm.PartnerInfo`: a partner of a validator, locked for its own epochs. -/
structure PartnerInfo where
  Address : Address
  Amount : ℕ
  StakeAmount : ℕ
  Renewal : Bool
  LockEpochs : UInt64
  StakingEpoch : UInt64
  deriving DecidableEq, Repr

/-- `vm.StakerInfo`: a validator record. -/
structure StakerInfo where
  Address : Address
  PubSec256 : Bytes
  PubBn256 : Bytes
  Amount : ℕ
  StakeAmount : ℕ
  LockEpochs : UInt64
  NextLockEpochs : UInt64
  From : Wanchain.Address
  StakingEpoch : UInt64
  FeeRate : UInt64
  Clients : List ClientInfo
  Partners : List PartnerInfo
  deriving DecidableEq, Repr

/-- `vm.UpdateFeeRate`: the fee-rate record of a validator, under `StakersFeeAddr`. -/
structure UpdateFeeRate where
  ValidatorAddr : Address
  MaxFeeRate : UInt64
  FeeRate : UInt64
  ChangedEpoch : UInt64
  deriving DecidableEq, Repr

namespace StakerInfo

/-- Sum of the delegated amounts. -/
def clientsAmount (s : StakerInfo) : ℕ := (s.Clients.map (·.Amount)).sum

/-- Sum of the partners' amounts. -/
def partnersAmount (s : StakerInfo) : ℕ := (s.Partners.map (·.Amount)).sum

/-- Everything locked in the record: own amount, delegations and partners. -/
def totalAmount (s : StakerInfo) : ℕ := s.Amount + s.clientsAmount + s.partnersAmount

end StakerInfo

/-- The store of `StakersInfoAddr`: the records in storage order, at most one per validator
address, which is also the record's key, and none under the zero address. -/
structure StakerStore where
  records : List StakerInfo
  nodup : KeyedList.NodupKeys StakerInfo.Address records
  ne_zero : ∀ r ∈ records, r.Address ≠ 0

namespace StakerStore

/-- The empty store. -/
def empty : StakerStore := ⟨[], KeyedList.nodupKeys_nil, fun _ h => nomatch h⟩

/-- The record stored under an address (`getStakeInfo` and `GetInfo`). -/
def get (st : StakerStore) (a : Address) : Option StakerInfo :=
  st.records.find? (·.Address = a)

/-- Writes a record under its own address (`StoreInfo` with the record's key), replacing the
one stored there; a new address goes at the end of the iteration order. -/
def save (st : StakerStore) (r : StakerInfo) (hr : r.Address ≠ 0) : StakerStore :=
  ⟨KeyedList.upsert StakerInfo.Address st.records r, st.nodup.upsert r, fun y hy => by
    rcases KeyedList.mem_upsert hy with hy | rfl
    · exact st.ne_zero y hy
    · exact hr⟩

/-- Removes the record of an address (`UpdateInfo` with `nil`). -/
def delete (st : StakerStore) (a : Address) : StakerStore :=
  ⟨st.records.filter (·.Address ≠ a), st.nodup.filter _,
    fun y hy => st.ne_zero y (List.mem_of_mem_filter hy)⟩

lemma get_eq_some {st : StakerStore} {a : Address} {r : StakerInfo} (h : st.get a = some r) :
    r ∈ st.records ∧ r.Address = a :=
  ⟨List.mem_of_find?_eq_some h, by simpa using List.find?_some h⟩

lemma mem_save {st : StakerStore} {r y : StakerInfo} (hr : r.Address ≠ 0)
    (h : y ∈ (st.save r hr).records) : y ∈ st.records ∨ y = r :=
  KeyedList.mem_upsert h

lemma mem_delete {st : StakerStore} {a : Address} {y : StakerInfo}
    (h : y ∈ (st.delete a).records) : y ∈ st.records :=
  List.mem_of_mem_filter h

end StakerStore

end Wanchain
