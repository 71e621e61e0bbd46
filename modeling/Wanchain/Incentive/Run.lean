import Wanchain.Incentive.Allocate

/-!
# One run of the incentive

`incentive.Run(chain, stateDb, epochID)`, called from `Pluto.Finalize` once per epoch. The
pool `total` is the foundation subsidy plus the gas collected in the epoch. It is divided
between the three groups by `calcIncentivePercent`; each group's share goes through its
allocator; what is not paid is the remainder, topped up by `getExtraRemain` so that payments
and remainder add up to `total`, and `checkTotalValue` refuses a run whose payments and
remainder exceed `total`.

The three shares are rounded independently, so they can add up to more than `total`. The
difference is then a negative remainder, which lets `checkTotalValue` pass with payments
above `total`.
-/

namespace Wanchain.Incentive

/-- The activity data `Run` reads through the callbacks registered by `setActivityInterface`:
epoch leaders and random proposers with their activity flags, and slot leaders with their
block counts, the activity ratio and the number of slots produced by white-listed nodes, as
`getSlotLeaderActivity` returns them. -/
structure Activity where
  epAddrs : List Address
  epAct : List ℤ
  rpAddrs : List Address
  rpAct : List ℤ
  slLeaders : List (Address × ℤ)
  slAct : ℚ
  ctrlCount : ℤ

/-- The state `Run` reads and writes: the storage of the incentive contract and the account
balances. -/
structure IncentiveState where
  storage : Storage
  balance : Address → ℤ

/-- `dictGasCollection`. -/
def dictGasCollection : Bytes := "gas_collection".toUTF8.toList

/-- `dictEpochRun`. -/
def dictEpochRun : Bytes := "epoch_run".toUTF8.toList

/-- `dictFinished`. -/
def dictFinished : Bytes := "finished".toUTF8.toList

/-- `getEpochGas`: the gas collected in an epoch, under `Uint64ToBytes(epochID) ‖
gas_collection`. -/
def getEpochGas (s : Storage) (epochID : UInt64) : ℤ :=
  setBytes (s (uint64ToBytes epochID ++ dictGasCollection))

/-- `isFinished`: the run flag of an epoch is set. -/
def isFinished (s : Storage) (epochID : UInt64) : Bool :=
  !(s (uint64ToBytes epochID ++ dictEpochRun)).isEmpty

/-- `finished`: sets the run flag of an epoch. -/
def finished (s : Storage) (epochID : UInt64) : Storage :=
  Function.update s (uint64ToBytes epochID ++ dictEpochRun) dictFinished

/-- `calculateIncentivePool`: `(total, foundation, gasPool)`. -/
def calculateIncentivePool (firstEpochId : UInt64) (s : Storage) (epochID : UInt64) :
    ℤ × ℤ × ℤ :=
  let foundation := getBaseSubsidyTotalForEpoch firstEpochId s epochID
  let gasPool := getEpochGas s epochID
  (foundation + gasPool, foundation, gasPool)

/-- `calcIncentivePercent` with `wlLen = WlCount` of the epoch's white-list configuration:
the fractions of the pool for epoch leaders, random proposers and slot leaders. The count of
epoch leaders not on the white list is the `uint64` difference `EpochLeaderCount - wlLen`. -/
def calcIncentivePercent (wlLen : UInt64) : ℚ × ℚ × ℚ :=
  let rnpCnt : ℚ := randomProperCount
  let elCnt : ℚ := ((epochLeaderCount.toUInt64 - wlLen).toNat : ℚ)
  let totalMemberCnt := rnpCnt + elCnt
  (elCnt / 2 / totalMemberCnt, rnpCnt / totalMemberCnt, elCnt / 2 / totalMemberCnt)

/-- `sumToPay`: the total of a list of payments. -/
def sumToPay (readyToPay : List (List ClientIncentive)) : ℤ :=
  ((readyToPay.map fun l => (l.map (·.Incentive)).sum)).sum

/-- `getExtraRemain(total, sumPay, remain)`: what `total` exceeds payments plus remainder by. -/
def getExtraRemain (total sumPay remain : ℤ) : ℤ :=
  if total > sumPay + remain then total - (sumPay + remain) else 0

/-- `checkTotalValue(total, sumPay, remain)`: payments plus remainder do not exceed `total`. -/
def checkTotalValue (total sumPay remain : ℤ) : Bool :=
  !(total < sumPay + remain)

/-- `pay`: credits every payment to its wallet. -/
def pay (incentives : List (List ClientIncentive)) (balance : Address → ℤ) : Address → ℤ :=
  incentives.flatten.foldl
    (fun b c => Function.update b c.WalletAddr (b c.WalletAddr + c.Incentive)) balance

/-- What a successful run decided: the payments and the remainder added to the remain pool. -/
structure RunOutcome where
  finalIncentive : List (List ClientIncentive)
  remainsAll : ℤ

/-- The computation of `Run` from the pool to the check: `none` when an allocator fails or
`checkTotalValue` refuses, which makes `Run` return false. -/
def runAllocation (getStakerInfo : GetStakerInfoFn) (total : ℤ) (wlLen : UInt64)
    (act : Activity) (epochID : UInt64) : Option RunOutcome := do
  let (percentOfEpochLeader, percentOfRandomProposer, percentOfSlotLeader) :=
    calcIncentivePercent wlLen
  let epochLeaderSubsidy := calcPercent total (percentOfEpochLeader * 100)
  let randomProposerSubsidy := calcPercent total (percentOfRandomProposer * 100)
  let slotLeaderSubsidy := calcPercent total (percentOfSlotLeader * 100)
  let sumRemain := total - (epochLeaderSubsidy + randomProposerSubsidy + slotLeaderSubsidy)
  let (epIncentives, epRemains) ←
    epochLeaderAllocate getStakerInfo epochLeaderSubsidy act.epAddrs act.epAct epochID
  let (rpIncentives, rpRemains) ←
    randomProposerAllocate getStakerInfo randomProposerSubsidy act.rpAddrs act.rpAct epochID
  let (slIncentives, slRemains) :=
    slotLeaderAllocate getStakerInfo slotLeaderSubsidy act.slLeaders act.slAct
      (slotCount - act.ctrlCount) epochID
  let finalIncentive := epIncentives ++ rpIncentives ++ slIncentives
  let remainsAll := sumRemain + epRemains + rpRemains + slRemains
  let sumPay := sumToPay finalIncentive
  let remainsAll := remainsAll + getExtraRemain total sumPay remainsAll
  if checkTotalValue total sumPay remainsAll then some ⟨finalIncentive, remainsAll⟩ else none

/-- `Run(chain, stateDb, epochID)`: the returned flag and the new state. A finished epoch is
left alone; a refused run returns false (and `Finalize` reverts it); a successful one adds its
remainder to the remain pool, pays, and sets the run flag. -/
def Run (getStakerInfo : GetStakerInfoFn) (firstEpochId : UInt64) (wlLen : UInt64)
    (act : Activity) (s : IncentiveState) (epochID : UInt64) : Bool × IncentiveState :=
  if isFinished s.storage epochID then (true, s)
  else
    let (total, _, _) := calculateIncentivePool firstEpochId s.storage epochID
    match runAllocation getStakerInfo total wlLen act epochID with
    | none => (false, s)
    | some o =>
      (true, ⟨finished (addRemainIncentivePool s.storage epochID o.remainsAll) epochID,
        pay o.finalIncentive s.balance⟩)

/-! ### Payments against the pool -/

/-- Staker information of the counterexample: every validator is its own single staker, with
probability 1 and fee rate 0. -/
def soleStakerInfo : GetStakerInfoFn := fun _ _ => some ⟨1, 0, 0, 0, [⟨0, 0, 1⟩]⟩

/-- Activity of the counterexample: one active epoch leader, one active random proposer, and
one slot leader with one block while white-listed nodes produced the other 17279 slots
(activity 1). -/
def fullActivity : Activity := ⟨[0], [1], [0], [1], [(0, 1)], 1, 17279⟩

/-- Empty incentive storage and zero balances. -/
def emptyIncentiveState : IncentiveState := ⟨fun _ => [], fun _ => 0⟩

/-- With `FirstEpochId = 1`, ten white-listed epoch leaders and every share paid in full, the
run of epoch 3 is accepted and pays 6,849,315,068,492 wei more than the pool: the three
rounded percentages add up to `1000000001 / 10⁹`. -/
theorem run_pays_more_than_pool :
    (Run soleStakerInfo 1 10 fullActivity emptyIncentiveState 3).1 = true ∧
      (Run soleStakerInfo 1 10 fullActivity emptyIncentiveState 3).2.balance 0 =
        (calculateIncentivePool 1 emptyIncentiveState.storage 3).1 + 6849315068492 ∧
      (runAllocation soleStakerInfo (calculateIncentivePool 1 emptyIncentiveState.storage 3).1
        10 fullActivity 3).map (·.remainsAll) = some (-6849315068492) := by
  decide +kernel

end Wanchain.Incentive
