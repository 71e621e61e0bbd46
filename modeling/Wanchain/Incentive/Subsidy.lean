import Mathlib.Algebra.Order.Floor.Ring
import Mathlib.Data.Rat.Floor
import Wanchain.Basic.Bytes
import Wanchain.Basic.Config

/-!
# Epoch subsidy and the remain pool

`pos/incentive/common.go`, `subsidy.go` and `remain.go`. The foundation subsidy of an epoch is
the first-year reward, reduced by 12% per year counted from `FirstEpochId`, plus one
`subsidyReductionInterval`-th of the remain pool of the previous year. Every run of the
incentive adds what it could not pay out to the remain pool of the following year.

The writer, `addRemainIncentivePool`, names the pool of the year after an absolute epoch
(`epochID / interval + 1`), while the reader, `getBaseSubsidyTotalForEpoch`, names the pool
of the year counted from `FirstEpochId` (`(epochID - FirstEpochId) / interval`). The two agree
when `FirstEpochId = 0`, the setting of the package's own test, and not in general.

Floating-point values of the source (`percent`, `math.Pow(0.88, n)`) are exact rationals here.
-/

namespace Wanchain.Incentive

/-- Storage of the incentive precompiled contract: each slot is named by the preimage of its
`Keccak256` key; an absent slot reads as the empty byte string. -/
abbrev Storage := Bytes → Bytes

/-- `round`: half-up rounding `⌊x + 0.5⌋`. -/
def round (x : ℚ) : ℤ := ⌊x + 1 / 2⌋

/-- `calcPercent(total, percent)`: `total · round(percent · 10⁷) / round(100 · 10⁷)`, with the
Euclidean division of `big.Int`. -/
def calcPercent (total : ℤ) (percent : ℚ) : ℤ :=
  total * round (percent * 10000000) / round (100 * 10000000)

@[simp] lemma round_hundred_scale : round (100 * 10000000) = 1000000000 := by
  simp [round]; norm_num

/-- `subsidyReductionInterval`: epochs in one year, `(365·24·3600) / (SlotTime · SlotCount)`. -/
def subsidyReductionInterval : UInt64 :=
  UInt64.ofNat ((365 * 24 * 3600 * 1) / (slotTime * slotCount))

@[simp] lemma subsidyReductionInterval_eq : subsidyReductionInterval = 365 := by decide

/-- `firstPeriodReward`: 2,500,000 WAN in wei. -/
def firstPeriodReward : ℤ := 2500000 * 10 ^ 18

/-- `dictRemainPool`, the tag appended to the key of a remain pool. -/
def dictRemainPool : Bytes := "remain_pool".toUTF8.toList

/-- Preimage of `Keccak256Hash(convert.Uint64ToBytes(period), []byte(dictRemainPool))`, the
slot of the remain pool of year `period`. -/
def remainPoolKey (period : UInt64) : Bytes := uint64ToBytes period ++ dictRemainPool

lemma remainPoolKey_inj {p q : UInt64} : remainPoolKey p = remainPoolKey q ↔ p = q := by
  simp [remainPoolKey, uint64ToBytes_inj]

/-- `getRemainIncentivePool(stateDb, epochID)`: the pool of year `epochID / interval`. -/
def getRemainIncentivePool (s : Storage) (epochID : UInt64) : ℕ :=
  setBytes (s (remainPoolKey (epochID / subsidyReductionInterval)))

/-- `addRemainIncentivePool(stateDb, epochID, remainValue)`: reads the pool at
`epochID + interval`, adds the remainder and writes the result, by `Bytes()` and so without
its sign, into the pool of year `epochID / interval + 1`. -/
def addRemainIncentivePool (s : Storage) (epochID : UInt64) (remainValue : ℤ) : Storage :=
  let now := (getRemainIncentivePool s (epochID + subsidyReductionInterval) : ℤ) + remainValue
  Function.update s (remainPoolKey (epochID / subsidyReductionInterval + 1))
    (bigBytes now.natAbs)

/-- `calcBaseSubsidy(baseValue)`: one epoch's share of a yearly amount. -/
def calcBaseSubsidy (baseValue : ℤ) : ℤ := baseValue / (subsidyReductionInterval.toNat : ℤ)

/-- `getBaseSubsidyTotalForEpoch(stateDb, epochID)` with `posconfig.FirstEpochId`. -/
def getBaseSubsidyTotalForEpoch (firstEpochId : UInt64) (s : Storage) (epochID : UInt64) : ℤ :=
  if epochID < firstEpochId then 0
  else
    let epochIDOffset := epochID - firstEpochId
    let baseSubsidy := calcBaseSubsidy firstPeriodReward
    let redutionRateNow : ℚ := (88 / 100) ^ (epochIDOffset / subsidyReductionInterval).toNat
    let baseSubsidyReduction := calcPercent baseSubsidy (redutionRateNow * 100)
    -- from the second year on, the remain pool of the previous year is shared out
    if epochIDOffset / subsidyReductionInterval ≥ 1 then
      baseSubsidyReduction + calcBaseSubsidy (getRemainIncentivePool s epochIDOffset)
    else baseSubsidyReduction

/-! ### Where a remainder goes -/

/-- The slot read by `getBaseSubsidyTotalForEpoch` at `epochID`. -/
lemma getBaseSubsidyTotalForEpoch_reads (firstEpochId : UInt64) {s s' : Storage}
    {epochID : UInt64}
    (h : s (remainPoolKey ((epochID - firstEpochId) / subsidyReductionInterval)) =
      s' (remainPoolKey ((epochID - firstEpochId) / subsidyReductionInterval))) :
    getBaseSubsidyTotalForEpoch firstEpochId s epochID =
      getBaseSubsidyTotalForEpoch firstEpochId s' epochID := by
  simp only [getBaseSubsidyTotalForEpoch, getRemainIncentivePool, h]

/-- `addRemainIncentivePool` at `epochID` writes the pool of absolute year
`epochID / interval + 1` and no other slot. -/
lemma addRemainIncentivePool_apply_ne (s : Storage) (epochID : UInt64) (r : ℤ) {k : Bytes}
    (hk : k ≠ remainPoolKey (epochID / subsidyReductionInterval + 1)) :
    addRemainIncentivePool s epochID r k = s k :=
  Function.update_of_ne hk _ s

/-- The reader at `epochID'` sees the remainder written at `epochID` only when the year of
`epochID'` counted from `FirstEpochId` is the absolute year after `epochID`. -/
theorem getBaseSubsidyTotalForEpoch_addRemain_of_ne (firstEpochId epochID epochID' : UInt64)
    (s : Storage) (r : ℤ)
    (hne : (epochID' - firstEpochId) / subsidyReductionInterval ≠
      epochID / subsidyReductionInterval + 1) :
    getBaseSubsidyTotalForEpoch firstEpochId (addRemainIncentivePool s epochID r) epochID' =
      getBaseSubsidyTotalForEpoch firstEpochId s epochID' := by
  apply getBaseSubsidyTotalForEpoch_reads
  exact addRemainIncentivePool_apply_ne s epochID r (mt remainPoolKey_inj.mp hne)

/-- With `FirstEpochId = 1`, the remainder of the last epoch (365) of the first year is not
seen by epoch 366, the first epoch of the next year counted from `FirstEpochId`: whatever
the remainder, that epoch's subsidy is the same as without it. -/
theorem remainPool_skips_next_period (s : Storage) (r : ℤ) :
    getBaseSubsidyTotalForEpoch 1 (addRemainIncentivePool s 365 r) 366 =
      getBaseSubsidyTotalForEpoch 1 s 366 :=
  getBaseSubsidyTotalForEpoch_addRemain_of_ne 1 365 366 s r (by decide)

end Wanchain.Incentive
