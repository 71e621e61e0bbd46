import Wanchain.Basic.Evm
import Wanchain.Staking.Types
import Wanchain.Lib.Machine

/-!
# The staking contract

`PosStaking` of `core/vm/pos_staking_contracts.go`, the precompiled contract at
`WanCscPrecompileAddr`: registration of a validator (`stakeIn`, `stakeRegister`), more stake by
its owner (`stakeAppend`), a new lock period (`stakeUpdate`), partners (`partnerIn`),
delegators (`delegateIn`, `delegateOut`) and fee-rate changes (`stakeUpdateFeeRate`).

Every method reads the record of one validator, checks the call against it, and writes the
changed record back under the validator's address; each is modelled as the computation of the
new record (`...Record`), which holds every check of the method, followed by the write. Calls
are the decoded ABI parameters; a payload that does not decode fails without a write, as any
failed call does. Events (`...Log`) write only logs and are not modelled.

Stake amounts are `Amount · big.NewInt(int64(weight))` with the `uint64` weight of
`CalLocktimeWeight`, taken as a natural number: every writer of a lock period bounds it by
`PSMaxEpochNum`, so weights stay far below `2⁶³`.
-/

namespace Wanchain.Staking

open KeyedList

/-! ### Constants -/

/-- `PSMinEpochNum`. -/
def PSMinEpochNum : ℕ := 7
/-- `PSMaxEpochNum`. -/
def PSMaxEpochNum : ℕ := 90
/-- One WAN in wei. -/
def ether : ℕ := 10 ^ 18
/-- `minStakeholderStake`: 10,000 WAN. -/
def minStakeholderStake : ℕ := 10000 * ether
/-- `MinValidatorStake`: 50,000 WAN. -/
def MinValidatorStake : ℕ := 50000 * ether
/-- `minDelegatorStake`: 100 WAN. -/
def minDelegatorStake : ℕ := 100 * ether
/-- `maxTotalStake`: 10,500,000 WAN. -/
def maxTotalStake : ℕ := 10500000 * ether
/-- `PSMaxFeeRate`. -/
def PSMaxFeeRate : ℕ := 10000
/-- `noDelegateFeeRate` (`PSNodeleFeeRate`): the fee rate of a validator that takes no
delegation. -/
def noDelegateFeeRate : ℕ := 10000
/-- `PSFeeRateStep`. -/
def PSFeeRateStep : UInt64 := 100
/-- `minPartnerIn`: 10,000 WAN. -/
def minPartnerIn : ℕ := 10000 * ether
/-- `MaxTimeDelegate`. -/
def MaxTimeDelegate : ℕ := 10
/-- `UpdateDelay`. -/
def UpdateDelay : UInt64 := 3
/-- `QuitDelay`. -/
def QuitDelay : UInt64 := 3
/-- `JoinDelay`. -/
def JoinDelay : UInt64 := 2
/-- `maxPartners`. -/
def maxPartners : ℕ := 5
/-- `posconfig.ApolloEpochID`. -/
def ApolloEpochID : UInt64 := 18104
/-- `posconfig.AugustEpochID`. -/
def AugustEpochID : UInt64 := 18116

/-- `CalLocktimeWeight(lockEpoch)`: `960 + 6·lockEpoch`, and the weight of `PSMinEpochNum`
epochs for a lock of zero (the built-in accounts). -/
def CalLocktimeWeight (lockEpoch : UInt64) : UInt64 :=
  if lockEpoch = 0 then 960 + UInt64.ofNat PSMinEpochNum * 6 else 960 + lockEpoch * 6

/-! ### State, configuration and calls -/

/-- The storage of the staking contract and of the epoch processing: staker records
(`StakersInfoAddr`), fee-rate records (`StakersFeeAddr`) and the bytes of the last processed
stake-out epoch (`StakingCommonAddr`). -/
structure StakingStorage where
  stakers : StakerStore
  fees : Address → Option UpdateFeeRate
  stakeOutEpoch : Bytes

/-- Balances and the staking storage. -/
abbrev StakingWorld := World StakingStorage

/-- The configuration and the cryptography the contract reads: `posconfig.FirstEpochId`,
`VenusEpochId`, the address of a secp256k1 public key (`crypto.ToECDSAPub` then
`PubkeyToAddress`; `none` when the bytes are not a point), and whether a `bn256` G1 point
unmarshals. -/
structure StakingEnv where
  FirstEpochId : UInt64
  VenusEpochId : UInt64
  secAddr : Bytes → Option Address
  bn256Valid : Bytes → Bool

/-- What a method reads of its call: `contract.CallerAddress`, `contract.Value()` and the epoch
of `evm.Time`. -/
structure CallCtx where
  CallerAddress : Address
  Value : ℕ
  eidNow : UInt64

/-- `StakeInParam`, decoded. -/
structure StakeInParam where
  SecPk : Bytes
  Bn256Pk : Bytes
  LockEpochs : ℕ
  FeeRate : ℕ

/-- A call of the contract, by method, with its decoded parameters. -/
inductive StakingCall
  | stakeRegister (info : StakeInParam) (MaxFeeRate : ℕ)
  | stakeIn (info : StakeInParam)
  | stakeUpdate (Addr : Address) (LockEpochs : ℕ)
  | stakeAppend (addr : Address)
  | partnerIn (Addr : Address) (Renewal : Bool)
  | delegateIn (addr : Address)
  | delegateOut (addr : Address)
  | stakeUpdateFeeRate (Addr : Address) (FeeRate : ℕ)

/-! ### Storage access -/

/-- `getStakeInfo`: the record of a validator. -/
def getStakeInfo (w : StakingWorld) (addr : Address) : Except String StakerInfo :=
  match w.storage.stakers.get addr with
  | none => .error "item doesn't exist"
  | some r => .ok r

/-- `saveStakeInfo`: writes a record under its address; `StoreInfo` refuses the zero key. -/
def saveStakeInfo (w : StakingWorld) (r : StakerInfo) : Except String StakingWorld :=
  if h : r.Address = 0 then .error "public key hash is not right"
  else .ok { w with storage := { w.storage with stakers := w.storage.stakers.save r h } }

/-- `getStakeFeeRate`: the fee-rate record of a validator, if any. -/
def getStakeFeeRate (w : StakingWorld) (address : Address) :
    Except String (Option UpdateFeeRate) :=
  if address = 0 then .error "public key hash is not right" else .ok (w.storage.fees address)

/-- `saveStakeFeeRate`. -/
def saveStakeFeeRate (w : StakingWorld) (feeRate : UpdateFeeRate) (address : Address) :
    Except String StakingWorld :=
  if address = 0 then .error "public key hash is not right"
  else .ok { w with storage := { w.storage with
    fees := Function.update w.storage.fees address (some feeRate) } }

/-! ### Parameter checks -/

/-- `doStakeInParseAndValid`: the keys are valid, the lock period is within
`[PSMinEpochNum, PSMaxEpochNum]` and the fee rate at most `PSMaxFeeRate`; the result is the
validator's address. -/
def doStakeInParseAndValid (env : StakingEnv) (info : StakeInParam) : Except String Address :=
  match env.secAddr info.SecPk with
  | none => .error "secPk is invalid"
  | some secAddr =>
    if !env.bn256Valid info.Bn256Pk then .error "wrong point for bn256Pk"
    else if info.LockEpochs < PSMinEpochNum ∨ info.LockEpochs > PSMaxEpochNum then
      .error "invalid lock time"
    else if info.FeeRate > PSMaxFeeRate then .error "fee rate should between 0 to 100"
    else .ok secAddr

/-- `stakeRegisterParseAndValid`. -/
def stakeRegisterParseAndValid (env : StakingEnv) (info : StakeInParam) (MaxFeeRate : ℕ) :
    Except String Address :=
  if MaxFeeRate > PSMaxFeeRate then .error "max fee rate should between 0 to 100"
  else if info.FeeRate > MaxFeeRate then .error "fee rate should le maxFeeRate"
  else if MaxFeeRate = PSMaxFeeRate ∧ info.FeeRate ≠ MaxFeeRate then
    .error "feeRate should be same with maxFeeRate, if maxFeeRate eq 100"
  else doStakeInParseAndValid env info

/-- `stakeUpdateParseAndValid`: a lock period whose `Uint64()` is zero (no renewal) or within
`[PSMinEpochNum, PSMaxEpochNum]`. -/
def stakeUpdateParseAndValid (LockEpochs : ℕ) : Except String Unit :=
  if UInt64.ofNat LockEpochs ≠ 0 ∧ (LockEpochs < PSMinEpochNum ∨ LockEpochs > PSMaxEpochNum) then
    .error "invalid lock time"
  else .ok ()

/-- `updateFeeRateParseAndValid`. -/
def updateFeeRateParseAndValid (FeeRate : ℕ) : Except String Unit :=
  if FeeRate > PSMaxFeeRate then .error "fee rate should between 0 to 10000" else .ok ()

/-! ### The methods -/

/-- `realLockEpoch` of `PartnerIn` and `StakeAppend`: what is left of the validator's lock
when a stake joins now, `int64(LockEpochs - (eidNow + JoinDelay - StakingEpoch))` in `uint64`
arithmetic, or the whole lock for a record that has not started (`StakingEpoch = 0`). -/
def realLockEpoch (s : StakerInfo) (eidNow : UInt64) : Int64 :=
  if s.StakingEpoch = 0 then s.LockEpochs.toInt64
  else (s.LockEpochs - (eidNow + JoinDelay - s.StakingEpoch)).toInt64

/-- The check `realLockEpoch < 0 || realLockEpoch > PSMaxEpochNum` that refuses a join. -/
def wrongLockEpochs (r : Int64) : Bool :=
  r < 0 || r > Int64.ofNat PSMaxEpochNum

/-- The new record of `doStakeIn`. -/
def newStakerInfo (env : StakingEnv) (ctx : CallCtx) (info : StakeInParam) (secAddr : Address) :
    StakerInfo :=
  let weight := CalLocktimeWeight (UInt64.ofNat info.LockEpochs)
  { Address := secAddr
    PubSec256 := info.SecPk
    PubBn256 := info.Bn256Pk
    Amount := ctx.Value
    StakeAmount := ctx.Value * weight.toNat
    LockEpochs := UInt64.ofNat info.LockEpochs
    NextLockEpochs := UInt64.ofNat info.LockEpochs
    From := ctx.CallerAddress
    StakingEpoch := if env.FirstEpochId = 0 then 0 else ctx.eidNow + JoinDelay
    FeeRate := UInt64.ofNat info.FeeRate
    Clients := []
    Partners := [] }

/-- `doStakeIn`: a stake of at least `minStakeholderStake` and at most `maxTotalStake` for an
address that has no record yet creates its record. -/
def doStakeIn (env : StakingEnv) (ctx : CallCtx) (w : StakingWorld) (info : StakeInParam)
    (secAddr : Address) : Except String (StakerInfo × StakingWorld) :=
  if ctx.Value < minStakeholderStake then .error "need more Wan to be a stake holder"
  else if ctx.Value > maxTotalStake then .error "max stake is 10,500,000"
  else if (w.storage.stakers.get secAddr).isSome then .error "public Sec address has exist"
  else
    let stakerInfo := newStakerInfo env ctx info secAddr
    (saveStakeInfo w stakerInfo).map fun w => (stakerInfo, w)

/-- `StakeIn`. -/
def StakeIn (env : StakingEnv) (ctx : CallCtx) (w : StakingWorld) (info : StakeInParam) :
    Except String StakingWorld := do
  let secAddr ← doStakeInParseAndValid env info
  let (_, w) ← doStakeIn env ctx w info secAddr
  pure w

/-- `StakeRegister`: `doStakeIn`, then the fee-rate record with the declared maximum. -/
def StakeRegister (env : StakingEnv) (ctx : CallCtx) (w : StakingWorld) (info : StakeInParam)
    (MaxFeeRate : ℕ) : Except String StakingWorld := do
  let secAddr ← stakeRegisterParseAndValid env info MaxFeeRate
  let (stakerInfo, w) ← doStakeIn env ctx w info secAddr
  let feeUpdate : UpdateFeeRate :=
    ⟨stakerInfo.Address, UInt64.ofNat MaxFeeRate, stakerInfo.FeeRate, 0⟩
  saveStakeFeeRate w feeUpdate stakerInfo.Address

/-- The record `StakeUpdate` writes: the next lock period, set by the owner before the last
`UpdateDelay` epochs of the lock. -/
def stakeUpdateRecord (ctx : CallCtx) (stakerInfo : StakerInfo) (LockEpochs : ℕ) :
    Except String StakerInfo :=
  if ctx.CallerAddress ≠ stakerInfo.From then .error "Cannot update from another account"
  else if ctx.eidNow > stakerInfo.StakingEpoch + stakerInfo.LockEpochs - UpdateDelay then
    .error "cannot change at the last 3 epoch."
  else .ok { stakerInfo with NextLockEpochs := UInt64.ofNat LockEpochs }

/-- `StakeUpdate`. -/
def StakeUpdate (ctx : CallCtx) (w : StakingWorld) (Addr : Address) (LockEpochs : ℕ) :
    Except String StakingWorld := do
  stakeUpdateParseAndValid LockEpochs
  let stakerInfo ← getStakeInfo w Addr
  let stakerInfo ← stakeUpdateRecord ctx stakerInfo LockEpochs
  saveStakeInfo w stakerInfo

/-- What `PartnerIn` adds to an existing partner of the caller's address. -/
def partnerAdd (value weight : ℕ) (Renewal : Bool) (p : PartnerInfo) : PartnerInfo :=
  { p with Amount := p.Amount + value, StakeAmount := p.StakeAmount + value * weight,
           Renewal := Renewal }

/-- The record `PartnerIn` writes. The loop over the partners adds every partner's amount to
the total (before the caller's own is increased) and increases the amount of the caller's
partner entries; without one, a new partner is appended if there is room. -/
def partnerInRecord (env : StakingEnv) (ctx : CallCtx) (stakerInfo : StakerInfo)
    (Renewal : Bool) : Except String StakerInfo :=
  if ApolloEpochID ≤ ctx.eidNow ∧ ctx.eidNow < AugustEpochID ∧ ctx.Value < minPartnerIn then
    .error "min wan amount should >= 10000"
  else
    let realLockEpoch := realLockEpoch stakerInfo ctx.eidNow
    if wrongLockEpochs realLockEpoch then .error "Wrong lock Epochs"
    else
      let weight := (CalLocktimeWeight realLockEpoch.toUInt64).toNat
      let total := stakerInfo.Amount + stakerInfo.clientsAmount + ctx.Value +
        stakerInfo.partnersAmount
      let found := stakerInfo.Partners.any (·.Address = ctx.CallerAddress)
      if total > maxTotalStake then .error "partner in failed, too much stake"
      else if found then
        let partners := modifyKey PartnerInfo.Address ctx.CallerAddress
          (partnerAdd ctx.Value weight Renewal) stakerInfo.Partners
        .ok { stakerInfo with Partners := partners }
      else if stakerInfo.Partners.length ≥ maxPartners then .error "Too many partners"
      else if ApolloEpochID ≤ ctx.eidNow ∧ ctx.Value < minPartnerIn then
        .error "min wan amount should >= 10000"
      else
        let partner : PartnerInfo :=
          { Address := ctx.CallerAddress
            Amount := ctx.Value
            StakeAmount := ctx.Value * weight
            Renewal := Renewal
            LockEpochs := realLockEpoch.toUInt64
            StakingEpoch := if env.FirstEpochId = 0 then 0 else ctx.eidNow + JoinDelay }
        .ok { stakerInfo with Partners := stakerInfo.Partners ++ [partner] }

/-- `PartnerIn`. -/
def PartnerIn (env : StakingEnv) (ctx : CallCtx) (w : StakingWorld) (Addr : Address)
    (Renewal : Bool) : Except String StakingWorld := do
  let stakerInfo ← getStakeInfo w Addr
  let stakerInfo ← partnerInRecord env ctx stakerInfo Renewal
  saveStakeInfo w stakerInfo

/-- The record `StakeAppend` writes: the owner's amount increased by the value, refused when
the record's whole stake then exceeds `maxTotalStake`. Before `VenusEpochId` the stake amount
is recomputed from the whole amount, afterwards only the value is weighted. -/
def stakeAppendRecord (env : StakingEnv) (ctx : CallCtx) (stakerInfo : StakerInfo) :
    Except String StakerInfo :=
  if ctx.CallerAddress ≠ stakerInfo.From then .error "Cannot append from another account"
  else
    let stakerInfo := { stakerInfo with Amount := stakerInfo.Amount + ctx.Value }
    let realLockEpoch := realLockEpoch stakerInfo ctx.eidNow
    if wrongLockEpochs realLockEpoch then .error "Wrong lock Epochs"
    else if stakerInfo.totalAmount > maxTotalStake then
      .error "StakeAppend in failed, too much stake"
    else
      let weight := (CalLocktimeWeight realLockEpoch.toUInt64).toNat
      if ctx.eidNow < env.VenusEpochId then
        .ok { stakerInfo with StakeAmount := stakerInfo.Amount * weight }
      else .ok { stakerInfo with StakeAmount := stakerInfo.StakeAmount + ctx.Value * weight }

/-- `StakeAppend`. -/
def StakeAppend (env : StakingEnv) (ctx : CallCtx) (w : StakingWorld) (addr : Address) :
    Except String StakingWorld := do
  let stakerInfo ← getStakeInfo w addr
  let stakerInfo ← stakeAppendRecord env ctx stakerInfo
  saveStakeInfo w stakerInfo

/-- What `DelegateIn` adds to an existing delegation of the caller. -/
def clientAdd (value weight : ℕ) (c : ClientInfo) : ClientInfo :=
  { c with Amount := c.Amount + value, StakeAmount := c.StakeAmount + value * weight }

/-- The record `DelegateIn` writes. The validator must accept delegation and hold
`MinValidatorStake` with its partners; a quitting delegator cannot add; the delegations,
the value included, may not bring the record above `maxTotalStake` nor exceed
`MaxTimeDelegate` times the validator's and partners' amount. A first delegation must be at
least `minDelegatorStake`. -/
def delegateInRecord (ctx : CallCtx) (stakerInfo : StakerInfo) : Except String StakerInfo :=
  if stakerInfo.FeeRate = UInt64.ofNat noDelegateFeeRate then
    .error "Validator don't accept delegation."
  else
    let total := stakerInfo.Amount + stakerInfo.partnersAmount
    if total < MinValidatorStake then .error "Validator don't have enough amount."
    else if stakerInfo.Clients.any (fun c => c.Address = ctx.CallerAddress ∧ c.QuitEpoch ≠ 0) then
      .error "dalegater is quiting."
    else
      let weight := (CalLocktimeWeight (UInt64.ofNat PSMinEpochNum)).toNat
      let totalDelegated := ctx.Value + stakerInfo.clientsAmount
      let found := stakerInfo.Clients.any (·.Address = ctx.CallerAddress)
      if totalDelegated + total > maxTotalStake then .error "delegate over total stake limitation"
      else if totalDelegated > total * MaxTimeDelegate then .error "over delegate limitation"
      else if found then
        let clients := modifyKey ClientInfo.Address ctx.CallerAddress
          (clientAdd ctx.Value weight) stakerInfo.Clients
        .ok { stakerInfo with Clients := clients }
      else if ctx.Value < minDelegatorStake then .error "low amount"
      else
        let info : ClientInfo := ⟨ctx.CallerAddress, ctx.Value, ctx.Value * weight, 0⟩
        .ok { stakerInfo with Clients := stakerInfo.Clients ++ [info] }

/-- `DelegateIn`. -/
def DelegateIn (ctx : CallCtx) (w : StakingWorld) (addr : Address) :
    Except String StakingWorld := do
  let stakerInfo ← getStakeInfo w addr
  let stakerInfo ← delegateInRecord ctx stakerInfo
  saveStakeInfo w stakerInfo

/-- The loop of `DelegateOut`: the first delegation of the caller gets its quit epoch, unless
it is already quitting. -/
def delegateOutClients (caller : Address) (quitEpoch : UInt64) :
    List ClientInfo → Except String (List ClientInfo)
  | [] => .error "item doesn't exist"
  | c :: cs =>
    if c.Address = caller then
      if c.QuitEpoch ≠ 0 then .error "delegator has existed"
      else .ok ({ c with QuitEpoch := quitEpoch } :: cs)
    else (c :: ·) <$> delegateOutClients caller quitEpoch cs

/-- `DelegateOut`: the delegation quits `QuitDelay` epochs from now. -/
def DelegateOut (ctx : CallCtx) (w : StakingWorld) (addr : Address) :
    Except String StakingWorld := do
  let stakerInfo ← getStakeInfo w addr
  let clients ← delegateOutClients ctx.CallerAddress (ctx.eidNow + QuitDelay) stakerInfo.Clients
  saveStakeInfo w { stakerInfo with Clients := clients }

/-- The fee-rate record `StakeUpdateFeeRate` starts from: the stored one, which may change
once per epoch, or one made from the validator's current rate. -/
def oldFeeRate (stakeInfo : StakerInfo) (eid : UInt64) :
    Option UpdateFeeRate → Except String UpdateFeeRate
  | none => .ok ⟨stakeInfo.Address, stakeInfo.FeeRate, stakeInfo.FeeRate, eid⟩
  | some oldFee =>
    if oldFee.ChangedEpoch = eid then .error "one epoch can only change one time" else .ok oldFee

/-- The checks of `StakeUpdateFeeRate`, in the order of the source around the read of the
stored fee-rate record `stored`, and the fee-rate record it writes. The owner moves the rate at
most once an epoch, never to or from `PSMaxFeeRate`, never above the recorded maximum and at
most `PSFeeRateStep` up. -/
def feeRateUpdate (ctx : CallCtx) (stakeInfo : StakerInfo) (FeeRate : ℕ)
    (stored : Except String (Option UpdateFeeRate)) : Except String UpdateFeeRate :=
  let feeRate := UInt64.ofNat FeeRate
  if stakeInfo.FeeRate = UInt64.ofNat PSMaxFeeRate ∨ feeRate = UInt64.ofNat PSMaxFeeRate then
    .error "feeRate equal 10000, can't change"
  else if stakeInfo.FeeRate = feeRate then .error "feeRate already same"
  else if ctx.CallerAddress ≠ stakeInfo.From then .error "cannot update fee from another account"
  else do
    let oldFee ← stored
    let oldFee ← oldFeeRate stakeInfo ctx.eidNow oldFee
    if feeRate > oldFee.MaxFeeRate then .error "fee rate can't bigger than old"
    else if feeRate > stakeInfo.FeeRate + PSFeeRateStep then
      .error "0 <= newFeeRate <= oldFeerate + 100"
    else .ok { oldFee with FeeRate := feeRate, ChangedEpoch := ctx.eidNow }

/-- `StakeUpdateFeeRate`: the new rate goes into the validator's record and its fee-rate
record. -/
def StakeUpdateFeeRate (ctx : CallCtx) (w : StakingWorld) (Addr : Address) (FeeRate : ℕ) :
    Except String StakingWorld := do
  updateFeeRateParseAndValid FeeRate
  let stakeInfo ← getStakeInfo w Addr
  let fee ← feeRateUpdate ctx stakeInfo FeeRate (getStakeFeeRate w stakeInfo.Address)
  let w ← saveStakeInfo w { stakeInfo with FeeRate := UInt64.ofNat FeeRate }
  saveStakeFeeRate w fee stakeInfo.Address

/-- `PosStaking.Run`: the method a call selects. -/
def PosStaking.Run (env : StakingEnv) (ctx : CallCtx) (w : StakingWorld) :
    StakingCall → Except String StakingWorld
  | .stakeRegister info MaxFeeRate => StakeRegister env ctx w info MaxFeeRate
  | .stakeIn info => StakeIn env ctx w info
  | .stakeUpdate Addr LockEpochs => StakeUpdate ctx w Addr LockEpochs
  | .stakeAppend addr => StakeAppend env ctx w addr
  | .partnerIn Addr Renewal => PartnerIn env ctx w Addr Renewal
  | .delegateIn addr => DelegateIn ctx w addr
  | .delegateOut addr => DelegateOut ctx w addr
  | .stakeUpdateFeeRate Addr FeeRate => StakeUpdateFeeRate ctx w Addr FeeRate

/-- A transaction calling the staking contract: `EVM.Call` at depth `depth` from the caller,
with the value, into `WanCscPrecompileAddr`. -/
def stakingCall (env : StakingEnv) (depth : ℕ) (ctx : CallCtx) (c : StakingCall)
    (w : StakingWorld) : StakingWorld × Except String Unit :=
  Call (fun w => PosStaking.Run env ctx w c) depth ctx.CallerAddress WanCscPrecompileAddr
    ctx.Value w

end Wanchain.Staking
