import Wanchain.Staking.Contract

/-!
# Epoch processing of the staker records

`StakeOutRun` and `CleanInactiveValidator` of `pos/epochLeader/epoch_leader_selection.go`,
run by `Pluto.Finalize`. `StakeOutRun(epochID)` runs once per epoch (a marker in
`StakingCommonAddr` makes later calls for the same or an older epoch return at once) and goes
through a snapshot of the staker records:

* a validator locked for zero epochs never expires and is skipped;
* a record registered in the PoW phase (`StakingEpoch = 0`) starts, with its partners, at
  `FirstEpochId + 2`;
* delegators whose quit epoch has come and partners whose lock has ended are refunded and
  removed;
* a validator whose lock has ended is removed, refunding its remaining delegators, its
  remaining partners and its own amount (to `From`, the account that staked it);
* a validator in the last `QuitDelay` epochs of its lock takes its next lock period, and so do
  the partners that asked for renewal.

Every refund is a `coreTransfer` from `WanCscPrecompileAddr`, skipped when that account
cannot pay, and is recorded in the list `stakeOutInfo` saved for the epoch; the model returns
that list. `StakeOutRun` returns `false` only when a record fails to RLP-encode, which a
decoded record never does, so the flag is not modelled.

`CleanInactiveValidator` refunds and removes every validator that the activity records call
inactive; the activity check reads the incentive storage and is a parameter here.
-/

namespace Wanchain.Staking

/-- `RefundInfo`: one refund of the epoch processing. -/
structure RefundInfo where
  Addr : Address
  Amount : ℕ
  deriving DecidableEq, Repr

/-- `coreTransfer`: a transfer that is skipped when the sender cannot pay. -/
def coreTransfer (b : Address → ℕ) (sender recipient : Address) (amount : ℕ) : Address → ℕ :=
  if CanTransfer b sender amount then Transfer b sender recipient amount else b

/-- The `coreTransfer`s of a list of refunds from `WanCscPrecompileAddr`, in order. -/
def payRefunds (b : Address → ℕ) (refunds : List RefundInfo) : Address → ℕ :=
  refunds.foldl (fun b r => coreTransfer b WanCscPrecompileAddr r.Addr r.Amount) b

/-- The refund of a delegation. -/
def clientRefund (c : ClientInfo) : RefundInfo := ⟨c.Address, c.Amount⟩

/-- The refund of a partner. -/
def partnerRefund (p : PartnerInfo) : RefundInfo := ⟨p.Address, p.Amount⟩

/-- The refund of a validator's own amount, to the account that staked it. -/
def stakerRefund (s : StakerInfo) : RefundInfo := ⟨s.From, s.Amount⟩

/-- Everything a record holds locked, as the refunds that would return it: the validator's own
amount, then the delegations and the partners. -/
def lockedRefunds (s : StakerInfo) : List RefundInfo :=
  stakerRefund s :: (s.Clients.map clientRefund ++ s.Partners.map partnerRefund)

/-! ### One staker -/

/-- A delegation whose quit epoch has come. -/
def clientQuits (epochID : UInt64) (c : ClientInfo) : Bool :=
  epochID ≥ c.QuitEpoch && c.QuitEpoch ≠ 0

/-- A partner whose lock has ended. -/
def partnerExpired (epochID : UInt64) (p : PartnerInfo) : Bool :=
  epochID ≥ p.StakingEpoch + p.LockEpochs

/-- A validator whose lock has ended. -/
def stakerExpired (epochID : UInt64) (s : StakerInfo) : Bool :=
  epochID ≥ s.StakingEpoch + s.LockEpochs

/-- A validator in the last `QuitDelay` epochs of its lock. -/
def inRenewWindow (epochID : UInt64) (s : StakerInfo) : Bool :=
  epochID + QuitDelay ≥ s.StakingEpoch + s.LockEpochs

/-- The start of a record registered in the PoW phase: the validator and its partners start
at `FirstEpochId + 2`. -/
def powStart (FirstEpochId : UInt64) (s : StakerInfo) : StakerInfo :=
  if s.StakingEpoch = 0 then
    { s with StakingEpoch := FirstEpochId + 2,
             Partners := s.Partners.map fun p => { p with StakingEpoch := FirstEpochId + 2 } }
  else s

/-- A partner that asked for renewal takes the validator's next lock period from
`epochID + JoinDelay`. -/
def renewPartner (epochID NextLockEpochs : UInt64) (p : PartnerInfo) : PartnerInfo :=
  if p.Renewal then
    { p with LockEpochs := NextLockEpochs,
             StakeAmount := p.Amount * (CalLocktimeWeight NextLockEpochs).toNat,
             StakingEpoch := epochID + JoinDelay }
  else p

/-- The renewal of a validator in the last epochs of its lock: its next lock period, if it has
one, from `epochID + JoinDelay`, and the renewal of its partners. -/
def renew (epochID : UInt64) (s : StakerInfo) : StakerInfo :=
  let s' :=
    if s.NextLockEpochs ≠ 0 then
      { s with LockEpochs := s.NextLockEpochs,
               StakeAmount := s.Amount * (CalLocktimeWeight s.NextLockEpochs).toNat,
               StakingEpoch := epochID + JoinDelay }
    else s
  { s' with Partners := s'.Partners.map (renewPartner epochID s.NextLockEpochs) }

/-- What the processing of one staker does to its slot. -/
inductive SlotWrite
  | keep
  | update (r : StakerInfo)
  | delete
  deriving DecidableEq, Repr

/-- The body of the loop of `StakeOutRun` for one staker of the snapshot: the refunds it makes,
in order, and the write to the staker's slot. -/
def stakeOutStaker (FirstEpochId epochID : UInt64) (staker : StakerInfo) :
    List RefundInfo × SlotWrite :=
  if staker.LockEpochs = 0 then ([], .keep)
  else
    let changed := staker.StakingEpoch = 0
    let staker := powStart FirstEpochId staker
    let clientChanged := staker.Clients.any (clientQuits epochID)
    let clientRefunds := (staker.Clients.filter (clientQuits epochID)).map clientRefund
    let newClients := staker.Clients.filter fun c => !clientQuits epochID c
    let staker := { staker with Clients := if clientChanged then newClients else staker.Clients }
    let partnerchanged := staker.Partners.any (partnerExpired epochID)
    let partnerRefunds := (staker.Partners.filter (partnerExpired epochID)).map partnerRefund
    let newPartners := staker.Partners.filter fun p => !partnerExpired epochID p
    let staker :=
      { staker with Partners := if partnerchanged then newPartners else staker.Partners }
    if stakerExpired epochID staker then
      (clientRefunds ++ partnerRefunds ++ staker.Clients.map clientRefund ++
        staker.Partners.map partnerRefund ++ [stakerRefund staker], .delete)
    else
      let renewing := inRenewWindow epochID staker
      let renewed := renewing &&
        (decide (staker.NextLockEpochs ≠ 0) || staker.Partners.any (·.Renewal))
      let staker := if renewing then renew epochID staker else staker
      (clientRefunds ++ partnerRefunds,
        if changed || renewed || partnerchanged || clientChanged then .update staker else .keep)

/-! ### What the processing of one staker does -/

/-- The record of a staker once the quitting delegations and the ended partners are removed. -/
def keptRecord (FirstEpochId epochID : UInt64) (s : StakerInfo) : StakerInfo :=
  let s := powStart FirstEpochId s
  { s with Clients := s.Clients.filter fun c => !clientQuits epochID c,
           Partners := s.Partners.filter fun p => !partnerExpired epochID p }

/-- The refunds of the quitting delegations and the ended partners. -/
def removedRefunds (FirstEpochId epochID : UInt64) (s : StakerInfo) : List RefundInfo :=
  (s.Clients.filter (clientQuits epochID)).map clientRefund ++
    ((powStart FirstEpochId s).Partners.filter (partnerExpired epochID)).map partnerRefund

/-- The record with its renewal applied when it is in the last epochs of its lock. -/
def renewIf (epochID : UInt64) (s : StakerInfo) : StakerInfo :=
  if inRenewWindow epochID s then renew epochID s else s

@[simp] lemma partnerRefund_renewPartner (epochID n : UInt64) (p : PartnerInfo) :
    partnerRefund (renewPartner epochID n p) = partnerRefund p := by
  unfold renewPartner
  split_ifs <;> rfl

section Fields

variable (FirstEpochId epochID : UInt64) (s : StakerInfo)

@[simp] lemma powStart_Address : (powStart FirstEpochId s).Address = s.Address := by
  unfold powStart; split_ifs <;> rfl
@[simp] lemma powStart_Amount : (powStart FirstEpochId s).Amount = s.Amount := by
  unfold powStart; split_ifs <;> rfl
@[simp] lemma powStart_From : (powStart FirstEpochId s).From = s.From := by
  unfold powStart; split_ifs <;> rfl
@[simp] lemma powStart_Clients : (powStart FirstEpochId s).Clients = s.Clients := by
  unfold powStart; split_ifs <;> rfl
@[simp] lemma powStart_LockEpochs : (powStart FirstEpochId s).LockEpochs = s.LockEpochs := by
  unfold powStart; split_ifs <;> rfl

lemma powStart_partners_refund :
    (powStart FirstEpochId s).Partners.map partnerRefund = s.Partners.map partnerRefund := by
  unfold powStart
  split_ifs
  · simp [Function.comp_def, partnerRefund]
  · rfl

@[simp] lemma renewIf_Address : (renewIf epochID s).Address = s.Address := by
  unfold renewIf renew; split_ifs <;> rfl
@[simp] lemma renewIf_Amount : (renewIf epochID s).Amount = s.Amount := by
  unfold renewIf renew; split_ifs <;> rfl
@[simp] lemma renewIf_From : (renewIf epochID s).From = s.From := by
  unfold renewIf renew; split_ifs <;> rfl
@[simp] lemma renewIf_Clients : (renewIf epochID s).Clients = s.Clients := by
  unfold renewIf renew; split_ifs <;> rfl

lemma renewIf_partners_refund :
    (renewIf epochID s).Partners.map partnerRefund = s.Partners.map partnerRefund := by
  unfold renewIf renew
  split_ifs <;> simp [Function.comp_def]

@[simp] lemma keptRecord_Address : (keptRecord FirstEpochId epochID s).Address = s.Address := by
  simp [keptRecord]
@[simp] lemma keptRecord_Amount : (keptRecord FirstEpochId epochID s).Amount = s.Amount := by
  simp [keptRecord]
@[simp] lemma keptRecord_From : (keptRecord FirstEpochId epochID s).From = s.From := by
  simp [keptRecord]
@[simp] lemma keptRecord_Clients :
    (keptRecord FirstEpochId epochID s).Clients = s.Clients.filter fun c => !clientQuits epochID c := by
  simp [keptRecord]

lemma keptRecord_partners_refund :
    (keptRecord FirstEpochId epochID s).Partners.map partnerRefund =
      ((powStart FirstEpochId s).Partners.filter fun p => !partnerExpired epochID p).map
        partnerRefund := rfl

end Fields

/-- Keeping the elements of a list that fail a test only when one passes it keeps those that
fail it. -/
lemma ite_any_filter {α : Type*} (p : α → Bool) (l : List α) :
    (if l.any p then l.filter (fun x => !p x) else l) = l.filter (fun x => !p x) := by
  split_ifs with h
  · rfl
  · simp only [Bool.not_eq_true, List.any_eq_false] at h
    exact (List.filter_eq_self.mpr fun x hx => by simp [h x hx]).symm

/-- The three things the processing of a staker can do. A validator locked for zero epochs is
left alone. Otherwise, once its quitting delegations and ended partners are removed, a
validator whose lock has ended is deleted with a refund of everything left, and any other is
written back, renewed if due, unless nothing at all changed, in which case nothing was
refunded either. -/
theorem stakeOutStaker_cases (FirstEpochId epochID : UInt64) (s : StakerInfo) :
    (s.LockEpochs = 0 ∧ stakeOutStaker FirstEpochId epochID s = ([], .keep)) ∨
    (s.LockEpochs ≠ 0 ∧ stakerExpired epochID (keptRecord FirstEpochId epochID s) = true ∧
      stakeOutStaker FirstEpochId epochID s =
        (removedRefunds FirstEpochId epochID s ++
          (keptRecord FirstEpochId epochID s).Clients.map clientRefund ++
          (keptRecord FirstEpochId epochID s).Partners.map partnerRefund ++
          [stakerRefund (keptRecord FirstEpochId epochID s)], .delete)) ∨
    (s.LockEpochs ≠ 0 ∧ stakerExpired epochID (keptRecord FirstEpochId epochID s) = false ∧
      (stakeOutStaker FirstEpochId epochID s).1 = removedRefunds FirstEpochId epochID s ∧
      ((removedRefunds FirstEpochId epochID s = [] ∧
          (stakeOutStaker FirstEpochId epochID s).2 = .keep) ∨
        (stakeOutStaker FirstEpochId epochID s).2 =
          .update (renewIf epochID (keptRecord FirstEpochId epochID s)))) := by
  by_cases hL : s.LockEpochs = 0
  · exact .inl ⟨hL, by simp [stakeOutStaker, hL]⟩
  right
  have hremoved : removedRefunds FirstEpochId epochID s =
      ((powStart FirstEpochId s).Clients.filter (clientQuits epochID)).map clientRefund ++
        ((powStart FirstEpochId s).Partners.filter (partnerExpired epochID)).map partnerRefund := by
    simp [removedRefunds]
  -- after the removals, whichever of them happened, the record is `keptRecord`
  by_cases hexp : stakerExpired epochID (keptRecord FirstEpochId epochID s) = true
  · refine .inl ⟨hL, hexp, ?_⟩
    simp only [keptRecord] at hexp ⊢
    simp only [stakeOutStaker, if_neg hL, ite_any_filter, ← hremoved, hexp, if_true]
  · rw [Bool.not_eq_true] at hexp
    refine .inr ⟨hL, hexp, ?_⟩
    simp only [keptRecord, renewIf] at hexp ⊢
    simp only [stakeOutStaker, if_neg hL, ite_any_filter, ← hremoved, hexp,
      Bool.false_eq_true, if_false, true_and]
    split
    · exact .inr rfl
    · -- nothing was flagged, so no delegation quit and no partner ended
      rename_i hflags
      refine .inl ⟨?_, rfl⟩
      simp only [Bool.or_eq_true, not_or, Bool.not_eq_true] at hflags
      have hc := List.filter_eq_nil_iff.mpr fun c hc => by
        simpa using List.any_eq_false.mp hflags.2 c hc
      have hp := List.filter_eq_nil_iff.mpr fun p hp => by
        simpa using List.any_eq_false.mp hflags.1.2 p hp
      rw [hremoved, hc, hp]
      rfl

/-! ### The run -/

/-- A write to a staker's slot: `UpdateInfo` with the new record, whose error on the zero key
is ignored, or with `nil`, which also drops the validator's fee-rate record. -/
def applyWrite (w : StakingWorld) (addr : Address) : SlotWrite → StakingWorld
  | .keep => w
  | .update r =>
    if h : r.Address = 0 then w
    else { w with storage := { w.storage with stakers := w.storage.stakers.save r h } }
  | .delete =>
    { w with storage := { w.storage with stakers := w.storage.stakers.delete addr,
                                          fees := Function.update w.storage.fees addr none } }

/-- One turn of the loop of `StakeOutRun`: the staker's refunds are paid and recorded, and its
slot written. -/
def stakeOutStep (FirstEpochId epochID : UInt64) (acc : StakingWorld × List RefundInfo)
    (staker : StakerInfo) : StakingWorld × List RefundInfo :=
  let refunds := (stakeOutStaker FirstEpochId epochID staker).1
  let w := { acc.1 with balance := payRefunds acc.1.balance refunds }
  (applyWrite w staker.Address (stakeOutStaker FirstEpochId epochID staker).2, acc.2 ++ refunds)

/-- `StakeoutIsFinished`: the stored epoch, read back by `SetBytes(...).Uint64()`, has reached
`epochID`. -/
def StakeoutIsFinished (w : StakingWorld) (epochID : UInt64) : Bool :=
  UInt64.ofNat (setBytes w.storage.stakeOutEpoch) ≥ epochID

/-- `StakeoutSetEpoch`: stores `big.NewInt(int64(epochID)).Bytes()`, the bytes of the absolute
value of the epoch read as a signed number. -/
def StakeoutSetEpoch (w : StakingWorld) (epochID : UInt64) : StakingWorld :=
  { w with storage := { w.storage with
    stakeOutEpoch := bigBytes epochID.toInt64.toInt.natAbs } }

/-- `StakeOutRun(stateDb, epochID)`: the new world and the `stakeOutInfo` saved for the epoch,
`none` when the epoch was already processed and nothing is done. -/
def StakeOutRun (env : StakingEnv) (w : StakingWorld) (epochID : UInt64) :
    StakingWorld × Option (List RefundInfo) :=
  if StakeoutIsFinished w epochID then (w, none)
  else
    let w := StakeoutSetEpoch w epochID
    let r := w.storage.stakers.records.foldl (stakeOutStep env.FirstEpochId epochID) (w, [])
    (r.1, some r.2)

/-- All refunds of an inactive validator: delegations, partners, then its own amount. -/
def cleanRefunds (staker : StakerInfo) : List RefundInfo :=
  staker.Clients.map clientRefund ++ staker.Partners.map partnerRefund ++ [stakerRefund staker]

/-- One turn of the loop of `CleanInactiveValidator`. -/
def cleanStep (isInactiveValidator : Address → UInt64 → Bool) (epochID : UInt64)
    (w : StakingWorld) (staker : StakerInfo) : StakingWorld :=
  if isInactiveValidator staker.Address epochID then
    let w := { w with balance := payRefunds w.balance (cleanRefunds staker) }
    { w with storage := { w.storage with stakers := w.storage.stakers.delete staker.Address } }
  else w

/-- `CleanInactiveValidator(stateDb, epochID)`, with the activity check `isInactiveValidator`. -/
def CleanInactiveValidator (isInactiveValidator : Address → UInt64 → Bool)
    (w : StakingWorld) (epochID : UInt64) : StakingWorld :=
  w.storage.stakers.records.foldl (cleanStep isInactiveValidator epochID) w

/-! ### A whole run -/

/-- The record in a staker's slot after a run at `epochID`, `none` when the staker is removed;
an update under the zero key is refused and leaves the stored record. -/
def newRecord (FirstEpochId epochID : UInt64) (s : StakerInfo) : Option StakerInfo :=
  match (stakeOutStaker FirstEpochId epochID s).2 with
  | .keep => some s
  | .update r => if r.Address = 0 then some s else some r
  | .delete => none

/-- The staker records after a write to the slot of `addr`. -/
def slotRecords (l : List StakerInfo) (addr : Address) : SlotWrite → List StakerInfo
  | .keep => l
  | .update r => if r.Address = 0 then l else KeyedList.upsert StakerInfo.Address l r
  | .delete => l.filter (·.Address ≠ addr)

/-- An update is the record of the same validator. -/
lemma stakeOutStaker_update_address {FirstEpochId epochID : UInt64} {s r : StakerInfo}
    (h : (stakeOutStaker FirstEpochId epochID s).2 = .update r) : r.Address = s.Address := by
  rcases stakeOutStaker_cases FirstEpochId epochID s with ⟨-, hs⟩ | ⟨-, -, hs⟩ | ⟨-, -, -, hs⟩
  · rw [hs] at h
    cases h
  · rw [hs] at h
    cases h
  · rcases hs with ⟨-, hs⟩ | hs <;> rw [hs] at h <;> cases h
    simp

lemma newRecord_address {FirstEpochId epochID : UInt64} {s y : StakerInfo}
    (h : newRecord FirstEpochId epochID s = some y) : y.Address = s.Address := by
  unfold newRecord at h
  cases hw : (stakeOutStaker FirstEpochId epochID s).2 with
  | keep =>
    rw [hw] at h
    cases h
    rfl
  | update r =>
    rw [hw] at h
    simp only at h
    split_ifs at h
    · cases h
      rfl
    · cases h
      exact stakeOutStaker_update_address hw
  | delete =>
    rw [hw] at h
    cases h

/-- The new record of a staker is the stored one or the record left after the removals,
renewed if due. -/
lemma newRecord_cases {FirstEpochId epochID : UInt64} {s y : StakerInfo}
    (h : newRecord FirstEpochId epochID s = some y) :
    y = s ∨ y = renewIf epochID (keptRecord FirstEpochId epochID s) := by
  unfold newRecord at h
  rcases stakeOutStaker_cases FirstEpochId epochID s with ⟨-, hs⟩ | ⟨-, -, hs⟩ | ⟨-, -, -, hs⟩
  · rw [hs] at h
    cases h
    exact .inl rfl
  · rw [hs] at h
    cases h
  · rcases hs with ⟨-, hs⟩ | hs <;> rw [hs] at h
    · cases h
      exact .inl rfl
    · simp only at h
      split_ifs at h <;> cases h
      · exact .inl rfl
      · exact .inr rfl

/-- At the slot of `x`, in a list with distinct addresses, a write replaces `x` by its new
record. -/
lemma slotRecords_middle (FirstEpochId epochID : UInt64) {P s : List StakerInfo} {x : StakerInfo}
    (hl : KeyedList.NodupKeys StakerInfo.Address (P ++ x :: s)) :
    slotRecords (P ++ x :: s) x.Address (stakeOutStaker FirstEpochId epochID x).2 =
      P ++ (newRecord FirstEpochId epochID x).toList ++ s := by
  unfold newRecord
  cases hw : (stakeOutStaker FirstEpochId epochID x).2 with
  | keep => simp [slotRecords]
  | update r =>
    by_cases h0 : r.Address = 0
    · simp [slotRecords, h0]
    · simp only [slotRecords, if_neg h0, Option.toList_some]
      rw [KeyedList.upsert_middle hl (stakeOutStaker_update_address hw)]
      simp
  | delete =>
    simp only [slotRecords, Option.toList_none, List.append_nil]
    exact KeyedList.filter_middle hl

lemma payRefunds_append (b : Address → ℕ) (R R' : List RefundInfo) :
    payRefunds b (R ++ R') = payRefunds (payRefunds b R) R' :=
  List.foldl_append

section Write

variable (w : StakingWorld) (addr : Address) (wr : SlotWrite)

@[simp] lemma applyWrite_balance : (applyWrite w addr wr).balance = w.balance := by
  cases wr with
  | update r => simp only [applyWrite]; split_ifs <;> rfl
  | _ => rfl

@[simp] lemma applyWrite_stakeOutEpoch :
    (applyWrite w addr wr).storage.stakeOutEpoch = w.storage.stakeOutEpoch := by
  cases wr with
  | update r => simp only [applyWrite]; split_ifs <;> rfl
  | _ => rfl

lemma applyWrite_records :
    (applyWrite w addr wr).storage.stakers.records =
      slotRecords w.storage.stakers.records addr wr := by
  cases wr with
  | update r => simp only [applyWrite, slotRecords]; split_ifs <;> rfl
  | _ => rfl

end Write

/-- The loop of `StakeOutRun` over a list of stakers: it records their refunds in order, pays
them, writes each slot, and leaves the stake-out marker alone. -/
lemma foldl_stakeOutStep (FirstEpochId epochID : UInt64) (l : List StakerInfo)
    (a : StakingWorld × List RefundInfo) :
    (l.foldl (stakeOutStep FirstEpochId epochID) a).2 =
        a.2 ++ l.flatMap (fun x => (stakeOutStaker FirstEpochId epochID x).1) ∧
      (l.foldl (stakeOutStep FirstEpochId epochID) a).1.balance =
        payRefunds a.1.balance (l.flatMap fun x => (stakeOutStaker FirstEpochId epochID x).1) ∧
      (l.foldl (stakeOutStep FirstEpochId epochID) a).1.storage.stakers.records = l.foldl
        (fun rs x => slotRecords rs x.Address (stakeOutStaker FirstEpochId epochID x).2)
        a.1.storage.stakers.records ∧
      (l.foldl (stakeOutStep FirstEpochId epochID) a).1.storage.stakeOutEpoch =
        a.1.storage.stakeOutEpoch := by
  induction l generalizing a with
  | nil => simp [payRefunds]
  | cons x l ih =>
    obtain ⟨h1, h2, h3, h4⟩ := ih (stakeOutStep FirstEpochId epochID a x)
    simp only [List.foldl_cons, List.flatMap_cons]
    refine ⟨?_, ?_, ?_, ?_⟩
    · rw [h1]
      simp [stakeOutStep]
    · rw [h2, payRefunds_append]
      simp [stakeOutStep]
    · rw [h3]
      simp [stakeOutStep, applyWrite_records]
    · rw [h4]
      simp [stakeOutStep]

section Run

variable (env : StakingEnv) (w : StakingWorld) (epochID : UInt64)

/-- A run for an epoch the marker has reached does nothing. -/
theorem StakeOutRun_of_finished (h : StakeoutIsFinished w epochID = true) :
    StakeOutRun env w epochID = (w, none) := by
  simp [StakeOutRun, h]

/-- A run for an epoch the marker has not reached: the refunds are those of the stakers of the
snapshot, in order; they are paid; every staker's slot holds its new record; and the marker
holds the epoch. -/
theorem StakeOutRun_of_not_finished (h : StakeoutIsFinished w epochID = false) :
    (StakeOutRun env w epochID).2 = some (w.storage.stakers.records.flatMap
        fun x => (stakeOutStaker env.FirstEpochId epochID x).1) ∧
      (StakeOutRun env w epochID).1.balance = payRefunds w.balance
        (w.storage.stakers.records.flatMap fun x => (stakeOutStaker env.FirstEpochId epochID x).1) ∧
      (StakeOutRun env w epochID).1.storage.stakers.records =
        w.storage.stakers.records.filterMap (newRecord env.FirstEpochId epochID) ∧
      (StakeOutRun env w epochID).1.storage.stakeOutEpoch =
        bigBytes epochID.toInt64.toInt.natAbs := by
  obtain ⟨h1, h2, h3, h4⟩ := foldl_stakeOutStep env.FirstEpochId epochID
    (StakeoutSetEpoch w epochID).storage.stakers.records (StakeoutSetEpoch w epochID, [])
  simp only [StakeOutRun, h, Bool.false_eq_true, if_false]
  refine ⟨by rw [h1]; rfl, h2, ?_, h4⟩
  rw [h3]
  -- each turn writes only the slot of its own staker
  exact KeyedList.foldl_eq_filterMap (fun _ _ => newRecord_address)
    (fun _ _ _ _ hl => slotRecords_middle env.FirstEpochId epochID hl) w.storage.stakers.nodup

end Run

/-- `int64(epochID)` read back as an absolute value is the epoch itself up to `2⁶³`. -/
lemma natAbs_toInt64 {epochID : UInt64} (h : epochID.toNat ≤ 2 ^ 63) :
    epochID.toInt64.toInt.natAbs = epochID.toNat := by
  have hInt : epochID.toInt64.toInt = epochID.toBitVec.toInt := rfl
  rw [hInt, BitVec.toInt_eq_toNat_cond]
  split_ifs with hlt
  · simp
  · -- only `2⁶³` itself reads as a negative number below the bound
    have h63 : epochID.toBitVec.toNat = 2 ^ 63 := by
      simp only [UInt64.toNat_toBitVec] at hlt ⊢
      omega
    have hnat : epochID.toNat = 2 ^ 63 := by rw [← UInt64.toNat_toBitVec]; exact h63
    rw [h63, hnat]
    decide

/-- After a run at an epoch up to `2⁶³`, the marker has reached that epoch and every earlier
one, so runs for them do nothing. -/
theorem StakeoutIsFinished_StakeOutRun (env : StakingEnv) (w : StakingWorld) {epochID : UInt64}
    (h : epochID.toNat ≤ 2 ^ 63) {e : UInt64} (he : e ≤ epochID) :
    StakeoutIsFinished (StakeOutRun env w epochID).1 e = true := by
  cases hfin : StakeoutIsFinished w epochID
  · rw [StakeoutIsFinished, (StakeOutRun_of_not_finished env w epochID hfin).2.2.2,
      setBytes_bigBytes, natAbs_toInt64 h, UInt64.ofNat_toNat]
    exact decide_eq_true he
  · rw [StakeOutRun_of_finished env w epochID hfin]
    simp only [StakeoutIsFinished, decide_eq_true_eq, GE.ge, UInt64.le_iff_toNat_le] at hfin he ⊢
    omega

/-- `CleanInactiveValidator` keeps exactly the validators that are not inactive. -/
theorem CleanInactiveValidator_records (isInactiveValidator : Address → UInt64 → Bool)
    (w : StakingWorld) (epochID : UInt64) :
    (CleanInactiveValidator isInactiveValidator w epochID).storage.stakers.records =
      w.storage.stakers.records.filterMap
        fun x => if isInactiveValidator x.Address epochID then none else some x := by
  -- the turn of a staker deletes its own slot or nothing
  have hstep : ∀ (l : List StakerInfo) (w : StakingWorld),
      (l.foldl (cleanStep isInactiveValidator epochID) w).storage.stakers.records =
        l.foldl (fun rs x => if isInactiveValidator x.Address epochID then
          rs.filter (·.Address ≠ x.Address) else rs) w.storage.stakers.records := by
    intro l
    induction l with
    | nil => intro w; rfl
    | cons x l ih =>
      intro w
      rw [List.foldl_cons, List.foldl_cons, ih]
      unfold cleanStep
      split_ifs <;> rfl
  rw [CleanInactiveValidator, hstep]
  refine KeyedList.foldl_eq_filterMap ?_ ?_ w.storage.stakers.nodup
  · intro x y hxy
    split_ifs at hxy
    cases hxy
    rfl
  · intro P s x _ hl
    split_ifs
    · simpa using KeyedList.filter_middle hl
    · simp

end Wanchain.Staking
