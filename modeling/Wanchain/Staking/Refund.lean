import Mathlib.Algebra.BigOperators.Group.Multiset.Basic
import Wanchain.Staking.StakeOut

/-!
# What the epoch processing refunds

Every amount a staker record holds locked (the validator's own amount, each delegation and
each partner) is a refund waiting to happen: `lockedRefunds` lists them, with the account each
goes back to. A run of `StakeOutRun` moves entries from the records to the refund list
`stakeOutInfo` and to nothing else: what the records hold before is, as a multiset, what they
hold after together with what was refunded. The refunds a run makes are those due at its epoch
(`dueRefunds`), and while `WanCscPrecompileAddr` holds what is locked, every `coreTransfer` of a
refund goes through.

Due at an epoch means, for a validator registered in the PoW phase, from the start
`FirstEpochId + 2` that the run gives it and its partners; and a validator whose lock has ended
takes its remaining delegators and partners with it, whatever their own quit and lock epochs.
-/

namespace Wanchain.Staking

/-! ### Locked entries -/

/-- Everything the staker records hold locked, record by record. -/
def lockedAll (st : StakerStore) : List RefundInfo := st.records.flatMap lockedRefunds

/-- The sum of what the staker records hold locked. -/
def lockedTotal (st : StakerStore) : ℕ := ((lockedAll st).map (·.Amount)).sum

/-- The refunds due to a staker at `epochID`: nothing for a validator that never expires;
everything it holds once its lock, counted from its PoW-phase start, has ended; otherwise the
delegations that quit and the partners whose lock, from the same start, has ended. -/
def dueRefunds (FirstEpochId epochID : UInt64) (s : StakerInfo) : List RefundInfo :=
  if s.LockEpochs = 0 then []
  else if stakerExpired epochID (powStart FirstEpochId s) then lockedRefunds s
  else removedRefunds FirstEpochId epochID s

/-- Splitting a list by a test and mapping both parts gives the image of the list. -/
lemma coe_map_filter_add_not {α β : Type*} (p : α → Bool) (f : α → β) (l : List α) :
    (((l.filter p).map f : List β) : Multiset β) + ((l.filter fun x => !p x).map f : List β) =
      (l.map f : List β) := by
  rw [Multiset.coe_add, ← List.map_append]
  exact Multiset.coe_eq_coe.mpr ((List.filter_append_perm p l).map f)

section Staker

variable (FirstEpochId epochID : UInt64) (s : StakerInfo)

lemma lockedRefunds_renewIf : lockedRefunds (renewIf epochID s) = lockedRefunds s := by
  simp [lockedRefunds, stakerRefund, renewIf_partners_refund]

/-- What a record holds is what its quitting delegations and ended partners take and what the
record left after them holds. -/
lemma lockedRefunds_split :
    (lockedRefunds s : Multiset RefundInfo) =
      (removedRefunds FirstEpochId epochID s : Multiset RefundInfo) +
        lockedRefunds (keptRecord FirstEpochId epochID s) := by
  have hC := coe_map_filter_add_not (clientQuits epochID) clientRefund s.Clients
  have hP := coe_map_filter_add_not (partnerExpired epochID) partnerRefund
    (powStart FirstEpochId s).Partners
  rw [powStart_partners_refund] at hP
  simp only [lockedRefunds, removedRefunds, keptRecord_partners_refund, keptRecord_Clients,
    ← Multiset.cons_coe, ← Multiset.coe_add, ← hC, ← hP]
  simp only [stakerRefund, keptRecord_From, keptRecord_Amount, Multiset.add_cons]
  rw [add_add_add_comm]

/-- The refunds of an expired validator are everything it held. -/
lemma expiredRefunds_coe :
    ((removedRefunds FirstEpochId epochID s ++
        (keptRecord FirstEpochId epochID s).Clients.map clientRefund ++
        (keptRecord FirstEpochId epochID s).Partners.map partnerRefund ++
        [stakerRefund (keptRecord FirstEpochId epochID s)] : List RefundInfo) :
      Multiset RefundInfo) = lockedRefunds s := by
  rw [lockedRefunds_split FirstEpochId epochID s]
  simp only [lockedRefunds, ← Multiset.coe_add, ← Multiset.cons_coe, ← Multiset.singleton_add,
    Multiset.coe_nil, add_zero]
  abel

/-- The processing of a staker refunds exactly what is due to it. -/
lemma stakeOutStaker_refunds_due :
    ((stakeOutStaker FirstEpochId epochID s).1 : Multiset RefundInfo) =
      dueRefunds FirstEpochId epochID s := by
  rcases stakeOutStaker_cases FirstEpochId epochID s with
    ⟨hL, hs⟩ | ⟨hL, hexp, hs⟩ | ⟨hL, hexp, hs, -⟩
  · rw [hs, dueRefunds, if_pos hL]
  · -- the expiry of the record after the removals is that of its PoW-phase start
    have hexp' : stakerExpired epochID (powStart FirstEpochId s) = true := hexp
    rw [hs, dueRefunds, if_neg hL, if_pos hexp', expiredRefunds_coe]
  · have hexp' : stakerExpired epochID (powStart FirstEpochId s) = false := hexp
    rw [hs, dueRefunds, if_neg hL, if_neg (Bool.eq_false_iff.mp hexp')]

/-- What a staker holds is what its processing refunds and what its new record holds. -/
lemma lockedRefunds_stakeOutStaker (hs : s.Address ≠ 0) :
    (lockedRefunds s : Multiset RefundInfo) =
      ((stakeOutStaker FirstEpochId epochID s).1 : Multiset RefundInfo) +
        ((newRecord FirstEpochId epochID s).toList.flatMap lockedRefunds : List RefundInfo) := by
  rcases stakeOutStaker_cases FirstEpochId epochID s with
    ⟨-, hw⟩ | ⟨-, -, hw⟩ | ⟨-, -, hw, ⟨hnil, hkeep⟩ | hupd⟩
  · simp [newRecord, hw]
  · simp only [newRecord, hw, Option.toList_none, List.flatMap_nil, Multiset.coe_nil, add_zero]
    exact (expiredRefunds_coe FirstEpochId epochID s).symm
  · simp [newRecord, hw, hkeep, hnil]
  · -- the renewed record keeps the address, so the update is stored
    have h0 : (renewIf epochID (keptRecord FirstEpochId epochID s)).Address ≠ 0 := by simpa
    simp only [newRecord, hupd, if_neg h0, Option.toList_some, List.flatMap_singleton,
      lockedRefunds_renewIf, hw]
    exact lockedRefunds_split FirstEpochId epochID s

end Staker

/-- Over a list of stakers: what they hold is what their processing refunds and what their new
records hold. -/
lemma flatMap_lockedRefunds_stakeOutStaker (FirstEpochId epochID : UInt64) (l : List StakerInfo)
    (hl : ∀ s ∈ l, s.Address ≠ 0) :
    (l.flatMap lockedRefunds : Multiset RefundInfo) =
      (l.flatMap fun s => (stakeOutStaker FirstEpochId epochID s).1 : List RefundInfo) +
        ((l.filterMap (newRecord FirstEpochId epochID)).flatMap lockedRefunds :
          List RefundInfo) := by
  induction l with
  | nil => rfl
  | cons s l ih =>
    have hs := lockedRefunds_stakeOutStaker FirstEpochId epochID s (hl s (by simp))
    have hrest := ih fun x hx => hl x (by simp [hx])
    cases hn : newRecord FirstEpochId epochID s with
    | none =>
      simp only [hn, Option.toList_none, List.flatMap_nil, Multiset.coe_nil, add_zero] at hs
      simp only [List.flatMap_cons, List.filterMap_cons_none hn, ← Multiset.coe_add, hs, hrest]
      abel
    | some y =>
      simp only [hn, Option.toList_some, List.flatMap_singleton] at hs
      simp only [List.flatMap_cons, List.filterMap_cons_some hn, ← Multiset.coe_add, hs, hrest]
      abel

/-! ### One run -/

section Run

variable (env : StakingEnv) (w : StakingWorld) (epochID : UInt64)

/-- A run keeps or refunds every locked entry, once: what the records hold before is what they
hold after and what the run recorded in `stakeOutInfo`. -/
theorem StakeOutRun_locked :
    (lockedAll w.storage.stakers : Multiset RefundInfo) =
      (lockedAll (StakeOutRun env w epochID).1.storage.stakers : Multiset RefundInfo) +
        ((StakeOutRun env w epochID).2.getD [] : List RefundInfo) := by
  cases hfin : StakeoutIsFinished w epochID
  · obtain ⟨h1, -, h3, -⟩ := StakeOutRun_of_not_finished env w epochID hfin
    rw [lockedAll, lockedAll, h1, h3, Option.getD_some, add_comm]
    exact flatMap_lockedRefunds_stakeOutStaker _ _ _ w.storage.stakers.ne_zero
  · rw [StakeOutRun_of_finished env w epochID hfin]
    simp

/-- The amounts of `StakeOutRun_locked`: the run lowers the locked total by what it refunds. -/
lemma lockedTotal_StakeOutRun :
    lockedTotal w.storage.stakers =
      lockedTotal (StakeOutRun env w epochID).1.storage.stakers +
        (((StakeOutRun env w epochID).2.getD []).map (·.Amount)).sum := by
  have h := congrArg (fun m : Multiset RefundInfo => (m.map (·.Amount)).sum)
    (StakeOutRun_locked env w epochID)
  simpa [lockedTotal] using h

/-- The refunds a run records are those due at its epoch. -/
theorem StakeOutRun_refunds_due (h : StakeoutIsFinished w epochID = false) :
    ((StakeOutRun env w epochID).2.getD [] : Multiset RefundInfo) =
      (w.storage.stakers.records.flatMap (dueRefunds env.FirstEpochId epochID) :
        List RefundInfo) := by
  rw [(StakeOutRun_of_not_finished env w epochID h).1, Option.getD_some, Multiset.coe_eq_coe]
  refine List.Perm.flatMap_left _ fun s _ => ?_
  exact Multiset.coe_eq_coe.mp (stakeOutStaker_refunds_due env.FirstEpochId epochID s)

/-- A run pays the refunds it records, each by a `coreTransfer`. -/
lemma StakeOutRun_balance :
    (StakeOutRun env w epochID).1.balance =
      payRefunds w.balance ((StakeOutRun env w epochID).2.getD []) := by
  cases hfin : StakeoutIsFinished w epochID
  · obtain ⟨h1, h2, -⟩ := StakeOutRun_of_not_finished env w epochID hfin
    rw [h1, h2, Option.getD_some]
  · rw [StakeOutRun_of_finished env w epochID hfin]
    rfl

end Run

/-! ### Paying the refunds -/

/-- The refunds as plain transfers from `WanCscPrecompileAddr`, none of them skipped. -/
def transferRefunds (b : Address → ℕ) (refunds : List RefundInfo) : Address → ℕ :=
  refunds.foldl (fun b r => Transfer b WanCscPrecompileAddr r.Addr r.Amount) b

/-- While `WanCscPrecompileAddr` holds the sum of the refunds, no `coreTransfer` of them is
skipped, and the account loses at most that sum. -/
lemma payRefunds_of_funded {b : Address → ℕ} {refunds : List RefundInfo}
    (h : (refunds.map (·.Amount)).sum ≤ b WanCscPrecompileAddr) :
    payRefunds b refunds = transferRefunds b refunds ∧
      b WanCscPrecompileAddr ≤
        payRefunds b refunds WanCscPrecompileAddr + (refunds.map (·.Amount)).sum := by
  induction refunds generalizing b with
  | nil => exact ⟨rfl, by simp [payRefunds]⟩
  | cons r refunds ih =>
    rw [List.map_cons, List.sum_cons] at h
    have hpay : CanTransfer b WanCscPrecompileAddr r.Amount = true := by
      simp only [CanTransfer, decide_eq_true_eq]
      omega
    -- after the first transfer the account still holds the rest
    have hb := Transfer_sender_ge r.Addr (show r.Amount ≤ b WanCscPrecompileAddr by omega)
    obtain ⟨ih1, ih2⟩ := ih (show _ ≤ Transfer b WanCscPrecompileAddr r.Addr r.Amount
      WanCscPrecompileAddr by omega)
    have hstep : payRefunds b (r :: refunds) =
        payRefunds (Transfer b WanCscPrecompileAddr r.Addr r.Amount) refunds := by
      simp only [payRefunds, List.foldl_cons, coreTransfer, hpay, if_true]
    refine ⟨by rw [hstep, ih1]; rfl, ?_⟩
    rw [hstep, List.map_cons, List.sum_cons]
    omega

/-- A run from a world whose `WanCscPrecompileAddr` holds what is locked pays its refunds as
plain transfers, and leaves a world where the account still holds what is locked. -/
lemma StakeOutRun_funded (env : StakingEnv) {w : StakingWorld} (epochID : UInt64)
    (h : lockedTotal w.storage.stakers ≤ w.balance WanCscPrecompileAddr) :
    (StakeOutRun env w epochID).1.balance =
        transferRefunds w.balance ((StakeOutRun env w epochID).2.getD []) ∧
      lockedTotal (StakeOutRun env w epochID).1.storage.stakers ≤
        (StakeOutRun env w epochID).1.balance WanCscPrecompileAddr := by
  have htotal := lockedTotal_StakeOutRun env w epochID
  have hsum : (((StakeOutRun env w epochID).2.getD []).map (·.Amount)).sum ≤
      w.balance WanCscPrecompileAddr := by omega
  obtain ⟨hpay, hleft⟩ := payRefunds_of_funded hsum
  rw [StakeOutRun_balance, hpay]
  refine ⟨rfl, ?_⟩
  rw [← hpay]
  omega

/-! ### Runs over a sequence of epochs -/

/-- The stake-out runs of a sequence of epochs: the world after them and every refund they
recorded, in order. -/
def stakeOutRuns (env : StakingEnv) : StakingWorld → List UInt64 → StakingWorld × List RefundInfo :=
  Machine.runOut fun w epochID => ((StakeOutRun env w epochID).1, (StakeOutRun env w epochID).2.getD [])

section Runs

variable (env : StakingEnv)

/-- Along any sequence of runs every locked entry is kept or refunded, once. -/
lemma stakeOutRuns_locked (w : StakingWorld) (epochs : List UInt64) :
    (lockedAll w.storage.stakers : Multiset RefundInfo) =
      (lockedAll (stakeOutRuns env w epochs).1.storage.stakers : Multiset RefundInfo) +
        ((stakeOutRuns env w epochs).2 : Multiset RefundInfo) := by
  exact Machine.runOut_conserve_multiset
    (fun v : StakingWorld => (lockedAll v.storage.stakers : Multiset RefundInfo))
    (fun v e => StakeOutRun_locked env v e) w epochs

/-- Along any sequence of runs from a world whose `WanCscPrecompileAddr` holds what is locked,
the balances change by exactly the recorded refunds, paid as plain transfers. -/
lemma stakeOutRuns_balance {w : StakingWorld} (epochs : List UInt64)
    (h : lockedTotal w.storage.stakers ≤ w.balance WanCscPrecompileAddr) :
    (stakeOutRuns env w epochs).1.balance = transferRefunds w.balance (stakeOutRuns env w epochs).2 := by
  -- the funding of the contract account is the invariant of the induction
  induction epochs generalizing w with
  | nil => rfl
  | cons e epochs ih =>
    obtain ⟨hpay, hfund⟩ := StakeOutRun_funded env e h
    rw [stakeOutRuns, Machine.runOut_cons, ← stakeOutRuns, ih hfund, hpay]
    simp only [transferRefunds, List.foldl_append]

end Runs

/-- The refunds of the epoch processing, over any staker records and any sequence of runs.
Every locked entry is kept or refunded to its own account, once; while `WanCscPrecompileAddr`
holds what is locked, the refunds are paid in full as transfers from it; each run refunds
exactly what is due at its epoch, where a PoW-phase validator and its partners count their lock
from `FirstEpochId + 2` and an expired validator takes its remaining delegators and partners
with it; a run for a processed epoch does nothing, and a run marks its epoch and every older
one processed. -/
theorem stakeOut_refunds_each_entry_once (env : StakingEnv) (w : StakingWorld)
    (epochs : List UInt64) :
    (lockedAll w.storage.stakers : Multiset RefundInfo) =
        (lockedAll (stakeOutRuns env w epochs).1.storage.stakers : Multiset RefundInfo) +
          ((stakeOutRuns env w epochs).2 : Multiset RefundInfo) ∧
      (lockedTotal w.storage.stakers ≤ w.balance WanCscPrecompileAddr →
        (stakeOutRuns env w epochs).1.balance =
          transferRefunds w.balance (stakeOutRuns env w epochs).2) ∧
      (∀ (v : StakingWorld) (epochID : UInt64), StakeoutIsFinished v epochID = false →
        ((StakeOutRun env v epochID).2.getD [] : Multiset RefundInfo) =
          (v.storage.stakers.records.flatMap (dueRefunds env.FirstEpochId epochID) :
            List RefundInfo)) ∧
      (∀ (v : StakingWorld) (epochID : UInt64), StakeoutIsFinished v epochID = true →
        StakeOutRun env v epochID = (v, none)) ∧
      (∀ (v : StakingWorld) (epochID e : UInt64), epochID.toNat ≤ 2 ^ 63 → e ≤ epochID →
        StakeoutIsFinished (StakeOutRun env v epochID).1 e = true) :=
  ⟨stakeOutRuns_locked env w epochs, stakeOutRuns_balance env epochs,
    StakeOutRun_refunds_due env, StakeOutRun_of_finished env,
    fun v _ _ h he => StakeoutIsFinished_StakeOutRun env v h he⟩

/-! ### A validator of the PoW phase -/

/-- A validator registered in the PoW phase (`StakingEpoch = 0`) at address 1 by account 2,
with 50,000 WAN locked for 7 epochs. -/
def powValidator : StakerInfo :=
  ⟨1, [], [], 50000 * ether, 0, 7, 0, 2, 0, 0, [], []⟩

/-- A configuration whose first PoS epoch is 10. -/
def powEnv : StakingEnv := ⟨10, 0, fun _ => none, fun _ => false⟩

/-- A world holding `powValidator`, with its stake in `WanCscPrecompileAddr`. -/
def powWorld : StakingWorld :=
  ⟨fun a => if a = WanCscPrecompileAddr then 50000 * ether else 0,
    ⟨⟨[powValidator], List.nodup_singleton _, by decide⟩, fun _ => none, []⟩⟩

/-- At epoch 13 the validator's `StakingEpoch + LockEpochs` has passed, yet the run refunds
nothing: it moves the start to `FirstEpochId + 2 = 12` and keeps the record. -/
theorem stakeOut_keeps_expired_pow_validator :
    powValidator.StakingEpoch + powValidator.LockEpochs ≤ 13 ∧
      (StakeOutRun powEnv powWorld 13).2 = some [] ∧
      (StakeOutRun powEnv powWorld 13).1.storage.stakers.records =
        [{ powValidator with StakingEpoch := 12 }] := by
  obtain ⟨h1, -, h3, -⟩ := StakeOutRun_of_not_finished powEnv powWorld 13 (by decide)
  rw [h1, h3]
  decide

theorem stakeOut_refunds_each_entry_once_pow :
    lockedTotal powWorld.storage.stakers ≤ powWorld.balance WanCscPrecompileAddr ∧
      (stakeOutRuns powEnv powWorld [13, 20]).1.balance =
        transferRefunds powWorld.balance (stakeOutRuns powEnv powWorld [13, 20]).2 := by
  have hfund : lockedTotal powWorld.storage.stakers ≤ powWorld.balance WanCscPrecompileAddr := by
    decide
  exact ⟨hfund, (stakeOut_refunds_each_entry_once powEnv powWorld [13, 20]).2.1 hfund⟩

end Wanchain.Staking
