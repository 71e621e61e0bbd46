import Mathlib.Algebra.Order.BigOperators.Group.List
import Wanchain.Staking.StakeOut

/-!
# The staker record invariant

Every staker record holds at most `maxTotalStake` in all (own amount, delegations and
partners), and its delegators and its partners have pairwise distinct addresses. Each method
of the contract re-establishes the bound in its own way (`PartnerIn` adds the old partner
amounts and the value before it changes the caller's entry, `StakeAppend` adds the value before
it checks, `DelegateIn` checks delegations against the validator's and partners' amount), and
adds an entry for the caller only when it has none; the epoch processing only removes entries
and records. A failed call is reverted by `EVM.Call`.

The system is the staking world under calls of the contract and the two epoch processings;
the invariant holds along every run of it from a world that satisfies it.
-/

namespace Wanchain

/-- The record invariant of a validator. -/
structure StakerInfo.Valid (s : StakerInfo) : Prop where
  total_le : s.totalAmount ≤ Staking.maxTotalStake
  clients_nodup : KeyedList.NodupKeys ClientInfo.Address s.Clients
  partners_nodup : KeyedList.NodupKeys PartnerInfo.Address s.Partners

open Staking in
section
/-! ### Records with fewer entries -/

@[simp] lemma clientRefund_Addr (c : ClientInfo) : (clientRefund c).Addr = c.Address := rfl
@[simp] lemma clientRefund_Amount (c : ClientInfo) : (clientRefund c).Amount = c.Amount := rfl
@[simp] lemma partnerRefund_Addr (p : PartnerInfo) : (partnerRefund p).Addr = p.Address := rfl
@[simp] lemma partnerRefund_Amount (p : PartnerInfo) : (partnerRefund p).Amount = p.Amount := rfl

lemma clientsAmount_eq (s : StakerInfo) :
    s.clientsAmount = ((s.Clients.map clientRefund).map (·.Amount)).sum := by
  simp [StakerInfo.clientsAmount, Function.comp_def]

lemma partnersAmount_eq (s : StakerInfo) :
    s.partnersAmount = ((s.Partners.map partnerRefund).map (·.Amount)).sum := by
  simp [StakerInfo.partnersAmount, Function.comp_def]

/-- A record whose own amount is no larger and whose delegations and partners are among
those of a valid record, in order, is valid. -/
lemma StakerInfo.Valid.of_sublist {s r : StakerInfo} (hs : s.Valid) (hA : r.Amount ≤ s.Amount)
    (hC : (r.Clients.map clientRefund).Sublist (s.Clients.map clientRefund))
    (hP : (r.Partners.map partnerRefund).Sublist (s.Partners.map partnerRefund)) :
    r.Valid := by
  have hCs : r.clientsAmount ≤ s.clientsAmount := by
    rw [clientsAmount_eq, clientsAmount_eq]
    exact (hC.map _).sum_le_sum fun _ _ => Nat.zero_le _
  have hPs : r.partnersAmount ≤ s.partnersAmount := by
    rw [partnersAmount_eq, partnersAmount_eq]
    exact (hP.map _).sum_le_sum fun _ _ => Nat.zero_le _
  refine ⟨?_, ?_, ?_⟩
  · have := hs.total_le
    unfold StakerInfo.totalAmount at this ⊢
    omega
  · have hkeys := (hC.map RefundInfo.Addr).nodup (by
      simpa [KeyedList.NodupKeys, Function.comp_def] using hs.clients_nodup)
    simpa [KeyedList.NodupKeys, Function.comp_def] using hkeys
  · have hkeys := (hP.map RefundInfo.Addr).nodup (by
      simpa [KeyedList.NodupKeys, Function.comp_def] using hs.partners_nodup)
    simpa [KeyedList.NodupKeys, Function.comp_def] using hkeys

/-- A change that keeps the amount, the delegations and the partners keeps the invariant. -/
lemma StakerInfo.Valid.of_same {s r : StakerInfo} (hs : s.Valid) (hA : r.Amount = s.Amount)
    (hC : r.Clients = s.Clients) (hP : r.Partners = s.Partners) : r.Valid :=
  hs.of_sublist hA.le (by rw [hC]) (by rw [hP])

end

namespace Staking

open KeyedList

/-- Every stored record satisfies the invariant. -/
def StakingStorage.Valid (st : StakingStorage) : Prop := ∀ r ∈ st.stakers.records, r.Valid

/-- What happens to the staking world: a transaction calling the contract, or the processing
of an epoch by `Pluto.Finalize`. -/
inductive StakingEvent
  | call (depth : ℕ) (ctx : CallCtx) (c : StakingCall)
  | stakeOut (epochID : UInt64)
  | clean (epochID : UInt64)

/-- One event of the staking world. -/
def stakingStep (env : StakingEnv) (isInactiveValidator : Address → UInt64 → Bool)
    (w : StakingWorld) : StakingEvent → StakingWorld
  | .call depth ctx c => (stakingCall env depth ctx c w).1
  | .stakeOut epochID => (StakeOutRun env w epochID).1
  | .clean epochID => CleanInactiveValidator isInactiveValidator w epochID

/-! ### The methods -/

section Methods

variable {env : StakingEnv} {ctx : CallCtx} {s r : StakerInfo}

lemma newStakerInfo_valid (info : StakeInParam) (a : Address) (h : ctx.Value ≤ maxTotalStake) :
    (newStakerInfo env ctx info a).Valid where
  total_le := by simpa [newStakerInfo, StakerInfo.totalAmount, StakerInfo.clientsAmount,
    StakerInfo.partnersAmount] using h
  clients_nodup := nodupKeys_nil
  partners_nodup := nodupKeys_nil

lemma stakeUpdateRecord_valid {LockEpochs : ℕ} (h : stakeUpdateRecord ctx s LockEpochs = .ok r)
    (hs : s.Valid) : r.Valid := by
  unfold stakeUpdateRecord at h
  split_ifs at h
  cases h
  exact hs.of_same rfl rfl rfl

lemma stakeAppendRecord_valid (h : stakeAppendRecord env ctx s = .ok r) (hs : s.Valid) :
    r.Valid := by
  unfold stakeAppendRecord at h
  dsimp only at h
  split_ifs at h with _ _ htotal <;> cases h <;>
  · refine ⟨?_, hs.clients_nodup, hs.partners_nodup⟩
    simp only [StakerInfo.totalAmount, StakerInfo.clientsAmount, StakerInfo.partnersAmount,
      gt_iff_lt, not_lt] at htotal ⊢
    exact htotal

/-- The caller's partner entry, when `PartnerIn` finds one, grows by the value, so the record's
partners grow by the value. -/
lemma partnersAmount_modifyKey (caller : Address) (value weight : ℕ) (Renewal : Bool)
    (hs : NodupKeys PartnerInfo.Address s.Partners)
    (hfound : s.Partners.any (·.Address = caller) = true) :
    ((modifyKey PartnerInfo.Address caller (partnerAdd value weight Renewal) s.Partners).map
      (·.Amount)).sum = s.partnersAmount + value := by
  obtain ⟨x, hx, hxa⟩ := List.any_eq_true.mp hfound
  have := sum_modifyKey (·.Amount) (partnerAdd value weight Renewal) hs hx (of_decide_eq_true hxa)
  simp only [partnerAdd] at this
  unfold StakerInfo.partnersAmount
  omega

lemma partnerInRecord_valid {Renewal : Bool} (h : partnerInRecord env ctx s Renewal = .ok r)
    (hs : s.Valid) : r.Valid := by
  unfold partnerInRecord at h
  dsimp only at h
  split_ifs at h with _ _ htotal hfound <;> cases h
  · -- the caller was a partner: its entry grows, the keys stay
    generalize (CalLocktimeWeight (realLockEpoch s ctx.eidNow).toUInt64).toNat = weight
    refine ⟨?_, hs.clients_nodup, hs.partners_nodup.modifyKey ctx.CallerAddress
      (partnerAdd ctx.Value weight Renewal) (by intro y h; exact h)⟩
    have hsum := partnersAmount_modifyKey ctx.CallerAddress ctx.Value weight Renewal
      hs.partners_nodup hfound
    simp only [StakerInfo.totalAmount, StakerInfo.partnersAmount, StakerInfo.clientsAmount]
      at hsum htotal ⊢
    omega
  -- a new partner is appended, whatever its start epoch
  all_goals
    have hnew : ∀ y ∈ s.Partners, y.Address ≠ ctx.CallerAddress := by
      simpa using hfound
    refine ⟨?_, hs.clients_nodup, hs.partners_nodup.append_singleton hnew⟩
    simp only [StakerInfo.totalAmount, StakerInfo.partnersAmount, StakerInfo.clientsAmount,
      List.map_append, List.sum_append, List.map_singleton, List.sum_singleton] at htotal ⊢
    omega

lemma delegateInRecord_valid (h : delegateInRecord ctx s = .ok r) (hs : s.Valid) : r.Valid := by
  unfold delegateInRecord at h
  dsimp only at h
  split_ifs at h with _ _ _ htotal _ hfound <;> cases h
  · -- the caller had a delegation: it grows, the keys stay
    obtain ⟨x, hx, hxa⟩ := List.any_eq_true.mp hfound
    generalize (CalLocktimeWeight (UInt64.ofNat PSMinEpochNum)).toNat = weight
    have hsum := sum_modifyKey (·.Amount) (clientAdd ctx.Value weight)
      hs.clients_nodup hx (of_decide_eq_true hxa)
    refine ⟨?_, hs.clients_nodup.modifyKey ctx.CallerAddress (clientAdd ctx.Value weight)
      (by intro y h; exact h), hs.partners_nodup⟩
    simp only [clientAdd] at hsum
    simp only [StakerInfo.totalAmount, StakerInfo.clientsAmount, StakerInfo.partnersAmount]
      at htotal ⊢
    omega
  · -- a new delegation is appended
    have hnew : ∀ y ∈ s.Clients, y.Address ≠ ctx.CallerAddress := by
      simpa using hfound
    refine ⟨?_, hs.clients_nodup.append_singleton hnew, hs.partners_nodup⟩
    simp only [StakerInfo.totalAmount, StakerInfo.clientsAmount, StakerInfo.partnersAmount,
      List.map_append, List.sum_append, List.map_singleton, List.sum_singleton] at htotal ⊢
    omega

/-- `DelegateOut` changes a quit epoch and nothing the invariant reads. -/
lemma delegateOutClients_refunds {caller : Address} {quitEpoch : UInt64} :
    ∀ {l l' : List ClientInfo}, delegateOutClients caller quitEpoch l = .ok l' →
      l'.map clientRefund = l.map clientRefund
  | [], _, h => by cases h
  | c :: cs, l', h => by
    unfold delegateOutClients at h
    split_ifs at h
    · cases h
      rfl
    · obtain ⟨cs', hcs, rfl⟩ := Machine.map_ok h
      simp [delegateOutClients_refunds hcs]

end Methods

/-! ### Reads and writes of the store -/

section Store

variable {w w' : StakingWorld}

lemma getStakeInfo_mem {a : Address} {r : StakerInfo} (h : getStakeInfo w a = .ok r) :
    r ∈ w.storage.stakers.records := by
  unfold getStakeInfo at h
  split at h
  · cases h
  · cases h
    exact (StakerStore.get_eq_some ‹_›).1

lemma saveStakeInfo_valid {r : StakerInfo} (h : saveStakeInfo w r = .ok w')
    (hw : w.storage.Valid) (hr : r.Valid) : w'.storage.Valid := by
  unfold saveStakeInfo at h
  split_ifs at h with h0
  cases h
  intro y hy
  rcases StakerStore.mem_save h0 hy with hy | rfl
  · exact hw y hy
  · exact hr

lemma saveStakeFeeRate_stakers {f : UpdateFeeRate} {a : Address}
    (h : saveStakeFeeRate w f a = .ok w') : w'.storage.stakers = w.storage.stakers := by
  unfold saveStakeFeeRate at h
  split_ifs at h
  cases h
  rfl

lemma saveStakeFeeRate_valid {f : UpdateFeeRate} {a : Address}
    (h : saveStakeFeeRate w f a = .ok w') (hw : w.storage.Valid) : w'.storage.Valid := by
  unfold StakingStorage.Valid
  rw [saveStakeFeeRate_stakers h]
  exact hw

/-- A method that reads a record, computes a new one that keeps the invariant, and writes it,
keeps the invariant of the store. -/
lemma readModifyWrite_valid {a : Address} {f : StakerInfo → Except String StakerInfo}
    (hf : ∀ s r, f s = .ok r → s.Valid → r.Valid)
    (h : (do let s ← getStakeInfo w a; let r ← f s; saveStakeInfo w r) = .ok w')
    (hw : w.storage.Valid) : w'.storage.Valid := by
  obtain ⟨s, hs, h⟩ := Machine.bind_ok h
  obtain ⟨r, hr, h⟩ := Machine.bind_ok h
  exact saveStakeInfo_valid h hw (hf s r hr (hw s (getStakeInfo_mem hs)))

end Store

/-! ### One event -/

/-- Every method of the contract keeps the invariant. -/
theorem PosStaking_Run_valid {env : StakingEnv} {ctx : CallCtx} {w w' : StakingWorld}
    {c : StakingCall} (h : PosStaking.Run env ctx w c = .ok w') (hw : w.storage.Valid) :
    w'.storage.Valid := by
  cases c with
  | stakeRegister info MaxFeeRate =>
    obtain ⟨a, -, h⟩ := Machine.bind_ok h
    obtain ⟨⟨s, w1⟩, hin, h⟩ := Machine.bind_ok h
    unfold doStakeIn at hin
    split_ifs at hin with hlow hhigh
    obtain ⟨w2, hsave, hw2⟩ := Machine.map_ok hin
    cases hw2
    exact saveStakeFeeRate_valid h
      (saveStakeInfo_valid hsave hw (newStakerInfo_valid info a (not_lt.mp hhigh)))
  | stakeIn info =>
    obtain ⟨a, -, h⟩ := Machine.bind_ok h
    obtain ⟨⟨s, w1⟩, hin, h⟩ := Machine.bind_ok h
    cases h
    unfold doStakeIn at hin
    split_ifs at hin with hlow hhigh
    obtain ⟨w2, hsave, hw2⟩ := Machine.map_ok hin
    cases hw2
    exact saveStakeInfo_valid hsave hw (newStakerInfo_valid info a (not_lt.mp hhigh))
  | stakeUpdate Addr LockEpochs =>
    obtain ⟨-, -, h⟩ := Machine.bind_ok h
    exact readModifyWrite_valid (fun _ _ => stakeUpdateRecord_valid) h hw
  | stakeAppend addr => exact readModifyWrite_valid (fun _ _ => stakeAppendRecord_valid) h hw
  | partnerIn Addr Renewal => exact readModifyWrite_valid (fun _ _ => partnerInRecord_valid) h hw
  | delegateIn addr => exact readModifyWrite_valid (fun _ _ => delegateInRecord_valid) h hw
  | delegateOut addr =>
    obtain ⟨s, hs, h⟩ := Machine.bind_ok h
    obtain ⟨clients, hcl, h⟩ := Machine.bind_ok h
    refine saveStakeInfo_valid h hw ((hw s (getStakeInfo_mem hs)).of_sublist le_rfl ?_ ?_)
    · rw [delegateOutClients_refunds hcl]
    · exact List.Sublist.refl _
  | stakeUpdateFeeRate Addr FeeRate =>
    obtain ⟨-, -, h⟩ := Machine.bind_ok h
    obtain ⟨s, hs, h⟩ := Machine.bind_ok h
    obtain ⟨fee, -, h⟩ := Machine.bind_ok h
    obtain ⟨w1, hsave, h⟩ := Machine.bind_ok h
    exact saveStakeFeeRate_valid h
      (saveStakeInfo_valid hsave hw ((hw s (getStakeInfo_mem hs)).of_same rfl rfl rfl))

/-- A transaction keeps the invariant, whether the call succeeds or is reverted. -/
theorem stakingCall_valid (env : StakingEnv) (depth : ℕ) (ctx : CallCtx) (c : StakingCall)
    {w : StakingWorld} (hw : w.storage.Valid) : (stakingCall env depth ctx c w).1.storage.Valid := by
  rcases Call_cases (fun w => PosStaking.Run env ctx w c) depth ctx.CallerAddress
    WanCscPrecompileAddr ctx.Value w with ⟨e, he⟩ | ⟨w2, -, hrun, hw2⟩
  · rw [stakingCall, he]
    exact hw
  · rw [stakingCall, hw2]
    -- the value transfer moves balances only
    have hstorage : (valueTransfer ctx.CallerAddress WanCscPrecompileAddr ctx.Value w).storage =
        w.storage := by
      unfold valueTransfer
      split_ifs <;> rfl
    exact PosStaking_Run_valid hrun (hstorage ▸ hw)

/-- The record a stake-out run leaves in a slot keeps the invariant. -/
lemma newRecord_valid {FirstEpochId epochID : UInt64} {s y : StakerInfo}
    (h : newRecord FirstEpochId epochID s = some y) (hs : s.Valid) : y.Valid := by
  rcases newRecord_cases h with rfl | rfl
  · exact hs
  · refine hs.of_sublist (by simp) ?_ ?_
    · simpa using (List.filter_sublist).map clientRefund
    · rw [renewIf_partners_refund, keptRecord_partners_refund,
        ← powStart_partners_refund FirstEpochId s]
      exact (List.filter_sublist).map partnerRefund

theorem StakeOutRun_valid (env : StakingEnv) {w : StakingWorld} (epochID : UInt64)
    (hw : w.storage.Valid) : (StakeOutRun env w epochID).1.storage.Valid := by
  cases hfin : StakeoutIsFinished w epochID
  · intro y hy
    rw [(StakeOutRun_of_not_finished env w epochID hfin).2.2.1, List.mem_filterMap] at hy
    obtain ⟨x, hx, hxy⟩ := hy
    exact newRecord_valid hxy (hw x hx)
  · rw [StakeOutRun_of_finished env w epochID hfin]
    exact hw

theorem CleanInactiveValidator_valid (isInactiveValidator : Address → UInt64 → Bool)
    {w : StakingWorld} (epochID : UInt64) (hw : w.storage.Valid) :
    (CleanInactiveValidator isInactiveValidator w epochID).storage.Valid := by
  intro y hy
  rw [CleanInactiveValidator_records, List.mem_filterMap] at hy
  obtain ⟨x, hx, hxy⟩ := hy
  split_ifs at hxy
  cases hxy
  exact hw _ hx

/-- Every event keeps the invariant. -/
theorem stakingStep_valid (env : StakingEnv) (isInactiveValidator : Address → UInt64 → Bool)
    {w : StakingWorld} (ev : StakingEvent) (hw : w.storage.Valid) :
    (stakingStep env isInactiveValidator w ev).storage.Valid := by
  cases ev with
  | call depth ctx c => exact stakingCall_valid env depth ctx c hw
  | stakeOut epochID => exact StakeOutRun_valid env epochID hw
  | clean epochID => exact CleanInactiveValidator_valid isInactiveValidator epochID hw

/-- In every world reached from one whose staker records satisfy the invariant, by any sequence
of contract calls and epoch processings, every record satisfies it; and a failed call leaves
the world as it was. -/
theorem stakerRecords_valid_reachable (env : StakingEnv)
    (isInactiveValidator : Address → UInt64 → Bool) :
    (∀ w : StakingWorld, w.storage.Valid → ∀ evs : List StakingEvent,
      (Machine.run (stakingStep env isInactiveValidator) w evs).storage.Valid) ∧
    (∀ (w : StakingWorld) (depth : ℕ) (ctx : CallCtx) (c : StakingCall) (e : String),
      (stakingCall env depth ctx c w).2 = .error e → (stakingCall env depth ctx c w).1 = w) := by
  refine ⟨fun w hw evs => ?_, fun w depth ctx c e h => Call_error h⟩
  have hstep : ∀ (v : StakingWorld) (ev : StakingEvent), v.storage.Valid →
      (stakingStep env isInactiveValidator v ev).storage.Valid :=
    fun _ ev hv => stakingStep_valid env isInactiveValidator ev hv
  exact Machine.run_invariant hstep hw evs

/-- A genesis validator of 50,000 WAN at address 1, staked by account 2, locked for 7 epochs. -/
def genesisStaker : StakerInfo :=
  ⟨1, [], [], 50000 * ether, 0, 7, 7, 2, 0, 0, [], []⟩

/-- A world holding the genesis validator, 60,000 WAN at account 3 and 200 WAN at account 4. -/
def genesisWorld : StakingWorld :=
  ⟨fun a => if a = 3 then 60000 * ether else if a = 4 then 200 * ether else 0,
    ⟨⟨[genesisStaker], List.nodup_singleton _, by decide⟩, fun _ => none, []⟩⟩

/-- A configuration with `FirstEpochId = 1` in which the key `[5]` has the address 5 and every
`bn256` key is valid. -/
def keyEnv : StakingEnv := ⟨1, 0, fun b => if b = [5] then some 5 else none, fun _ => true⟩

/-- In epoch 2, account 3 stakes 50,000 WAN as validator 5, locked for 10 epochs at fee rate
100, and account 4 delegates 150 WAN to it; then epochs 10 and 11 are processed. -/
def stakingEvents : List StakingEvent :=
  [.call 0 ⟨3, 50000 * ether, 2⟩ (.stakeIn ⟨[5], [6], 10, 100⟩),
    .call 0 ⟨4, 150 * ether, 2⟩ (.delegateIn 5), .stakeOut 10, .clean 11]

/-- The stake and the delegation both succeed, and every record stays valid. -/
theorem stakerRecords_valid_reachable_genesis :
    genesisWorld.storage.Valid ∧
      (stakingCall keyEnv 0 ⟨3, 50000 * ether, 2⟩ (.stakeIn ⟨[5], [6], 10, 100⟩) genesisWorld).2 =
        .ok () ∧
      (stakingCall keyEnv 0 ⟨4, 150 * ether, 2⟩ (.delegateIn 5) (stakingCall keyEnv 0
        ⟨3, 50000 * ether, 2⟩ (.stakeIn ⟨[5], [6], 10, 100⟩) genesisWorld).1).2 = .ok () ∧
      (Machine.run (stakingStep keyEnv fun _ _ => true) genesisWorld stakingEvents).storage.Valid := by
  have hgen : genesisWorld.storage.Valid := by
    intro r hr
    simp only [genesisWorld, List.mem_singleton] at hr
    subst hr
    exact ⟨by decide, List.nodup_nil, List.nodup_nil⟩
  exact ⟨hgen, by decide +kernel, by decide +kernel,
    (stakerRecords_valid_reachable keyEnv fun _ _ => true).1 genesisWorld hgen _⟩

end Staking

end Wanchain
