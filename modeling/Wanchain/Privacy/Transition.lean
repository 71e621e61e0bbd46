import Wanchain.Privacy.Contracts

/-!
# Privacy transactions

The privacy branch of `StateTransition.TransitionDb` in `core/state_transition.go`, with
`FetchPrivacyTxInfo` and `PreProcessPrivacyTx`. A privacy transaction pays its gas with a stamp:
its data (`combine`) is a ring signature over stamp OTAs of one balance together with the data
of the call it makes. `PreProcessPrivacyTx` records the stamp's key image as spent with the
stamp balance, which buys `StampBalance / gasPrice` gas; all of it is charged, and the fee
`usedGas * gasPrice` goes to the coinbase before PoS and to the gas pool of the epoch after.

When the key image is already spent, `PreProcessPrivacyTx` returns no error but zero gas, and
the transaction then fails on its intrinsic gas. A transaction that fails is not applied: the
miner reverts to the snapshot it took before it.

The call a privacy transaction makes is modelled for the two privacy contracts and for an
account without code; the model of a transaction is for a call, not a contract creation.
-/

namespace Wanchain.Privacy

/-- `params.TxGas`. -/
def TxGas : ℕ := 21000

/-- `params.TxGasContractCreation`. -/
def TxGasContractCreation : ℕ := 53000

/-- `params.TxDataZeroGas`. -/
def TxDataZeroGas : ℕ := 4

/-- `params.TxDataNonZeroGas`. -/
def TxDataNonZeroGas : ℕ := 68

/-- `vm.IsPosPrecompiledAddr`: the slot-leader, incentive and random-beacon contracts. -/
def IsPosPrecompiledAddr : Option Address → Bool
  | none => false
  | some addr => addr = 600 || addr = 606 || addr = 610

/-- `IntrinsicGas` after Homestead: the base cost and the cost of the data, a tenth of it for
the PoS contracts. -/
def IntrinsicGas (data : Bytes) (toAddr : Option Address) : ℕ :=
  let igas := if toAddr = none then TxGasContractCreation else TxGas
  let nz := (data.filter (· ≠ 0)).length
  let igas :=
    if data.length > 0 then igas + nz * TxDataNonZeroGas + (data.length - nz) * TxDataZeroGas
    else igas
  if IsPosPrecompiledAddr toAddr then igas / 10 else igas

/-- Every transaction costs some intrinsic gas. -/
lemma IntrinsicGas_pos (data : Bytes) (toAddr : Option Address) :
    0 < IntrinsicGas data toAddr := by
  unfold IntrinsicGas
  split_ifs <;> simp only [TxGas, TxGasContractCreation] <;> omega

/-- `PrivacyTxInfo`: the checked ring signature of a privacy transaction, the data of its call,
the stamp balance and the gas it buys. -/
structure PrivacyTxInfo (Pt : Type) extends RingSigned Pt where
  CallData : Bytes
  StampBalance : ℕ
  StampTotalGas : ℕ
  GasLeftSubRingSign : ℕ

/-- What a privacy transaction's block reads: the coinbase, whether PoS is active, and the epoch
of the block's difficulty. -/
structure BlockCtx where
  Coinbase : Address
  IsPosActive : Bool
  epochID : UInt64

/-- What `TransitionDb` reads of a privacy transaction's `Message`. -/
structure Message where
  From : Address
  To : Address
  GasPrice : ℕ
  Value : ℕ
  Data : Bytes

/-- `GasPool.SubGas`. -/
def SubGas (gp amount : ℕ) : Except String ℕ :=
  if gp < amount then .error "gas limit reached" else .ok (gp - amount)

/-- `getEpochGas`: the gas fees collected for an epoch. -/
def getEpochGas (w : PrivacyWorld) (epochID : UInt64) : ℕ :=
  setBytes (w.storage.epochGas epochID)

/-- `AddEpochGas`, with the incentive open. -/
def AddEpochGas (w : PrivacyWorld) (gasValue : ℕ) (epochID : UInt64) : PrivacyWorld :=
  { w with storage := { w.storage with
    epochGas := Function.update w.storage.epochGas epochID
      (bigBytes (getEpochGas w epochID + gasValue)) } }

/-- The fee of a transaction: to the coinbase before PoS, to the gas pool of the epoch after. -/
def payGasFee (ctx : BlockCtx) (fee : ℕ) (w : PrivacyWorld) : PrivacyWorld :=
  if !ctx.IsPosActive then AddBalance w ctx.Coinbase fee else AddEpochGas w fee ctx.epochID

/-- `SetNonce(sender, GetNonce(sender) + 1)`. -/
def incNonce (w : PrivacyWorld) (addr : Address) : PrivacyWorld :=
  { w with storage := { w.storage with
    nonce := Function.update w.storage.nonce addr (w.storage.nonce addr + 1) } }

@[simp] lemma incNonce_ota (w : PrivacyWorld) (addr : Address) :
    (incNonce w addr).storage.ota = w.storage.ota := rfl
@[simp] lemma incNonce_epochGas (w : PrivacyWorld) (addr : Address) :
    (incNonce w addr).storage.epochGas = w.storage.epochGas := rfl
@[simp] lemma incNonce_balance (w : PrivacyWorld) (addr : Address) :
    (incNonce w addr).balance = w.balance := rfl
@[simp] lemma setOta_epochGas (w : PrivacyWorld) (ota : OtaStorage) :
    (w.setOta ota).storage.epochGas = w.storage.epochGas := rfl

/-- The fee goes to the coinbase or to the gas pool of the epoch, and nowhere else. -/
lemma payGasFee_total (ctx : BlockCtx) (fee : ℕ) (w : PrivacyWorld) :
    privacyTotal (payGasFee ctx fee w) + getEpochGas (payGasFee ctx fee w) ctx.epochID =
        privacyTotal w + getEpochGas w ctx.epochID + fee ∧
      (payGasFee ctx fee w).storage.ota = w.storage.ota := by
  unfold payGasFee
  split_ifs
  · refine ⟨?_, rfl⟩
    rw [privacyTotal_AddBalance]
    simp only [getEpochGas, AddBalance]
    ring
  · refine ⟨?_, rfl⟩
    have htotal : privacyTotal (AddEpochGas w fee ctx.epochID) = privacyTotal w := rfl
    have hgas : getEpochGas (AddEpochGas w fee ctx.epochID) ctx.epochID =
        getEpochGas w ctx.epochID + fee := by
      simp [getEpochGas, AddEpochGas]
    rw [htotal, hgas]
    push_cast
    ring

/-- Under PoS the fee goes to the gas pool of the epoch and no balance moves. -/
lemma payGasFee_pos {ctx : BlockCtx} (hpos : ctx.IsPosActive = true) (fee : ℕ)
    (w : PrivacyWorld) :
    (payGasFee ctx fee w).balance = w.balance ∧
      getEpochGas (payGasFee ctx fee w) ctx.epochID = getEpochGas w ctx.epochID + fee := by
  simp [payGasFee, hpos, AddEpochGas, getEpochGas]

/-- Before PoS the fee goes to the coinbase and the storage is left as it was. -/
lemma payGasFee_pow {ctx : BlockCtx} (hpow : ctx.IsPosActive = false) (fee : ℕ)
    (w : PrivacyWorld) :
    (payGasFee ctx fee w).balance =
        Function.update w.balance ctx.Coinbase (w.balance ctx.Coinbase + fee) ∧
      (payGasFee ctx fee w).storage = w.storage := by
  simp [payGasFee, hpow, AddBalance]

section Transition

variable {Pt : Type} (env : PrivacyEnv Pt)

/-- `FetchPrivacyTxInfo`: the ring signature of the data, over stamps of one balance, which
buys `StampBalance / gasPrice` gas; that gas must cover the ring check and the image slot.
A zero gas price makes `big.Int.Div` panic. -/
def FetchPrivacyTxInfo (st : OtaStorage) (hashInput input : Bytes) (gasPrice : ℕ) :
    Except String (PrivacyTxInfo Pt) :=
  if input.length < 4 then .error "invalid ring signed info"
  else do
    let (RingSignedData, CxtCallParams) ← env.unpackCombine (input.drop 4)
    let ringSignInfo ← FetchRingSignInfo env st hashInput RingSignedData
    if gasPrice = 0 then .error "division by zero"
    else
      let StampTotalGas := ringSignInfo.OTABalance / gasPrice
      if StampTotalGas ≥ 2 ^ 64 then .error "out of gas"
      else
        let preSubGas := RequiredGasPerMixPub * ringSignInfo.PublicKeys.length + SstoreSetGas
        if StampTotalGas < preSubGas then .error "out of gas"
        else pure ⟨ringSignInfo.toRingSigned, CxtCallParams, ringSignInfo.OTABalance,
          StampTotalGas, StampTotalGas - preSubGas⟩

/-- `PreProcessPrivacyTx`: the new OTA storage, the data of the call, the gas bought and the
gas left for the call. A spent key image gives no error and no gas. -/
def PreProcessPrivacyTx (st : OtaStorage) (hashInput input : Bytes) (gasPrice txValue : ℕ) :
    Except String (OtaStorage × Bytes × ℕ × ℕ) :=
  if txValue ≠ 0 then .error "invalid privacy transaction value"
  else do
    let info ← FetchPrivacyTxInfo env st hashInput input gasPrice
    let kix := env.FromECDSAPub info.KeyImage
    match CheckOTAImageExist st kix with
    | .error e => .error e
    | .ok true => pure (st, [], 0, 0)
    | .ok false =>
      -- the error of `AddOTAImage` is not read; it returns before writing
      let st := match AddOTAImage st kix (bigBytes info.StampBalance) with
        | .ok st' => st'
        | .error _ => st
      pure (st, info.CallData, info.StampTotalGas, info.GasLeftSubRingSign)

/-- The call a privacy transaction makes, at depth 0: into a privacy contract, or to an account
without code, where only the value moves. -/
def innerCall (caller toAddr : Address) (input : Bytes) (gas value : ℕ) (w : PrivacyWorld) :
    PrivacyWorld × Except String Unit :=
  if toAddr = wanCoinPrecompileAddr then callOta env 0 caller .wanCoin input gas value w
  else if toAddr = wanStampPrecompileAddr then callOta env 0 caller .wanStamp input gas value w
  else Call (fun w => .ok w) 0 caller toAddr value w

/-- `TransitionDb` for a privacy transaction: the world after it, what is left of the block's
gas pool, and the gas used. -/
def TransitionDb (ctx : BlockCtx) (msg : Message) (gp : ℕ) (w : PrivacyWorld) :
    Except String (PrivacyWorld × ℕ × ℕ) :=
  let intrinsicGas := IntrinsicGas msg.Data (some msg.To)
  if intrinsicGas ≥ 2 ^ 64 then .error "out of gas"
  else do
    let (ota, pureCallData, totalUseableGas, evmUseableGas) ←
      PreProcessPrivacyTx env w.storage.ota (addressBytes msg.From) msg.Data msg.GasPrice
        msg.Value
    let gp ← SubGas gp totalUseableGas
    if evmUseableGas < intrinsicGas then .error "out of gas"
    else
      let r := innerCall env msg.From msg.To pureCallData (evmUseableGas - intrinsicGas) msg.Value
        (incNonce (w.setOta ota) msg.From)
      match r.2 with
      | .error "insufficient balance for transfer" => .error "insufficient balance for transfer"
      | _ => pure (payGasFee ctx (totalUseableGas * msg.GasPrice) r.1, gp, totalUseableGas)

/-- The key image of the stamp a privacy transaction's data spends. -/
def stampImage (data : Bytes) : Option Bytes :=
  if data.length < 4 then none
  else
    match env.unpackCombine (data.drop 4) with
    | .error _ => none
    | .ok (RingSignedData, _) =>
      (env.DecodeRingSignOut RingSignedData).map fun rs => env.FromECDSAPub rs.KeyImage

/-! ### What one transaction does -/

/-- A fetched privacy transaction carries the stamp image of its data, a stamp balance that is
not zero, and buys `StampBalance / gasPrice` gas, of which the call gets a part. -/
lemma FetchPrivacyTxInfo_ok {st : OtaStorage} {hashInput input : Bytes} {gasPrice : ℕ}
    {info : PrivacyTxInfo Pt} (h : FetchPrivacyTxInfo env st hashInput input gasPrice = .ok info) :
    stampImage env input = some (env.FromECDSAPub info.KeyImage) ∧ info.StampBalance ≠ 0 ∧
      info.StampTotalGas = info.StampBalance / gasPrice := by
  unfold FetchPrivacyTxInfo at h
  by_cases hlen : input.length < 4
  · rw [if_pos hlen] at h
    cases h
  rw [if_neg hlen] at h
  obtain ⟨⟨RingSignedData, CxtCallParams⟩, hun, h⟩ := Machine.bind_ok h
  obtain ⟨ringSignInfo, hfetch, h⟩ := Machine.bind_ok h
  -- the gas checks either fail or pass the fetched signature on
  dsimp only at h
  split_ifs at h
  cases h
  obtain ⟨rs, hrs, hinfo, hpos⟩ := FetchRingSignInfo_ok env hfetch
  refine ⟨?_, hpos, rfl⟩
  simp [stampImage, hlen, hun, hrs, hinfo]

/-- What `PreProcessPrivacyTx` does: with a spent stamp image it leaves the storage and gives
the call no gas; otherwise it records the image with the stamp balance and passes on the gas
the stamp bought. -/
lemma PreProcessPrivacyTx_ok {st ota : OtaStorage} {hashInput input callData : Bytes}
    {gasPrice txValue total evm : ℕ}
    (h : PreProcessPrivacyTx env st hashInput input gasPrice txValue = .ok (ota, callData, total, evm)) :
    ∃ info : PrivacyTxInfo Pt, FetchPrivacyTxInfo env st hashInput input gasPrice = .ok info ∧
      ((ImageSpent st (env.FromECDSAPub info.KeyImage) ∧ evm = 0) ∨
        (¬ ImageSpent st (env.FromECDSAPub info.KeyImage) ∧
          ota = st.setImage (env.FromECDSAPub info.KeyImage) (bigBytes info.StampBalance) ∧
          callData = info.CallData ∧ total = info.StampTotalGas ∧
          evm = info.GasLeftSubRingSign)) := by
  unfold PreProcessPrivacyTx at h
  split_ifs at h
  obtain ⟨info, hfetch, h⟩ := Machine.bind_ok h
  refine ⟨info, hfetch, ?_⟩
  dsimp only at h
  split at h
  · cases h
  · rename_i hcheck
    cases h
    exact .inl ⟨(CheckOTAImageExist_ok hcheck).2 rfl, rfl⟩
  · rename_i hcheck
    -- the image and the stamp balance are not empty, so the image is recorded
    have hk := (CheckOTAImageExist_ok hcheck).1
    have hv : bigBytes info.StampBalance ≠ [] :=
      fun h0 => (FetchPrivacyTxInfo_ok env hfetch).2.1 (bigBytes_eq_nil_iff.mp h0)
    simp only [AddOTAImage, hk, hv, or_self, if_false] at h
    cases h
    exact .inr ⟨(CheckOTAImageExist_false hcheck).1, rfl, rfl, rfl, rfl⟩

/-- A privacy transaction that goes through spent a stamp whose image was unspent: the image is
recorded with the stamp balance, the nonce is raised, the call is made with the gas left, and
all the gas the stamp bought is charged. -/
theorem TransitionDb_ok {ctx : BlockCtx} {msg : Message} {gp : ℕ} {w : PrivacyWorld}
    {r : PrivacyWorld × ℕ × ℕ} (h : TransitionDb env ctx msg gp w = .ok r) :
    ∃ info : PrivacyTxInfo Pt,
      FetchPrivacyTxInfo env w.storage.ota (addressBytes msg.From) msg.Data msg.GasPrice =
        .ok info ∧
      ¬ ImageSpent w.storage.ota (env.FromECDSAPub info.KeyImage) ∧
      r.2.2 = info.StampTotalGas ∧
      r.1 = payGasFee ctx (info.StampTotalGas * msg.GasPrice)
        (innerCall env msg.From msg.To info.CallData
          (info.GasLeftSubRingSign - IntrinsicGas msg.Data (some msg.To)) msg.Value
          (incNonce (w.setOta (w.storage.ota.setImage (env.FromECDSAPub info.KeyImage)
            (bigBytes info.StampBalance))) msg.From)).1 := by
  unfold TransitionDb at h
  simp only at h
  split_ifs at h
  obtain ⟨⟨ota, callData, total, evm⟩, hpre, h⟩ := Machine.bind_ok h
  obtain ⟨gp', -, h⟩ := Machine.bind_ok h
  split_ifs at h with hevm
  obtain ⟨info, hfetch, ⟨-, rfl⟩ | ⟨hfree, rfl, rfl, rfl, rfl⟩⟩ := PreProcessPrivacyTx_ok env hpre
  · -- no gas is left for the intrinsic gas
    exact absurd (IntrinsicGas_pos msg.Data (some msg.To)) hevm
  · refine ⟨info, hfetch, hfree, ?_⟩
    split at h
    · cases h
    · cases h
      exact ⟨rfl, rfl⟩

/-- The call of a privacy transaction keeps the value and the gas pools, and every spent key
image stays spent. -/
theorem innerCall_conserve (caller toAddr : Address) (input : Bytes) (gas value : ℕ)
    (w : PrivacyWorld) :
    privacyTotal (innerCall env caller toAddr input gas value w).1 = privacyTotal w ∧
      (∀ k, ImageSpent w.storage.ota k →
        ImageSpent (innerCall env caller toAddr input gas value w).1.storage.ota k) ∧
      (innerCall env caller toAddr input gas value w).1.storage.epochGas = w.storage.epochGas := by
  unfold innerCall
  split_ifs with h1 h2
  · exact callOta_conserve env 0 caller .wanCoin input gas value w
  · exact callOta_conserve env 0 caller .wanStamp input gas value w
  · rcases Call_cases (fun w => .ok w) 0 caller toAddr value w with ⟨e, he⟩ | ⟨w2, hpay, hrun, hw2⟩
    · rw [he]
      exact ⟨rfl, fun _ hk => hk, rfl⟩
    · -- an account without code: only the value moves
      cases hrun
      rw [hw2, valueTransfer, if_pos ⟨h1, h2⟩]
      refine ⟨?_, fun _ hk => hk, rfl⟩
      simp only [privacyTotal]
      rw [← Nat.cast_sum, ← Nat.cast_sum, sum_Transfer hpay]

/-- The world a privacy transaction makes its call in: the stamp's image recorded with the
stamp balance and the sender's nonce raised. -/
lemma stampSpent_total (w : PrivacyWorld) {kix : Bytes} (StampBalance : ℕ) (addr : Address)
    (hfree : ¬ ImageSpent w.storage.ota kix) :
    privacyTotal (incNonce (w.setOta (w.storage.ota.setImage kix (bigBytes StampBalance))) addr) =
      privacyTotal w - StampBalance := by
  have h := GetUnspendOTATotalBalance_setImage (bigBytes StampBalance) hfree
  rw [setBytes_bigBytes] at h
  simp only [privacyTotal, incNonce_balance, setOta_balance, incNonce_ota, setOta_ota, h]
  ring

/-- What a privacy transaction that goes through does to the value. The call is made in `w₁`,
where the stamp's image is recorded: the balances are those before and the unspent OTA total is
lower by the stamp balance. The call, which leaves `w₂`, keeps the value and the gas pools. The
fee, the gas bought times the gas price, goes to the gas pool of the epoch under PoS and to the
coinbase before; what the division by the gas price leaves over is lost. -/
theorem TransitionDb_value {ctx : BlockCtx} {msg : Message} {gp : ℕ} {w : PrivacyWorld}
    {r : PrivacyWorld × ℕ × ℕ} (h : TransitionDb env ctx msg gp w = .ok r) :
    ∃ (info : PrivacyTxInfo Pt) (w₁ w₂ : PrivacyWorld),
      FetchPrivacyTxInfo env w.storage.ota (addressBytes msg.From) msg.Data msg.GasPrice =
        .ok info ∧
      r.2.2 = info.StampBalance / msg.GasPrice ∧
      w₁ = incNonce (w.setOta (w.storage.ota.setImage (env.FromECDSAPub info.KeyImage)
        (bigBytes info.StampBalance))) msg.From ∧
      w₁.balance = w.balance ∧
      GetUnspendOTATotalBalance w₁.storage.ota =
        GetUnspendOTATotalBalance w.storage.ota - info.StampBalance ∧
      w₂ = (innerCall env msg.From msg.To info.CallData
        (info.GasLeftSubRingSign - IntrinsicGas msg.Data (some msg.To)) msg.Value w₁).1 ∧
      privacyTotal w₂ = privacyTotal w₁ ∧ w₂.storage.epochGas = w.storage.epochGas ∧
      r.1.storage.ota = w₂.storage.ota ∧
      (ctx.IsPosActive = true → r.1.balance = w₂.balance ∧
        getEpochGas r.1 ctx.epochID = getEpochGas w₂ ctx.epochID + r.2.2 * msg.GasPrice) ∧
      (ctx.IsPosActive = false →
        r.1.balance = Function.update w₂.balance ctx.Coinbase
          (w₂.balance ctx.Coinbase + r.2.2 * msg.GasPrice) ∧
        r.1.storage.epochGas = w₂.storage.epochGas) ∧
      privacyTotal r.1 + getEpochGas r.1 ctx.epochID + (info.StampBalance % msg.GasPrice : ℕ) =
        privacyTotal w + getEpochGas w ctx.epochID := by
  obtain ⟨info, hfetch, hfree, hused, hr⟩ := TransitionDb_ok env h
  obtain ⟨-, -, hgas⟩ := FetchPrivacyTxInfo_ok env hfetch
  -- the world of the call, where the stamp's image is recorded, and the world the call leaves
  obtain ⟨w₁, hw₁⟩ : ∃ w₁, w₁ = incNonce (w.setOta (w.storage.ota.setImage
      (env.FromECDSAPub info.KeyImage) (bigBytes info.StampBalance))) msg.From := ⟨_, rfl⟩
  obtain ⟨w₂, hw₂⟩ : ∃ w₂, w₂ = (innerCall env msg.From msg.To info.CallData
      (info.GasLeftSubRingSign - IntrinsicGas msg.Data (some msg.To)) msg.Value w₁).1 := ⟨_, rfl⟩
  rw [← hw₁, ← hw₂] at hr
  have hspent : GetUnspendOTATotalBalance w₁.storage.ota =
      GetUnspendOTATotalBalance w.storage.ota - info.StampBalance := by
    rw [hw₁, incNonce_ota, setOta_ota, GetUnspendOTATotalBalance_setImage _ hfree,
      setBytes_bigBytes]
  have hgas₁ : w₁.storage.epochGas = w.storage.epochGas := by rw [hw₁]; rfl
  obtain ⟨hinner, -, hinnerGas⟩ := innerCall_conserve env msg.From msg.To info.CallData
    (info.GasLeftSubRingSign - IntrinsicGas msg.Data (some msg.To)) msg.Value w₁
  rw [← hw₂] at hinner hinnerGas
  -- the fee is the gas charged times the gas price
  have hfee : r.2.2 * msg.GasPrice = info.StampTotalGas * msg.GasPrice := by rw [hused]
  obtain ⟨htotal, hota⟩ := payGasFee_total ctx (info.StampTotalGas * msg.GasPrice) w₂
  rw [← hr] at htotal hota
  -- the stamp balance is the fee charged and what the division leaves over
  have hsplit : (info.StampBalance : ℤ) =
      ((info.StampBalance / msg.GasPrice * msg.GasPrice : ℕ) : ℤ) +
        ((info.StampBalance % msg.GasPrice : ℕ) : ℤ) := by
    exact_mod_cast (Nat.div_add_mod' info.StampBalance msg.GasPrice).symm
  refine ⟨info, w₁, w₂, hfetch, hused.trans hgas, hw₁, by rw [hw₁]; rfl, hspent, hw₂, hinner,
    hinnerGas.trans hgas₁, hota, fun hpos => ?_, fun hpow => ?_, ?_⟩
  · rw [hfee, hr]
    exact payGasFee_pos hpos _ w₂
  · rw [hfee, hr]
    exact ⟨(payGasFee_pow hpow _ w₂).1, congrArg PrivacyState.epochGas (payGasFee_pow hpow _ w₂).2⟩
  · have hw₂gas : getEpochGas w₂ ctx.epochID = getEpochGas w ctx.epochID := by
      simp only [getEpochGas, hinnerGas, hgas₁]
    rw [htotal, hinner, hw₁, stampSpent_total w _ _ hfree, hw₂gas, hgas, hsplit]
    ring

/-- A privacy transaction that goes through spends its stamp's key image, which was unspent,
and every image spent before stays spent. -/
theorem TransitionDb_spent {ctx : BlockCtx} {msg : Message} {gp : ℕ} {w : PrivacyWorld}
    {r : PrivacyWorld × ℕ × ℕ} (h : TransitionDb env ctx msg gp w = .ok r) :
    ∃ k, stampImage env msg.Data = some k ∧ ¬ ImageSpent w.storage.ota k ∧
      ImageSpent r.1.storage.ota k ∧ ∀ k', ImageSpent w.storage.ota k' → ImageSpent r.1.storage.ota k' := by
  obtain ⟨info, hfetch, hfree, -, hr⟩ := TransitionDb_ok env h
  obtain ⟨himg, hpos, -⟩ := FetchPrivacyTxInfo_ok env hfetch
  have hv : bigBytes info.StampBalance ≠ [] := fun h0 => hpos (bigBytes_eq_nil_iff.mp h0)
  -- from the world the call is made in, the call and the fee keep every spent image
  have hlater : ∀ k', ImageSpent (w.storage.ota.setImage (env.FromECDSAPub info.KeyImage)
      (bigBytes info.StampBalance)) k' → ImageSpent r.1.storage.ota k' := by
    intro k' hk'
    rw [hr, (payGasFee_total ctx _ _).2]
    exact (innerCall_conserve env _ _ _ _ _ _).2.1 k' hk'
  refine ⟨_, himg, hfree, hlater _ ⟨_, by simp, hv⟩, fun k' hk' => hlater k' (hk'.set _ hv)⟩

end Transition

/-! ### Runs of calls and transactions -/

/-- What happens to the privacy state: a call into a privacy contract, or a privacy
transaction. -/
inductive PrivacyEvent
  | call (depth : ℕ) (caller : Address) (c : OtaContract) (input : Bytes) (gas value : ℕ)
  | tx (ctx : BlockCtx) (msg : Message) (gp : ℕ)

section Run

variable {Pt : Type} (env : PrivacyEnv Pt)

/-- One event: a call as `EVM.Call` makes it, a transaction as the miner applies it, which keeps
the world when `TransitionDb` fails. -/
def privacyStep (w : PrivacyWorld) : PrivacyEvent → PrivacyWorld
  | .call depth caller c input gas value => (callOta env depth caller c input gas value w).1
  | .tx ctx msg gp =>
    match TransitionDb env ctx msg gp w with
    | .ok r => r.1
    | .error _ => w

/-- A run of events: the final world and the key images each event spent, in order. -/
def privacyRun : PrivacyWorld → List PrivacyEvent → PrivacyWorld × List Bytes :=
  Machine.runOut fun w ev =>
    (privacyStep env w ev, spentBy w.storage.ota (privacyStep env w ev).storage.ota)

/-- No event makes a spent key image unspent. -/
lemma privacyStep_spent (w : PrivacyWorld) (ev : PrivacyEvent) (k : Bytes)
    (hk : ImageSpent w.storage.ota k) : ImageSpent (privacyStep env w ev).storage.ota k := by
  cases ev with
  | call depth caller c input gas value =>
    exact (callOta_conserve env depth caller c input gas value w).2.1 k hk
  | tx ctx msg gp =>
    simp only [privacyStep]
    split
    · rename_i r hr
      obtain ⟨-, -, -, -, hlater⟩ := TransitionDb_spent env hr
      exact hlater k hk
    · exact hk

/-- Key images are spent once. A refund, or a privacy transaction, whose key image is spent
fails, and one that goes through spends its key image; so along any run of calls and
transactions no key image is spent twice, nor one that was spent before the run. -/
theorem keyImage_spent_once :
    (∀ (w : PrivacyWorld) depth caller input gas value k, refundImage env input = some k →
      ImageSpent w.storage.ota k →
      ∃ e, callOta env depth caller .wanCoin input gas value w = (w, .error e)) ∧
    (∀ (w : PrivacyWorld) ctx msg gp k, stampImage env msg.Data = some k →
      ImageSpent w.storage.ota k → ∃ e, TransitionDb env ctx msg gp w = .error e) ∧
    (∀ (w : PrivacyWorld) depth caller input gas value k, refundImage env input = some k →
      (callOta env depth caller .wanCoin input gas value w).2 = .ok () →
      k ∈ spentBy w.storage.ota (callOta env depth caller .wanCoin input gas value w).1.storage.ota) ∧
    (∀ (w : PrivacyWorld) ctx msg gp r k, stampImage env msg.Data = some k →
      TransitionDb env ctx msg gp w = .ok r → k ∈ spentBy w.storage.ota r.1.storage.ota) ∧
    (∀ (w : PrivacyWorld) evs, (privacyRun env w evs).2.Nodup ∧
      ∀ k ∈ (privacyRun env w evs).2, ¬ ImageSpent w.storage.ota k) := by
  refine ⟨?_, ?_, ?_, ?_, ?_⟩
  · intro w depth caller input gas value k hk hspent
    rcases Call_cases (runOta env .wanCoin input caller value gas) depth caller
        OtaContract.wanCoin.address value w with ⟨e, he⟩ | ⟨w2, -, -, hw2⟩
    · exact ⟨e, he⟩
    · have hok : (callOta env depth caller .wanCoin input gas value w).2 = .ok () := by
        rw [callOta, hw2]
      exact absurd hspent (callOta_refund_ok env hk hok).1
  · intro w ctx msg gp k hk hspent
    cases hT : TransitionDb env ctx msg gp w with
    | error e => exact ⟨e, rfl⟩
    | ok r =>
      obtain ⟨k', hk', hfree, -⟩ := TransitionDb_spent env hT
      rw [hk] at hk'
      cases hk'
      exact absurd hspent hfree
  · intro w depth caller input gas value k hk hok
    obtain ⟨hfree, hspent⟩ := callOta_refund_ok env hk hok
    exact mem_spentBy hfree hspent
  · intro w ctx msg gp r k hk hT
    obtain ⟨k', hk', hfree, hspent, -⟩ := TransitionDb_spent env hT
    rw [hk] at hk'
    cases hk'
    exact mem_spentBy hfree hspent
  · -- each event spends images that were unspent, and none is unspent again
    intro w evs
    refine Machine.runOut_nodup (fun v : PrivacyWorld => {k | ImageSpent v.storage.ota k}) ?_ ?_ ?_
      w evs
    · intro v ev
      exact spentBy_nodup _ _
    · intro v ev k hk
      exact ⟨(spentBy_spent hk).2, (spentBy_spent hk).1⟩
    · intro v ev k hk
      exact privacyStep_spent env v ev k hk

/-- The value of the privacy contracts and transactions. A call into `wanCoinSC` or
`wanchainStampSC`, whether it goes through or fails, keeps the sum of all balances and the
unspent OTA total. A privacy transaction that goes through is charged `StampBalance / gasPrice`
gas. Recording its stamp's image lowers the unspent OTA total by the whole stamp balance, in the
world `w₁` its call is made in; the call keeps the value; the fee `(StampBalance / gasPrice) *
gasPrice` is credited to the gas pool of the epoch under PoS and to the coinbase before. So the
value (balances, unspent OTA total and the gas pool of the block's epoch) loses exactly
`StampBalance % gasPrice`. -/
theorem privacyValue_kept_up_to_fee_rounding :
    (∀ (w : PrivacyWorld) depth caller c input gas value,
      privacyTotal (callOta env depth caller c input gas value w).1 = privacyTotal w) ∧
    (∀ (w : PrivacyWorld) ctx msg gp r, TransitionDb env ctx msg gp w = .ok r →
      ∃ (info : PrivacyTxInfo Pt) (w₁ w₂ : PrivacyWorld),
        FetchPrivacyTxInfo env w.storage.ota (addressBytes msg.From) msg.Data msg.GasPrice =
          .ok info ∧
        r.2.2 = info.StampBalance / msg.GasPrice ∧
        w₁ = incNonce (w.setOta (w.storage.ota.setImage (env.FromECDSAPub info.KeyImage)
          (bigBytes info.StampBalance))) msg.From ∧
        w₁.balance = w.balance ∧
        GetUnspendOTATotalBalance w₁.storage.ota =
          GetUnspendOTATotalBalance w.storage.ota - info.StampBalance ∧
        w₂ = (innerCall env msg.From msg.To info.CallData
          (info.GasLeftSubRingSign - IntrinsicGas msg.Data (some msg.To)) msg.Value w₁).1 ∧
        privacyTotal w₂ = privacyTotal w₁ ∧ w₂.storage.epochGas = w.storage.epochGas ∧
        r.1.storage.ota = w₂.storage.ota ∧
        (ctx.IsPosActive = true → r.1.balance = w₂.balance ∧
          getEpochGas r.1 ctx.epochID = getEpochGas w₂ ctx.epochID + r.2.2 * msg.GasPrice) ∧
        (ctx.IsPosActive = false →
          r.1.balance = Function.update w₂.balance ctx.Coinbase
            (w₂.balance ctx.Coinbase + r.2.2 * msg.GasPrice) ∧
          r.1.storage.epochGas = w₂.storage.epochGas) ∧
        privacyTotal r.1 + getEpochGas r.1 ctx.epochID + (info.StampBalance % msg.GasPrice : ℕ) =
          privacyTotal w + getEpochGas w ctx.epochID) :=
  ⟨fun w depth caller c input gas value => (callOta_conserve env depth caller c input gas value w).1,
    fun _ _ _ _ _ h => TransitionDb_value env h⟩

end Run

/-! ### A stamp of 0.09 WAN at a gas price of 70 gwei -/

/-- The `AX` of the stamp's one-time address. -/
def stampAX : Bytes := List.replicate 32 7

/-- The compressed public key of the stamp's one-time address. -/
def stampKey : Bytes := 2 :: stampAX

/-- A configuration in which every ring signature is the one-member ring of `stampKey`, with
key image `[9]`, and checks; the data of a transaction unpacks to an empty call. -/
def stampEnv : PrivacyEnv Bytes where
  buyIdArr := [1, 1, 1, 1]
  refundIdArr := [2, 2, 2, 2]
  stBuyId := [3, 3, 3, 3]
  unpackBuyCoinNote _ := none
  unpackBuyStamp _ := none
  unpackRefundCoin _ := none
  unpackCombine _ := .ok ("", [])
  Decode _ := .error "invalid hex string"
  DecodeRingSignOut _ := some ⟨[stampKey], [9], [0], [0]⟩
  ECDSAPKCompression p := p
  FromECDSAPub p := p
  VerifyRingSign _ _ _ _ _ := true

/-- A world in which a stamp of `WanStampdot09` (0.09 WAN) was bought for `stampKey`, and no key
image is spent. -/
def stampWorld : PrivacyWorld :=
  ⟨fun _ => 0,
    ⟨⟨⟨[(stampAX, bigBytes (9 * 10 ^ 16))], List.nodup_singleton _⟩,
      ⟨[((OTABalance2ContractAddr (9 * 10 ^ 16), stampAX), stampKey ++ List.replicate 33 0)],
        List.nodup_singleton _⟩,
      KeyedList.Storage.empty⟩, fun _ => 0, fun _ => []⟩⟩

/-- A privacy transaction from account 1 to account 5, which has no code, at 70 gwei. -/
def stampMsg : Message := ⟨1, 5, 7 * 10 ^ 10, 0, [0, 0, 0, 0]⟩

/-- A block of epoch 100 under PoS. -/
def stampCtx : BlockCtx := ⟨0, true, 100⟩

/-- The stamp is worth `9 * 10^16` wei and the transaction goes through, but the gas pool of the
epoch, empty before, receives `1285714 * 7 * 10^10 = 9 * 10^16 - 2 * 10^10` wei. -/
theorem privacyTx_fee_short_of_stamp :
    (FetchPrivacyTxInfo stampEnv stampWorld.storage.ota (addressBytes stampMsg.From)
        stampMsg.Data stampMsg.GasPrice).toOption.map (·.StampBalance) = some (9 * 10 ^ 16) ∧
      getEpochGas stampWorld stampCtx.epochID = 0 ∧
      (TransitionDb stampEnv stampCtx stampMsg (10 ^ 7) stampWorld).toOption.map
        (fun r => getEpochGas r.1 stampCtx.epochID) = some (9 * 10 ^ 16 - 2 * 10 ^ 10) := by
  decide +kernel

/-- Once the key image of the stamp is spent, the same transaction fails. -/
theorem keyImage_spent_once_stamp :
    ∃ e, TransitionDb stampEnv stampCtx stampMsg (10 ^ 7)
      (stampWorld.setOta (stampWorld.storage.ota.setImage [9] [1])) = .error e :=
  (keyImage_spent_once stampEnv).2.1 _ _ _ _ [9] (by decide +kernel) (by decide +kernel)

theorem privacyValue_kept_up_to_fee_rounding_stamp :
    ∃ r, TransitionDb stampEnv stampCtx stampMsg (10 ^ 7) stampWorld = .ok r ∧
      ∃ (info : PrivacyTxInfo Bytes) (w₁ w₂ : PrivacyWorld),
        FetchPrivacyTxInfo stampEnv stampWorld.storage.ota (addressBytes stampMsg.From)
          stampMsg.Data stampMsg.GasPrice = .ok info ∧
        r.2.2 = info.StampBalance / stampMsg.GasPrice ∧
        w₁ = incNonce (stampWorld.setOta (stampWorld.storage.ota.setImage
          (stampEnv.FromECDSAPub info.KeyImage) (bigBytes info.StampBalance))) stampMsg.From ∧
        w₁.balance = stampWorld.balance ∧
        GetUnspendOTATotalBalance w₁.storage.ota =
          GetUnspendOTATotalBalance stampWorld.storage.ota - info.StampBalance ∧
        w₂ = (innerCall stampEnv stampMsg.From stampMsg.To info.CallData
          (info.GasLeftSubRingSign - IntrinsicGas stampMsg.Data (some stampMsg.To))
          stampMsg.Value w₁).1 ∧
        privacyTotal w₂ = privacyTotal w₁ ∧ w₂.storage.epochGas = stampWorld.storage.epochGas ∧
        r.1.storage.ota = w₂.storage.ota ∧
        (stampCtx.IsPosActive = true → r.1.balance = w₂.balance ∧
          getEpochGas r.1 stampCtx.epochID =
            getEpochGas w₂ stampCtx.epochID + r.2.2 * stampMsg.GasPrice) ∧
        (stampCtx.IsPosActive = false →
          r.1.balance = Function.update w₂.balance stampCtx.Coinbase
            (w₂.balance stampCtx.Coinbase + r.2.2 * stampMsg.GasPrice) ∧
          r.1.storage.epochGas = w₂.storage.epochGas) ∧
        privacyTotal r.1 + getEpochGas r.1 stampCtx.epochID +
            (info.StampBalance % stampMsg.GasPrice : ℕ) =
          privacyTotal stampWorld + getEpochGas stampWorld stampCtx.epochID := by
  have hok : (TransitionDb stampEnv stampCtx stampMsg (10 ^ 7) stampWorld).isOk = true := by
    decide +kernel
  cases hT : TransitionDb stampEnv stampCtx stampMsg (10 ^ 7) stampWorld with
  | error e => rw [hT] at hok; cases hok
  | ok r =>
    exact ⟨r, rfl, (privacyValue_kept_up_to_fee_rounding stampEnv).2 stampWorld stampCtx stampMsg
      (10 ^ 7) r hT⟩

end Wanchain.Privacy
