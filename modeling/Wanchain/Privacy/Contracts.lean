import Wanchain.Basic.Evm
import Wanchain.Privacy.Ota

/-!
# The privacy contracts

`wanCoinSC` and `wanchainStampSC` of `core/vm/contracts.go`. `buyCoinNote` and `buyStamp` store
a one-time address with the call's value and take the value from the caller; `refundCoin`
checks a ring signature over mixes of one balance, records its key image as spent and pays the
balance to the caller. `EVM.Call` skips its own value transfer for these two contracts, so the
value moves only where the contracts move it, and it reverts every change of a call that fails.

What the model takes from outside is collected in `PrivacyEnv`: the ABI decoding of the inputs
(the method ids and the unpacked arguments, `none` where unpacking fails or a `*big.Int` is
`nil`), `hexutil.Decode`, the decoding of a ring signature string, the point encodings and the
ring signature check.
-/

namespace Wanchain.Privacy

/-- A ring signature as `DecodeRingSignOut` reads it. -/
structure RingSigned (Pt : Type) where
  PublicKeys : List Pt
  KeyImage : Pt
  W_Random : List ℕ
  Q_Random : List ℕ

/-- `RingSignInfo`: a checked ring signature and the balance of its mixes. -/
structure RingSignInfo (Pt : Type) extends RingSigned Pt where
  OTABalance : ℕ

/-- What the privacy contracts read from outside the model. -/
structure PrivacyEnv (Pt : Type) where
  /-- The method ids `buyIdArr`, `refundIdArr` and `stBuyId`. -/
  buyIdArr : Bytes
  refundIdArr : Bytes
  stBuyId : Bytes
  /-- `OtaAddr` and `Value` of `buyCoinNote` and of `buyStamp`. -/
  unpackBuyCoinNote : Bytes → Option (String × Option ℕ)
  unpackBuyStamp : Bytes → Option (String × Option ℕ)
  /-- `RingSignedData` and `Value` of `refundCoin`. -/
  unpackRefundCoin : Bytes → Option (String × Option ℕ)
  /-- `RingSignedData` and `CxtCallParams` of `combine`, the data of a privacy transaction, or
  the error of `utilAbi.Unpack`. -/
  unpackCombine : Bytes → Except String (String × Bytes)
  /-- `hexutil.Decode`. -/
  Decode : String → Except String Bytes
  DecodeRingSignOut : String → Option (RingSigned Pt)
  ECDSAPKCompression : Pt → Bytes
  FromECDSAPub : Pt → Bytes
  VerifyRingSign : Bytes → List Pt → Pt → List ℕ → List ℕ → Bool

/-- The state the privacy contracts and transactions touch besides the balances: the OTA
storage, the account nonces and the gas collected per epoch by `AddEpochGas`. -/
structure PrivacyState where
  ota : OtaStorage
  nonce : Address → ℕ
  epochGas : UInt64 → Bytes

/-- Balances and the state of the privacy contracts. -/
abbrev PrivacyWorld := World PrivacyState

/-- `common.Address.Bytes`: the twenty big-endian bytes of an address. -/
def addressBytes (a : Address) : Bytes :=
  (List.range 20).reverse.map fun i => UInt8.ofNat (a.val / 256 ^ i)

/-- `params.SstoreSetGas`. -/
def SstoreSetGas : ℕ := 20000

/-- `params.RequiredGasPerMixPub`. -/
def RequiredGasPerMixPub : ℕ := 4000

/-- `WanCoinValueSet`: the coin values, from 10 to 50,000 WAN. -/
def WanCoinValueSet : List ℕ :=
  [10, 20, 50, 100, 200, 500, 1000, 5000, 50000].map (· * 10 ^ 18)

/-- `StampValueSet`: the stamp values, from 0.001 to 0.5 WAN. -/
def StampValueSet : List ℕ :=
  [1, 2, 5, 3, 6, 9, 30, 60, 90, 200, 300, 500].map (· * 10 ^ 15)

/-- `SubBalance`. -/
def SubBalance (w : PrivacyWorld) (addr : Address) (amount : ℕ) : PrivacyWorld :=
  { w with balance := Function.update w.balance addr (w.balance addr - amount) }

/-- `AddBalance`. -/
def AddBalance (w : PrivacyWorld) (addr : Address) (amount : ℕ) : PrivacyWorld :=
  { w with balance := Function.update w.balance addr (w.balance addr + amount) }

/-- The world with another OTA storage. -/
def PrivacyWorld.setOta (w : PrivacyWorld) (ota : OtaStorage) : PrivacyWorld :=
  { w with storage := { w.storage with ota := ota } }

@[simp] lemma SubBalance_ota (w : PrivacyWorld) (addr : Address) (amount : ℕ) :
    (SubBalance w addr amount).storage.ota = w.storage.ota := rfl
@[simp] lemma AddBalance_ota (w : PrivacyWorld) (addr : Address) (amount : ℕ) :
    (AddBalance w addr amount).storage.ota = w.storage.ota := rfl
@[simp] lemma setOta_ota (w : PrivacyWorld) (ota : OtaStorage) : (w.setOta ota).storage.ota = ota :=
  rfl
@[simp] lemma setOta_balance (w : PrivacyWorld) (ota : OtaStorage) :
    (w.setOta ota).balance = w.balance := rfl

section Contracts

variable {Pt : Type} (env : PrivacyEnv Pt)

/-! ### Buying an OTA -/

/-- `ValidBuyCoinReq`: a coin value equal to the call's value, for a `WanAddr` whose `AX` has
no balance yet; the result is the `WanAddr`. -/
def ValidBuyCoinReq (st : OtaStorage) (payload : Bytes) (txValue : ℕ) : Except String Bytes :=
  if payload = [] then .error "unknown error"
  else
    match env.unpackBuyCoinNote payload with
    | none | some (_, none) => .error "error in buy coin"
    | some (OtaAddr, some Value) =>
      if Value ≠ txValue then .error "mismatched wancoin value"
      else if Value ∉ WanCoinValueSet then .error "wancoin value is not support"
      else do
        let wanAddr ← env.Decode OtaAddr
        let ax ← GetAXFromWanAddr wanAddr
        let (exist, _) ← CheckOTAAXExist st ax
        if exist then .error "OTA is reused" else pure wanAddr

/-- `ValidBuyStampReq`: as `ValidBuyCoinReq` for the stamp values, except that the error of
`GetAXFromWanAddr` is overwritten unread, so a `WanAddr` of the wrong length reaches
`CheckOTAAXExist` as `nil`. -/
def ValidBuyStampReq (st : OtaStorage) (payload : Bytes) (value : ℕ) : Except String Bytes :=
  if payload = [] then .error "unknown error"
  else
    match env.unpackBuyStamp payload with
    | none | some (_, none) => .error "error in buy stamp"
    | some (OtaAddr, some Value) =>
      if Value ≠ value then .error "mismatched wancoin value"
      else if Value ∉ StampValueSet then .error "stamp value is not support"
      else do
        let wanAddr ← env.Decode OtaAddr
        let ax := match GetAXFromWanAddr wanAddr with
          | .ok ax => ax
          | .error _ => []
        let (exist, _) ← CheckOTAAXExist st ax
        if exist then .error "OTA is reused" else pure wanAddr

/-- A `WanAddr` of the wrong length is refused by `ValidBuyStampReq` with the error of the `AX`
check rather than that of the address check. -/
lemma ValidBuyStampReq_wrong_length {st : OtaStorage} {payload : Bytes} {value : ℕ}
    {OtaAddr : String} {wanAddr : Bytes} (hp : payload ≠ [])
    (hu : env.unpackBuyStamp payload = some (OtaAddr, some value))
    (hv : value ∈ StampValueSet) (hd : env.Decode OtaAddr = .ok wanAddr)
    (hlen : wanAddr.length ≠ WAddressLength) :
    ValidBuyStampReq env st payload value = .error "invalid OTA AX" := by
  have hax : GetAXFromWanAddr wanAddr = .error "invalid OTA addrss" := by
    simp [GetAXFromWanAddr, hlen]
  simp [ValidBuyStampReq, hp, hu, hv, hd, hax, CheckOTAAXExist, HashLength, bind, Except.bind]

/-- The body shared by `buyCoin` and `buyStamp`: the checked `WanAddr` is stored with the
call's value, which is then taken from the caller. -/
def buyOTA (valid : OtaStorage → Bytes → ℕ → Except String Bytes) (errBuy : String)
    (input : Bytes) (caller : Address) (value : ℕ) (w : PrivacyWorld) :
    Except String PrivacyWorld := do
  let otaAddr ← valid w.storage.ota input value
  match AddOTAIfNotExist w.storage.ota value otaAddr with
  | .error _ | .ok (false, _) => .error errBuy
  | .ok (true, ota) =>
    if w.balance caller ≥ value then .ok (SubBalance (w.setOta ota) caller value)
    else .error "balance is insufficient"

/-- `wanCoinSC.buyCoin`. -/
def buyCoin (input : Bytes) (caller : Address) (value : ℕ) (w : PrivacyWorld) :
    Except String PrivacyWorld :=
  buyOTA (ValidBuyCoinReq env) "error in buy coin" input caller value w

/-- `wanchainStampSC.buyStamp`. -/
def buyStamp (input : Bytes) (caller : Address) (value : ℕ) (w : PrivacyWorld) :
    Except String PrivacyWorld :=
  buyOTA (ValidBuyStampReq env) "error in buy stamp" input caller value w

/-! ### Refunding an OTA -/

/-- `FetchRingSignInfo`: a ring signature over mixes that are OTAs of one balance. -/
def FetchRingSignInfo (st : OtaStorage) (hashInput : Bytes) (ringSignedStr : String) :
    Except String (RingSignInfo Pt) :=
  match env.DecodeRingSignOut ringSignedStr with
  | none => .error "invalid ring signed info"
  | some rs => do
    let (exist, balanceGet) ← BatCheckOTAExist st (rs.PublicKeys.map env.ECDSAPKCompression)
    if !exist then .error "invalid OTA mix set"
    else if !env.VerifyRingSign hashInput rs.PublicKeys rs.KeyImage rs.W_Random rs.Q_Random then
      .error "invalid ring signed info"
    else pure { rs with OTABalance := balanceGet }

/-- `ValidRefundReq`: a ring signature by `fromAddr` over OTAs of the refunded value, whose key
image is not spent; the result is the key image and the value. -/
def ValidRefundReq (st : OtaStorage) (payload fromAddr : Bytes) : Except String (Bytes × ℕ) :=
  if payload = [] ∨ fromAddr = [] then .error "unknown error"
  else
    match env.unpackRefundCoin payload with
    | none | some (_, none) => .error "error in refund coin"
    | some (RingSignedData, some Value) => do
      let ringSignInfo ← FetchRingSignInfo env st fromAddr RingSignedData
      if ringSignInfo.OTABalance ≠ Value then .error "mismatched wancoin value"
      else
        let kix := env.FromECDSAPub ringSignInfo.KeyImage
        let exist ← CheckOTAImageExist st kix
        if exist then .error "OTA is reused" else pure (kix, Value)

/-- `wanCoinSC.refund`: the key image is recorded with the value, which is paid to the
caller. -/
def refund (input : Bytes) (caller : Address) (w : PrivacyWorld) : Except String PrivacyWorld := do
  let (kix, value) ← ValidRefundReq env w.storage.ota input (addressBytes caller)
  let ota ← AddOTAImage w.storage.ota kix (bigBytes value)
  pure (AddBalance (w.setOta ota) caller value)

/-! ### Dispatch and calls -/

/-- `wanCoinSC.Run`. -/
def wanCoinSC.Run (input : Bytes) (caller : Address) (value : ℕ) (w : PrivacyWorld) :
    Except String PrivacyWorld :=
  if input.length < 4 then .error "error parameters"
  else if input.take 4 = env.buyIdArr then buyCoin env (input.drop 4) caller value w
  else if input.take 4 = env.refundIdArr then refund env (input.drop 4) caller w
  else .error "error method id"

/-- `wanCoinSC.RequiredGas`: a refund pays for each mix of its ring and the image slot, a purchase
for two slots. -/
def wanCoinSC.RequiredGas (input : Bytes) : ℕ :=
  if input.length < 4 then 0
  else if input.take 4 = env.refundIdArr then
    match env.unpackRefundCoin (input.drop 4) with
    | none => RequiredGasPerMixPub
    | some (RingSignedData, _) =>
      match env.DecodeRingSignOut RingSignedData with
      | none => RequiredGasPerMixPub
      | some rs => RequiredGasPerMixPub * rs.PublicKeys.length + SstoreSetGas
  else SstoreSetGas * 2

/-- `wanchainStampSC.Run`. -/
def wanchainStampSC.Run (input : Bytes) (caller : Address) (value : ℕ) (w : PrivacyWorld) :
    Except String PrivacyWorld :=
  if input.length < 4 then .error "error parameters"
  else if input.take 4 = env.stBuyId then buyStamp env (input.drop 4) caller value w
  else .error "error method id"

/-- `wanchainStampSC.RequiredGas`. -/
def wanchainStampSC.RequiredGas (_input : Bytes) : ℕ := SstoreSetGas * 2

/-- The two privacy contracts. -/
inductive OtaContract
  | wanCoin
  | wanStamp
  deriving DecidableEq, Repr

/-- The address of a privacy contract. -/
def OtaContract.address : OtaContract → Address
  | .wanCoin => wanCoinPrecompileAddr
  | .wanStamp => wanStampPrecompileAddr

/-- `RunPrecompiledContract`: the contract runs when the call carries its required gas. -/
def RunPrecompiledContract (requiredGas : ℕ) (run : PrivacyWorld → Except String PrivacyWorld)
    (gas : ℕ) (w : PrivacyWorld) : Except String PrivacyWorld :=
  if gas < requiredGas then .error "out of gas" else run w

/-- A privacy contract run on a call's input. -/
def runOta (c : OtaContract) (input : Bytes) (caller : Address) (value gas : ℕ) :
    PrivacyWorld → Except String PrivacyWorld :=
  match c with
  | .wanCoin =>
    RunPrecompiledContract (wanCoinSC.RequiredGas env input) (wanCoinSC.Run env input caller value)
      gas
  | .wanStamp =>
    RunPrecompiledContract (wanchainStampSC.RequiredGas input)
      (wanchainStampSC.Run env input caller value) gas

/-- `EVM.Call` into a privacy contract. -/
def callOta (depth : ℕ) (caller : Address) (c : OtaContract) (input : Bytes) (gas value : ℕ)
    (w : PrivacyWorld) : PrivacyWorld × Except String Unit :=
  Call (runOta env c input caller value gas) depth caller c.address value w

/-- The key image of the refund an input asks for, read from its ring signature. -/
def refundImage (input : Bytes) : Option Bytes :=
  if input.length < 4 ∨ input.take 4 = env.buyIdArr ∨ input.take 4 ≠ env.refundIdArr then none
  else do
    let (RingSignedData, _) ← env.unpackRefundCoin (input.drop 4)
    let rs ← env.DecodeRingSignOut RingSignedData
    pure (env.FromECDSAPub rs.KeyImage)

end Contracts

/-! ### Value conservation -/

/-- The value the privacy contracts account for: every balance and the unspent OTA total. -/
noncomputable def privacyTotal (w : PrivacyWorld) : ℤ :=
  ∑ a, (w.balance a : ℤ) + GetUnspendOTATotalBalance w.storage.ota

lemma privacyTotal_SubBalance (w : PrivacyWorld) {addr : Address} {amount : ℕ}
    (h : amount ≤ w.balance addr) :
    privacyTotal (SubBalance w addr amount) = privacyTotal w - amount := by
  simp only [privacyTotal, SubBalance, sum_update]
  push_cast [h]
  ring

lemma privacyTotal_AddBalance (w : PrivacyWorld) (addr : Address) (amount : ℕ) :
    privacyTotal (AddBalance w addr amount) = privacyTotal w + amount := by
  simp only [privacyTotal, AddBalance, sum_update]
  push_cast
  ring

lemma privacyTotal_setOta (w : PrivacyWorld) (ota : OtaStorage) :
    privacyTotal (w.setOta ota) =
      privacyTotal w - GetUnspendOTATotalBalance w.storage.ota + GetUnspendOTATotalBalance ota := by
  simp only [privacyTotal, setOta_balance, setOta_ota]
  ring

section Contracts

variable {Pt : Type} (env : PrivacyEnv Pt)

/-- A purchase that goes through moves the value from the caller's balance into the unspent
OTA total, and records no key image. -/
theorem buyOTA_ok {valid : OtaStorage → Bytes → ℕ → Except String Bytes} {errBuy : String}
    {input : Bytes} {caller : Address} {value : ℕ} {w w' : PrivacyWorld}
    (h : buyOTA valid errBuy input caller value w = .ok w') :
    privacyTotal w' = privacyTotal w ∧ w'.storage.ota.images = w.storage.ota.images ∧
      w'.storage.epochGas = w.storage.epochGas := by
  obtain ⟨otaAddr, -, h⟩ := Machine.bind_ok h
  rcases hadd : AddOTAIfNotExist w.storage.ota value otaAddr with e | ⟨add, ota⟩
  · simp [hadd] at h
  · obtain ⟨rfl, hunspent, himages⟩ := AddOTAIfNotExist_ok hadd
    simp only [hadd] at h
    split_ifs at h with hbal
    cases h
    refine ⟨?_, himages, rfl⟩
    rw [privacyTotal_SubBalance (w.setOta ota) hbal, privacyTotal_setOta, hunspent]
    ring

/-- A checked ring signature is the decoded one, over mixes of a balance that is not zero. -/
lemma FetchRingSignInfo_ok {st : OtaStorage} {hashInput : Bytes} {ringSignedStr : String}
    {info : RingSignInfo Pt} (h : FetchRingSignInfo env st hashInput ringSignedStr = .ok info) :
    ∃ rs, env.DecodeRingSignOut ringSignedStr = some rs ∧ info.toRingSigned = rs ∧
      info.OTABalance ≠ 0 := by
  unfold FetchRingSignInfo at h
  split at h
  · cases h
  · rename_i rs hrs
    obtain ⟨⟨exist, balanceGet⟩, hbat, h⟩ := Machine.bind_ok h
    simp only at h
    split_ifs at h
    cases h
    exact ⟨rs, hrs, rfl, BatCheckOTAExist_pos hbat⟩

/-- What `ValidRefundReq` accepts: an unspent key image and the non-zero balance of the ring's
mixes, read from the input's ring signature. -/
lemma ValidRefundReq_ok {st : OtaStorage} {payload fromAddr kix : Bytes} {value : ℕ}
    (h : ValidRefundReq env st payload fromAddr = .ok (kix, value)) :
    CheckOTAImageExist st kix = .ok false ∧ value ≠ 0 ∧
      ∃ RingSignedData v rs, env.unpackRefundCoin payload = some (RingSignedData, v) ∧
        env.DecodeRingSignOut RingSignedData = some rs ∧ kix = env.FromECDSAPub rs.KeyImage := by
  unfold ValidRefundReq at h
  split_ifs at h
  split at h
  · cases h
  · cases h
  · rename_i RingSignedData Value hu
    obtain ⟨info, hfetch, h⟩ := Machine.bind_ok h
    split_ifs at h with hbal
    obtain ⟨exist, hcheck, h⟩ := Machine.bind_ok h
    cases exist with
    | true => cases h
    | false =>
      cases h
      obtain ⟨rs, hrs, hinfo, hpos⟩ := FetchRingSignInfo_ok env hfetch
      refine ⟨hcheck, ?_, RingSignedData, _, rs, hu, hrs, by rw [← hinfo]⟩
      rwa [← not_not.mp hbal]

/-- A refund that goes through records its key image, which was unspent, with the refunded
value, and moves the value from the unspent OTA total to the caller's balance. -/
theorem refund_ok {input : Bytes} {caller : Address} {w w' : PrivacyWorld}
    (h : refund env input caller w = .ok w') :
    privacyTotal w' = privacyTotal w ∧ w'.storage.epochGas = w.storage.epochGas ∧
      ∃ kix value, ValidRefundReq env w.storage.ota input (addressBytes caller) = .ok (kix, value) ∧
        ¬ ImageSpent w.storage.ota kix ∧ ImageSpent w'.storage.ota kix ∧
        w'.storage.ota = w.storage.ota.setImage kix (bigBytes value) := by
  obtain ⟨⟨kix, value⟩, hvalid, h⟩ := Machine.bind_ok h
  obtain ⟨ota, hadd, h⟩ := Machine.bind_ok h
  cases h
  obtain ⟨hfree, -, -⟩ := ValidRefundReq_ok env hvalid
  obtain ⟨hunspent, hspent, -⟩ := AddOTAImage_unspent hfree hadd
  refine ⟨?_, rfl, kix, value, hvalid, (CheckOTAImageExist_false hfree).1, hspent,
    (AddOTAImage_ok hadd).1⟩
  rw [privacyTotal_AddBalance, privacyTotal_setOta, hunspent, setBytes_bigBytes]
  ring

/-- A refund input names the ring signature its key image comes from. -/
lemma refundImage_some {input k : Bytes} (h : refundImage env input = some k) :
    ¬ input.length < 4 ∧ input.take 4 ≠ env.buyIdArr ∧ input.take 4 = env.refundIdArr ∧
      ∃ RingSignedData v rs, env.unpackRefundCoin (input.drop 4) = some (RingSignedData, v) ∧
        env.DecodeRingSignOut RingSignedData = some rs ∧ k = env.FromECDSAPub rs.KeyImage := by
  unfold refundImage at h
  split_ifs at h with hin
  obtain ⟨⟨RingSignedData, v⟩, hu, h⟩ := Option.bind_eq_some_iff.mp h
  obtain ⟨rs, hrs, h⟩ := Option.bind_eq_some_iff.mp h
  simp only [not_or, not_not] at hin
  exact ⟨hin.1, hin.2.1, hin.2.2, RingSignedData, v, rs, hu, hrs, (Option.some.inj h).symm⟩

/-- What a privacy contract does when it goes through: it keeps the value, and every spent key
image stays spent. -/
theorem runOta_ok {c : OtaContract} {input : Bytes} {caller : Address} {value gas : ℕ}
    {w w' : PrivacyWorld} (h : runOta env c input caller value gas w = .ok w') :
    privacyTotal w' = privacyTotal w ∧
      (∀ k, ImageSpent w.storage.ota k → ImageSpent w'.storage.ota k) ∧
      w'.storage.epochGas = w.storage.epochGas := by
  -- a purchase leaves the images; a refund adds one with a non-empty value
  have hbuy : ∀ {valid errBuy input value}, buyOTA valid errBuy input caller value w = .ok w' →
      privacyTotal w' = privacyTotal w ∧
        (∀ k, ImageSpent w.storage.ota k → ImageSpent w'.storage.ota k) ∧
        w'.storage.epochGas = w.storage.epochGas := by
    intro valid errBuy input value hb
    obtain ⟨htotal, himages, hgas⟩ := buyOTA_ok hb
    refine ⟨htotal, fun k ⟨v, hv, hne⟩ => ⟨v, ?_, hne⟩, hgas⟩
    rw [himages]
    exact hv
  cases c with
  | wanCoin =>
    simp only [runOta, RunPrecompiledContract, wanCoinSC.Run] at h
    split_ifs at h
    · exact hbuy h
    · obtain ⟨htotal, hgas, kix, value, hvalid, -, -, hota⟩ := refund_ok env h
      have hne : bigBytes value ≠ [] :=
        fun h0 => (ValidRefundReq_ok env hvalid).2.1 (bigBytes_eq_nil_iff.mp h0)
      refine ⟨htotal, fun k hk => ?_, hgas⟩
      rw [hota]
      exact hk.set kix hne
  | wanStamp =>
    simp only [runOta, RunPrecompiledContract, wanchainStampSC.Run] at h
    split_ifs at h
    exact hbuy h

/-- An `EVM.Call` into a privacy contract keeps the value whether it succeeds or fails, and
every spent key image stays spent. -/
theorem callOta_conserve (depth : ℕ) (caller : Address) (c : OtaContract) (input : Bytes)
    (gas value : ℕ) (w : PrivacyWorld) :
    privacyTotal (callOta env depth caller c input gas value w).1 = privacyTotal w ∧
      (∀ k, ImageSpent w.storage.ota k →
        ImageSpent (callOta env depth caller c input gas value w).1.storage.ota k) ∧
      (callOta env depth caller c input gas value w).1.storage.epochGas = w.storage.epochGas := by
  have haddr : c.address = wanCoinPrecompileAddr ∨ c.address = wanStampPrecompileAddr := by
    cases c
    · exact .inl rfl
    · exact .inr rfl
  rcases Call_cases (runOta env c input caller value gas) depth caller c.address value w with
    ⟨e, he⟩ | ⟨w2, -, hrun, hw2⟩
  · rw [callOta, he]
    exact ⟨rfl, fun _ hk => hk, rfl⟩
  · -- the contract runs on the world as it was: the call moves no value itself
    rw [valueTransfer_of_not haddr] at hrun
    simp only [callOta, hw2]
    exact runOta_ok env hrun

/-- A call into `wanCoinSC` with a refund input that goes through spends the input's key image,
which was unspent. -/
theorem callOta_refund_ok {depth : ℕ} {caller : Address} {input : Bytes} {gas value : ℕ}
    {w : PrivacyWorld} {k : Bytes} (hk : refundImage env input = some k)
    (h : (callOta env depth caller .wanCoin input gas value w).2 = .ok ()) :
    ¬ ImageSpent w.storage.ota k ∧
      ImageSpent (callOta env depth caller .wanCoin input gas value w).1.storage.ota k := by
  obtain ⟨hlen, hbuy, hrefund, RingSignedData, v, rs, hu, hrs, rfl⟩ := refundImage_some env hk
  rcases Call_cases (runOta env .wanCoin input caller value gas) depth caller
      OtaContract.wanCoin.address value w with ⟨e, he⟩ | ⟨w2, -, hrun, hw2⟩
  · rw [callOta, he] at h
    cases h
  · rw [valueTransfer_of_not (.inl (rfl : OtaContract.wanCoin.address = _))] at hrun
    simp only [runOta, RunPrecompiledContract, wanCoinSC.Run, if_neg hlen, if_neg hbuy,
      if_pos hrefund] at hrun
    split_ifs at hrun
    obtain ⟨-, -, kix, _, hvalid, hfree, hspent, -⟩ := refund_ok env hrun
    -- the checked image is the one the input carries
    obtain ⟨-, -, RingSignedData', v', rs', hu', hrs', rfl⟩ := ValidRefundReq_ok env hvalid
    rw [hu] at hu'
    cases hu'
    rw [hrs] at hrs'
    cases hrs'
    rw [callOta, hw2]
    exact ⟨hfree, hspent⟩

end Contracts

end Wanchain.Privacy
