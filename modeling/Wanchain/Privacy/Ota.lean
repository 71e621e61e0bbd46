import Wanchain.Basic.Bytes
import Wanchain.Lib.Machine
import Wanchain.Lib.Storage

/-!
# The storage of one-time addresses

`core/vm/ota_storage.go`. A one-time address (OTA) bought with `buyCoinNote` or `buyStamp` is
kept twice: its balance under its `AX` in the storage of `otaBalanceStorageAddr`, and its
`WanAddr` under the same `AX` in the storage of `OTABalance2ContractAddr(balance)`, one storage
per coin value, where the mixes of a ring signature are looked up. A spent OTA is recorded by
the key image of its ring signature in the storage of `otaImageStorageAddr`, with the value
spent. `GetUnspendOTATotalBalance` is the sum of the first storage less the sum of the last.

Slots are keyed by the preimages of their keys: `BytesToHash(AX)` of a 32-byte `AX` is `AX`, and
the image slot `Keccak256Hash(FromECDSAPub(image))` is identified with `FromECDSAPub(image)`.
`statedb == nil` and `balance == nil` checks are left out: the state is always there.
-/

namespace Wanchain.Privacy

open KeyedList

/-- `common.HashLength`. -/
def HashLength : ℕ := 32

/-- `common.WAddressLength`, the length of a `WanAddr`. -/
def WAddressLength : ℕ := 66

/-- The storages of the OTA contracts. -/
structure OtaStorage where
  /-- `otaBalanceStorageAddr`: the balance of each OTA, under its `AX`. -/
  balances : Storage Bytes Bytes
  /-- The storage of `OTABalance2ContractAddr(balance)` for every balance: the `WanAddr` of each
  OTA, under its `AX`. -/
  sets : Storage (Address × Bytes) Bytes
  /-- `otaImageStorageAddr`: the value spent under each key image. -/
  images : Storage Bytes Bytes

/-- A key image is spent when a non-empty value is stored under it. -/
def ImageSpent (st : OtaStorage) (kix : Bytes) : Prop :=
  ∃ v, st.images.get kix = some v ∧ v ≠ []

instance (st : OtaStorage) (kix : Bytes) : Decidable (ImageSpent st kix) :=
  decidable_of_iff ((st.images.get kix).any (· ≠ []) = true) (by
    cases h : st.images.get kix <;> simp [ImageSpent, h])

/-- The key images spent in `st'` that were not spent in `st`. -/
def spentBy (st st' : OtaStorage) : List Bytes :=
  (st'.images.entries.map Prod.fst).filter fun k => ImageSpent st' k ∧ ¬ ImageSpent st k

/-- `common.ToHex`: `0x` and two lower-case hex digits per byte, `0x0` for no bytes. -/
def ToHex (b : Bytes) : String :=
  let hex := b.foldr (fun x s => Nat.digitChar (x.toNat / 16) :: Nat.digitChar (x.toNat % 16) :: s) []
  "0x" ++ (if hex.isEmpty then "0" else String.ofList hex)

/-- `OTABalance2ContractAddr`: `HexToAddress(balance.String())`, the decimal digits of the
balance read as hex digits, of which the address keeps the last 40. -/
def OTABalance2ContractAddr (balance : ℕ) : Address :=
  Fin.ofNat _ ((Nat.toDigits 10 balance).foldl (fun acc c => acc * 16 + (c.toNat - '0'.toNat)) 0)

/-- `GetAXFromWanAddr`: the 32 bytes after the first of a `WanAddr`. -/
def GetAXFromWanAddr (otaWanAddr : Bytes) : Except String Bytes :=
  if otaWanAddr.length ≠ WAddressLength then .error "invalid OTA addrss"
  else .ok ((otaWanAddr.drop 1).take HashLength)

/-- `GetOtaBalanceFromAX`: the stored balance, zero for an absent or empty entry. -/
def GetOtaBalanceFromAX (st : OtaStorage) (otaAX : Bytes) : Except String ℕ :=
  if otaAX.length ≠ HashLength then .error "invalid OTA AX"
  else .ok (setBytes ((st.balances.get otaAX).getD []))

/-- `SetOtaBalanceToAX`: overwrites the balance of an `AX`. -/
def SetOtaBalanceToAX (st : OtaStorage) (otaAX : Bytes) (balance : ℕ) : Except String OtaStorage :=
  if otaAX.length ≠ HashLength then .error "invalid OTA AX"
  else .ok { st with balances := st.balances.set otaAX (bigBytes balance) }

/-- `CheckOTAAXExist`: an `AX` exists when its stored balance is not zero. -/
def CheckOTAAXExist (st : OtaStorage) (otaAX : Bytes) : Except String (Bool × ℕ) :=
  if otaAX.length ≠ HashLength then .error "invalid OTA AX"
  else do
    let balance ← GetOtaBalanceFromAX st (otaAX.take HashLength)
    if balance = 0 then pure (false, 0) else pure (true, balance)

/-- `CheckOTALongAddrExist`: a compressed public key of 33 bytes is an OTA when its `AX` has a
balance and the set of that balance holds a `WanAddr` that starts with the key. -/
def CheckOTALongAddrExist (st : OtaStorage) (otaLongAddr : Bytes) : Except String (Bool × ℕ) :=
  if otaLongAddr.length ≠ 33 then .error "invalid OTA AX"
  else do
    let otaAX := (otaLongAddr.drop 1).take HashLength
    let balance ← GetOtaBalanceFromAX st otaAX
    if balance = 0 then pure (false, 0)
    else
      match st.sets.get (OTABalance2ContractAddr balance, otaAX) with
      | none => pure (false, 0)
      | some otaStored =>
        if otaLongAddr ≠ otaStored.take 33 then pure (false, 0) else pure (true, balance)

/-- The loop of `BatCheckOTAExist` from the balance of the keys checked so far (`none` before
the first). -/
def batCheckLoop (st : OtaStorage) : Option ℕ → List Bytes → Except String (Bool × ℕ)
  | balance, [] => .ok (true, balance.getD 0)
  | balance, otaLongAddr :: rest =>
    if otaLongAddr.length ≠ 33 then .error "invalid OTA AX"
    else
      match CheckOTALongAddrExist st otaLongAddr with
      | .error e => .error e
      | .ok (exist, balanceTmp) =>
        if !exist then .error ("ota doesn't exist:" ++ ToHex otaLongAddr)
        else if balanceTmp = 0 then .error ("ota balance is 0! ota:" ++ ToHex otaLongAddr)
        else
          match balance with
          | none => batCheckLoop st (some balanceTmp) rest
          | some b =>
            if b ≠ balanceTmp then
              .error ("otas have different balances! ota:" ++ ToHex otaLongAddr)
            else batCheckLoop st balance rest

/-- `BatCheckOTAExist`: every key of a non-empty list is an OTA, all of one balance, which is
returned. -/
def BatCheckOTAExist (st : OtaStorage) (otaLongAddrs : List Bytes) : Except String (Bool × ℕ) :=
  if otaLongAddrs = [] then .error "unknown error" else batCheckLoop st none otaLongAddrs

/-- `GetUnspendOTATotalBalance`: every balance ever bought less every value spent. -/
def GetUnspendOTATotalBalance (st : OtaStorage) : ℤ :=
  ((st.balances.total setBytes : ℕ) : ℤ) - ((st.images.total setBytes : ℕ) : ℤ)

/-- `setOTA`: writes the `WanAddr` into the set of its balance, then the balance. -/
def setOTA (st : OtaStorage) (balance : ℕ) (otaWanAddr : Bytes) : Except String OtaStorage :=
  if otaWanAddr.length ≠ WAddressLength then .error "invalid OTA addrss"
  else
    let otaAX := (otaWanAddr.drop 1).take HashLength
    let st := { st with
      sets := st.sets.set (OTABalance2ContractAddr balance, otaAX) otaWanAddr }
    SetOtaBalanceToAX st otaAX balance

/-- `AddOTAIfNotExist`: stores an OTA whose `AX` has no balance yet. -/
def AddOTAIfNotExist (st : OtaStorage) (balance : ℕ) (otaWanAddr : Bytes) :
    Except String (Bool × OtaStorage) :=
  if otaWanAddr.length ≠ WAddressLength then .error "invalid OTA addrss"
  else do
    let otaAX := (otaWanAddr.drop 1).take HashLength
    let (exist, _) ← CheckOTAAXExist st otaAX
    if exist then .error "OTA exist already"
    else
      let st ← setOTA st balance otaWanAddr
      pure (true, st)

/-- `CheckOTAImageExist`: a key image is spent when a non-empty value is stored under it. -/
def CheckOTAImageExist (st : OtaStorage) (otaImage : Bytes) : Except String Bool :=
  if otaImage = [] then .error "invalid input param!"
  else
    match st.images.get otaImage with
    | some v => .ok (v ≠ [])
    | none => .ok false

/-- `SetStateByteArray(otaImageStorageAddr, ...)`: writes the value spent under a key image. -/
def OtaStorage.setImage (st : OtaStorage) (kix value : Bytes) : OtaStorage :=
  { st with images := st.images.set kix value }

@[simp] lemma setImage_balances (st : OtaStorage) (kix value : Bytes) :
    (st.setImage kix value).balances = st.balances := rfl

@[simp] lemma setImage_images (st : OtaStorage) (kix value : Bytes) :
    (st.setImage kix value).images = st.images.set kix value := rfl

/-- `AddOTAImage`: records a key image with a non-empty value. -/
def AddOTAImage (st : OtaStorage) (otaImage value : Bytes) : Except String OtaStorage :=
  if otaImage = [] ∨ value = [] then .error "invalid input param!"
  else .ok (st.setImage otaImage value)

/-! ### What the writes do -/

/-- The weight of a stored value, zero for an absent one. -/
lemma elim_setBytes (o : Option Bytes) : o.elim 0 setBytes = setBytes (o.getD []) := by
  cases o <;> rfl

/-- A write of `v` over a value of weight zero raises the total by the value of `v`. -/
lemma total_set_of_zero {κ : Type*} [DecidableEq κ] {s : Storage κ Bytes} {k : κ} (v : Bytes)
    (h0 : setBytes ((s.get k).getD []) = 0) :
    (s.set k v).total setBytes = s.total setBytes + setBytes v := by
  have h := Storage.total_set setBytes s k v
  rw [elim_setBytes, h0, add_zero] at h
  exact h

lemma GetOtaBalanceFromAX_ok {st : OtaStorage} {otaAX : Bytes} {balance : ℕ}
    (h : GetOtaBalanceFromAX st otaAX = .ok balance) :
    otaAX.length = HashLength ∧ balance = setBytes ((st.balances.get otaAX).getD []) := by
  unfold GetOtaBalanceFromAX at h
  split_ifs at h with hlen
  cases h
  exact ⟨not_not.mp hlen, rfl⟩

/-- An `AX` that does not exist has balance zero. -/
lemma CheckOTAAXExist_false {st : OtaStorage} {otaAX : Bytes} {b : ℕ}
    (h : CheckOTAAXExist st otaAX = .ok (false, b)) :
    setBytes ((st.balances.get otaAX).getD []) = 0 := by
  unfold CheckOTAAXExist at h
  split_ifs at h with hlen
  obtain ⟨balance, hget, h⟩ := Machine.bind_ok h
  obtain ⟨hlen', rfl⟩ := GetOtaBalanceFromAX_ok hget
  have htake : otaAX.take HashLength = otaAX := List.take_of_length_le (by omega)
  rw [htake] at h
  split_ifs at h with h0
  · exact h0
  · cases h

lemma setOTA_ok {st st' : OtaStorage} {balance : ℕ} {otaWanAddr : Bytes}
    (h : setOTA st balance otaWanAddr = .ok st') :
    st'.balances = st.balances.set ((otaWanAddr.drop 1).take HashLength) (bigBytes balance) ∧
      st'.images = st.images := by
  unfold setOTA at h
  split_ifs at h
  simp only [SetOtaBalanceToAX] at h
  split_ifs at h
  cases h
  exact ⟨rfl, rfl⟩

/-- Storing a new OTA adds its balance to the unspent total and leaves the key images. -/
theorem AddOTAIfNotExist_ok {st st' : OtaStorage} {balance : ℕ} {otaWanAddr : Bytes} {add : Bool}
    (h : AddOTAIfNotExist st balance otaWanAddr = .ok (add, st')) :
    add = true ∧ GetUnspendOTATotalBalance st' = GetUnspendOTATotalBalance st + balance ∧
      st'.images = st.images := by
  unfold AddOTAIfNotExist at h
  split_ifs at h
  obtain ⟨⟨exist, b⟩, hcheck, h⟩ := Machine.bind_ok h
  cases exist with
  | true => cases h
  | false =>
    obtain ⟨st'', hset, h⟩ := Machine.bind_ok h
    cases h
    obtain ⟨hbal, himg⟩ := setOTA_ok hset
    have htotal := total_set_of_zero (bigBytes balance) (CheckOTAAXExist_false hcheck)
    refine ⟨rfl, ?_, himg⟩
    simp only [GetUnspendOTATotalBalance, hbal, himg, htotal, setBytes_bigBytes]
    push_cast
    ring

/-- An image that `CheckOTAImageExist` finds unspent has weight zero. -/
lemma CheckOTAImageExist_false {st : OtaStorage} {otaImage : Bytes}
    (h : CheckOTAImageExist st otaImage = .ok false) :
    ¬ ImageSpent st otaImage ∧ setBytes ((st.images.get otaImage).getD []) = 0 := by
  unfold CheckOTAImageExist at h
  split_ifs at h
  cases hget : st.images.get otaImage with
  | none =>
    refine ⟨fun ⟨v, hv, _⟩ => by simp [hget] at hv, rfl⟩
  | some v =>
    rw [hget] at h
    have hv : v = [] := by simpa using h
    subst hv
    exact ⟨fun ⟨v', hv', hne⟩ => hne (by simpa [hget] using hv'.symm), rfl⟩

/-- An unspent image has weight zero. -/
lemma weight_of_not_spent {st : OtaStorage} {k : Bytes} (h : ¬ ImageSpent st k) :
    setBytes ((st.images.get k).getD []) = 0 := by
  cases hget : st.images.get k with
  | none => rfl
  | some v =>
    have hv : v = [] := by
      by_contra hne
      exact h ⟨v, hget, hne⟩
    simp only [hv, Option.getD_some]
    rfl

/-- Recording a value under an unspent image takes the value from the unspent total. -/
lemma GetUnspendOTATotalBalance_setImage {st : OtaStorage} {k : Bytes} (v : Bytes)
    (h : ¬ ImageSpent st k) :
    GetUnspendOTATotalBalance (st.setImage k v) =
      GetUnspendOTATotalBalance st - setBytes v := by
  have htotal := total_set_of_zero v (weight_of_not_spent h)
  simp only [GetUnspendOTATotalBalance, setImage_balances, setImage_images, htotal]
  push_cast
  ring

/-- What `CheckOTAImageExist` reads is a non-empty image, spent when it says so. -/
lemma CheckOTAImageExist_ok {st : OtaStorage} {otaImage : Bytes} {exist : Bool}
    (h : CheckOTAImageExist st otaImage = .ok exist) :
    otaImage ≠ [] ∧ (exist = true → ImageSpent st otaImage) := by
  unfold CheckOTAImageExist at h
  split_ifs at h with hne
  refine ⟨hne, fun hex => ?_⟩
  subst hex
  cases hget : st.images.get otaImage with
  | none => simp [hget] at h
  | some v =>
    rw [hget] at h
    exact ⟨v, hget, by simpa using h⟩

/-- `CheckOTAImageExist` finds exactly the spent images. -/
lemma CheckOTAImageExist_true {st : OtaStorage} {otaImage : Bytes}
    (h : ImageSpent st otaImage) (hne : otaImage ≠ []) :
    CheckOTAImageExist st otaImage = .ok true := by
  obtain ⟨v, hv, hv0⟩ := h
  simp [CheckOTAImageExist, hne, hv, hv0]

lemma AddOTAImage_ok {st st' : OtaStorage} {otaImage value : Bytes}
    (h : AddOTAImage st otaImage value = .ok st') :
    st' = st.setImage otaImage value ∧ value ≠ [] := by
  unfold AddOTAImage at h
  split_ifs at h with hne
  cases h
  exact ⟨rfl, fun hv => hne (.inr hv)⟩

/-- Recording an unspent image with a value takes the value from the unspent total, and marks
the image spent when the value is not empty. -/
theorem AddOTAImage_unspent {st st' : OtaStorage} {otaImage value : Bytes}
    (hfree : CheckOTAImageExist st otaImage = .ok false)
    (h : AddOTAImage st otaImage value = .ok st') :
    GetUnspendOTATotalBalance st' = GetUnspendOTATotalBalance st - setBytes value ∧
      ImageSpent st' otaImage ∧ st'.balances = st.balances := by
  obtain ⟨rfl, hv⟩ := AddOTAImage_ok h
  exact ⟨GetUnspendOTATotalBalance_setImage value (CheckOTAImageExist_false hfree).1,
    ⟨value, by simp, hv⟩, rfl⟩

/-- A spent image stays spent through any write of a non-empty value. -/
lemma ImageSpent.set {st : OtaStorage} {k : Bytes} (h : ImageSpent st k) (k' : Bytes)
    {v : Bytes} (hv : v ≠ []) : ImageSpent (st.setImage k' v) k := by
  by_cases hk : k = k'
  · subst hk
    exact ⟨v, by simp, hv⟩
  · obtain ⟨v', hv', hne⟩ := h
    exact ⟨v', by simpa [hk] using hv', hne⟩

/-- An image newly spent in `st'` is in `spentBy st st'`. -/
lemma mem_spentBy {st st' : OtaStorage} {k : Bytes} (h : ¬ ImageSpent st k)
    (h' : ImageSpent st' k) : k ∈ spentBy st st' := by
  obtain ⟨v, hv, hne⟩ := h'
  refine List.mem_filter.mpr ⟨List.mem_map.mpr ⟨(k, v), Storage.get_eq_some_iff.mp hv, rfl⟩, ?_⟩
  simpa using ⟨⟨v, hv, hne⟩, h⟩

lemma spentBy_spent {st st' : OtaStorage} {k : Bytes} (h : k ∈ spentBy st st') :
    ImageSpent st' k ∧ ¬ ImageSpent st k := by
  simpa using (List.mem_filter.mp h).2

lemma spentBy_nodup (st st' : OtaStorage) : (spentBy st st').Nodup :=
  List.Nodup.filter _ st'.images.nodup

/-- The balance the loop of `BatCheckOTAExist` returns is that of a key it checked. -/
lemma batCheckLoop_pos {st : OtaStorage} {l : List Bytes} :
    ∀ {balance : Option ℕ} {r : Bool × ℕ}, batCheckLoop st balance l = .ok r →
      (∀ b ∈ balance, b ≠ 0) → (balance.isSome ∨ l ≠ []) → r.2 ≠ 0 := by
  induction l with
  | nil =>
    intro balance r h hb hne
    obtain ⟨b, rfl⟩ := Option.isSome_iff_exists.mp (by simpa using hne)
    cases h
    exact hb b rfl
  | cons a rest ih =>
    intro balance r h hb _
    simp only [batCheckLoop] at h
    split_ifs at h
    split at h
    · cases h
    · rename_i exist balanceTmp _
      split_ifs at h with hex h0
      cases balance with
      | none => exact ih h (fun b hb' => by cases hb'; exact h0) (.inl rfl)
      | some b =>
        simp only at h
        split_ifs at h
        exact ih h hb (.inl rfl)

/-- The mixes of a ring that `BatCheckOTAExist` accepts share a balance that is not zero. -/
theorem BatCheckOTAExist_pos {st : OtaStorage} {otaLongAddrs : List Bytes} {r : Bool × ℕ}
    (h : BatCheckOTAExist st otaLongAddrs = .ok r) : r.2 ≠ 0 := by
  unfold BatCheckOTAExist at h
  split_ifs at h with hnil
  exact batCheckLoop_pos h (fun _ hb => by cases hb) (.inr hnil)

end Wanchain.Privacy
