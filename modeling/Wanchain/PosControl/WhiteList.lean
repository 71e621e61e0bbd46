import Wanchain.Lib.KeyedList
import Wanchain.Lib.Machine
import Wanchain.RandomBeacon.Contract

/-!
# The white-list configuration of the PoS control contract

The owner of the PoS control contract sets, for an epoch to come, which slice
`WhiteList[WlIndex : WlIndex + WlCount]` of the white-listed nodes take part
(`upgradeWhiteEpochLeader`). The record is stored under its epoch id; `GetEpochWLInfo` reads
the records, puts the default one (epoch 0, index 0, count 26) in front, sorts them by epoch
and picks the one for an epoch, which `GetWhiteByEpochId` and `GetWhiteArrayByEpochId` turn into
slices of `WhiteList` and `EpochLeadersHold`.

The range check `wlIndex + wlCount >= len(WhiteList)` is made on `uint64`, on the low 64 bits
of the 256-bit arguments, and the sum wraps: an index of `2 ^ 64 - 1` with a count of one passes
it (`whiteList_index_wraps`). Once stored, the record is the one `GetEpochWLInfo` picks for its
epoch, and slicing the white list with it panics.

The lookup itself is right for the epochs a node asks about: `GetEpochWLInfo_spec` says it
picks, for an epoch below `2 ^ 63`, the record with the greatest epoch id at most the epoch.

Not modelled: the ABI decoding of the payload, given as the function `unpack`, and the RLP
encoding of the stored records, which round-trips; the store holds the decoded records.
-/

namespace Wanchain.PosControl

open RandomBeacon

/-- `vm.UpgradeWhiteEpochLeaderParam`: three `uint256` arguments. -/
structure UpgradeWhiteEpochLeaderParam where
  EpochId : ℕ
  WlIndex : ℕ
  WlCount : ℕ
  deriving DecidableEq, Repr, Inhabited

/-- `UpgradeWhiteEpochLeaderDefault`. -/
def UpgradeWhiteEpochLeaderDefault : UpgradeWhiteEpochLeaderParam := ⟨0, 0, 26⟩

def MaxEpHold : UInt64 := 30
def MinEpHold : UInt64 := 0
def PosUpgradeEpochID : UInt64 := 2

def errParameters : String := "error parameters"
def errMethodId : String := "error method id"

/-- `(*big.Int).Uint64`: the low 64 bits. -/
def bigUint64 (n : ℕ) : UInt64 := UInt64.ofNat n

/-- `posControlCheckEpoch`: the record is sent at least `PosUpgradeEpochID` epochs ahead. -/
def posControlCheckEpoch (epochId time : UInt64) : Bool :=
  !((CalEpochSlotID time).1 + PosUpgradeEpochID > epochId)

/-- `upgradeWhiteEpochLeaderParseAndValid`, after the ABI decoding `unpacked`. -/
def upgradeWhiteEpochLeaderParseAndValid (WhiteListLen : ℕ)
    (unpacked : Except String UpgradeWhiteEpochLeaderParam) (time : UInt64) :
    Except String UpgradeWhiteEpochLeaderParam := do
  let info ← unpacked
  let wlIndex := bigUint64 info.WlIndex
  let wlCount := bigUint64 info.WlCount
  if wlIndex + wlCount ≥ UInt64.ofNat WhiteListLen then throw "wlIndex out of range"
  if wlCount < MinEpHold ∨ wlCount > MaxEpHold then throw "wlCount out of range"
  if !posControlCheckEpoch (bigUint64 info.EpochId) time then
    throw "wrong epoch for upgradeWhiteEpochLeader"
  pure info

/-- `upgradeWhiteEpochLeader`: `StoreInfo` under `BigToHash(EpochId)`, which refuses the zero
hash and replaces the record of the same epoch. -/
def upgradeWhiteEpochLeader (info : UpgradeWhiteEpochLeaderParam)
    (st : List UpgradeWhiteEpochLeaderParam) : Except String (List UpgradeWhiteEpochLeaderParam) :=
  if info.EpochId = 0 then .error "public key hash is not right"
  else .ok (KeyedList.upsert UpgradeWhiteEpochLeaderParam.EpochId st info)

/-- The PoS control contract's `Run`, on its store of records. -/
def Run (WhiteListLen : ℕ) (PosOwnerAddr : Address) (upgradeWhiteEpochLeaderId : Bytes)
    (unpack : Bytes → Except String UpgradeWhiteEpochLeaderParam) (caller : Address)
    (input : Bytes) (time : UInt64) (st : List UpgradeWhiteEpochLeaderParam) :
    Except String (List UpgradeWhiteEpochLeaderParam) :=
  if input.length < 4 then .error "parameter is wrong"
  else if caller ≠ PosOwnerAddr then .error errParameters
  else if input.take 4 = upgradeWhiteEpochLeaderId then do
    let info ← upgradeWhiteEpochLeaderParseAndValid WhiteListLen (unpack (input.drop 4)) time
    upgradeWhiteEpochLeader info st
  else .error errMethodId

/-- `GetWlConfig`: the default record, then the stored ones, stably sorted by epoch id. -/
def GetWlConfig (st : List UpgradeWhiteEpochLeaderParam) : List UpgradeWhiteEpochLeaderParam :=
  (UpgradeWhiteEpochLeaderDefault :: st).mergeSort fun a b => decide (a.EpochId ≤ b.EpochId)

/-- The index the loop of `GetEpochWLInfo` settles on for the epoch `e` (an `int64`): the first
record of epoch `e`, or the one before the first record of a later epoch, or the last. -/
def wlInfoIndex (infos : List UpgradeWhiteEpochLeaderParam) (e : ℤ) : ℤ :=
  match infos.findIdx? fun p => decide (e ≤ p.EpochId) with
  | some i => if ((infos.getD i default).EpochId : ℤ) = e then i else i - 1
  | none => infos.length - 1

/-- `GetEpochWLInfo`; an index of `-1` panics. -/
def GetEpochWLInfo (st : List UpgradeWhiteEpochLeaderParam) (epochId : UInt64) :
    Option UpgradeWhiteEpochLeaderParam :=
  let infos := GetWlConfig st
  let index := wlInfoIndex infos epochId.toInt64.toInt
  if index < 0 then none else infos[index.toNat]?

/-- The slice `list[WlIndex : WlIndex + WlCount]` with the bounds as `uint64`; out-of-range
bounds panic. -/
def whiteSlice {α : Type} (list : List α) (info : UpgradeWhiteEpochLeaderParam) :
    Except String (List α) :=
  let lo := bigUint64 info.WlIndex
  let hi := bigUint64 info.WlIndex + bigUint64 info.WlCount
  if lo ≤ hi ∧ hi.toNat ≤ list.length then .ok ((list.drop lo.toNat).take (hi - lo).toNat)
  else .error "slice bounds out of range"

/-- `GetWhiteByEpochId`, with the records of the target block's state. -/
def GetWhiteByEpochId (WhiteList : List String) (st : List UpgradeWhiteEpochLeaderParam)
    (epochId : UInt64) : Except String (List String) :=
  match GetEpochWLInfo st epochId with
  | some info => whiteSlice WhiteList info
  | none => .error "index out of range"

/-- `GetWhiteArrayByEpochId`, slicing `EpochLeadersHold`. -/
def GetWhiteArrayByEpochId (EpochLeadersHold : List Bytes) (st : List UpgradeWhiteEpochLeaderParam)
    (epochId : UInt64) : Except String (List Bytes) :=
  match GetEpochWLInfo st epochId with
  | some info => whiteSlice EpochLeadersHold info
  | none => .error "index out of range"

/-! ### Accepting and storing a record -/

/-- The checks of `upgradeWhiteEpochLeaderParseAndValid` on a decoded record, in the source's
order, each with its own error. -/
theorem upgradeWhiteEpochLeaderParseAndValid_ok (L : ℕ) (p : UpgradeWhiteEpochLeaderParam)
    (time : UInt64) :
    upgradeWhiteEpochLeaderParseAndValid L (.ok p) time =
      if bigUint64 p.WlIndex + bigUint64 p.WlCount ≥ UInt64.ofNat L then
        .error "wlIndex out of range"
      else if bigUint64 p.WlCount < MinEpHold ∨ bigUint64 p.WlCount > MaxEpHold then
        .error "wlCount out of range"
      else if !posControlCheckEpoch (bigUint64 p.EpochId) time then
        .error "wrong epoch for upgradeWhiteEpochLeader"
      else .ok p := by
  simp only [upgradeWhiteEpochLeaderParseAndValid, Machine.ok_bind]
  split_ifs <;> rfl

/-- `upgradeWhiteEpochLeaderParseAndValid` accepts exactly the decoded records that pass its
three checks, and returns them as decoded. -/
theorem upgradeWhiteEpochLeaderParseAndValid_eq_ok {L : ℕ}
    {unpacked : Except String UpgradeWhiteEpochLeaderParam} {time : UInt64}
    {info : UpgradeWhiteEpochLeaderParam} :
    upgradeWhiteEpochLeaderParseAndValid L unpacked time = .ok info ↔
      unpacked = .ok info ∧ bigUint64 info.WlIndex + bigUint64 info.WlCount < UInt64.ofNat L ∧
        MinEpHold ≤ bigUint64 info.WlCount ∧ bigUint64 info.WlCount ≤ MaxEpHold ∧
        posControlCheckEpoch (bigUint64 info.EpochId) time = true := by
  cases unpacked with
  | error e =>
    -- a payload that does not decode is refused with the decoder's error
    have herr : upgradeWhiteEpochLeaderParseAndValid L (.error e) time = .error e := rfl
    rw [herr]
    constructor
    · intro h
      cases h
    · rintro ⟨h, -⟩
      cases h
  | ok p =>
    rw [upgradeWhiteEpochLeaderParseAndValid_ok]
    constructor
    · intro h
      split_ifs at h with h1 h2 h3
      cases h
      simp_all
    · rintro ⟨h, h1, h2, h3, h4⟩
      cases h
      rw [if_neg (by simpa using h1), if_neg (by simpa using ⟨h2, h3⟩), if_neg (by simpa using h4)]

/-! ### The lookup -/

theorem mem_GetWlConfig {st : List UpgradeWhiteEpochLeaderParam}
    {q : UpgradeWhiteEpochLeaderParam} :
    q ∈ GetWlConfig st ↔ q = UpgradeWhiteEpochLeaderDefault ∨ q ∈ st := by
  rw [GetWlConfig, List.mem_mergeSort, List.mem_cons]

theorem GetWlConfig_sorted (st : List UpgradeWhiteEpochLeaderParam) :
    (GetWlConfig st).Pairwise fun a b => a.EpochId ≤ b.EpochId := by
  have h := @List.pairwise_mergeSort _ (fun a b => decide (a.EpochId ≤ b.EpochId))
    (fun a b c hab hbc => by simp at *; omega) (fun a b => by simp; omega)
    (UpgradeWhiteEpochLeaderDefault :: st)
  rw [GetWlConfig]
  simpa using h

section Lookup

variable {infos : List UpgradeWhiteEpochLeaderParam}
  (hs : infos.Pairwise fun a b => a.EpochId ≤ b.EpochId)
include hs

/-- In a list sorted by epoch, a record no later than index `i` has an epoch at most the one
at `i`. -/
lemma epochId_le_of_index_le {i j : ℕ} (hi : i < infos.length) (hji : j ≤ i) :
    infos[j].EpochId ≤ infos[i].EpochId := by
  rcases Nat.lt_or_eq_of_le hji with hlt | rfl
  · exact List.pairwise_iff_getElem.mp hs j i (by omega) hi hlt
  · exact le_rfl

/-- When every record after index `i` is past the epoch `e`, the record at `i` has the
greatest epoch at most `e`. -/
lemma greatest_of_later_past {e : ℤ} {i : ℕ} (hi : i < infos.length)
    (hpast : ∀ j (hj : j < infos.length), i < j → e < infos[j].EpochId) :
    ∀ q ∈ infos, (q.EpochId : ℤ) ≤ e → q.EpochId ≤ infos[i].EpochId := by
  intro q hq hqe
  obtain ⟨j, hj, rfl⟩ := List.mem_iff_getElem.mp hq
  by_cases hji : j ≤ i
  · exact epochId_le_of_index_le hs hi hji
  · have := hpast j hj (by omega)
    omega

/-- The loop of `GetEpochWLInfo` on a sorted list holding the default record, for an epoch
`e ≥ 0`: it settles on an index of the list whose record has the greatest epoch at most `e`. -/
theorem wlInfoIndex_spec (hdef : UpgradeWhiteEpochLeaderDefault ∈ infos) {e : ℤ} (he : 0 ≤ e) :
    ∃ i, ∃ hi : i < infos.length, wlInfoIndex infos e = i ∧ (infos[i].EpochId : ℤ) ≤ e ∧
      ∀ q ∈ infos, (q.EpochId : ℤ) ≤ e → q.EpochId ≤ infos[i].EpochId := by
  -- the first record is the default one, of epoch zero
  have hfirst : ∀ h : 0 < infos.length, infos[0].EpochId = 0 := by
    intro h
    obtain ⟨k, hk, hkd⟩ := List.mem_iff_getElem.mp hdef
    have := epochId_le_of_index_le hs hk (Nat.zero_le k)
    rw [hkd] at this
    exact Nat.le_zero.mp this
  have hlen : 0 < infos.length := List.length_pos_of_mem hdef
  unfold wlInfoIndex
  cases hfind : infos.findIdx? (fun p => decide (e ≤ p.EpochId)) with
  | none =>
    -- every record is before `e`: the loop ends on the last one
    dsimp only
    rw [List.findIdx?_eq_none_iff] at hfind
    have hbefore : ∀ q ∈ infos, (q.EpochId : ℤ) < e := fun q hq => by
      simpa using hfind q hq
    refine ⟨infos.length - 1, by omega, by omega, (hbefore _ (List.getElem_mem _)).le, ?_⟩
    exact greatest_of_later_past hs (by omega) fun j hj hlt => by omega
  | some i =>
    dsimp only
    obtain ⟨hi, hei, hlt⟩ := List.findIdx?_eq_some_iff_getElem.mp hfind
    have hei : e ≤ infos[i].EpochId := by simpa using hei
    have hlt : ∀ j (hj : j < i), (infos[j].EpochId : ℤ) < e := fun j hj => by
      simpa using hlt j hj
    rw [List.getD_eq_getElem?_getD, List.getElem?_eq_getElem hi, Option.getD_some]
    by_cases heq : (infos[i].EpochId : ℤ) = e
    · -- the loop stops at a record of epoch `e`
      rw [if_pos heq]
      exact ⟨i, hi, rfl, heq.le, fun q _ hqe => by omega⟩
    · -- the loop stops at the first record past `e` and steps back one
      rw [if_neg heq]
      have hi0 : i ≠ 0 := by
        rintro rfl
        have := hfirst hlen
        omega
      refine ⟨i - 1, by omega, by omega, (hlt (i - 1) (by omega)).le, ?_⟩
      refine greatest_of_later_past hs (by omega) fun j hj hij => ?_
      have := epochId_le_of_index_le hs hj (show i ≤ j by omega)
      omega

end Lookup

/-- `GetEpochWLInfo` for an epoch below `2 ^ 63` returns, of the default record and the stored
ones, one with the greatest epoch at most the epoch. -/
theorem GetEpochWLInfo_spec (st : List UpgradeWhiteEpochLeaderParam) {e : UInt64}
    (he : e.toNat < 2 ^ 63) :
    ∃ p, GetEpochWLInfo st e = some p ∧ (p = UpgradeWhiteEpochLeaderDefault ∨ p ∈ st) ∧
      p.EpochId ≤ e.toNat ∧ ∀ q, (q = UpgradeWhiteEpochLeaderDefault ∨ q ∈ st) →
        q.EpochId ≤ e.toNat → q.EpochId ≤ p.EpochId := by
  obtain ⟨i, hi, hidx, hle, hgreatest⟩ := wlInfoIndex_spec (GetWlConfig_sorted st)
    (mem_GetWlConfig.mpr (.inl rfl)) (Int.natCast_nonneg e.toNat)
  refine ⟨(GetWlConfig st)[i], ?_, mem_GetWlConfig.mp (List.getElem_mem hi), by omega,
    fun q hq hqe => hgreatest q (mem_GetWlConfig.mpr hq) (by omega)⟩
  rw [GetEpochWLInfo, toInt_toInt64_of_lt he, hidx, if_neg (by omega), Int.toNat_natCast,
    List.getElem?_eq_getElem hi]

/-! ### Slicing -/

/-- When `WlIndex + WlCount` wraps past `2 ^ 64`, the upper bound of the slice falls below the
lower one and the slice panics, whatever the list. -/
lemma whiteSlice_of_wraps {α : Type} (list : List α) {info : UpgradeWhiteEpochLeaderParam}
    (hwrap : 2 ^ 64 ≤ (bigUint64 info.WlIndex).toNat + (bigUint64 info.WlCount).toNat) :
    whiteSlice list info = .error "slice bounds out of range" := by
  have hsum := UInt64.toNat_add (bigUint64 info.WlIndex) (bigUint64 info.WlCount)
  have hcount := (bigUint64 info.WlCount).toNat_lt
  rw [whiteSlice, if_neg]
  rintro ⟨hle, -⟩
  rw [UInt64.le_iff_toNat_le] at hle
  omega

/-! ### A configuration out of range -/

/-- The owner's record for epoch 2 with `WlIndex = 2 ^ 64 - 1` and `WlCount = 1`, sent at time
zero, passes the range check, since `wlIndex + wlCount` wraps to zero, although the unbounded
sum is `2 ^ 64`, past any white list. It is stored, `GetEpochWLInfo` picks it for epoch 2, and
both slices with it panic. -/
theorem whiteList_index_wraps (WhiteList : List String) (EpochLeadersHold : List Bytes)
    (hne : WhiteList ≠ []) (hlen : WhiteList.length < 2 ^ 64)
    (st : List UpgradeWhiteEpochLeaderParam) :
    upgradeWhiteEpochLeaderParseAndValid WhiteList.length (.ok ⟨2, 2 ^ 64 - 1, 1⟩) 0 =
        .ok ⟨2, 2 ^ 64 - 1, 1⟩ ∧
      WhiteList.length ≤ (bigUint64 (2 ^ 64 - 1)).toNat + (bigUint64 1).toNat ∧
      ∃ st', upgradeWhiteEpochLeader ⟨2, 2 ^ 64 - 1, 1⟩ st = .ok st' ∧
        GetEpochWLInfo st' 2 = some ⟨2, 2 ^ 64 - 1, 1⟩ ∧
        GetWhiteByEpochId WhiteList st' 2 = .error "slice bounds out of range" ∧
        GetWhiteArrayByEpochId EpochLeadersHold st' 2 = .error "slice bounds out of range" := by
  have hpos : 0 < WhiteList.length := List.length_pos_of_ne_nil hne
  have hwrap : 2 ^ 64 ≤ (bigUint64 (2 ^ 64 - 1)).toNat + (bigUint64 1).toNat := by decide
  -- the wrapped sum is zero, below the length
  have hcheck : ¬bigUint64 (2 ^ 64 - 1) + bigUint64 1 ≥ UInt64.ofNat WhiteList.length := by
    rw [show bigUint64 (2 ^ 64 - 1) + bigUint64 1 = 0 from rfl, ge_iff_le,
      UInt64.le_iff_toNat_le, UInt64.toNat_ofNat', Nat.mod_eq_of_lt hlen]
    exact Nat.not_le_of_lt hpos
  refine ⟨?_, by omega, KeyedList.upsert UpgradeWhiteEpochLeaderParam.EpochId st
    ⟨2, 2 ^ 64 - 1, 1⟩, rfl, ?_⟩
  · rw [upgradeWhiteEpochLeaderParseAndValid_ok, if_neg hcheck, if_neg (by decide),
      if_neg (by decide)]
  -- the stored record is the only one of epoch 2, the greatest epoch at most 2
  have hget : GetEpochWLInfo (KeyedList.upsert UpgradeWhiteEpochLeaderParam.EpochId st
      ⟨2, 2 ^ 64 - 1, 1⟩) 2 = some ⟨2, 2 ^ 64 - 1, 1⟩ := by
    obtain ⟨p, hp, hmem, hle, hgreatest⟩ := GetEpochWLInfo_spec (KeyedList.upsert
      UpgradeWhiteEpochLeaderParam.EpochId st ⟨2, 2 ^ 64 - 1, 1⟩) (e := 2) (by decide)
    have hge := hgreatest _ (.inr (KeyedList.mem_upsert_self _ _)) le_rfl
    have hp2 : p.EpochId = 2 := by
      change p.EpochId ≤ 2 at hle
      change 2 ≤ p.EpochId at hge
      omega
    rcases hmem with rfl | hmem
    · exact absurd hp2 (by decide)
    · rw [hp, KeyedList.eq_of_mem_upsert hmem hp2]
  refine ⟨hget, ?_, ?_⟩
  · rw [GetWhiteByEpochId, hget]
    exact whiteSlice_of_wraps WhiteList hwrap
  · rw [GetWhiteArrayByEpochId, hget]
    exact whiteSlice_of_wraps EpochLeadersHold hwrap

theorem whiteList_index_wraps_one :
    (["w"] : List String) ≠ [] ∧ (["w"] : List String).length < 2 ^ 64 ∧
    (upgradeWhiteEpochLeaderParseAndValid (["w"] : List String).length
          (.ok ⟨2, 2 ^ 64 - 1, 1⟩) 0 = .ok ⟨2, 2 ^ 64 - 1, 1⟩ ∧
      (["w"] : List String).length ≤ (bigUint64 (2 ^ 64 - 1)).toNat + (bigUint64 1).toNat ∧
      ∃ st', upgradeWhiteEpochLeader ⟨2, 2 ^ 64 - 1, 1⟩ [] = .ok st' ∧
        GetEpochWLInfo st' 2 = some ⟨2, 2 ^ 64 - 1, 1⟩ ∧
        GetWhiteByEpochId ["w"] st' 2 = .error "slice bounds out of range" ∧
        GetWhiteArrayByEpochId [] st' 2 = .error "slice bounds out of range") :=
  ⟨by decide, by decide, whiteList_index_wraps ["w"] [] (by decide) (by decide) []⟩

end Wanchain.PosControl
