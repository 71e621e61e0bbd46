import Wanchain.SlotLeader.Contract

/-!
# What the slot-leader contract stores

Over every sequence of transactions, the storage of the slot-leader contract holds, for each
epoch and each epoch leader, at most one record of each stage, written once by the leader and
never changed; each stage's bitmap of the epoch has exactly the bits of the leaders with a
record; and every record is a payload the contract accepts for its epoch and index, a
stage-two record coming with the stage-one record whose committed point is its own piece
(`slotLeaderSC_records`).

The keys carry it. A record's key is the epoch's and the index's minimal bytes and the stage's
name, which cannot be told apart in general (`[1] ++ [1, 0]` and `[1, 1] ++ [0]`); the index of
an epoch leader is below fifty and its bytes are a single byte, which makes the key of a record
of an epoch leader name its stage, epoch and index (`stageKey_inj`). A bitmap's name ends in a
letter, a record's stage name in a digit, so the two kinds of slots never meet
(`stageKey_ne_indexesKey`).

One lemma says what a successful call checked and wrote (`Run_cases`); the invariant
(`SlStored`) is kept by every call (`SlStored.step`), and so holds of every storage the
contract reaches.
-/

namespace Wanchain.SlotLeader

open Rlp

/-! ### Stages and keys -/

/-- The two stages: the name of their records and of their bitmaps. -/
inductive SlStage
  | one
  | two
  deriving DecidableEq, Repr

/-- The name of a stage's records. -/
def SlStage.name : SlStage → String
  | .one => SlotLeaderStag1
  | .two => SlotLeaderStag2

/-- The name of a stage's bitmaps. -/
def SlStage.indexes : SlStage → String
  | .one => SlotLeaderStag1Indexes
  | .two => SlotLeaderStag2Indexes

/-- The slot of the record of index `i` in stage `s` of epoch `e`. -/
def stageKey (e i : UInt64) (s : SlStage) : Bytes :=
  getSlotLeaderStageKeyHash (uint64ToBytes e) (uint64ToBytes i) s.name

/-- The slot of the bitmap of stage `s` of epoch `e`. -/
def indexesKey (e : UInt64) (s : SlStage) : Bytes :=
  getSlotLeaderStageIndexesKeyHash (uint64ToBytes e) s.indexes

lemma GetSlotLeaderStage1KeyHash_eq (e i : UInt64) :
    GetSlotLeaderStage1KeyHash (uint64ToBytes e) (uint64ToBytes i) = stageKey e i .one := rfl

lemma GetSlotLeaderStage2KeyHash_eq (e i : UInt64) :
    GetSlotLeaderStage2KeyHash (uint64ToBytes e) (uint64ToBytes i) = stageKey e i .two := rfl

lemma BytesToUint64_uint64ToBytes (x : UInt64) : BytesToUint64 (uint64ToBytes x) = x := by
  rw [BytesToUint64, setBytes_uint64ToBytes, UInt64.ofNat_toNat]

/-- An index below `256` is written as one byte. -/
lemma uint64ToBytes_of_lt {i : UInt64} (hi : i.toNat < 256) :
    uint64ToBytes i = [UInt8.ofNat i.toNat] := by
  unfold uint64ToBytes
  split_ifs with h0
  · subst h0
    rfl
  · exact bigBytes_of_lt (fun h => h0 (UInt64.toNat_inj.mp h)) hi

lemma length_name (s : SlStage) : s.name.toUTF8.toList.length = 15 := by
  cases s <;> decide +kernel

lemma length_indexes (s : SlStage) : s.indexes.toUTF8.toList.length = 22 := by
  cases s <;> decide +kernel

lemma name_inj {s s' : SlStage} (h : s.name.toUTF8.toList = s'.name.toUTF8.toList) : s = s' := by
  cases s <;> cases s' <;> first | rfl | (revert h; decide +kernel)

lemma indexes_inj {s s' : SlStage} (h : s.indexes.toUTF8.toList = s'.indexes.toUTF8.toList) :
    s = s' := by
  cases s <;> cases s' <;> first | rfl | (revert h; decide +kernel)

/-- A record's name ends in its stage's digit, a bitmap's in a letter. -/
lemma getLast_name_ne (s s' : SlStage) :
    s.name.toUTF8.toList.getLast? ≠ s'.indexes.toUTF8.toList.getLast? := by
  cases s <;> cases s' <;> decide +kernel

/-- The record keys of epoch leaders name their stage, epoch and index. -/
lemma stageKey_inj {e e' i i' : UInt64} {s s' : SlStage} (hi : i.toNat < epochLeaderCount)
    (hi' : i'.toNat < epochLeaderCount) :
    stageKey e i s = stageKey e' i' s' ↔ s = s' ∧ e = e' ∧ i = i' := by
  refine ⟨fun h => ?_, by rintro ⟨rfl, rfl, rfl⟩; rfl⟩
  have h256 : ∀ j : UInt64, j.toNat < epochLeaderCount → j.toNat < 256 := fun j hj => by
    simp only [epochLeaderCount] at hj
    omega
  rw [stageKey, stageKey, getSlotLeaderStageKeyHash, getSlotLeaderStageKeyHash,
    uint64ToBytes_of_lt (h256 i hi), uint64ToBytes_of_lt (h256 i' hi')] at h
  obtain ⟨h₁, h₂⟩ := List.append_inj' h (by rw [length_name, length_name])
  obtain ⟨h₃, h₄⟩ := List.append_inj' h₁ rfl
  have hb := congrArg UInt8.toNat (List.singleton_inj.mp h₄)
  rw [UInt8.toNat_ofNat', UInt8.toNat_ofNat', Nat.mod_eq_of_lt (h256 i hi),
    Nat.mod_eq_of_lt (h256 i' hi')] at hb
  exact ⟨name_inj h₂, uint64ToBytes_inj.mp h₃, UInt64.toNat_inj.mp hb⟩

lemma stageKey_ne_indexesKey (e i e' : UInt64) (s s' : SlStage) :
    stageKey e i s ≠ indexesKey e' s' := by
  intro h
  have hlast := congrArg List.getLast? h
  rw [stageKey, indexesKey, getSlotLeaderStageKeyHash, getSlotLeaderStageIndexesKeyHash,
    List.getLast?_append_of_ne_nil _ (List.ne_nil_of_length_pos (by rw [length_name]; omega)),
    List.getLast?_append_of_ne_nil _ (List.ne_nil_of_length_pos (by rw [length_indexes]; omega))]
    at hlast
  exact getLast_name_ne s s' hlast

lemma indexesKey_inj {e e' : UInt64} {s s' : SlStage} :
    indexesKey e s = indexesKey e' s' ↔ s = s' ∧ e = e' := by
  refine ⟨fun h => ?_, by rintro ⟨rfl, rfl⟩; rfl⟩
  obtain ⟨h₁, h₂⟩ := List.append_inj' h (by rw [length_indexes, length_indexes])
  exact ⟨indexes_inj h₂, uint64ToBytes_inj.mp h₁⟩

/-! ### What each function checks -/

section Checks

variable {Pt : Type} [AddCommGroup Pt] (c : Crypto Pt) (env : SlEnv Pt c) (pc : PointCodec Pt)

lemma length_of_dropFunctionId {input buf : Bytes} (h : dropFunctionId input = .ok buf) :
    4 ≤ input.length := by
  unfold dropFunctionId at h
  split_ifs at h with hlt
  omega

/-- A payload that unpacks is no empty slot. -/
lemma ne_nil_of_RlpUnpackStage1DataForTx {input : Bytes} {r : UInt64 × UInt64 × Pt}
    (h : RlpUnpackStage1DataForTx pc input = .ok r) : input ≠ [] := by
  obtain ⟨buf, hbuf, -⟩ := Machine.bind_ok h
  have := length_of_dropFunctionId hbuf
  intro hnil
  simp [hnil] at this

/-- The ids read from a stage-one payload are those it unpacks to. -/
lemma RlpGetStage1IDFromTx_of_unpack {input : Bytes} {e i : UInt64} {mi : Pt}
    (h : RlpUnpackStage1DataForTx pc input = .ok (e, i, mi)) :
    RlpGetStage1IDFromTx input = .ok (uint64ToBytes e, uint64ToBytes i) := by
  obtain ⟨buf, hbuf, h⟩ := Machine.bind_ok h
  obtain ⟨data, hdata, h⟩ := Machine.bind_ok h
  rw [RlpGetStage1IDFromTx, hbuf, Machine.ok_bind, hdata, Machine.ok_bind]
  split at h
  · obtain ⟨mi', -, h⟩ := Machine.bind_ok h
    cases h
    rfl
  · cases h

/-- The ids read from a stage-two payload are those it unpacks to. -/
lemma RlpGetStage2IDFromTx_of_unpack {input : Bytes} {e i : UInt64} {selfPk : Pt}
    {alpha : List Pt} {proof : List ℕ}
    (h : RlpUnpackStage2DataForTx pc input = .ok (e, i, selfPk, alpha, proof)) :
    RlpGetStage2IDFromTx input = .ok (uint64ToBytes e, uint64ToBytes i) := by
  obtain ⟨buf, hbuf, h⟩ := Machine.bind_ok h
  obtain ⟨data, hdata, h⟩ := Machine.bind_ok h
  rw [RlpGetStage2IDFromTx, hbuf, Machine.ok_bind, hdata, Machine.ok_bind]
  split at h
  · obtain ⟨_, -, h⟩ := Machine.bind_ok h
    obtain ⟨_, -, h⟩ := Machine.bind_ok h
    obtain ⟨_, -, h⟩ := Machine.bind_ok h
    cases h
    rfl
  · cases h

lemma isInValidStage_true {epochID time kStart kEnd : UInt64}
    (h : isInValidStage epochID time kStart kEnd = true) :
    (RandomBeacon.CalEpochSlotID time).1 = epochID ∧ kStart ≤ (RandomBeacon.CalEpochSlotID time).2 ∧
      (RandomBeacon.CalEpochSlotID time).2 ≤ kEnd := by
  unfold isInValidStage at h
  rcases hcal : RandomBeacon.CalEpochSlotID time with ⟨eid, sid⟩
  rw [hcal] at h
  dsimp only at h
  split_ifs at h with h₁ h₂
  refine ⟨(not_not.mp h₁).symm, ?_, ?_⟩
  · exact UInt64.not_lt.mp fun hlt => h₂ (Or.inr hlt)
  · exact UInt64.not_lt.mp fun hlt => h₂ (Or.inl hlt)

lemma isDuplicateTrans_name (st : SlStorage) (e i : UInt64) (s : SlStage) :
    isDuplicateTrans st e i s.name = decide (st.slots (stageKey e i s) ≠ []) := by
  cases s with
  | one => exact if_pos rfl
  | two =>
    rw [isDuplicateTrans, if_neg (by decide)]
    exact if_pos rfl

/-- What `validStgReset` checked: the ids, the stage's slots and the absence of a record. -/
lemma validStgReset_true {getID : Bytes → Except String (Bytes × Bytes)} {kStart kEnd : UInt64}
    {stageName : String} {st : SlStorage} {payload : Bytes} {time : UInt64}
    (h : validStgReset getID kStart kEnd stageName st payload time = true) :
    ∃ a b, getID payload = .ok (a, b) ∧ isInValidStage (BytesToUint64 a) time kStart kEnd = true ∧
      isDuplicateTrans st (BytesToUint64 a) (BytesToUint64 b) stageName = false := by
  unfold validStgReset at h
  split at h
  · cases h
  · rename_i a b hid
    split_ifs at h with h₁ h₂
    exact ⟨a, b, hid, by simpa using h₁, by simpa using h₂⟩

/-- What `InEpochLeadersOrNotByAddress` checked: the index is that of one of the fifty leaders,
whose address is the sender's. -/
lemma InEpochLeadersOrNotByAddress_true {e i : UInt64} {sender : Address}
    (h : InEpochLeadersOrNotByAddress c env e i sender = true) :
    (env.GetEpochLeaders e).length = epochLeaderCount ∧ i.toNat < epochLeaderCount ∧
      env.PubkeyToAddress ((env.GetEpochLeaders e).getD i.toNat 0) = sender := by
  unfold InEpochLeadersOrNotByAddress at h
  dsimp only at h
  split_ifs at h with h₁ h₂
  refine ⟨not_not.mp h₁, ?_, of_decide_eq_true h⟩
  -- an index of `2 ^ 63` or more is a negative `int64`
  by_cases hbig : 2 ^ 63 ≤ i.toNat
  · exact absurd (Or.inl (toInt_toInt64_neg hbig)) h₂
  · rw [toInt_toInt64_of_lt (by omega)] at h₂
    exact_mod_cast not_le.mp fun hle => h₂ (.inr hle)

/-- What `GetStg1StateDbInfo` read: the stage-one record of the index, unpacked to the same
epoch and index. -/
lemma GetStg1StateDbInfo_ok {st : SlStorage} {e i : UInt64} {mi : Bytes}
    (h : GetStg1StateDbInfo c pc st e i = .ok mi) :
    ∃ miPoint, RlpUnpackStage1DataForTx pc (st.slots (stageKey e i .one)) = .ok (e, i, miPoint) ∧
      mi = c.FromECDSAPub miPoint := by
  unfold GetStg1StateDbInfo at h
  dsimp only at h
  split_ifs at h with hnil
  split at h
  · cases h
  · rename_i e' i' miPoint hr
    split_ifs at h with heq
    obtain ⟨rfl, rfl⟩ := heq
    cases h
    exact ⟨miPoint, hr, rfl⟩

lemma GetStg1StateDbInfo_of_unpack {st : SlStorage} {e i : UInt64} {mi : Pt}
    (h : RlpUnpackStage1DataForTx pc (st.slots (stageKey e i .one)) = .ok (e, i, mi)) :
    GetStg1StateDbInfo c pc st e i = .ok (c.FromECDSAPub mi) := by
  unfold GetStg1StateDbInfo
  rw [GetSlotLeaderStage1KeyHash_eq, if_neg (ne_nil_of_RlpUnpackStage1DataForTx pc h), h]
  simp

lemma GetStage2TxAlphaPki_of_unpack {st : SlStorage} {e i : UInt64} {selfPk : Pt}
    {alpha : List Pt} {proof : List ℕ}
    (h : RlpUnpackStage2DataForTx pc (st.slots (stageKey e i .two)) =
      .ok (e, i, selfPk, alpha, proof)) :
    GetStage2TxAlphaPki pc st e i = .ok (alpha, proof) := by
  have hne : st.slots (stageKey e i .two) ≠ [] := by
    intro hnil
    obtain ⟨buf, hbuf, -⟩ := Machine.bind_ok h
    have := length_of_dropFunctionId (hnil ▸ hbuf)
    simp at this
  unfold GetStage2TxAlphaPki
  rw [GetSlotLeaderStage2KeyHash_eq, if_neg hne, h]
  simp

/-- What `validStg1Service` checked: the payload unpacks and its sender leads the epoch at its
index. -/
lemma validStg1Service_true {sender : Address} {payload : Bytes}
    (h : validStg1Service c env pc sender payload = true) :
    ∃ e i mi, RlpUnpackStage1DataForTx pc payload = .ok (e, i, mi) ∧
      InEpochLeadersOrNotByAddress c env e i sender = true := by
  unfold validStg1Service at h
  split at h
  · cases h
  · rename_i a b hid
    split_ifs at h with hin
    split at h
    · cases h
    · rename_i r hr
      obtain ⟨e, i, mi⟩ := r
      rw [RlpGetStage1IDFromTx_of_unpack pc hr] at hid
      cases hid
      rw [BytesToUint64_uint64ToBytes, BytesToUint64_uint64ToBytes] at hin
      exact ⟨e, i, mi, hr, by simpa using hin⟩

variable [DecidableEq Pt]

/-- `PkEqual` of a marshalled point read back and a piece: the piece is the point. -/
lemma PkEqual_ToECDSAPub {P Q : Pt} (h : PkEqual (env.ToECDSAPub (c.FromECDSAPub P)) (some Q) = true) :
    Q = P := by
  unfold PkEqual at h
  split at h
  · rename_i p q hp hq
    cases hq
    have := env.ToECDSAPub_FromECDSAPub P p hp
    subst this
    exact (of_decide_eq_true h).symm
  · cases h

/-- What `validStg2Service` checked: the payload unpacks, its sender leads the epoch at its
index, the proof's numbers are not zero, the index's stage-one record unpacks to the same epoch
and index, there is a piece for each leader, the index's piece is the committed point, and the
DLEQ proof verifies. -/
lemma validStg2Service_true {st : SlStorage} {sender : Address} {payload : Bytes}
    (h : validStg2Service c env pc st sender payload = true) :
    ∃ e i selfPk alpha proof mi,
      RlpUnpackStage2DataForTx pc payload = .ok (e, i, selfPk, alpha, proof) ∧
      InEpochLeadersOrNotByAddress c env e i sender = true ∧ (∀ x ∈ proof, x ≠ 0) ∧
      RlpUnpackStage1DataForTx pc (st.slots (stageKey e i .one)) = .ok (e, i, mi) ∧
      alpha.length = epochLeaderCount ∧ alpha[i.toNat]? = some mi ∧
      VerifyDleqProof c (env.GetEpochLeaders e) alpha proof = true := by
  unfold validStg2Service at h
  split at h
  · cases h
  · rename_i e i selfPk alpha proof hun
    split_ifs at h with hin hzero
    split at h
    · cases h
    · rename_i mi hmi
      dsimp only at h
      split_ifs at h with hlen hpk hbuf
      obtain ⟨miPoint, hst1, rfl⟩ := GetStg1StateDbInfo_ok c pc hmi
      have hin' : InEpochLeadersOrNotByAddress c env e i sender = true := by simpa using hin
      have hi := (InEpochLeadersOrNotByAddress_true c env hin').2.1
      have hlen' : alpha.length = epochLeaderCount := by
        by_contra hne
        exact hlen (.inr hne)
      -- the piece the check compares is the one at the index, which is in range
      have hpiece : alpha.getD i.toNat 0 = miPoint :=
        PkEqual_ToECDSAPub c env (by simpa using hpk)
      have hget : alpha[i.toNat]? = some miPoint := by
        rw [← hpiece, List.getD_eq_getElem?_getD, List.getElem?_eq_getElem (by omega)]
        rfl
      have h0 : 0 ∉ proof := by simpa using hzero
      exact ⟨e, i, selfPk, alpha, proof, miPoint, hun, hin', fun x hx hx0 => h0 (hx0 ▸ hx), hst1,
        hlen', hget, h⟩

/-- What a successful `updateSlotLeaderStageIndex` wrote: the bitmap it read, or an empty one
where there was none, with the index's bit set. -/
lemma updateSlotLeaderStageIndex_ok {st st' : SlStorage} {epochID : Bytes} {name : String}
    {index : UInt64} (h : updateSlotLeaderStageIndex st epochID name index = .ok st') :
    index.toNat < epochLeaderCount ∧ ∃ bits,
      st' = st.set (getSlotLeaderStageIndexesKeyHash epochID name)
        (encodeBools (bits.set index.toNat true)) ∧
      ((st.slots (getSlotLeaderStageIndexesKeyHash epochID name) = [] ∧
          bits = List.replicate epochLeaderCount false) ∨
        (st.slots (getSlotLeaderStageIndexesKeyHash epochID name) ≠ [] ∧
          DecodeBoolArray epochLeaderCount (st.slots (getSlotLeaderStageIndexesKeyHash epochID name)) =
            .ok bits)) := by
  unfold updateSlotLeaderStageIndex at h
  dsimp only at h
  split_ifs at h with hnil hidx hidx
  · cases h
  · cases h
    exact ⟨by omega, _, rfl, .inl ⟨List.eq_nil_of_length_eq_zero hnil, rfl⟩⟩
  · obtain ⟨bits, -, h⟩ := Machine.bind_ok h
    cases h
  · obtain ⟨bits, hbits, h⟩ := Machine.bind_ok h
    cases h
    exact ⟨by omega, bits, rfl, .inr ⟨fun h0 => hnil (by rw [h0]; rfl), hbits⟩⟩

lemma handleStg_ok {getID : Bytes → Except String (Bytes × Bytes)} {stage indexes : String}
    {st st' : SlStorage} {input : Bytes} (h : handleStg getID stage indexes st input = .ok st') :
    ∃ a b, getID input = .ok (a, b) ∧
      updateSlotLeaderStageIndex (st.set (getSlotLeaderStageKeyHash a b stage) input) a indexes
        (BytesToUint64 b) = .ok st' := by
  obtain ⟨⟨a, b⟩, hid, h⟩ := Machine.bind_ok h
  exact ⟨a, b, hid, h⟩

end Checks

/-! ### What a call does -/

section Call

variable {Pt : Type} [AddCommGroup Pt] [DecidableEq Pt] (c : Crypto Pt) (env : SlEnv Pt c)
  (pc : PointCodec Pt)

/-- The first and last slot of a stage. -/
def SlStage.kStart : SlStage → UInt64
  | .one => Sma1Start
  | .two => Sma2Start

def SlStage.kEnd : SlStage → UInt64
  | .one => Sma1End
  | .two => Sma2End

/-- What a call that stores a record of stage `s` for index `i` of epoch `e` checked of its
payload, besides its sender and its time: the payload unpacks to the epoch and the index; in
stage two also the index's stage-one record does, its committed point is the payload's piece of
the index, the proof's numbers are not zero and the DLEQ proof of the pieces verifies. -/
def Accepted (st : SlStorage) (payload : Bytes) (e i : UInt64) : SlStage → Prop
  | .one => ∃ mi, RlpUnpackStage1DataForTx pc payload = .ok (e, i, mi)
  | .two => ∃ selfPk alpha proof mi,
      RlpUnpackStage2DataForTx pc payload = .ok (e, i, selfPk, alpha, proof) ∧
      RlpUnpackStage1DataForTx pc (st.slots (stageKey e i .one)) = .ok (e, i, mi) ∧
      alpha[i.toNat]? = some mi ∧ (∀ x ∈ proof, x ≠ 0) ∧
      VerifyDleqProof c (env.GetEpochLeaders e) alpha proof = true

/-- Acceptance reads the storage only at the index's stage-one record. -/
lemma Accepted.congr {st st' : SlStorage} {payload : Bytes} {e i : UInt64} {s : SlStage}
    (h : Accepted c env pc st payload e i s)
    (hone : s = .two → st'.slots (stageKey e i .one) = st.slots (stageKey e i .one)) :
    Accepted c env pc st' payload e i s := by
  cases s with
  | one => exact h
  | two =>
    obtain ⟨selfPk, alpha, proof, mi, h₁, h₂, h₃⟩ := h
    exact ⟨selfPk, alpha, proof, mi, h₁, hone rfl ▸ h₂, h₃⟩

/-- An accepted payload is no empty slot, and an accepted stage-two record comes with a
stage-one record. -/
lemma Accepted.ne_nil {st : SlStorage} {payload : Bytes} {e i : UInt64} {s : SlStage}
    (h : Accepted c env pc st payload e i s) :
    payload ≠ [] ∧ (s = .two → st.slots (stageKey e i .one) ≠ []) := by
  cases s with
  | one =>
    obtain ⟨mi, hun⟩ := h
    exact ⟨ne_nil_of_RlpUnpackStage1DataForTx pc hun, nofun⟩
  | two =>
    obtain ⟨selfPk, alpha, proof, mi, h₁, h₂, -⟩ := h
    refine ⟨fun hnil => ?_, fun _ => ne_nil_of_RlpUnpackStage1DataForTx pc h₂⟩
    obtain ⟨buf, hbuf, -⟩ := Machine.bind_ok h₁
    have := length_of_dropFunctionId (hnil ▸ hbuf)
    simp at this

/-- Everything a successful call did: it stored its payload as the record of an epoch leader's
index in a stage with no record of it, at a time in the stage's slots of the epoch, for the
leader's own address, with the payload accepted; then it set the index's bit. -/
lemma Run_cases {st st' : SlStorage} {ctx : SlCtx} {input : Bytes}
    (h : Run c env pc st ctx input = .ok st') :
    ∃ (s : SlStage) (e i : UInt64), i.toNat < epochLeaderCount ∧ st.slots (stageKey e i s) = [] ∧
      env.PubkeyToAddress ((env.GetEpochLeaders e).getD i.toNat 0) = ctx.caller ∧
      (RandomBeacon.CalEpochSlotID ctx.time).1 = e ∧
      s.kStart ≤ (RandomBeacon.CalEpochSlotID ctx.time).2 ∧
      (RandomBeacon.CalEpochSlotID ctx.time).2 ≤ s.kEnd ∧
      Accepted c env pc st input e i s ∧
      updateSlotLeaderStageIndex (st.set (stageKey e i s) input) (uint64ToBytes e) s.indexes i =
        .ok st' := by
  unfold Run at h
  dsimp only at h
  split_ifs at h with hlen h1 hv1 h2 hv2
  · -- stage one
    have hv : validStg1Reset st input ctx.time = true ∧
        validStg1Service c env pc ctx.caller input = true := by simpa using hv1
    obtain ⟨a, b, hid, htime, hdup⟩ := validStgReset_true hv.1
    obtain ⟨e, i, mi, hun, hin⟩ := validStg1Service_true c env pc hv.2
    rw [RlpGetStage1IDFromTx_of_unpack pc hun] at hid
    cases hid
    simp only [BytesToUint64_uint64ToBytes] at htime hdup
    obtain ⟨-, hi, haddr⟩ := InEpochLeadersOrNotByAddress_true c env hin
    obtain ⟨a, b, hid, hupd⟩ := handleStg_ok h
    rw [RlpGetStage1IDFromTx_of_unpack pc hun] at hid
    cases hid
    rw [BytesToUint64_uint64ToBytes] at hupd
    have hfree : st.slots (stageKey e i .one) = [] := by
      have := (isDuplicateTrans_name st e i .one).symm.trans hdup
      simpa using this
    obtain ⟨he, hk₁, hk₂⟩ := isInValidStage_true htime
    exact ⟨.one, e, i, hi, hfree, haddr, he, hk₁, hk₂, ⟨mi, hun⟩, hupd⟩
  · -- stage two
    have hv : validStg2Reset st input ctx.time = true ∧
        validStg2Service c env pc st ctx.caller input = true := by simpa using hv2
    obtain ⟨a, b, hid, htime, hdup⟩ := validStgReset_true hv.1
    obtain ⟨e, i, selfPk, alpha, proof, mi, hun, hin, hproof, hone, -, hget, hdleq⟩ :=
      validStg2Service_true c env pc hv.2
    rw [RlpGetStage2IDFromTx_of_unpack pc hun] at hid
    cases hid
    simp only [BytesToUint64_uint64ToBytes] at htime hdup
    obtain ⟨-, hi, haddr⟩ := InEpochLeadersOrNotByAddress_true c env hin
    obtain ⟨a, b, hid, hupd⟩ := handleStg_ok h
    rw [RlpGetStage2IDFromTx_of_unpack pc hun] at hid
    cases hid
    rw [BytesToUint64_uint64ToBytes] at hupd
    have hfree : st.slots (stageKey e i .two) = [] := by
      have := (isDuplicateTrans_name st e i .two).symm.trans hdup
      simpa using this
    obtain ⟨he, hk₁, hk₂⟩ := isInValidStage_true htime
    exact ⟨.two, e, i, hi, hfree, haddr, he, hk₁, hk₂,
      ⟨selfPk, alpha, proof, mi, hun, hone, hget, hproof, hdleq⟩, hupd⟩

end Call

/-! ### Bitmaps -/

/-- The epoch leaders of an epoch with a record of the stage, in index order. -/
def recorded (st : SlStorage) (e : UInt64) (s : SlStage) : List Bool :=
  (List.range epochLeaderCount).map fun j => decide (st.slots (stageKey e (UInt64.ofNat j) s) ≠ [])

lemma length_recorded (st : SlStorage) (e : UInt64) (s : SlStage) :
    (recorded st e s).length = epochLeaderCount := by
  simp [recorded]

lemma toNat_ofNat_of_lt {j : ℕ} (hj : j < epochLeaderCount) : (UInt64.ofNat j).toNat = j := by
  rw [UInt64.toNat_ofNat', Nat.mod_eq_of_lt (lt_trans hj (by decide))]

lemma getElem?_recorded (st : SlStorage) (e : UInt64) (s : SlStage) {i : UInt64}
    (hi : i.toNat < epochLeaderCount) :
    (recorded st e s)[i.toNat]? = some (decide (st.slots (stageKey e i s) ≠ [])) := by
  simp [recorded, hi]

/-- The bits read only the records of the epoch and stage. -/
lemma recorded_congr {st st' : SlStorage} {e : UInt64} {s : SlStage}
    (h : ∀ j : UInt64, j.toNat < epochLeaderCount →
      st'.slots (stageKey e j s) = st.slots (stageKey e j s)) :
    recorded st' e s = recorded st e s := by
  unfold recorded
  refine List.map_congr_left fun j hj => ?_
  have hj' := List.mem_range.mp hj
  rw [h _ (by rw [toNat_ofNat_of_lt hj']; exact hj')]

/-- A new record sets its leader's bit. -/
lemma recorded_set_stageKey (st : SlStorage) {e i : UInt64} {s : SlStage}
    (hi : i.toNat < epochLeaderCount) {v : Bytes} (hv : v ≠ []) :
    recorded (st.set (stageKey e i s) v) e s = (recorded st e s).set i.toNat true := by
  apply List.ext_getElem
  · simp [length_recorded]
  · intro j hj₁ hj₂
    have hj : j < epochLeaderCount := by rwa [length_recorded] at hj₁
    simp only [recorded, List.getElem_set, List.getElem_map, List.getElem_range,
      SlStorage.set_slots]
    by_cases hij : i.toNat = j
    · subst hij
      simp [hv]
    · -- another leader's record key is another slot
      have hne : stageKey e (UInt64.ofNat j) s ≠ stageKey e i s := fun heq =>
        hij (by rw [← ((stageKey_inj (by rwa [toNat_ofNat_of_lt hj]) hi).mp heq).2.2,
          toNat_ofNat_of_lt hj])
      simp [hij, Function.update_of_ne hne]

lemma encodeBools_ne_nil (bs : List Bool) : encodeBools bs ≠ [] := by
  intro h
  have hlen := length_encodeBools bs
  rw [h, List.length_nil] at hlen
  have := headsize_pos bs.length
  omega

/-! ### The invariant -/

section Invariant

variable {Pt : Type} [AddCommGroup Pt] [DecidableEq Pt] (c : Crypto Pt) (env : SlEnv Pt c)
  (pc : PointCodec Pt)

/-- One transaction either fails and changes nothing, or stores an accepted payload as the
record of an epoch leader in an empty slot and writes the stage's bitmap of the epoch: the one
it read, or an empty one where there was none, with the leader's bit set. -/
lemma slStep_cases (st : SlStorage) (call : SlCall) :
    slStep c env pc st call = st ∨
    ∃ (s : SlStage) (e i : UInt64) (bits : List Bool), i.toNat < epochLeaderCount ∧
      st.slots (stageKey e i s) = [] ∧ Accepted c env pc st call.input e i s ∧
      ((st.slots (indexesKey e s) = [] ∧ bits = List.replicate epochLeaderCount false) ∨
        (st.slots (indexesKey e s) ≠ [] ∧
          DecodeBoolArray epochLeaderCount (st.slots (indexesKey e s)) = .ok bits)) ∧
      slStep c env pc st call = (st.set (stageKey e i s) call.input).set (indexesKey e s)
        (encodeBools (bits.set i.toNat true)) := by
  unfold slStep
  split
  · rename_i st' hrun
    obtain ⟨s, e, i, hi, hfree, -, -, -, -, hacc, hupd⟩ := Run_cases c env pc hrun
    obtain ⟨-, bits, hst', hbits⟩ := updateSlotLeaderStageIndex_ok hupd
    -- the bitmap's slot is not the record's, so the record written first does not change it
    have hidx : (st.set (stageKey e i s) call.input).slots (indexesKey e s) =
        st.slots (indexesKey e s) := by
      rw [SlStorage.set_slots, Function.update_of_ne (stageKey_ne_indexesKey e i e s s).symm]
    exact .inr ⟨s, e, i, bits, hi, hfree, hacc, hidx ▸ hbits, hst'⟩
  · exact .inl rfl

/-- A record that is there stays as it is: a call writes only an empty record slot and a
bitmap. -/
lemma slStep_record (st : SlStorage) (call : SlCall) {e i : UInt64} {s : SlStage}
    (h : st.slots (stageKey e i s) ≠ []) :
    (slStep c env pc st call).slots (stageKey e i s) = st.slots (stageKey e i s) := by
  rcases slStep_cases c env pc st call with hst | ⟨s', e', i', bits, -, hfree, -, -, hst⟩
  · rw [hst]
  · have hne : stageKey e i s ≠ stageKey e' i' s' := fun heq => h (heq ▸ hfree)
    rw [hst, SlStorage.set_slots, Function.update_of_ne (stageKey_ne_indexesKey _ _ _ _ _),
      SlStorage.set_slots, Function.update_of_ne hne]

/-- What every storage the contract reaches holds. -/
structure SlStored (st : SlStorage) : Prop where
  /-- every record of an epoch leader is a payload accepted for its epoch and index -/
  accepted : ∀ (e i : UInt64) (s : SlStage), i.toNat < epochLeaderCount →
    st.slots (stageKey e i s) ≠ [] → Accepted c env pc st (st.slots (stageKey e i s)) e i s
  /-- a stage's bitmap of an epoch is absent while no leader has a record, and then has the
  bits of the leaders with one -/
  indexes : ∀ (e : UInt64) (s : SlStage),
    (st.slots (indexesKey e s) = [] ∧ recorded st e s = List.replicate epochLeaderCount false) ∨
      st.slots (indexesKey e s) = encodeBools (recorded st e s)

lemma SlStored.empty : SlStored c env pc SlStorage.empty where
  accepted _ _ _ _ h := absurd rfl h
  indexes _ _ := .inl ⟨rfl, by simp [recorded]⟩

/-- The bitmap a call reads is the records' bits. -/
lemma SlStored.bits_eq {st : SlStorage} (hst : SlStored c env pc st) {e : UInt64} {s : SlStage}
    {bits : List Bool}
    (hbits : (st.slots (indexesKey e s) = [] ∧ bits = List.replicate epochLeaderCount false) ∨
      (st.slots (indexesKey e s) ≠ [] ∧
        DecodeBoolArray epochLeaderCount (st.slots (indexesKey e s)) = .ok bits)) :
    bits = recorded st e s := by
  rcases hst.indexes e s with ⟨h0, hr⟩ | henc
  · rcases hbits with ⟨-, hb⟩ | ⟨hne, -⟩
    · rw [hb, hr]
    · exact absurd h0 hne
  · rcases hbits with ⟨h0, -⟩ | ⟨-, hdec⟩
    · exact absurd (henc ▸ h0) (encodeBools_ne_nil _)
    · rw [henc, ← length_recorded st e s,
        DecodeBoolArray_encodeBools (by rw [length_recorded]; decide)] at hdec
      exact (Except.ok.inj hdec).symm

/-- Every call keeps the invariant. -/
theorem SlStored.step {st : SlStorage} (hst : SlStored c env pc st) (call : SlCall) :
    SlStored c env pc (slStep c env pc st call) := by
  rcases slStep_cases c env pc st call with hst' | ⟨s, e, i, bits, hi, hfree, hacc, hbits, hst'⟩
  · rw [hst']
    exact hst
  have hinput : call.input ≠ [] := (hacc.ne_nil c env pc).1
  -- the slots the call wrote
  have hrec : (slStep c env pc st call).slots (stageKey e i s) = call.input := by
    rw [hst', SlStorage.set_slots, Function.update_of_ne (stageKey_ne_indexesKey _ _ _ _ _)]
    simp
  have hone : s = .two → (slStep c env pc st call).slots (stageKey e i .one) =
      st.slots (stageKey e i .one) := by
    rintro rfl
    rw [hst', SlStorage.set_slots, Function.update_of_ne (stageKey_ne_indexesKey _ _ _ _ _),
      SlStorage.set_slots, Function.update_of_ne (by rw [Ne, stageKey_inj hi hi]; simp)]
  constructor
  · intro e' i' s' hi' hne
    by_cases hold : st.slots (stageKey e' i' s') = []
    · -- an empty slot that is full now is the one the call wrote
      have hkey : stageKey e' i' s' = stageKey e i s := by
        by_contra hk
        rw [hst', SlStorage.set_slots, Function.update_of_ne (stageKey_ne_indexesKey _ _ _ _ _),
          SlStorage.set_slots, Function.update_of_ne hk] at hne
        exact hne hold
      obtain ⟨rfl, rfl, rfl⟩ := (stageKey_inj hi' hi).mp hkey
      rw [hrec]
      exact hacc.congr c env pc hone
    · rw [slStep_record c env pc st call hold]
      have hacc' := hst.accepted e' i' s' hi' hold
      refine hacc'.congr c env pc fun hs' => slStep_record c env pc st call
        ((hacc'.ne_nil c env pc).2 hs')
  · intro e' s'
    by_cases hes : s' = s ∧ e' = e
    · obtain ⟨rfl, rfl⟩ := hes
      -- the written bitmap has the bits of the records now there
      have hbits' := hst.bits_eq c env pc hbits
      refine .inr ?_
      have hrec' : recorded (slStep c env pc st call) e' s' =
          (recorded st e' s').set i.toNat true := by
        rw [← recorded_set_stageKey st hi hinput, hst']
        refine recorded_congr fun j _ => ?_
        rw [SlStorage.set_slots, Function.update_of_ne (stageKey_ne_indexesKey _ _ _ _ _)]
      rw [hrec', hst', SlStorage.set_slots, Function.update_self, hbits']
    · -- another epoch's or stage's bitmap, and none of its records, was written
      have hidx : (slStep c env pc st call).slots (indexesKey e' s') = st.slots (indexesKey e' s') := by
        rw [hst', SlStorage.set_slots, Function.update_of_ne (fun h => hes (indexesKey_inj.mp h)),
          SlStorage.set_slots, Function.update_of_ne (stageKey_ne_indexesKey _ _ _ _ _).symm]
      have hrec' : recorded (slStep c env pc st call) e' s' = recorded st e' s' := by
        refine recorded_congr fun j hj => ?_
        rw [hst', SlStorage.set_slots, Function.update_of_ne (stageKey_ne_indexesKey _ _ _ _ _),
          SlStorage.set_slots, Function.update_of_ne]
        intro heq
        obtain ⟨hs, he, -⟩ := (stageKey_inj hj hi).mp heq
        exact hes ⟨hs, he⟩
      rw [hidx, hrec']
      exact hst.indexes e' s'

/-- Every storage the contract reaches keeps the invariant. -/
theorem SlStored.reachable (calls : List SlCall) :
    SlStored c env pc (Machine.run (slStep c env pc) SlStorage.empty calls) :=
  Machine.run_invariant (fun _ call hst => hst.step c env pc call) (SlStored.empty c env pc) calls

/-- A record that is there stays as it is through every later run, from any storage. -/
theorem run_record (st : SlStorage) (more : List SlCall) {e i : UInt64} {s : SlStage}
    (h : st.slots (stageKey e i s) ≠ []) :
    (Machine.run (slStep c env pc) st more).slots (stageKey e i s) = st.slots (stageKey e i s) :=
  Machine.run_invariant (P := fun t => t.slots (stageKey e i s) = st.slots (stageKey e i s))
    (fun t call ht => (slStep_record c env pc t call (ht ▸ h)).trans ht) rfl more

/-- The loop of `getValidIndexCnt` adds the number of bits set. -/
lemma foldl_count (bits : List Bool) (n : UInt64) :
    bits.foldl (fun cnt b => if b then cnt + 1 else cnt) n = n + UInt64.ofNat (bits.count true) := by
  induction bits generalizing n with
  | nil => simp
  | cons b bits ih =>
    cases b with
    | true =>
      rw [List.foldl_cons, if_pos rfl, ih, List.count_cons_self, UInt64.ofNat_add, UInt64.ofNat_one]
      ac_rfl
    | false => simp [ih]

/-- In a reached storage `getValidIndexCnt` counts the records of the stage in the epoch. -/
lemma SlStored.getValidIndexCnt_eq {st : SlStorage} (hst : SlStored c env pc st) (e : UInt64)
    (s : SlStage) :
    getValidIndexCnt st e s.indexes = UInt64.ofNat ((recorded st e s).count true) := by
  unfold getValidIndexCnt
  dsimp only
  rcases hst.indexes e s with ⟨h0, hr⟩ | henc
  · rw [show getSlotLeaderStageIndexesKeyHash (uint64ToBytes e) s.indexes = indexesKey e s from rfl,
      h0, hr]
    simp [List.count_replicate]
  · have hne : (st.slots (indexesKey e s)).length ≠ 0 := by
      rw [henc]
      exact fun h => encodeBools_ne_nil _ (List.eq_nil_of_length_eq_zero h)
    rw [show getSlotLeaderStageIndexesKeyHash (uint64ToBytes e) s.indexes = indexesKey e s from rfl,
      if_neg hne, henc, ← length_recorded st e s,
      DecodeBoolArray_encodeBools (by rw [length_recorded]; decide)]
    dsimp only
    rw [foldl_count, UInt64.zero_add]

/-- The contract's store over every sequence of transactions: a record of an epoch leader's
index, once there, never changes; each stage's bitmap of an epoch is absent while no leader has
a record, and then decodes to the bits of the leaders with one, which `getValidIndexCnt`
(`GetValidSMA1Cnt`, `GetValidSMA2Cnt`) counts; a stage-two record comes with the stage-one
record of its epoch and index, whose committed point is its piece at the index; and every record
reads back the epoch and index it is stored under. -/
theorem slotLeaderSC_records (calls : List SlCall) :
    let st := Machine.run (slStep c env pc) SlStorage.empty calls
    (∀ (more : List SlCall) (e i : UInt64) (s : SlStage), st.slots (stageKey e i s) ≠ [] →
      (Machine.run (slStep c env pc) st more).slots (stageKey e i s) =
        st.slots (stageKey e i s)) ∧
    (∀ (e : UInt64) (s : SlStage), ∃ bits : List Bool, bits.length = epochLeaderCount ∧
      (∀ i : UInt64, i.toNat < epochLeaderCount →
        (bits[i.toNat]? = some true ↔ st.slots (stageKey e i s) ≠ [])) ∧
      ((st.slots (indexesKey e s) = [] ∧ bits = List.replicate epochLeaderCount false) ∨
        DecodeBoolArray epochLeaderCount (st.slots (indexesKey e s)) = .ok bits) ∧
      getValidIndexCnt st e s.indexes = UInt64.ofNat (bits.count true)) ∧
    (∀ e i : UInt64, i.toNat < epochLeaderCount → st.slots (stageKey e i .two) ≠ [] →
      ∃ mi alphaPki proof, GetStg1StateDbInfo c pc st e i = .ok (c.FromECDSAPub mi) ∧
        GetStage2TxAlphaPki pc st e i = .ok (alphaPki, proof) ∧ alphaPki[i.toNat]? = some mi) ∧
    (∀ e i : UInt64, i.toNat < epochLeaderCount →
      (st.slots (stageKey e i .one) ≠ [] →
        RlpGetStage1IDFromTx (st.slots (stageKey e i .one)) =
          .ok (uint64ToBytes e, uint64ToBytes i) ∧
        ∃ mi, GetStg1StateDbInfo c pc st e i = .ok (c.FromECDSAPub mi)) ∧
      (st.slots (stageKey e i .two) ≠ [] →
        RlpGetStage2IDFromTx (st.slots (stageKey e i .two)) =
          .ok (uint64ToBytes e, uint64ToBytes i))) := by
  intro st
  have hst : SlStored c env pc st := SlStored.reachable c env pc calls
  refine ⟨fun more e i s h => run_record c env pc st more h, fun e s => ?_, ?_, ?_⟩
  · refine ⟨recorded st e s, length_recorded st e s, fun i hi => ?_, ?_,
      hst.getValidIndexCnt_eq c env pc e s⟩
    · rw [getElem?_recorded st e s hi]
      simp
    · rcases hst.indexes e s with ⟨h0, hr⟩ | henc
      · exact .inl ⟨h0, hr⟩
      · right
        rw [henc, ← length_recorded st e s]
        exact DecodeBoolArray_encodeBools (by rw [length_recorded]; decide)
  · intro e i hi hne
    obtain ⟨selfPk, alpha, proof, mi, h₂, h₁, hget, -, -⟩ := hst.accepted e i .two hi hne
    exact ⟨mi, alpha, proof, GetStg1StateDbInfo_of_unpack c pc h₁,
      GetStage2TxAlphaPki_of_unpack pc h₂, hget⟩
  · intro e i hi
    refine ⟨fun hne => ?_, fun hne => ?_⟩
    · obtain ⟨mi, hun⟩ := hst.accepted e i .one hi hne
      exact ⟨RlpGetStage1IDFromTx_of_unpack pc hun, mi, GetStg1StateDbInfo_of_unpack c pc hun⟩
    · obtain ⟨selfPk, alpha, proof, mi, hun, -⟩ := hst.accepted e i .two hi hne
      exact RlpGetStage2IDFromTx_of_unpack pc hun

end Invariant

/-! ### Which calls the contract stores -/

section Succeeds

variable {Pt : Type} [AddCommGroup Pt] (c : Crypto Pt) (env : SlEnv Pt c) (pc : PointCodec Pt)

/-- A stage-one payload unpacks behind any method id to what it carries. -/
lemma RlpUnpackStage1DataForTx_append {id : Bytes} (hid : id.length = 4) (e i : UInt64) {mi : Pt}
    (hmi : mi ≠ 0) :
    RlpUnpackStage1DataForTx pc (id ++ EncodeToBytes (stage1Data e i (pc.SerializeCompressed mi))) =
      .ok (e, i, mi) := by
  have hdecode := DecodeBytes_EncodeToBytes (stage1Data_hasTy e i _)
    (by rw [EncodeToBytes_eq]; exact length_encodeItem_stage1Data pc e i mi)
  simp only [RlpUnpackStage1DataForTx, dropFunctionId_append hid, Machine.ok_bind, hdecode,
    Machine.mapError_ok]
  simp only [stage1Data, UncompressPk, pc.ParsePubKey_SerializeCompressed mi hmi]
  rfl

/-- The converse of `validStgReset_true`: ids that read back an epoch and an index, a time in the
stage's slots of the epoch and no record of the index pass. -/
lemma validStgReset_of {getID : Bytes → Except String (Bytes × Bytes)} {s : SlStage}
    {st : SlStorage} {payload : Bytes} {time e i : UInt64}
    (hid : getID payload = .ok (uint64ToBytes e, uint64ToBytes i))
    (htime : isInValidStage e time s.kStart s.kEnd = true) (hfree : st.slots (stageKey e i s) = []) :
    validStgReset getID s.kStart s.kEnd s.name st payload time = true := by
  rw [validStgReset, hid]
  dsimp only
  rw [BytesToUint64_uint64ToBytes, BytesToUint64_uint64ToBytes, htime, isDuplicateTrans_name, hfree]
  simp

/-- The converse of `validStg1Service_true`. -/
lemma validStg1Service_of {sender : Address} {payload : Bytes} {e i : UInt64} {mi : Pt}
    (hun : RlpUnpackStage1DataForTx pc payload = .ok (e, i, mi))
    (hin : InEpochLeadersOrNotByAddress c env e i sender = true) :
    validStg1Service c env pc sender payload = true := by
  rw [validStg1Service, RlpGetStage1IDFromTx_of_unpack pc hun]
  dsimp only
  rw [BytesToUint64_uint64ToBytes, BytesToUint64_uint64ToBytes, hin, hun]
  rfl

/-- A stage call stores its payload under its ids. -/
lemma handleStg_slots {getID : Bytes → Except String (Bytes × Bytes)} {s : SlStage}
    {st st' : SlStorage} {input : Bytes} {e i : UInt64}
    (hid : getID input = .ok (uint64ToBytes e, uint64ToBytes i))
    (h : handleStg getID s.name s.indexes st input = .ok st') :
    st'.slots (stageKey e i s) = input := by
  obtain ⟨a, b, hid', hupd⟩ := handleStg_ok h
  rw [hid] at hid'
  cases hid'
  obtain ⟨-, bits, rfl, -⟩ := updateSlotLeaderStageIndex_ok hupd
  have hne : stageKey e i s ≠ getSlotLeaderStageIndexesKeyHash (uint64ToBytes e) s.indexes :=
    stageKey_ne_indexesKey e i e s s
  rw [SlStorage.set_slots, Function.update_of_ne hne]
  exact Function.update_self _ _ _

variable [DecidableEq Pt]

/-- A stage-one call whose checks pass is handled. -/
lemma Run_of_stgOne {st : SlStorage} {ctx : SlCtx} {input : Bytes}
    (hid : input.take 4 = stgOneIdArr) (hlen : 4 ≤ input.length)
    (hv : validStg1Reset st input ctx.time = true)
    (hs : validStg1Service c env pc ctx.caller input = true) :
    Run c env pc st ctx input = handleStgOne st input := by
  rw [Run, if_neg (by omega)]
  dsimp only
  rw [if_pos hid, hv, hs]
  rfl

/-- In a reached storage the bit of a new record of an epoch leader is written: the stage's
bitmap of the epoch is absent, or decodes. -/
lemma SlStored.update_ok {st : SlStorage} (hst : SlStored c env pc st) {e i : UInt64}
    {s : SlStage} (hi : i.toNat < epochLeaderCount) (v : Bytes) :
    ∃ st', updateSlotLeaderStageIndex (st.set (stageKey e i s) v) (uint64ToBytes e) s.indexes i =
      .ok st' := by
  have hidx : (st.set (stageKey e i s) v).slots (indexesKey e s) = st.slots (indexesKey e s) := by
    rw [SlStorage.set_slots, Function.update_of_ne (stageKey_ne_indexesKey e i e s s).symm]
  have hnot : ¬ epochLeaderCount ≤ i.toNat := by omega
  unfold updateSlotLeaderStageIndex
  dsimp only
  rw [show getSlotLeaderStageIndexesKeyHash (uint64ToBytes e) s.indexes = indexesKey e s from rfl,
    hidx]
  rcases hst.indexes e s with ⟨h0, -⟩ | henc
  · simp only [h0, List.length_nil, if_true, hnot, if_false]
    exact ⟨_, rfl⟩
  · have hne : (encodeBools (recorded st e s)).length ≠ 0 := fun h =>
      encodeBools_ne_nil _ (List.eq_nil_of_length_eq_zero h)
    rw [henc, if_neg hne, ← length_recorded st e s,
      DecodeBoolArray_encodeBools (by rw [length_recorded]; decide)]
    simp [length_recorded, hnot]

/-- In a reached storage a stage call whose ids read back an epoch leader's index is stored. -/
lemma SlStored.handleStg_succeeds {st : SlStorage} (hst : SlStored c env pc st)
    {getID : Bytes → Except String (Bytes × Bytes)} {s : SlStage} {input : Bytes} {e i : UInt64}
    (hid : getID input = .ok (uint64ToBytes e, uint64ToBytes i)) (hi : i.toNat < epochLeaderCount) :
    ∃ st', handleStg getID s.name s.indexes st input = .ok st' := by
  rw [handleStg, hid, Machine.ok_bind]
  dsimp only
  rw [BytesToUint64_uint64ToBytes]
  exact hst.update_ok c env pc hi input

/-- A call the contract stores passes the pool's check, once the chain has a first epoch. -/
lemma ValidTx_of_Run {FirstEpochId : UInt64} (hfirst : FirstEpochId ≠ 0) {st st' : SlStorage}
    {ctx : SlCtx} {input : Bytes} (h : Run c env pc st ctx input = .ok st') :
    ValidTx c env pc FirstEpochId st ctx.caller input ctx.time = .ok () := by
  unfold Run at h
  dsimp only at h
  unfold ValidTx
  dsimp only
  split_ifs at h with hlen h1 hv1 h2 hv2
  · rw [if_neg hfirst, if_neg hlen, if_pos h1, if_pos (by simpa using hv1)]
  · rw [if_neg hfirst, if_neg hlen, if_neg h1, if_pos h2, if_pos (by simpa using hv2)]

/-- In a reached storage a call the pool's check passes is stored. -/
lemma SlStored.Run_of_ValidTx {st : SlStorage} (hst : SlStored c env pc st)
    {FirstEpochId : UInt64} {ctx : SlCtx} {input : Bytes}
    (h : ValidTx c env pc FirstEpochId st ctx.caller input ctx.time = .ok ()) :
    ∃ st', Run c env pc st ctx input = .ok st' := by
  unfold ValidTx at h
  dsimp only at h
  unfold Run
  dsimp only
  split_ifs at h with h0 hlen h1 hv1 h2 hv2
  · -- stage one: the payload unpacks to an epoch leader's index
    rw [if_neg hlen, if_pos h1, if_neg (by rw [hv1]; decide)]
    obtain ⟨-, hserv⟩ := Bool.and_eq_true_iff.mp hv1
    obtain ⟨e, i, mi, hun, hin⟩ := validStg1Service_true c env pc hserv
    exact hst.handleStg_succeeds c env pc (s := .one) (RlpGetStage1IDFromTx_of_unpack pc hun)
      (InEpochLeadersOrNotByAddress_true c env hin).2.1
  · -- stage two
    rw [if_neg hlen, if_neg h1, if_pos h2, if_neg (by rw [hv2]; decide)]
    obtain ⟨-, hserv⟩ := Bool.and_eq_true_iff.mp hv2
    obtain ⟨e, i, selfPk, alpha, proof, mi, hun, hin, -⟩ := validStg2Service_true c env pc hserv
    exact hst.handleStg_succeeds c env pc (s := .two) (RlpGetStage2IDFromTx_of_unpack pc hun)
      (InEpochLeadersOrNotByAddress_true c env hin).2.1

end Succeeds

/-! ### A contract over `ZMod 7` -/

/-- The epoch leaders of every epoch are fifty times the point `1`, all at the address zero, and
`ToECDSAPub` reads back the one byte that `sevenCrypto` marshals a point to. -/
def sevenSlEnv : SlEnv (ZMod 7) zeroHashCrypto where
  GetEpochLeaders _ := sevenLeaders
  PubkeyToAddress _ := 0
  ToECDSAPub b := match b with
    | [x] => some (x.toNat : ZMod 7)
    | _ => none
  ToECDSAPub_FromECDSAPub := by decide

/-- The stage-one transaction of leader `0` of epoch `0`, committing to the point `2`, sent by
the address zero in the first slot of stage one. -/
def sevenStage1Call : SlCall where
  ctx := ⟨UInt64.ofNat (slotTime * Sma1Start.toNat), 0⟩
  input := stgOneIdArr ++ EncodeToBytes (stage1Data 0 0 (sevenCodec.SerializeCompressed 2))

/-- The contract stores it. -/
lemma slStep_sevenStage1Call :
    (slStep zeroHashCrypto sevenSlEnv sevenCodec SlStorage.empty sevenStage1Call).slots
      (stageKey 0 0 .one) = sevenStage1Call.input := by
  have hun : RlpUnpackStage1DataForTx sevenCodec sevenStage1Call.input = .ok (0, 0, 2) :=
    RlpUnpackStage1DataForTx_append sevenCodec rfl 0 0 (by decide)
  have hid := RlpGetStage1IDFromTx_of_unpack sevenCodec hun
  have hin : InEpochLeadersOrNotByAddress zeroHashCrypto sevenSlEnv 0 0
      sevenStage1Call.ctx.caller = true := by decide
  obtain ⟨st', hst'⟩ := (SlStored.empty zeroHashCrypto sevenSlEnv sevenCodec).handleStg_succeeds
    zeroHashCrypto sevenSlEnv sevenCodec (s := .one) hid (by decide)
  have htake : sevenStage1Call.input.take 4 = stgOneIdArr := List.take_left' rfl
  have hlen : 4 ≤ sevenStage1Call.input.length := by simp [sevenStage1Call, stgOneIdArr]
  have hv : validStg1Reset SlStorage.empty sevenStage1Call.input sevenStage1Call.ctx.time = true :=
    validStgReset_of (s := .one) hid (by decide) rfl
  have hrun : Run zeroHashCrypto sevenSlEnv sevenCodec SlStorage.empty sevenStage1Call.ctx
      sevenStage1Call.input = .ok st' := by
    rw [Run_of_stgOne zeroHashCrypto sevenSlEnv sevenCodec htake hlen hv
      (validStg1Service_of zeroHashCrypto sevenSlEnv sevenCodec hun hin)]
    exact hst'
  simp only [slStep, hrun]
  exact handleStg_slots hid hst'

/-! ### Who writes a record -/

section Origin

variable {Pt : Type} [AddCommGroup Pt] (c : Crypto Pt) (env : SlEnv Pt c) (pc : PointCodec Pt)

/-- What the contract checked of the call that wrote the record of index `i` in stage `s` of
epoch `e`: the leader's own address sent it, at a time in the stage's slots of the epoch. -/
structure SentByLeader (e i : UInt64) (s : SlStage) (call : SlCall) : Prop where
  caller : call.ctx.caller = env.PubkeyToAddress ((env.GetEpochLeaders e).getD i.toNat 0)
  epoch : (RandomBeacon.CalEpochSlotID call.ctx.time).1 = e
  start_le : s.kStart ≤ (RandomBeacon.CalEpochSlotID call.ctx.time).2
  le_end : (RandomBeacon.CalEpochSlotID call.ctx.time).2 ≤ s.kEnd

variable [DecidableEq Pt]

/-- A call that fills the empty record slot of an epoch leader was sent by the leader in the
stage's slots of the epoch, and the record is its input. -/
lemma slStep_fills {st : SlStorage} {call : SlCall} {e i : UInt64} {s : SlStage}
    (hi : i.toNat < epochLeaderCount) (h₀ : st.slots (stageKey e i s) = [])
    (h₁ : (slStep c env pc st call).slots (stageKey e i s) ≠ []) :
    (slStep c env pc st call).slots (stageKey e i s) = call.input ∧
      SentByLeader c env e i s call := by
  rcases hrun : Run c env pc st call.ctx call.input with err | st'
  · simp only [slStep, hrun] at h₁
    exact absurd h₀ h₁
  simp only [slStep, hrun] at h₁ ⊢
  obtain ⟨s', e', i', hi', -, haddr, he, hk₁, hk₂, -, hupd⟩ := Run_cases c env pc hrun
  obtain ⟨-, bits, rfl, -⟩ := updateSlotLeaderStageIndex_ok hupd
  have hne : stageKey e i s ≠ getSlotLeaderStageIndexesKeyHash (uint64ToBytes e') s'.indexes :=
    stageKey_ne_indexesKey e i e' s s'
  rw [SlStorage.set_slots, Function.update_of_ne hne, SlStorage.set_slots] at h₁ ⊢
  -- the slot filled is the one the call stored
  have hkey : stageKey e i s = stageKey e' i' s' := by
    by_contra hk
    rw [Function.update_of_ne hk] at h₁
    exact h₁ h₀
  obtain ⟨rfl, rfl, rfl⟩ := (stageKey_inj hi hi').mp hkey
  exact ⟨Function.update_self _ _ _, ⟨haddr.symm, he, hk₁, hk₂⟩⟩

/-- Every record of an epoch leader in a storage the contract reaches is the input of one of the
calls, sent by the leader's own address at a time in the stage's slots of the record's epoch. -/
theorem record_sent_by_leader (calls : List SlCall) {e i : UInt64} {s : SlStage}
    (hi : i.toNat < epochLeaderCount)
    (h : (Machine.run (slStep c env pc) SlStorage.empty calls).slots (stageKey e i s) ≠ []) :
    ∃ call ∈ calls,
      call.input = (Machine.run (slStep c env pc) SlStorage.empty calls).slots (stageKey e i s) ∧
      SentByLeader c env e i s call := by
  obtain ⟨pre, call, post, rfl, h₀, h₁⟩ :=
    Machine.run_exit (P := fun t : SlStorage => t.slots (stageKey e i s) = []) rfl h
  obtain ⟨hin, hsent⟩ := slStep_fills c env pc hi h₀ h₁
  -- the calls after it leave the record as it is
  have hend : (Machine.run (slStep c env pc) SlStorage.empty (pre ++ call :: post)).slots
      (stageKey e i s) = call.input := by
    rw [Machine.run_append, Machine.run_cons, run_record c env pc _ post h₁, hin]
  exact ⟨call, List.mem_append_right pre List.mem_cons_self, hend.symm, hsent⟩

end Origin

theorem record_sent_by_leader_seven :
    (0 : UInt64).toNat < epochLeaderCount ∧
    (Machine.run (slStep zeroHashCrypto sevenSlEnv sevenCodec) SlStorage.empty
      [sevenStage1Call]).slots (stageKey 0 0 .one) ≠ [] ∧
    ∃ call ∈ [sevenStage1Call],
      call.input = (Machine.run (slStep zeroHashCrypto sevenSlEnv sevenCodec) SlStorage.empty
        [sevenStage1Call]).slots (stageKey 0 0 .one) ∧
      SentByLeader zeroHashCrypto sevenSlEnv 0 0 .one call := by
  have hi : (0 : UInt64).toNat < epochLeaderCount := by decide
  have h : (Machine.run (slStep zeroHashCrypto sevenSlEnv sevenCodec) SlStorage.empty
      [sevenStage1Call]).slots (stageKey 0 0 .one) ≠ [] := by
    rw [Machine.run_cons, Machine.run_nil, slStep_sevenStage1Call]
    simp [sevenStage1Call, stgOneIdArr]
  exact ⟨hi, h, record_sent_by_leader zeroHashCrypto sevenSlEnv sevenCodec [sevenStage1Call] hi h⟩

/-! ### The pool's check and the counts -/

section Reached

variable {Pt : Type} [AddCommGroup Pt] [DecidableEq Pt] (c : Crypto Pt) (env : SlEnv Pt c)
  (pc : PointCodec Pt)

/-- The pool's check agrees with the contract: in every storage the contract reaches, once the
chain has a first epoch, `ValidTx` passes a transaction exactly when `Run` stores it. -/
theorem ValidTx_iff_Run (calls : List SlCall) {FirstEpochId : UInt64} (hfirst : FirstEpochId ≠ 0)
    (ctx : SlCtx) (input : Bytes) :
    let st := Machine.run (slStep c env pc) SlStorage.empty calls
    ValidTx c env pc FirstEpochId st ctx.caller input ctx.time = .ok () ↔
      ∃ st', Run c env pc st ctx input = .ok st' := by
  intro st
  constructor
  · exact (SlStored.reachable c env pc calls).Run_of_ValidTx c env pc
  · rintro ⟨st', h⟩
    exact ValidTx_of_Run c env pc hfirst h

/-- Leaders with a record of one stage all have one of another. -/
lemma count_recorded_le {st : SlStorage} {e : UInt64} {s s' : SlStage}
    (h : ∀ j : UInt64, j.toNat < epochLeaderCount → st.slots (stageKey e j s) ≠ [] →
      st.slots (stageKey e j s') ≠ []) :
    (recorded st e s).count true ≤ (recorded st e s').count true := by
  simp only [recorded, List.count_eq_countP, List.countP_map]
  apply List.countP_mono_left
  intro j hj
  have hj' : (UInt64.ofNat j).toNat < epochLeaderCount := by
    rw [toNat_ofNat_of_lt (List.mem_range.mp hj)]
    exact List.mem_range.mp hj
  simpa using h _ hj'

/-- In a reached storage `getValidIndexCnt` is the number of leaders with a record, as a
number. -/
lemma SlStored.toNat_getValidIndexCnt {st : SlStorage} (hst : SlStored c env pc st) (e : UInt64)
    (s : SlStage) : (getValidIndexCnt st e s.indexes).toNat = (recorded st e s).count true := by
  have hle : (recorded st e s).count true ≤ epochLeaderCount :=
    (List.count_le_length).trans_eq (length_recorded st e s)
  rw [hst.getValidIndexCnt_eq c env pc e s, UInt64.toNat_ofNat', Nat.mod_eq_of_lt]
  exact lt_of_le_of_lt hle (by decide)

/-- In every storage the contract reaches, `GetValidSMA2Cnt` of an epoch is at most its
`GetValidSMA1Cnt`, which is at most the number of epoch leaders: a stage-two record comes with
the stage-one record of its leader. -/
theorem GetValidSMA2Cnt_le_GetValidSMA1Cnt (calls : List SlCall) (e : UInt64) :
    let st := Machine.run (slStep c env pc) SlStorage.empty calls
    (GetValidSMA2Cnt st e).toNat ≤ (GetValidSMA1Cnt st e).toNat ∧
      (GetValidSMA1Cnt st e).toNat ≤ epochLeaderCount := by
  intro st
  have hst : SlStored c env pc st := SlStored.reachable c env pc calls
  show (getValidIndexCnt st e SlStage.two.indexes).toNat ≤
      (getValidIndexCnt st e SlStage.one.indexes).toNat ∧
    (getValidIndexCnt st e SlStage.one.indexes).toNat ≤ epochLeaderCount
  rw [hst.toNat_getValidIndexCnt c env pc, hst.toNat_getValidIndexCnt c env pc]
  constructor
  · apply count_recorded_le
    intro j hj hne
    exact ((hst.accepted e j .two hj hne).ne_nil c env pc).2 rfl
  · exact (List.count_le_length).trans_eq (length_recorded st e .one)

end Reached

theorem ValidTx_iff_Run_seven :
    (1 : UInt64) ≠ 0 ∧
    (ValidTx zeroHashCrypto sevenSlEnv sevenCodec 1
        (Machine.run (slStep zeroHashCrypto sevenSlEnv sevenCodec) SlStorage.empty [sevenStage1Call])
        sevenStage1Call.ctx.caller sevenStage1Call.input sevenStage1Call.ctx.time = .ok () ↔
      ∃ st', Run zeroHashCrypto sevenSlEnv sevenCodec
        (Machine.run (slStep zeroHashCrypto sevenSlEnv sevenCodec) SlStorage.empty [sevenStage1Call])
        sevenStage1Call.ctx sevenStage1Call.input = .ok st') :=
  ⟨by decide, ValidTx_iff_Run zeroHashCrypto sevenSlEnv sevenCodec [sevenStage1Call] (by decide) _ _⟩

end Wanchain.SlotLeader
