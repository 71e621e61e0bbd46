import Wanchain.Rlp.Array
import Wanchain.SlotLeader.Stage
import Wanchain.RandomBeacon.Contract

/-!
# The slot-leader precompiled contract

`slotLeaderSC.Run` takes the two stage transactions of the epoch leaders. A stage-one
transaction stores the leader's commitment, a stage-two transaction its pieces with their DLEQ
proof; before it stores anything the contract checks (`validStg1Reset`, `validStg1Service`,
`validStg2Reset`, `validStg2Service`) that

* the payload decodes and its epoch is the current one, in the stage's slots;
* the index is that of an epoch leader whose address is the sender's;
* the stage has no record of the index yet (`isDuplicateTrans`);
* in stage two, the stage-one record of the index is there and reads back the same epoch and
  index, the piece of the index is the committed point, and the DLEQ proof verifies.

The contract then stores the payload under the key of its epoch, index and stage
(`getSlotLeaderStageKeyHash`) and sets the index's bit in the stage's bitmap, an RLP `[50]bool`
under the key of the epoch and stage (`updateSlotLeaderStageIndex`), which `getValidIndexCnt`
counts.

As in `Wanchain.Basic.Bytes`, a slot is named by the preimage of its `Keccak256` key. Epoch
leaders are the points the epocher gives; an address is what `PubkeyToAddress` makes of a point.
The call count that `addSlotScCallTimes` keeps in the node's local database is no part of the
state and is not modelled.
-/

namespace Wanchain.SlotLeader

open Rlp

/-! ### Names, keys and storage -/

def SlotLeaderStag1 : String := "slotLeaderStag1"
def SlotLeaderStag2 : String := "slotLeaderStag2"
def SlotLeaderStag1Indexes : String := "slotLeaderStag1Indexes"
def SlotLeaderStag2Indexes : String := "slotLeaderStag2Indexes"

/-- `stgOneIdArr` and `stgTwoIdArr`: the first four bytes of `Keccak256` of
`slotLeaderStage1MiSave(string)` and `slotLeaderStage2InfoSave(string)`, as `init` takes them
from the ABI. -/
def stgOneIdArr : Bytes := [0x8b, 0xa6, 0x4a, 0x4f]
def stgTwoIdArr : Bytes := [0x98, 0x11, 0x8b, 0x8f]

def errParameters : String := "error parameters"
def errMethodId : String := "error method id"
def ErrPowRcvPosTrans : String := "pow phase receive pos protocol trans"
def ErrNoTx2TransInDB : String := "tx2 is not in db"
def ErrRlpUnpackErr : String := "RlpUnpackDataForTx error"
def ErrNoTx1TransInDB : String := "GetStg1StateDbInfo: Found not data of key"
def ErrVerifyStg1Data : String := "stg1 data get from StateDb verified failed"

/-- `sendtrans[index] = true` past the end of the array, which panics. -/
def ErrIndexOutOfRange : String := "runtime error: index out of range"

/-- `posconfig.Sma1Start` to `posconfig.Sma2End`: the slots of the two stages. -/
def Sma1Start : UInt64 := UInt64.ofNat (2 * kParam)
def Sma1End : UInt64 := UInt64.ofNat (4 * kParam)
def Sma2Start : UInt64 := UInt64.ofNat (6 * kParam)
def Sma2End : UInt64 := UInt64.ofNat (8 * kParam)

/-- `convert.BytesToUint64`: the low 64 bits of the big-endian value. -/
def BytesToUint64 (input : Bytes) : UInt64 := UInt64.ofNat (setBytes input)

/-- The preimage of `getSlotLeaderStageKeyHash`: the epoch's bytes, the index's bytes and the
stage's name. -/
def getSlotLeaderStageKeyHash (epochID selfIndex : Bytes) (slotLeaderStage : String) : Bytes :=
  epochID ++ selfIndex ++ slotLeaderStage.toUTF8.toList

/-- The preimage of `getSlotLeaderStageIndexesKeyHash`: the epoch's bytes and the bitmap's name. -/
def getSlotLeaderStageIndexesKeyHash (epochID : Bytes) (slotLeaderStageIndexes : String) : Bytes :=
  epochID ++ slotLeaderStageIndexes.toUTF8.toList

def GetSlotLeaderStage1KeyHash (epochID selfIndex : Bytes) : Bytes :=
  getSlotLeaderStageKeyHash epochID selfIndex SlotLeaderStag1

def GetSlotLeaderStage2KeyHash (epochID selfIndex : Bytes) : Bytes :=
  getSlotLeaderStageKeyHash epochID selfIndex SlotLeaderStag2

def GetSlotLeaderStage2IndexesKeyHash (epochID : Bytes) : Bytes :=
  getSlotLeaderStageIndexesKeyHash epochID SlotLeaderStag2Indexes

/-- The storage of `slotLeaderPrecompileAddr`: the byte array of each slot, named by the
preimage of its key; an unset slot reads empty. -/
structure SlStorage where
  slots : Bytes → Bytes

def SlStorage.empty : SlStorage := ⟨fun _ => []⟩

/-- `SetStateByteArray` at a slot named by its preimage. -/
def SlStorage.set (st : SlStorage) (key value : Bytes) : SlStorage :=
  ⟨Function.update st.slots key value⟩

@[simp] lemma SlStorage.set_slots (st : SlStorage) (key value : Bytes) :
    (st.set key value).slots = Function.update st.slots key value := rfl

@[simp] lemma SlStorage.empty_slots (key : Bytes) : SlStorage.empty.slots key = [] := rfl

/-! ### The payloads -/

/-- `RlpGetStage1IDFromTx`: the epoch and index of a stage-one payload, as
`convert.Uint64ToBytes`. -/
def RlpGetStage1IDFromTx (input : Bytes) : Except String (Bytes × Bytes) := do
  let buf ← dropFunctionId input
  let data ← (DecodeBytes stage1Ty buf).mapError RlpError.Error
  match data with
  | .list [.uint epochID, .uint selfIndex, .bytes _] =>
    pure (uint64ToBytes epochID, uint64ToBytes selfIndex)
  | _ => .error ErrDecodedShape

/-- `RlpGetStage2IDFromTx`. -/
def RlpGetStage2IDFromTx (input : Bytes) : Except String (Bytes × Bytes) := do
  let buf ← dropFunctionId input
  let data ← (DecodeBytes stage2Ty buf).mapError RlpError.Error
  match data with
  | .list [.uint epochID, .uint selfIndex, .bytes _, .list _, .list _] =>
    pure (uint64ToBytes epochID, uint64ToBytes selfIndex)
  | _ => .error ErrDecodedShape

/-! ### The contract -/

/-- What the contract reads outside its storage: the epoch leaders the epocher gives for an
epoch, the address of a key, and `crypto.ToECDSAPub`, which reads a marshalled point back as
that point or as nothing. -/
structure SlEnv (Pt : Type) [AddCommGroup Pt] (c : Crypto Pt) where
  GetEpochLeaders : UInt64 → List Pt
  PubkeyToAddress : Pt → Address
  ToECDSAPub : Bytes → Option Pt
  ToECDSAPub_FromECDSAPub : ∀ P Q, ToECDSAPub (c.FromECDSAPub P) = some Q → Q = P

/-- A transaction's context: the block time and the caller. -/
structure SlCtx where
  time : UInt64
  caller : Address

variable {Pt : Type} [AddCommGroup Pt] [DecidableEq Pt] (c : Crypto Pt) (env : SlEnv Pt c)
  (pc : PointCodec Pt)

/-- `isInValidStage`: the time is in the epoch, in the slots from `kStart` to `kEnd`. -/
def isInValidStage (epochID time kStart kEnd : UInt64) : Bool :=
  let (eid, sid) := RandomBeacon.CalEpochSlotID time
  if epochID ≠ eid then false
  else if sid > kEnd ∨ sid < kStart then false
  else true

/-- `isDuplicateTrans`: the stage already has a record of the index in the epoch. -/
def isDuplicateTrans (st : SlStorage) (epochID index : UInt64) (stageName : String) : Bool :=
  if stageName = SlotLeaderStag1 then
    decide (st.slots (GetSlotLeaderStage1KeyHash (uint64ToBytes epochID) (uint64ToBytes index)) ≠ [])
  else if stageName = SlotLeaderStag2 then
    decide (st.slots (GetSlotLeaderStage2KeyHash (uint64ToBytes epochID) (uint64ToBytes index)) ≠ [])
  else false

/-- `validStg1Reset` and `validStg2Reset`: the ids decode, the time is in the stage's slots of
the epoch, and the stage has no record of the index. -/
def validStgReset (RlpGetStageIDFromTx : Bytes → Except String (Bytes × Bytes))
    (kStart kEnd : UInt64) (stageName : String) (st : SlStorage) (payload : Bytes)
    (time : UInt64) : Bool :=
  match RlpGetStageIDFromTx payload with
  | .error _ => false
  | .ok (epochIDBuf, selfIndexBuf) =>
    if !isInValidStage (BytesToUint64 epochIDBuf) time kStart kEnd then false
    else if isDuplicateTrans st (BytesToUint64 epochIDBuf) (BytesToUint64 selfIndexBuf) stageName
    then false
    else true

/-- `validStg1Reset`; the sender it is given is not read. -/
def validStg1Reset (st : SlStorage) (payload : Bytes) (time : UInt64) : Bool :=
  validStgReset RlpGetStage1IDFromTx Sma1Start Sma1End SlotLeaderStag1 st payload time

/-- `validStg2Reset`; the sender it is given is not read. -/
def validStg2Reset (st : SlStorage) (payload : Bytes) (time : UInt64) : Bool :=
  validStgReset RlpGetStage2IDFromTx Sma2Start Sma2End SlotLeaderStag2 st payload time

/-- `InEpochLeadersOrNotByAddress`: the epoch has all its leaders, the index is one of them
(read as an `int64`), and the leader's address is the sender's. -/
def InEpochLeadersOrNotByAddress (epochID selfIndex : UInt64) (senderAddress : Address) : Bool :=
  let epochLeaders := env.GetEpochLeaders epochID
  if epochLeaders.length ≠ epochLeaderCount then false
  else if selfIndex.toInt64.toInt < 0 ∨ epochLeaderCount ≤ selfIndex.toInt64.toInt then false
  else decide (env.PubkeyToAddress (epochLeaders.getD selfIndex.toNat 0) = senderAddress)

/-- `validStg1Service`: the sender is the epoch leader of the index and the commitment
uncompresses. -/
def validStg1Service (sender : Address) (payload : Bytes) : Bool :=
  match RlpGetStage1IDFromTx payload with
  | .error _ => false
  | .ok (epochIDBuf, selfIndexBuf) =>
    if !InEpochLeadersOrNotByAddress c env (BytesToUint64 epochIDBuf) (BytesToUint64 selfIndexBuf)
      sender then false
    else
      match RlpUnpackStage1DataForTx pc payload with
      | .error _ => false
      | .ok _ => true

/-- `GetStg1StateDbInfo`: the committed point of a stored stage-one record, marshalled, if the
record reads back the epoch and index it is stored under. -/
def GetStg1StateDbInfo (st : SlStorage) (epochID index : UInt64) : Except String Bytes :=
  let readBuf := st.slots (GetSlotLeaderStage1KeyHash (uint64ToBytes epochID) (uint64ToBytes index))
  if readBuf = [] then .error ErrNoTx1TransInDB
  else
    match RlpUnpackStage1DataForTx pc readBuf with
    | .error _ => .error ErrRlpUnpackErr
    | .ok (epID, idxID, miPoint) =>
      if epID = epochID ∧ idxID = index then .ok (c.FromECDSAPub miPoint)
      else .error ErrVerifyStg1Data

/-- `util.PkEqual`: both keys are there and have the same coordinates. -/
def PkEqual (pk1 pk2 : Option Pt) : Bool :=
  match pk1, pk2 with
  | some p, some q => decide (p = q)
  | _, _ => false

/-- `validStg2Service`: the sender is the epoch leader of the index, the proof's numbers are not
zero, the index's stage-one record is there, there is a piece for each epoch leader and the
index's piece is the committed point, and the DLEQ proof of the pieces against the epoch
leaders verifies. -/
def validStg2Service (st : SlStorage) (sender : Address) (payload : Bytes) : Bool :=
  match RlpUnpackStage2DataForTx pc payload with
  | .error _ => false
  | .ok (epochID, selfIndex, _, alphaPkis, proofs) =>
    if !InEpochLeadersOrNotByAddress c env epochID selfIndex sender then false
    else if proofs.any (· = 0) then false
    else
      match GetStg1StateDbInfo c pc st epochID selfIndex with
      | .error _ => false
      | .ok mi =>
        if mi.length = 0 ∨ alphaPkis.length ≠ epochLeaderCount then false
        else if !PkEqual (env.ToECDSAPub mi) (some (alphaPkis.getD selfIndex.toNat 0)) then false
        else
          let buff := env.GetEpochLeaders epochID
          if buff.length = 0 then false
          else VerifyDleqProof c buff alphaPkis proofs

/-- `updateSlotLeaderStageIndex`: sets the index's bit in the stage's bitmap of the epoch, a new
array of `EpochLeaderCount` bits where there is none. -/
def updateSlotLeaderStageIndex (st : SlStorage) (epochID : Bytes) (slotLeaderStageIndexes : String)
    (index : UInt64) : Except String SlStorage := do
  let key := getSlotLeaderStageIndexesKeyHash epochID slotLeaderStageIndexes
  let bytes := st.slots key
  if bytes.length = 0 then
    if epochLeaderCount ≤ index.toNat then throw ErrIndexOutOfRange
    let sendtrans := (List.replicate epochLeaderCount false).set index.toNat true
    pure (st.set key (encodeBools sendtrans))
  else
    let sendtransGet ← DecodeBoolArray epochLeaderCount bytes
    if epochLeaderCount ≤ index.toNat then throw ErrIndexOutOfRange
    pure (st.set key (encodeBools (sendtransGet.set index.toNat true)))

/-- `handleStgOne` and `handleStgTwo`: the payload under the key of its epoch, index and stage,
then the index in the stage's bitmap. -/
def handleStg (RlpGetStageIDFromTx : Bytes → Except String (Bytes × Bytes))
    (slotLeaderStage slotLeaderStageIndexes : String) (st : SlStorage) (input : Bytes) :
    Except String SlStorage := do
  let (epochIDBuf, selfIndexBuf) ← RlpGetStageIDFromTx input
  let keyHash := getSlotLeaderStageKeyHash epochIDBuf selfIndexBuf slotLeaderStage
  let st := st.set keyHash input
  updateSlotLeaderStageIndex st epochIDBuf slotLeaderStageIndexes (BytesToUint64 selfIndexBuf)

def handleStgOne (st : SlStorage) (input : Bytes) : Except String SlStorage :=
  handleStg RlpGetStage1IDFromTx SlotLeaderStag1 SlotLeaderStag1Indexes st input

def handleStgTwo (st : SlStorage) (input : Bytes) : Except String SlStorage :=
  handleStg RlpGetStage2IDFromTx SlotLeaderStag2 SlotLeaderStag2Indexes st input

/-- `slotLeaderSC.Run` on the storage. -/
def Run (st : SlStorage) (ctx : SlCtx) (input : Bytes) : Except String SlStorage :=
  if input.length < 4 then .error errParameters
  else
    let methodId := input.take 4
    if methodId = stgOneIdArr then
      let vldReset := validStg1Reset st input ctx.time
      let vldService := validStg1Service c env pc ctx.caller input
      if !(vldReset && vldService) then .error "ValidTx stg1"
      else handleStgOne st input
    else if methodId = stgTwoIdArr then
      let vldReset := validStg2Reset st input ctx.time
      let vldService := validStg2Service c env pc st ctx.caller input
      if !(vldReset && vldService) then .error "ValidTx stg2"
      else handleStgTwo st input
    else .error errMethodId

/-- `slotLeaderSC.ValidTx`, the check of the transaction pool, at the time `now` and for the
sender the signature gives. -/
def ValidTx (FirstEpochId : UInt64) (st : SlStorage) (sender : Address) (payload : Bytes)
    (now : UInt64) : Except String Unit :=
  if FirstEpochId = 0 then .error ErrPowRcvPosTrans
  else if payload.length < 4 then .error errParameters
  else
    let methodId := payload.take 4
    if methodId = stgOneIdArr then
      if validStg1Reset st payload now && validStg1Service c env pc sender payload then .ok ()
      else .error "ValidTx stg1"
    else if methodId = stgTwoIdArr then
      if validStg2Reset st payload now && validStg2Service c env pc st sender payload then .ok ()
      else .error "ValidTx stg2"
    else .error errMethodId

/-- `getValidIndexCnt`: the number of bits set in the stage's bitmap of the epoch, zero where
there is none or it does not decode. -/
def getValidIndexCnt (st : SlStorage) (epochId : UInt64) (indexKey : String) : UInt64 :=
  let key := getSlotLeaderStageIndexesKeyHash (uint64ToBytes epochId) indexKey
  let bytes := st.slots key
  if bytes.length = 0 then 0
  else
    match DecodeBoolArray epochLeaderCount bytes with
    | .error _ => 0
    | .ok sendtransGet => sendtransGet.foldl (fun cnt b => if b then cnt + 1 else cnt) 0

def GetValidSMA1Cnt (st : SlStorage) (epochId : UInt64) : UInt64 :=
  getValidIndexCnt st epochId SlotLeaderStag1Indexes

def GetValidSMA2Cnt (st : SlStorage) (epochId : UInt64) : UInt64 :=
  getValidIndexCnt st epochId SlotLeaderStag2Indexes

/-- `GetStage2TxAlphaPki`: the pieces and proof of a stored stage-two record, if it reads back
the epoch and index it is stored under. -/
def GetStage2TxAlphaPki (st : SlStorage) (epochID selfIndex : UInt64) :
    Except String (List Pt × List ℕ) :=
  let data := st.slots (GetSlotLeaderStage2KeyHash (uint64ToBytes epochID) (uint64ToBytes selfIndex))
  if data = [] then .error ErrNoTx2TransInDB
  else
    match RlpUnpackStage2DataForTx pc data with
    | .error err => .error err
    | .ok (epID, slfIndex, _, alphaPki, proof) =>
      if epID ≠ epochID ∨ slfIndex ≠ selfIndex then .error ErrRlpUnpackErr
      else .ok (alphaPki, proof)

/-- A transaction to the contract: its context and its input. -/
structure SlCall where
  ctx : SlCtx
  input : Bytes

/-- One transaction: a call that fails leaves the storage as it was. -/
def slStep (st : SlStorage) (call : SlCall) : SlStorage :=
  match Run c env pc st call.ctx call.input with
  | .ok st' => st'
  | .error _ => st

end Wanchain.SlotLeader
