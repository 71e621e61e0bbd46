import Wanchain.Basic.Config
import Wanchain.Rlp.Decode
import Wanchain.RandomBeacon.Dleq

/-!
# The random-beacon precompiled contract

Each epoch the random-beacon proposers of the epoch run a distributed key generation and sign
the next epoch's random number, in three stages of the epoch's slots (`GetRBStage`):

* `dkg1`: a proposer stores its commitments, one point of `G2` per proposer, after they pass
  the Reed–Solomon check (`validDkg1`);
* `dkg2`: it stores its encrypted shares, one point of `G1` per proposer, each with a DLEQ proof
  against its commitment (`validDkg2`);
* `sigShare`: it stores its signature share, checked by a pairing against the sum of the
  commitments of the proposers that completed both stages (`validSigShare`); once `RBThres`
  shares have come, `computeRandom` interpolates the group signature, checks it by a pairing
  against the interpolated group key, and stores its hash as the next epoch's random.

The storage is a map from slots to byte arrays. A slot is named by the preimage of its
`Keccak256` key (`GetRBKeyHash`, `GetRBRKeyHash`), except the slot `common.Hash{0}` of the
signer count, which is no hash and is kept apart. The commitments and shares are stored
RLP-encoded, as the lists of their points' bytes. The decoding of the three payloads into their
structures is a parameter: every result holds whatever it decodes.
-/

namespace Wanchain.RandomBeacon

open Rlp

/-! ### Bytes, keys and storage -/

/-- The little-endian bytes of the `k` low bytes of `n`. -/
def leBytes : ℕ → ℕ → Bytes
  | 0, _ => []
  | k + 1, n => UInt8.ofNat n :: leBytes k (n / 256)

/-- The value of little-endian bytes. -/
def leValue (b : Bytes) : ℕ := b.foldr (fun x acc => x.toNat + 256 * acc) 0

/-- `UIntToByteSlice`: `binary.LittleEndian.PutUint64`. -/
def UIntToByteSlice (num : UInt64) : Bytes := leBytes 8 num.toNat

/-- `UInt32ToByteSlice`: `binary.LittleEndian.PutUint32`. -/
def UInt32ToByteSlice (num : UInt32) : Bytes := leBytes 4 num.toNat

/-- `ByteSliceToUInt`: `binary.LittleEndian.Uint64` of the first eight bytes. -/
def ByteSliceToUInt (bs : Bytes) : UInt64 := UInt64.ofNat (leValue (bs.take 8))

/-- `ByteSliceToUInt32`: `binary.LittleEndian.Uint32` of the first four bytes. -/
def ByteSliceToUInt32 (bs : Bytes) : UInt32 := UInt32.ofNat (leValue (bs.take 4))

/-- `kindCij`, `kindEns`, `kindR`: the prefixes of the keys. -/
def kindCij : Bytes := [100]
def kindEns : Bytes := [101]
def kindR : Bytes := [102]

/-- The method ids: the first four bytes of `Keccak256` of `dkg1(string)`, `dkg2(string)`,
`sigShare(string)`, `getEpochId(uint256)`, `getRandomNumberByEpochId(uint256)` and
`getRandomNumberByTimestamp(uint256)`, as the package's `init` takes them from the ABI. -/
def dkg1Id : Bytes := [0x80, 0x21, 0xee, 0xbd]
def dkg2Id : Bytes := [0x9e, 0x31, 0xd4, 0xa9]
def sigShareId : Bytes := [0x0d, 0x07, 0x10, 0x5d]
def getEpochIdId : Bytes := [0x53, 0x03, 0x54, 0x8b]
def getRandomNumberByEpochIdId : Bytes := [0x63, 0xfc, 0x56, 0xf8]
def getRandomNumberByTimestampId : Bytes := [0x3e, 0x6f, 0x85, 0x97]

/-- The preimage of `GetRBKeyHash(kind, epochId, proposerId)`: sixteen bytes, the kind in the
first four (zeros after a shorter kind), the epoch and the proposer little-endian. -/
def GetRBKeyHash (kind : Bytes) (epochId : UInt64) (proposerId : UInt32) : Bytes :=
  (kind ++ List.replicate 4 0).take 4 ++ UIntToByteSlice epochId ++ UInt32ToByteSlice proposerId

/-- The preimage of `GetRBRKeyHash(epochId)`: twelve bytes, `kindR` and the epoch. -/
def GetRBRKeyHash (epochId : UInt64) : Bytes :=
  (kindR ++ List.replicate 4 0).take 4 ++ UIntToByteSlice epochId

/-- The storage of the random-beacon precompile: the byte array of each slot named by the
preimage of its key (an unset slot reads empty), and the slot `common.Hash{0}` of the signer
count. -/
structure RbStorage where
  slots : Bytes → Bytes
  signors : Bytes

/-- The storage of a chain that has not run the contract. -/
def RbStorage.empty : RbStorage := ⟨fun _ => [], []⟩

/-- `SetStateByteArray` at a slot named by its preimage. -/
def RbStorage.set (st : RbStorage) (key value : Bytes) : RbStorage :=
  { st with slots := Function.update st.slots key value }

@[simp] lemma RbStorage.set_slots (st : RbStorage) (key value : Bytes) :
    (st.set key value).slots = Function.update st.slots key value := rfl

@[simp] lemma RbStorage.set_signors (st : RbStorage) (key value : Bytes) :
    (st.set key value).signors = st.signors := rfl

/-! ### Stages and proposers -/

/-- The stages of an epoch, `RbDkg1Stage` to `RbSignConfirmStage`. -/
inductive RbStage
  | RbDkg1Stage
  | RbDkg1ConfirmStage
  | RbDkg2Stage
  | RbDkg2ConfirmStage
  | RbSignStage
  | RbSignConfirmStage
  deriving DecidableEq, Repr

/-- `GetRBStage`: the stage of a slot. The elapsed and remaining slots it also returns are read
by none of the modelled callers. -/
def GetRBStage (slotId : UInt64) : RbStage :=
  if slotId.toNat ≤ dkg1End then .RbDkg1Stage
  else if slotId.toNat < dkg2Begin then .RbDkg1ConfirmStage
  else if slotId.toNat ≤ dkg2End then .RbDkg2Stage
  else if slotId.toNat < signBegin then .RbDkg2ConfirmStage
  else if slotId.toNat ≤ signEnd then .RbSignStage
  else .RbSignConfirmStage

/-- `util.CalEpochSlotID`: the epoch and the slot of a time. -/
def CalEpochSlotID (time : UInt64) : UInt64 × UInt64 :=
  (time / UInt64.ofNat (slotTime * slotCount), time / UInt64.ofNat slotTime % UInt64.ofNat slotCount)

/-- `isValidEpochStage`: the time is in the given stage of the epoch. -/
def isValidEpochStage (epochId : UInt64) (stage : RbStage) (time : UInt64) : Bool :=
  let (eid, sid) := CalEpochSlotID time
  epochId == eid && GetRBStage sid == stage

/-- The payload of `dkg1`: `RbDKG1FlatTxPayload`. -/
structure RbDKG1FlatTxPayload where
  EpochId : UInt64
  ProposerId : UInt32
  Commit : List Bytes

/-- The payload of `dkg2`: `RbDKG2FlatTxPayload`. -/
structure RbDKG2FlatTxPayload where
  EpochId : UInt64
  ProposerId : UInt32
  EnShare : List Bytes
  Proof : List DLEQproofFlat

/-- The payload of `sigShare`: `RbSIGTxPayload`. -/
structure RbSIGTxPayload (G1 : Type) where
  EpochId : UInt64
  ProposerId : UInt32
  GSignShare : G1

/-- `RbDKG1TxPayload`: the commitments unmarshalled. -/
structure RbDKG1TxPayload (G2 : Type) where
  EpochId : UInt64
  ProposerId : UInt32
  Commit : List G2

/-- `RbDKG2TxPayload`: the shares and proofs unmarshalled. -/
structure RbDKG2TxPayload (G1 G2 : Type) where
  EpochId : UInt64
  ProposerId : UInt32
  EnShare : List G1
  Proof : List (DLEQproof G1 G2)

/-- What the contract reads outside its storage: the epocher's proposer groups, of at most
`RandomProperCount` keys, and the key each proposer registered; the RLP decoders of the three
payloads; and the configuration. -/
structure RbEnv (G1 : Type) where
  GetRBProposerG1 : UInt64 → List G1
  length_GetRBProposerG1 : ∀ e, (GetRBProposerG1 e).length ≤ randomProperCount
  GetProposerBn256PK : UInt64 → UInt64 → Address → Option Bytes
  decodeDkg1 : Bytes → Option RbDKG1FlatTxPayload
  decodeDkg2 : Bytes → Option RbDKG2FlatTxPayload
  decodeSig : Bytes → Option (RbSIGTxPayload G1)
  FirstEpochId : UInt64
  MercuryEpochId : UInt64

/-- A transaction's context: the block time, the caller, and the numbers `crypto/rand` gives
`RScodeVerify` (the constant, then those of `RandPoly`). -/
structure RbCtx where
  time : UInt64
  caller : Address
  constant : ℤ
  rand : ℕ → ℤ

variable {G1 G2 GT : Type} [AddCommGroup G1] [AddCommGroup G2] [AddCommGroup GT]
  (c : Bn256 G1 G2 GT) (env : RbEnv G1)

/-- `getRBProposerGroup`: the proposers of an epoch, an error for none. -/
def getRBProposerGroup (eid : UInt64) : Except String (List G1) :=
  let pks := env.GetRBProposerG1 eid
  if pks.length = 0 then .error "len(pks) == 0" else .ok pks

/-- `isInRandomGroup`: the proposer id is in the group and the caller registered its key. -/
def isInRandomGroup (pks : List G1) (epochId : UInt64) (proposerId : UInt32)
    (address : Address) : Bool :=
  if pks.length ≤ proposerId.toNat then false
  else
    match env.GetProposerBn256PK epochId proposerId.toUInt64 address with
    | some pk1 => pk1 == c.MarshalG1 (pks.getD proposerId.toNat 0)
    | none => false

/-- `buildError`. -/
def buildError (err : String) (epochId : UInt64) (proposerId : UInt32) : String :=
  err ++ " epochId = " ++ toString epochId ++ ", proposerId = " ++ toString proposerId ++ " "

/-! ### Reading the storage -/

/-- The byte strings of a decoded `[][]byte`. -/
def byteStrings : Value → List Bytes
  | .list vs => vs.filterMap fun
    | .bytes b => some b
    | _ => none
  | _ => []

/-- `rlp.DecodeBytes` into a `[][]byte`. -/
def decodeByteSlices (b : Bytes) : Except RlpError (List Bytes) :=
  (DecodeBytes (.slice .bytes) b).map byteStrings

/-- `rlp.EncodeToBytes` of a `[][]byte`. -/
def encodeByteSlices (bs : List Bytes) : Bytes :=
  EncodeToBytes (.list (bs.map .bytes))

/-- The loop of `BytesToCij`, `BytesToEncryptShare`, `Dkg1FlatToDkg1` and `Dkg2FlatToDkg2`: each
byte string read as one point, with nothing left over. -/
def unmarshalPoints {G : Type} (unmarshal : Bytes → Except String (G × Bytes)) (errLeft : String)
    (d : List Bytes) : Except String (List G) :=
  d.mapM fun b =>
    match unmarshal b with
    | .error e => .error e
    | .ok (P, left) => if left ≠ [] then .error errLeft else .ok P

/-- `BytesToCij`. -/
def BytesToCij (d : List Bytes) : Except String (List G2) :=
  unmarshalPoints c.UnmarshalPureG2 "invalid dkg commit bytes" d

/-- `BytesToEncryptShare`. -/
def BytesToEncryptShare (d : List Bytes) : Except String (List G1) :=
  unmarshalPoints c.UnmarshalPureG1 "invalid dkg encrypt share bytes" d

/-- The reading of a stored list of points, the body of `GetCji` and `GetEncryptShare`: nil when
the slot is empty, the RLP error, or the points of the byte strings. -/
def getPoints {G : Type} (bytesTo : List Bytes → Except String (List G)) (kind : Bytes)
    (errRlp : String) (st : RbStorage) (epochId : UInt64) (proposerId : UInt32) :
    Except String (Option (List G)) :=
  let dkgBytes := st.slots (GetRBKeyHash kind epochId proposerId)
  if dkgBytes = [] then .ok none
  else
    match decodeByteSlices dkgBytes with
    | .error _ => .error errRlp
    | .ok d => (bytesTo d).map some

/-- `GetCji`: the commitments of a proposer, nil when none are stored. -/
def GetCji (st : RbStorage) (epochId : UInt64) (proposerId : UInt32) :
    Except String (Option (List G2)) :=
  getPoints (BytesToCij c) kindCij "rlp decode cij failed" st epochId proposerId

/-- `GetEncryptShare`: the encrypted shares of a proposer, nil when none are stored. -/
def GetEncryptShare (st : RbStorage) (epochId : UInt64) (proposerId : UInt32) :
    Except String (Option (List G1)) :=
  getPoints (BytesToEncryptShare c) kindEns "rlp decode encrypt share failed" st epochId proposerId

/-- `IsJoinDKG2`: the proposer stored its encrypted shares. -/
def IsJoinDKG2 (st : RbStorage) (epochId : UInt64) (proposerId : UInt32) : Bool :=
  st.slots (GetRBKeyHash kindEns epochId proposerId) ≠ []

/-- `GetSig`: the stored signature payload of a proposer, nil when none is stored. -/
def GetSig (st : RbStorage) (epochId : UInt64) (proposerId : UInt32) :
    Except String (Option (RbSIGTxPayload G1)) :=
  let payloadBytes := st.slots (GetRBKeyHash sigShareId epochId proposerId)
  if payloadBytes = [] then .ok none
  else
    match env.decodeSig payloadBytes with
    | none => .error "sig payload parse failed"
    | some sigParam => .ok (some sigParam)

/-- The "prevent reset" reads: a list read without error and not empty. -/
def hasDkgData {α : Type} : Except String (Option (List α)) → Bool
  | .ok (some l) => l.length ≠ 0
  | _ => false

/-- `GetStateR`: the stored random of an epoch; the first epoch's is `Keccak256(1)`. -/
def GetStateR (st : RbStorage) (epochId : UInt64) : Option ℕ :=
  if epochId = env.FirstEpochId then some (setBytes (c.Keccak256 (bigBytes 1)))
  else
    let rBytes := st.slots (GetRBRKeyHash epochId)
    if rBytes ≠ [] then some (setBytes rBytes) else none

/-- `GetR`: the stored random of an epoch, the first epoch's when there is none. -/
def GetR (st : RbStorage) (epochId : UInt64) : ℕ :=
  if epochId = env.FirstEpochId then (GetStateR c env st env.FirstEpochId).getD 0
  else
    match GetStateR c env st epochId with
    | some r => r
    | none => (GetStateR c env st env.FirstEpochId).getD 0

/-- `GetRBM`: the message the proposers of an epoch sign. -/
def GetRBM (st : RbStorage) (epochId : UInt64) : Bytes :=
  c.Keccak256 (bigBytes (epochId + 1).toInt64.toInt.natAbs ++ bigBytes (GetR c env st epochId))

/-- `GetPolynomialX`: the node of a proposer, before it is reduced. -/
def GetPolynomialX (pk : G1) (proposerId : UInt32) : Bytes :=
  c.Keccak256 (c.MarshalG1 pk ++ bigBytes proposerId.toNat)

/-- The nodes of the proposers, reduced mod `Order`, as `validDkg1` and `computeRandom` build
them. -/
def polynomialXs (pks : List G1) : List ℤ :=
  (List.range pks.length).map fun i =>
    (setBytes (GetPolynomialX c (pks.getD i 0) (UInt32.ofNat i)) : ℤ) % c.Order

/-! ### The methods -/

/-- `Dkg1FlatToDkg1`. -/
def Dkg1FlatToDkg1 (d : RbDKG1FlatTxPayload) : Except String (RbDKG1TxPayload G2) := do
  let Commit ← unmarshalPoints c.UnmarshalG2 "invalid dkg commit bytes" d.Commit
  pure ⟨d.EpochId, d.ProposerId, Commit⟩

/-- `Dkg2FlatToDkg2`. -/
def Dkg2FlatToDkg2 (d : RbDKG2FlatTxPayload) : Except String (RbDKG2TxPayload G1 G2) := do
  let EnShare ← unmarshalPoints c.UnmarshalG1 "invalid dkg encrypt share bytes" d.EnShare
  pure ⟨d.EpochId, d.ProposerId, EnShare, d.Proof.map (ProofFlatToProof c)⟩

/-- One check of a method: the error unless the condition holds. -/
def check (b : Bool) (err : String) : Except String Unit :=
  if b then .ok () else .error err

@[simp] lemma check_eq_ok {b : Bool} {err : String} {u : Unit} : check b err = .ok u ↔ b = true := by
  cases b <;> simp [check]

/-- `validDkg1`: the commitments of a proposer of the epoch, in the epoch's first stage, not
stored yet, one per proposer, that pass the Reed–Solomon check. -/
def validDkg1 [DecidableEq G2] (st : RbStorage) (ctx : RbCtx) (payload : Bytes) :
    Except String RbDKG1FlatTxPayload := do
  let some dkg1FlatParam := env.decodeDkg1 payload | throw "dkg1 payload parse failed"
  let dkg1Param ← Dkg1FlatToDkg1 c dkg1FlatParam
  let eid := dkg1Param.EpochId
  let pid := dkg1Param.ProposerId
  let pks ← getRBProposerGroup env eid
  check (isValidEpochStage eid .RbDkg1Stage ctx.time)
    ("invalid rb stage, expect RbDkg1Stage. epochId " ++ toString eid)
  check (isInRandomGroup c env pks eid pid ctx.caller)
    ("invalid proposer, proposerId " ++ toString pid)
  -- prevent reset; a stored commitment that reads back with an error does not count
  check (!hasDkgData (GetCji c st eid pid))
    ("dkg1 commit exist already, proposerId " ++ toString pid)
  check (pks.length = dkg1Param.Commit.length)
    (buildError "error in dkg1 params have invalid commits length" eid pid)
  check (RScodeVerify c dkg1Param.Commit (polynomialXs c pks) polymDegree ctx.constant ctx.rand)
    "rs code verify failed"
  pure dkg1FlatParam

/-- `validDkg2`: the encrypted shares of a proposer of the epoch, in the epoch's second stage,
not stored yet, after its commitments, one per proposer, each with a DLEQ proof against the
commitment. -/
def validDkg2 (st : RbStorage) (ctx : RbCtx) (payload : Bytes) :
    Except String RbDKG2FlatTxPayload := do
  let some dkg2FlatParam := env.decodeDkg2 payload | throw "dkg2 payload parse failed"
  let dkg2Param ← Dkg2FlatToDkg2 c dkg2FlatParam
  let eid := dkg2Param.EpochId
  let pid := dkg2Param.ProposerId
  let pks ← getRBProposerGroup env eid
  check (isValidEpochStage eid .RbDkg2Stage ctx.time)
    ("invalid rb stage, expect RbDkg2Stage. error epochId " ++ toString eid)
  check (isInRandomGroup c env pks eid pid ctx.caller) ("error proposerId " ++ toString pid)
  check (!hasDkgData (GetEncryptShare c st eid pid))
    ("dkg2 encrypt share exist already, proposerId " ++ toString pid)
  let some commit := (GetCji c st eid pid).toOption.join.filter (·.length ≠ 0)
    | throw (buildError "error in dkg2 can't get commit data" eid pid)
  let nr := pks.length
  check (nr = dkg2Param.EnShare.length ∧ nr = dkg2Param.Proof.length ∧ nr = commit.length)
    (buildError "error in dkg2 params have different length" eid pid)
  check ((List.range nr).all fun j => VerifyDLEQ c (dkg2Param.Proof.getD j ⟨none, none, none⟩)
      (pks.getD j 0) c.hbase (dkg2Param.EnShare.getD j 0) (commit.getD j 0))
    "the equality of discrete logarithms verify failed"
  pure dkg2FlatParam

/-- The loop of `validSigShare` over the proposers: the commitments of those that stored their
encrypted shares and whose commitments read back, with their keys. -/
def collectDkgData (st : RbStorage) (eid : UInt64) (pks : List G1) : List (List G2 × G1) :=
  (List.range pks.length).filterMap fun id =>
    if IsJoinDKG2 st eid (UInt32.ofNat id) then
      match GetCji c st eid (UInt32.ofNat id) with
      | .ok (some dkgDatum) => some (dkgDatum, pks.getD id 0)
      | _ => none
    else none

/-- `validSigShare`: a signature share of a proposer of the epoch, in the epoch's signing stage,
when `RBThres` proposers completed the key generation, that pairs with the message as the sum
of their commitments to the proposer does. -/
def validSigShare (st : RbStorage) (ctx : RbCtx) (payload : Bytes) :
    Except String (RbSIGTxPayload G1 × List G1 × List (List G2 × G1)) := do
  let some sigShareParam := env.decodeSig payload | throw "error in dkg param has a wrong struct"
  let eid := sigShareParam.EpochId
  let pid := sigShareParam.ProposerId
  let pks ← getRBProposerGroup env eid
  check (isValidEpochStage eid .RbSignStage ctx.time)
    ("invalid rb stage, expect RbSignStage. error epochId " ++ toString eid)
  check (isInRandomGroup c env pks eid pid ctx.caller) (" error proposerId " ++ toString pid)
  let m := setBytes (GetRBM c env st eid)
  let dkgData := collectDkgData c st eid pks
  let gPKShare := dkgData.foldl (fun g d => g + d.1.getD pid.toNat 0) 0
  check (rbThres ≤ dkgData.length) (buildError "insufficient proposer" eid pid)
  let mG := (m : ℤ) • c.gbase
  check (c.StringGT (c.Pair sigShareParam.GSignShare c.hbase) = c.StringGT (c.Pair mG gPKShare))
    (buildError "unequal si gi" eid pid)
  pure (sigShareParam, pks, dkgData)

/-- `getSignorsNum`: the number of signature shares of the epoch counted so far. -/
def getSignorsNum (st : RbStorage) (epochId : UInt64) : UInt32 :=
  let bs := st.signors
  if bs ≠ [] then
    if ByteSliceToUInt bs = epochId then ByteSliceToUInt32 (bs.drop 8) else 0
  else 0

/-- `setSignorsNum`. -/
def setSignorsNum (st : RbStorage) (epochId : UInt64) (num : UInt32) : RbStorage :=
  { st with signors := UIntToByteSlice epochId ++ UInt32ToByteSlice num }

@[simp] lemma setSignorsNum_slots (st : RbStorage) (epochId : UInt64) (num : UInt32) :
    (setSignorsNum st epochId num).slots = st.slots := rfl

/-- The loop of `computeRandom` over the proposers: the stored signature payloads that read
back, with the proposers' keys. -/
def collectSigData (st : RbStorage) (epochId : UInt64) (pks : List G1) :
    List (RbSIGTxPayload G1 × G1) :=
  (List.range pks.length).filterMap fun id =>
    match GetSig env st epochId (UInt32.ofNat id) with
    | .ok (some sigDatum) => some (sigDatum, pks.getD id 0)
    | _ => none

/-- `computeRandom`: the random of the next epoch, from the first `PolymDegree + 1` stored
signature shares, when it is not stored yet and the group signature pairs with the message as
the group key does. -/
def computeRandom (st : RbStorage) (epochId : UInt64) (dkgData : List (List G2 × G1))
    (pks : List G1) : Except String ℕ := do
  check ((GetStateR c env st (epochId + 1)).all (· = 0)) "random exist already"
  check (pks.length ≠ 0) "can't find random beacon proposer group"
  let sigData := collectSigData env st epochId pks
  check (rbThres ≤ sigData.length) "insufficient sign proposer"
  let gSignatureShare := sigData.map fun d => d.1.GSignShare
  let xSig := sigData.map fun d => (setBytes (GetPolynomialX c d.2 d.1.ProposerId) : ℤ)
  let gSignature := LagrangeSig c gSignatureShare xSig polymDegree
  let random := c.Keccak256 (c.MarshalG1 gSignature)
  -- the group key: each proposer's commitments summed over the proposers of `dkgData`
  let cs := (List.range pks.length).map fun i => dkgData.foldl (fun g d => g + d.1.getD i 0) 0
  let gPub := LagrangePub c cs (polynomialXs c pks) polymDegree
  let m := setBytes (GetRBM c env st epochId)
  let mG := (m : ℤ) • c.gbase
  check (c.StringGT (c.Pair gSignature c.hbase) = c.StringGT (c.Pair mG gPub))
    "final pairing check failed"
  pure (setBytes random)

/-- `dkg1`: stores the commitments. -/
def dkg1 [DecidableEq G2] (st : RbStorage) (ctx : RbCtx) (payload : Bytes) :
    Except String RbStorage := do
  let dkg1FlatParam ← validDkg1 c env st ctx payload
  pure (st.set (GetRBKeyHash kindCij dkg1FlatParam.EpochId dkg1FlatParam.ProposerId)
    (encodeByteSlices dkg1FlatParam.Commit))

/-- `dkg2`: stores the encrypted shares. -/
def dkg2 (st : RbStorage) (ctx : RbCtx) (payload : Bytes) : Except String RbStorage := do
  let dkg2FlatParam ← validDkg2 c env st ctx payload
  pure (st.set (GetRBKeyHash kindEns dkg2FlatParam.EpochId dkg2FlatParam.ProposerId)
    (encodeByteSlices dkg2FlatParam.EnShare))

/-- `sigShare`: stores the signature payload, counts it, and from `RBThres` counted shares on
stores the next epoch's random when `computeRandom` gives one. The log it emits is not
modelled. -/
def sigShare (st : RbStorage) (ctx : RbCtx) (payload : Bytes) : Except String RbStorage := do
  let (sigShareParam, pks, dkgData) ← validSigShare c env st ctx payload
  let eid := sigShareParam.EpochId
  let pid := sigShareParam.ProposerId
  let st := st.set (GetRBKeyHash sigShareId eid pid) payload
  let sigNum := getSignorsNum st eid + 1
  let st := setSignorsNum st eid sigNum
  if rbThres ≤ sigNum.toNat then
    match computeRandom c env st eid dkgData pks with
    | .ok r => pure (st.set (GetRBRKeyHash (eid + 1)) (bigBytes r))
    | .error _ => pure st
  else pure st

/-- `RandomBeaconContract.Run` on the storage: the three methods that write, and from
`MercuryEpochId` on the three view methods, which leave the storage as it is. -/
def Run [DecidableEq G2] (st : RbStorage) (ctx : RbCtx) (input : Bytes) :
    Except String RbStorage :=
  if input.length < 4 then .error "error parameters"
  else
    let methodId := input.take 4
    if methodId = dkg1Id then dkg1 c env st ctx (input.drop 4)
    else if methodId = dkg2Id then dkg2 c env st ctx (input.drop 4)
    else if methodId = sigShareId then sigShare c env st ctx (input.drop 4)
    else if env.MercuryEpochId ≤ (CalEpochSlotID ctx.time).1 ∧ (methodId = getEpochIdId ∨
        methodId = getRandomNumberByEpochIdId ∨ methodId = getRandomNumberByTimestampId) then
      .ok st
    else .error "no function"

/-- A transaction to the contract: its context and its input. -/
structure RbCall where
  ctx : RbCtx
  input : Bytes

/-- One transaction: a call that fails leaves the storage as it was. -/
def rbStep [DecidableEq G2] (st : RbStorage) (call : RbCall) : RbStorage :=
  match Run c env st call.ctx call.input with
  | .ok st' => st'
  | .error _ => st

end Wanchain.RandomBeacon
