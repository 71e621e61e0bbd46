import Wanchain.Basic.Config
import Wanchain.Rlp.Decode
import Wanchain.SlotLeader.Dleq
import Wanchain.SlotLeader.Selection

/-!
# The two stages of the secret message array

In stage one an epoch leader commits to a secret `alpha`: `GenerateCommitment` gives
`[PK, alpha • PK]` and the transaction carries `alpha • PK`, compressed, in the RLP of
`stage1Data`. In stage two it sends `alpha • PK_j` for every epoch leader `j`
(`GenerateArrayPiece`) with a DLEQ proof, in the RLP of `stage2Data`. The contract unpacks both
payloads and checks the pieces against the commitment and the proof (`VerifyArrayPiece`).

The stages are complete (`stage2_complete`): an honest leader's payloads unpack to what it
packed, its pieces are its secret times the epoch leaders, the stage-one commitment is its own
piece, and the checks accept when the proof's numbers are non-zero. The payloads go through the
RLP codec of `Wanchain.Rlp` and through btcec's compressed points, which read back every point
of the curve.
-/

namespace Wanchain.SlotLeader

open CurveGroup Rlp

/-- btcec's compressed points: `SerializeCompressed` writes a point of the curve in thirty-three
bytes and `ParsePubKey` reads it back. -/
structure PointCodec (Pt : Type) [Zero Pt] where
  SerializeCompressed : Pt → Bytes
  ParsePubKey : Bytes → Except String Pt
  length_SerializeCompressed : ∀ P, (SerializeCompressed P).length = 33
  ParsePubKey_SerializeCompressed : ∀ P, P ≠ 0 → ParsePubKey (SerializeCompressed P) = .ok P

/-- What the stage transactions read of a parsed `abi.ABI`: the ids of its methods. -/
structure Abi where
  MethodId : String → Bytes

def ErrInvalidGenerateCommitment : String := "Invalid Commitment Generation"
def ErrInvalidArrayPieceGeneration : String := "Invalid ArrayPiece Generation"

section Codec

variable {Pt : Type} [AddCommGroup Pt] [DecidableEq Pt] (pc : PointCodec Pt)
  (GetAbi : String → Except String Abi)

/-- `util.CompressPk`: a point off the curve, here the point at infinity, is refused. -/
def CompressPk (pk : Pt) : Except String Bytes :=
  if pk = 0 then .error "Pk point is not on S256 curve" else .ok (pc.SerializeCompressed pk)

/-- `util.UncompressPk`. -/
def UncompressPk (buf : Bytes) : Except String Pt := pc.ParsePubKey buf

/-- `copy` of a method id into a `[4]byte`. -/
def functionId (id : Bytes) : Bytes := (id ++ List.replicate 4 0).take 4

/-- `GetStage1FunctionID`. -/
def GetStage1FunctionID (abiString : String) : Except String Bytes := do
  let abi ← GetAbi abiString
  pure (functionId (abi.MethodId "slotLeaderStage1MiSave"))

/-- `GetStage2FunctionID`. -/
def GetStage2FunctionID (abiString : String) : Except String Bytes := do
  let abi ← GetAbi abiString
  pure (functionId (abi.MethodId "slotLeaderStage2InfoSave"))

/-- The Go type `*stage1Data` that stage-one payloads decode into. -/
def stage1Ty : Ty :=
  .ptr (.struct "vm.stage1Data" [("EpochID", .uint64), ("SelfIndex", .uint64),
    ("MiCompress", .bytes)])

/-- The Go type `stage2Data`. -/
def stage2Ty : Ty :=
  .struct "vm.stage2Data" [("EpochID", .uint64), ("SelfIndex", .uint64), ("SelfPk", .bytes),
    ("AlphaPki", .slice .bytes), ("Proof", .slice .bigInt)]

/-- A `stage1Data` value. -/
def stage1Data (epochID selfIndex : UInt64) (miCompress : Bytes) : Value :=
  .list [.uint epochID, .uint selfIndex, .bytes miCompress]

/-- A `stage2Data` value. -/
def stage2Data (epochID selfIndex : UInt64) (selfPk : Bytes) (alphaPki : List Bytes)
    (proof : List ℕ) : Value :=
  .list [.uint epochID, .uint selfIndex, .bytes selfPk, .list (alphaPki.map .bytes),
    .list (proof.map .bigInt)]

/-- `PackStage1Data`: the method id, then the payload. -/
def PackStage1Data (input : Bytes) (abiString : String) : Except String Bytes := do
  let id ← GetStage1FunctionID GetAbi abiString
  pure (id ++ input)

/-- `RlpPackStage1DataForTx`. -/
def RlpPackStage1DataForTx (epochID selfIndex : UInt64) (mi : Pt) (abiString : String) :
    Except String Bytes := do
  let pkBuf ← CompressPk pc mi
  PackStage1Data GetAbi (EncodeToBytes (stage1Data epochID selfIndex pkBuf)) abiString

/-- `input[4:]`, which panics on an input shorter than a method id. -/
def dropFunctionId (input : Bytes) : Except String Bytes :=
  if input.length < 4 then .error "runtime error: slice bounds out of range" else .ok (input.drop 4)

/-- What the decoder never returns for a type: a value of another shape. -/
def ErrDecodedShape : String := "rlp: decoded value of another type"

/-- `RlpUnpackStage1DataForTx`. -/
def RlpUnpackStage1DataForTx (input : Bytes) : Except String (UInt64 × UInt64 × Pt) := do
  let buf ← dropFunctionId input
  let data ← (DecodeBytes stage1Ty buf).mapError RlpError.Error
  match data with
  | .list [.uint epochID, .uint selfIndex, .bytes miCompress] =>
    let mi ← UncompressPk pc miCompress
    pure (epochID, selfIndex, mi)
  | _ => .error ErrDecodedShape

/-- `RlpPackStage2DataForTx`. -/
def RlpPackStage2DataForTx (epochID selfIndex : UInt64) (selfPK : Pt) (alphaPki : List Pt)
    (proof : List ℕ) (abiString : String) : Except String Bytes := do
  let pk ← CompressPk pc selfPK
  let pks ← alphaPki.mapM (CompressPk pc)
  let buf := EncodeToBytes (stage2Data epochID selfIndex pk pks proof)
  let id ← GetStage2FunctionID GetAbi abiString
  pure (id ++ buf)

/-- The point of an element of `AlphaPki`. -/
def uncompressValue : Value → Except String Pt
  | .bytes b => UncompressPk pc b
  | _ => .error ErrDecodedShape

/-- The number of an element of `Proof`. -/
def bigIntValue : Value → Except String ℕ
  | .bigInt n => .ok n
  | _ => .error ErrDecodedShape

/-- `RlpUnpackStage2DataForTx`. -/
def RlpUnpackStage2DataForTx (input : Bytes) :
    Except String (UInt64 × UInt64 × Pt × List Pt × List ℕ) := do
  let buf ← dropFunctionId input
  let data ← (DecodeBytes stage2Ty buf).mapError RlpError.Error
  match data with
  | .list [.uint epochID, .uint selfIndex, .bytes selfPk, .list alphaPki, .list proof] =>
    let selfPK ← UncompressPk pc selfPk
    let alphaPki ← alphaPki.mapM (uncompressValue pc)
    let proof ← proof.mapM bigIntValue
    pure (epochID, selfIndex, selfPK, alphaPki, proof)
  | _ => .error ErrDecodedShape

section RoundTrip

lemma CompressPk_ok {pk : Pt} (hpk : pk ≠ 0) : CompressPk pc pk = .ok (pc.SerializeCompressed pk) :=
  if_neg hpk

lemma length_functionId (id : Bytes) : (functionId id).length = 4 := by
  simp [functionId]

lemma dropFunctionId_append {id : Bytes} (hid : id.length = 4) (buf : Bytes) :
    dropFunctionId (id ++ buf) = .ok buf := by
  rw [dropFunctionId, if_neg (by simp [hid]), List.drop_left' hid]

lemma stage1Data_hasTy (epochID selfIndex : UInt64) (miCompress : Bytes) :
    HasTy stage1Ty (stage1Data epochID selfIndex miCompress) := by
  simp [HasTy, FieldsHaveTy, stage1Ty, stage1Data]

lemma stage2Data_hasTy (epochID selfIndex : UInt64) (selfPk : Bytes) (alphaPki : List Bytes)
    (proof : List ℕ) : HasTy stage2Ty (stage2Data epochID selfIndex selfPk alphaPki proof) := by
  simp [HasTy, FieldsHaveTy, stage2Ty, stage2Data]

lemma length_encodeItem_uint_le (i : UInt64) : (encodeItem (.uint i)).length ≤ 9 := by
  have h8 : (bigBytes i.toNat).length ≤ 8 :=
    length_bigBytes_le_iff.mpr (by simpa using i.toNat_lt)
  have := length_encodeStr_le (b := bigBytes i.toNat) (by omega)
  rw [encodeItem]
  omega

omit [DecidableEq Pt] in
lemma length_encodeItem_stage1Data (epochID selfIndex : UInt64) (pk : Pt) :
    (encodeItem (stage1Data epochID selfIndex (pc.SerializeCompressed pk))).length < 2 ^ 64 := by
  have hpk := length_encodeStr_le (b := pc.SerializeCompressed pk)
    (by rw [pc.length_SerializeCompressed]; omega)
  rw [pc.length_SerializeCompressed] at hpk
  have h₁ := length_encodeItem_uint_le epochID
  have h₂ := length_encodeItem_uint_le selfIndex
  have hitems : (encodeItems [.uint epochID, .uint selfIndex,
      .bytes (pc.SerializeCompressed pk)]).length ≤ 52 := by
    simp only [encodeItems, List.length_append, List.length_nil, encodeItem] at h₁ h₂ hpk ⊢
    omega
  have := length_encodeItem_list_le ([.uint epochID, .uint selfIndex,
    .bytes (pc.SerializeCompressed pk)]) (by omega)
  rw [stage1Data]
  omega

omit [DecidableEq Pt] in
/-- The stage-two payload is small: its points are thirty-three bytes and its numbers at most
thirty-two. -/
lemma length_encodeItem_stage2Data (epochID selfIndex : UInt64) (P : Pt) (pks : List Pt)
    (proof : List ℕ) (hproof : ∀ n ∈ proof, (bigBytes n).length ≤ 32)
    (hn : pks.length + proof.length < 2 ^ 50) :
    (encodeItem (stage2Data epochID selfIndex (pc.SerializeCompressed P)
      (pks.map pc.SerializeCompressed) proof)).length < 2 ^ 64 := by
  rw [stage2Data]
  have hpt : ∀ Q : Pt, (encodeItem (.bytes (pc.SerializeCompressed Q))).length ≤ 34 := by
    intro Q
    have := length_encodeStr_le (b := pc.SerializeCompressed Q)
      (by rw [pc.length_SerializeCompressed]; omega)
    rw [pc.length_SerializeCompressed] at this
    simpa [encodeItem] using this
  have hpks : (encodeItems ((pks.map pc.SerializeCompressed).map .bytes)).length ≤
      pks.length * 34 := by
    have := length_encodeItems_le ((pks.map pc.SerializeCompressed).map .bytes) 34
      (by simp only [List.map_map, List.mem_map]; rintro _ ⟨Q, -, rfl⟩; exact hpt Q)
    simpa using this
  have hprf : (encodeItems (proof.map .bigInt)).length ≤ proof.length * 33 := by
    have := length_encodeItems_le (proof.map .bigInt) 33 (by
      simp only [List.mem_map]
      rintro _ ⟨n, hn, rfl⟩
      have := length_encodeStr_le (b := bigBytes n) (by have := hproof n hn; omega)
      have := hproof n hn
      simp only [encodeItem]
      omega)
    simpa using this
  have hl₁ := length_encodeItem_list_le ((pks.map pc.SerializeCompressed).map .bytes)
    (by omega)
  have hl₂ := length_encodeItem_list_le (proof.map .bigInt) (by omega)
  have h₁ := length_encodeItem_uint_le epochID
  have h₂ := length_encodeItem_uint_le selfIndex
  have h₃ := hpt P
  set items : List Value := [.uint epochID, .uint selfIndex, .bytes (pc.SerializeCompressed P),
    .list ((pks.map pc.SerializeCompressed).map .bytes), .list (proof.map .bigInt)] with hitems
  have hsum : (encodeItems items).length < 2 ^ 60 := by
    simp only [hitems, encodeItems, List.length_append, List.length_nil] at h₁ h₂ h₃ hl₁ hl₂ ⊢
    omega
  have := length_encodeItem_list_le (items) (by omega)
  omega

/-- Stage one round trip: the payload of an honest commitment unpacks to what was packed. -/
theorem stage1_roundTrip (epochID selfIndex : UInt64) {mi : Pt} (hmi : mi ≠ 0)
    {abiString : String} {abi : Abi} (habi : GetAbi abiString = .ok abi) :
    ∃ buf, RlpPackStage1DataForTx pc GetAbi epochID selfIndex mi abiString = .ok buf ∧
      RlpUnpackStage1DataForTx pc buf = .ok (epochID, selfIndex, mi) := by
  have hdecode := DecodeBytes_EncodeToBytes (stage1Data_hasTy epochID selfIndex _)
    (by rw [EncodeToBytes_eq]; exact length_encodeItem_stage1Data pc epochID selfIndex mi)
  refine ⟨functionId (abi.MethodId "slotLeaderStage1MiSave") ++
    EncodeToBytes (stage1Data epochID selfIndex (pc.SerializeCompressed mi)), ?_, ?_⟩
  · simp only [RlpPackStage1DataForTx, CompressPk_ok pc hmi, Machine.ok_bind, PackStage1Data,
      GetStage1FunctionID, habi]
    rfl
  · simp only [RlpUnpackStage1DataForTx, dropFunctionId_append (length_functionId _),
      Machine.ok_bind, hdecode, Machine.mapError_ok]
    simp only [stage1Data, UncompressPk, pc.ParsePubKey_SerializeCompressed mi hmi]
    rfl

/-- Stage two round trip: the payload of honest pieces unpacks to what was packed. -/
theorem stage2_roundTrip (epochID selfIndex : UInt64) {selfPK : Pt} (hself : selfPK ≠ 0)
    {alphaPki : List Pt} (halpha : ∀ P ∈ alphaPki, P ≠ 0) {proof : List ℕ}
    (hproof : ∀ n ∈ proof, (bigBytes n).length ≤ 32)
    (hn : alphaPki.length + proof.length < 2 ^ 50) {abiString : String} {abi : Abi}
    (habi : GetAbi abiString = .ok abi) :
    ∃ buf, RlpPackStage2DataForTx pc GetAbi epochID selfIndex selfPK alphaPki proof abiString =
        .ok buf ∧
      RlpUnpackStage2DataForTx pc buf = .ok (epochID, selfIndex, selfPK, alphaPki, proof) := by
  have hdecode := DecodeBytes_EncodeToBytes (stage2Data_hasTy epochID selfIndex
    (pc.SerializeCompressed selfPK) (alphaPki.map pc.SerializeCompressed) proof)
    (by rw [EncodeToBytes_eq]
        exact length_encodeItem_stage2Data pc epochID selfIndex selfPK alphaPki proof hproof hn)
  have hpks : alphaPki.mapM (CompressPk pc) = .ok (alphaPki.map pc.SerializeCompressed) :=
    Machine.mapM_ok fun P hP => CompressPk_ok pc (halpha P hP)
  -- each compressed piece reads back as its point, and each number as itself
  have hpieces : ((alphaPki.map pc.SerializeCompressed).map Value.bytes).mapM
      (uncompressValue pc) = .ok alphaPki := by
    rw [List.map_map, List.mapM_map]
    simpa using Machine.mapM_ok (l := alphaPki) (g := id)
      (f := uncompressValue pc ∘ Value.bytes ∘ pc.SerializeCompressed)
      fun P hP => pc.ParsePubKey_SerializeCompressed P (halpha P hP)
  have hnums : (proof.map Value.bigInt).mapM bigIntValue = .ok proof := by
    rw [List.mapM_map]
    simpa using Machine.mapM_ok (l := proof) (g := id) (f := bigIntValue ∘ Value.bigInt)
      fun _ _ => rfl
  refine ⟨functionId (abi.MethodId "slotLeaderStage2InfoSave") ++
    EncodeToBytes (stage2Data epochID selfIndex (pc.SerializeCompressed selfPK)
      (alphaPki.map pc.SerializeCompressed) proof), ?_, ?_⟩
  · simp only [RlpPackStage2DataForTx, CompressPk_ok pc hself, hpks, Machine.ok_bind,
      GetStage2FunctionID, habi]
    rfl
  · simp only [RlpUnpackStage2DataForTx, dropFunctionId_append (length_functionId _),
      Machine.ok_bind, hdecode, Machine.mapError_ok]
    simp only [stage2Data, UncompressPk, pc.ParsePubKey_SerializeCompressed selfPK hself,
      Machine.ok_bind, hpieces, hnums]
    rfl

end RoundTrip

end Codec

section Array

variable {Pt : Type} [AddCommGroup Pt] [DecidableEq Pt] (c : Crypto Pt)

/-- `GenerateCommitment`: the public key and its multiple by the secret. -/
def GenerateCommitment (PublicKey : Pt) (alpha : ℕ) : Except String (List Pt) :=
  if alpha = 0 ∨ alpha = 1 then .error ErrInvalidGenerateCommitment
  else .ok [PublicKey, alpha • PublicKey]

/-- `GenerateArrayPiece`, with the random bytes of the proof's nonce as an argument: the public
keys, each times the secret, and the DLEQ proof of that. -/
def GenerateArrayPiece (PublicKeys : List Pt) (alpha : ℕ) (rand : Bytes) :
    Except String (List Pt × List Pt × List ℕ) :=
  if PublicKeys.length = 0 ∨ alpha = 0 ∨ alpha = 1 then .error ErrInvalidArrayPieceGeneration
  else
    let ArrayPiece := PublicKeys.map (alpha • ·)
    match DleqProofGeneration c PublicKeys ArrayPiece alpha rand with
    | .error _ => .error ErrInvalidArrayPieceGeneration
    | .ok proof => .ok (PublicKeys, ArrayPiece, proof)

/-- The loop of `VerifyArrayPiece` over the public keys and pieces: the number of keys equal to
the commitment's key, or `none` where such a key has a piece other than the commitment's. -/
def commitmentCount (C0 C1 : Pt) : List (Pt × Pt) → Option ℕ
  | [] => some 0
  | (P, A) :: rest =>
    if PublicKeyEqual C0 P then
      if PublicKeyEqual C1 A then (commitmentCount C0 C1 rest).map (· + 1) else none
    else commitmentCount C0 C1 rest

/-- `VerifyArrayPiece`: the commitment's key occurs among the public keys, with the committed
multiple as its piece wherever it occurs, and the DLEQ proof verifies. -/
def VerifyArrayPiece (Commitment PublicKeys ArrayPiece : List Pt) (Proof : List ℕ) : Bool :=
  if Commitment.length ≠ 2 ∨ PublicKeys.length = 0 ∨ ArrayPiece.length = 0 ∨
      PublicKeys.length ≠ ArrayPiece.length ∨ Proof.length ≠ 2 then false
  else
    match commitmentCount (Commitment.getD 0 0) (Commitment.getD 1 0)
        (PublicKeys.zip ArrayPiece) with
    | none => false
    | some temp => if temp = 0 then false else VerifyDleqProof c PublicKeys ArrayPiece Proof

omit [DecidableEq Pt] in
lemma GenerateCommitment_ok {PublicKey : Pt} {alpha : ℕ} {Commitment : List Pt}
    (h : GenerateCommitment PublicKey alpha = .ok Commitment) :
    Commitment = [PublicKey, alpha • PublicKey] := by
  unfold GenerateCommitment at h
  split_ifs at h
  cases h
  rfl

omit [DecidableEq Pt] in
/-- What a successful `GenerateArrayPiece` returns: the keys, their multiples and an honest
proof of them. -/
lemma GenerateArrayPiece_ok {PublicKeys pks pieces : List Pt} {alpha : ℕ} {rand : Bytes}
    {proof : List ℕ} (h : GenerateArrayPiece c PublicKeys alpha rand = .ok (pks, pieces, proof)) :
    pks = PublicKeys ∧ pieces = PublicKeys.map (alpha • ·) ∧
      DleqProofGeneration c PublicKeys (PublicKeys.map (alpha • ·)) alpha rand = .ok proof := by
  unfold GenerateArrayPiece at h
  split_ifs at h
  dsimp only at h
  split at h
  · cases h
  · rename_i proof' hproof
    simp only [Except.ok.injEq, Prod.mk.injEq] at h
    obtain ⟨rfl, rfl, rfl⟩ := h
    exact ⟨rfl, rfl, hproof⟩

/-- On honest pieces the loop of `VerifyArrayPiece` counts the occurrences of the committed
key. -/
lemma commitmentCount_map (P : Pt) (alpha : ℕ) (L : List Pt) :
    commitmentCount P (alpha • P) (L.map fun Q => (Q, alpha • Q)) = some (L.count P) := by
  induction L with
  | nil => rfl
  | cons Q L ih =>
    by_cases hQ : P = Q
    · subst hQ
      simp [commitmentCount, PublicKeyEqual, ih]
    · simp [commitmentCount, PublicKeyEqual, hQ, ih, Ne.symm hQ]

/-- Completeness of `VerifyArrayPiece`: the commitment of an epoch leader, its honest pieces
and their proof pass when the proof's numbers are non-zero. -/
theorem VerifyArrayPiece_complete {L : List Pt} {P : Pt} (hP : P ∈ L) {alpha : ℕ}
    {rand : Bytes} {proof : List ℕ}
    (h : DleqProofGeneration c L (L.map (alpha • ·)) alpha rand = .ok proof)
    (hproof : ∀ x ∈ proof, x ≠ 0) :
    VerifyArrayPiece c [P, alpha • P] L (L.map (alpha • ·)) proof = true := by
  have hdleq := VerifyDleqProof_complete c h hproof
  obtain ⟨hne, -, hprf⟩ := DleqProofGeneration_ok c h
  have hcount : commitmentCount ([P, alpha • P].getD 0 0) ([P, alpha • P].getD 1 0)
      (L.zip (L.map (alpha • ·))) = some (L.count P) := by
    rw [zip_map_self]
    exact commitmentCount_map P alpha L
  have hpos : L.count P ≠ 0 := (List.count_pos_iff.mpr hP).ne'
  rw [VerifyArrayPiece, if_neg (by simp [hne, hprf]), hcount]
  simp [hpos, hdleq]

end Array

section Complete

variable {Pt : Type} [AddCommGroup Pt] [DecidableEq Pt] (c : Crypto Pt) (pc : PointCodec Pt)
  (GetAbi : String → Except String Abi)

/-- Completeness of the two stages for an honest epoch leader `L[selfIndex]` with secret
`alpha`: both payloads unpack to what was packed, the pieces are `alpha` times the epoch leaders,
the committed point read back from stage one is the leader's own piece, and the contract's
checks pass when the proof's numbers are non-zero. -/
theorem stage2_complete {L : List Pt} (hL : L.length = epochLeaderCount)
    (hcurve : ∀ P ∈ L, P ≠ 0) (epochID selfIndex : UInt64) (hi : selfIndex.toNat < L.length)
    {alpha : ℕ} (halpha : 2 ≤ alpha ∧ alpha < c.N) (rand : Bytes) {abiString : String}
    {abi : Abi} (habi : GetAbi abiString = .ok abi) {Commitment : List Pt}
    (hC : GenerateCommitment L[selfIndex.toNat] alpha = .ok Commitment)
    {pks pieces : List Pt} {proof : List ℕ}
    (hA : GenerateArrayPiece c L alpha rand = .ok (pks, pieces, proof)) :
    (∃ buf, RlpPackStage2DataForTx pc GetAbi epochID selfIndex L[selfIndex.toNat] pieces proof
        abiString = .ok buf ∧
      RlpUnpackStage2DataForTx pc buf =
        .ok (epochID, selfIndex, L[selfIndex.toNat], pieces, proof)) ∧
    pieces = L.map (alpha • ·) ∧
    (∃ buf, RlpPackStage1DataForTx pc GetAbi epochID selfIndex (Commitment.getD 1 0) abiString =
        .ok buf ∧
      RlpUnpackStage1DataForTx pc buf = .ok (epochID, selfIndex, pieces.getD selfIndex.toNat 0)) ∧
    ((∀ x ∈ proof, x ≠ 0) →
      VerifyDleqProof c L pieces proof = true ∧
        VerifyArrayPiece c Commitment L pieces proof = true) := by
  obtain ⟨-, rfl, hdleq⟩ := GenerateArrayPiece_ok c hA
  obtain rfl := GenerateCommitment_ok hC
  -- a multiple by `alpha` of a point of the curve is one: `alpha` is below the prime order
  have hpiece : ∀ P : Pt, P ≠ 0 → alpha • P ≠ 0 := fun P hP =>
    nsmul_ne_zero_of_lt c.N_smul c.N_prime hP (by omega) halpha.2
  have hpieces : ∀ Q ∈ L.map (alpha • ·), Q ≠ 0 := by
    simp only [List.mem_map]
    rintro _ ⟨P, hP, rfl⟩
    exact hpiece P (hcurve P hP)
  obtain ⟨-, -, hprf⟩ := DleqProofGeneration_ok c hdleq
  have hproof : ∀ n ∈ proof, (bigBytes n).length ≤ 32 := by
    rw [hprf]
    simp only [List.mem_cons, List.not_mem_nil, or_false]
    rintro n (rfl | rfl)
    · exact length_bigBytes_hash c _
    · exact length_bigBytes_response c _ _ _
  have hlen : (L.map (alpha • ·)).length + proof.length < 2 ^ 50 := by
    simp [hprf, hL, epochLeaderCount]
  have hself : L[selfIndex.toNat] ≠ 0 := hcurve _ (List.getElem_mem hi)
  refine ⟨stage2_roundTrip pc GetAbi epochID selfIndex hself hpieces hproof hlen habi, rfl, ?_, ?_⟩
  · have hget : (L.map (alpha • ·)).getD selfIndex.toNat 0 = alpha • L[selfIndex.toNat] := by
      simp [List.getD_eq_getElem?_getD, hi]
    rw [hget]
    exact stage1_roundTrip pc GetAbi epochID selfIndex (hpiece _ hself) habi
  · intro hnz
    exact ⟨VerifyDleqProof_complete c hdleq hnz,
      VerifyArrayPiece_complete c (List.getElem_mem hi) hdleq hnz⟩

end Complete

/-- Points of `ZMod 7` in thirty-three bytes, the value in the last. -/
def sevenCodec : PointCodec (ZMod 7) where
  SerializeCompressed P := 2 :: List.replicate 31 0 ++ [UInt8.ofNat P.val]
  ParsePubKey b :=
    if b.length = 33 then .ok ((b.getLastD 0).toNat : ZMod 7) else .error "invalid pub key length"
  length_SerializeCompressed _ := by simp
  ParsePubKey_SerializeCompressed := by decide

/-- Fifty epoch leaders, all the point `1` of `ZMod 7`. -/
def sevenLeaders : List (ZMod 7) := List.replicate epochLeaderCount 1

/-- An ABI whose method ids are empty. -/
def emptyAbi : String → Except String Abi := fun _ => .ok ⟨fun _ => []⟩

theorem stage2_complete_seven :
    sevenLeaders.length = epochLeaderCount ∧ (∀ P ∈ sevenLeaders, P ≠ 0) ∧
    (0 : UInt64).toNat < sevenLeaders.length ∧ (2 ≤ 2 ∧ 2 < lengthHashCrypto.N) ∧
    GenerateCommitment (1 : ZMod 7) 2 = .ok [1, 2] ∧
    GenerateArrayPiece lengthHashCrypto sevenLeaders 2 [1] =
      .ok (sevenLeaders, sevenLeaders.map (2 • ·), [151, 1]) ∧
    (∃ buf, RlpPackStage2DataForTx sevenCodec emptyAbi 3 0 1 (sevenLeaders.map (2 • ·))
        [151, 1] "" = .ok buf ∧
      RlpUnpackStage2DataForTx sevenCodec buf = .ok (3, 0, 1, sevenLeaders.map (2 • ·), [151, 1])) ∧
    (∃ buf, RlpPackStage1DataForTx sevenCodec emptyAbi 3 0 2 "" = .ok buf ∧
      RlpUnpackStage1DataForTx sevenCodec buf = .ok (3, 0, 2)) ∧
    VerifyDleqProof lengthHashCrypto sevenLeaders (sevenLeaders.map (2 • ·)) [151, 1] = true ∧
    VerifyArrayPiece lengthHashCrypto [1, 2] sevenLeaders (sevenLeaders.map (2 • ·)) [151, 1] =
      true := by
  have hL : sevenLeaders.length = epochLeaderCount := List.length_replicate
  have hcurve : ∀ P ∈ sevenLeaders, P ≠ 0 := by decide
  have hC : GenerateCommitment (1 : ZMod 7) 2 = .ok [1, 2] := by decide
  have hA : GenerateArrayPiece lengthHashCrypto sevenLeaders 2 [1] =
      .ok (sevenLeaders, sevenLeaders.map (2 • ·), [151, 1]) := by decide +kernel
  obtain ⟨h2, -, h1, hv⟩ := stage2_complete lengthHashCrypto sevenCodec emptyAbi hL hcurve 3 0
    (by decide) ⟨le_rfl, by decide⟩ [1] rfl hC hA
  exact ⟨hL, hcurve, by decide, ⟨le_rfl, by decide⟩, hC, hA, h2, h1, hv (by decide)⟩


end Wanchain.SlotLeader
