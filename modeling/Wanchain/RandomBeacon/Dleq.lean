import Wanchain.RandomBeacon.Shares

/-!
# DLEQ proofs on bn256

In the second stage of the random beacon a proposer proves that the encrypted share it sends,
in `G1`, and its commitment, in `G2`, are the bases `gbase` and `hbase` scaled by one secret
`sk`. The proof holds the commitments `a1 = w • gbase` and `a2 = w • hbase` for a random nonce
`w`, and the response `z = (w - sk e) mod Order` to the challenge `e`, the hash of both
commitments reduced mod `Order`. The verifier recomputes `z • gbase + e • x` and
`z • hbase + e • y` and compares their renderings with the commitments.

An honest proof verifies, and so does the proof the contract reads back from the flat form in
which a transaction carries it (`DLEQ_complete`).
-/

namespace Wanchain.RandomBeacon

open CurveGroup

variable {G1 G2 GT : Type} [AddCommGroup G1] [AddCommGroup G2] [AddCommGroup GT]
  (c : Bn256 G1 G2 GT)

/-- `DLEQproof`: the commitments and the response, a nil pointer as `none`. -/
structure DLEQproof (G1 G2 : Type) where
  a1 : Option G1
  a2 : Option G2
  z : Option ℤ

/-- `DLEQproofFlat`: a proof with its commitments marshalled. -/
structure DLEQproofFlat where
  A1 : Bytes
  A2 : Bytes
  Z : Option ℤ

/-- The challenge of a proof: `Keccak256(a1.Marshal() || a2.Marshal())` read as a number and
reduced mod `Order`. -/
def dleqChallenge (a1 : G1) (a2 : G2) : ℤ :=
  (setBytes (c.Keccak256 (c.MarshalG1 a1 ++ c.MarshalG2 a2)) : ℤ) % c.Order

/-- `DLEQ`, with the nonce `w` it draws: it fails only on a nil secret. -/
def DLEQ (gbase : G1) (hbase : G2) (sk : Option ℤ) (w : ℤ) : Except String (DLEQproof G1 G2) :=
  match sk with
  | none => .error "invalid DLEQ input param"
  | some sk =>
    let a1 := w • gbase
    let a2 := w • hbase
    let e := dleqChallenge c a1 a2
    .ok ⟨some a1, some a2, some ((w - sk * e) % c.Order)⟩

/-- `CompareG1`: the renderings are equal. -/
def CompareG1 (a b : G1) : Bool := c.StringG1 a == c.StringG1 b

/-- `CompareG2`: the renderings are equal. -/
def CompareG2 (a b : G2) : Bool := c.StringG2 a == c.StringG2 b

/-- `VerifyDLEQ`: a proof with a nil part fails; otherwise its commitments must render as
`z • gbase + e • x` and `z • hbase + e • y`. -/
def VerifyDLEQ (proof : DLEQproof G1 G2) (gbase : G1) (hbase : G2) (x : G1) (y : G2) : Bool :=
  match proof.a1, proof.a2, proof.z with
  | some a1, some a2, some z =>
    let e := dleqChallenge c a1 a2
    CompareG1 c a1 (z • gbase + e • x) && CompareG2 c a2 (z • hbase + e • y)
  | _, _, _ => false

/-- `ProofToProofFlat`: marshalling a nil commitment dereferences it, which the model reads as
no result. -/
def ProofToProofFlat (d : DLEQproof G1 G2) : Option DLEQproofFlat :=
  match d.a1, d.a2 with
  | some a1, some a2 => some ⟨c.MarshalG1 a1, c.MarshalG2 a2, d.z⟩
  | _, _ => none

/-- `ProofFlatToProof`: the errors of `Unmarshal` are ignored, and so are bytes after a point.
Bytes that do not decode leave a commitment the verifier cannot use (Go keeps what the failed
read left, a point off the curve or none at all), modelled as nil. -/
def ProofFlatToProof (d : DLEQproofFlat) : DLEQproof G1 G2 :=
  ⟨(c.UnmarshalG1 d.A1).toOption.map Prod.fst, (c.UnmarshalG2 d.A2).toOption.map Prod.fst, d.Z⟩

lemma CompareG1_iff {a b : G1} : CompareG1 c a b = true ↔ a = b := by
  simp [CompareG1, c.StringG1_injective.eq_iff]

lemma CompareG2_iff {a b : G2} : CompareG2 c a b = true ↔ a = b := by
  simp [CompareG2, c.StringG2_injective.eq_iff]

/-- A proof read back from its flat form is the proof. -/
lemma ProofFlatToProof_ProofToProofFlat {d : DLEQproof G1 G2} {flat : DLEQproofFlat}
    (h : ProofToProofFlat c d = some flat) : ProofFlatToProof c flat = d := by
  obtain ⟨a1, a2, z⟩ := d
  cases a1 <;> cases a2 <;> simp only [ProofToProofFlat, reduceCtorEq] at h
  cases h
  have h1 := c.UnmarshalG1_Marshal ‹G1› []
  have h2 := c.UnmarshalG2_Marshal ‹G2› []
  rw [List.append_nil] at h1 h2
  simp [ProofFlatToProof, Except.toOption, h1, h2]

/-- The commitments of an honest proof are what the verifier recomputes. -/
lemma VerifyDLEQ_honest (gbase : G1) (hbase : G2) (sk w : ℤ) :
    VerifyDLEQ c ⟨some (w • gbase), some (w • hbase),
        some ((w - sk * dleqChallenge c (w • gbase) (w • hbase)) % c.Order)⟩
      gbase hbase (sk • gbase) (sk • hbase) = true := by
  simp only [VerifyDLEQ, Bool.and_eq_true, CompareG1_iff, CompareG2_iff]
  exact ⟨(response_zsmul_add c.Order_smul_G1 _ _ _ _).symm,
    (response_zsmul_add c.Order_smul_G2 _ _ _ _).symm⟩

/-- DLEQ completeness and transport: for every secret, pair of bases and nonce, the proof
`DLEQ` makes verifies against the bases scaled by the secret, and so does the proof read back
after `ProofToProofFlat`. -/
theorem DLEQ_complete (gbase : G1) (hbase : G2) (sk w : ℤ) :
    ∃ proof, DLEQ c gbase hbase (some sk) w = .ok proof ∧
      VerifyDLEQ c proof gbase hbase (sk • gbase) (sk • hbase) = true ∧
      ∃ flat, ProofToProofFlat c proof = some flat ∧
        VerifyDLEQ c (ProofFlatToProof c flat) gbase hbase (sk • gbase) (sk • hbase) = true := by
  set proof : DLEQproof G1 G2 := ⟨some (w • gbase), some (w • hbase),
    some ((w - sk * dleqChallenge c (w • gbase) (w • hbase)) % c.Order)⟩
  have hhonest : VerifyDLEQ c proof gbase hbase (sk • gbase) (sk • hbase) = true :=
    VerifyDLEQ_honest c gbase hbase sk w
  have hflat : ProofToProofFlat c proof =
      some ⟨c.MarshalG1 (w • gbase), c.MarshalG2 (w • hbase), proof.z⟩ := rfl
  refine ⟨proof, rfl, hhonest, _, hflat, ?_⟩
  rw [ProofFlatToProof_ProofToProofFlat c hflat]
  exact hhonest

/-- The flat proof an honest proposer sends: the proof `DLEQ` makes for the secret `sk` with
the nonce `w`, after `ProofToProofFlat`. -/
def DLEQflat (gbase : G1) (hbase : G2) (sk w : ℤ) : DLEQproofFlat :=
  ((DLEQ c gbase hbase (some sk) w).toOption.bind (ProofToProofFlat c)).getD ⟨[], [], none⟩

/-- The contract reads an honest flat proof back as a proof that verifies. -/
lemma VerifyDLEQ_DLEQflat (gbase : G1) (hbase : G2) (sk w : ℤ) :
    VerifyDLEQ c (ProofFlatToProof c (DLEQflat c gbase hbase sk w)) gbase hbase (sk • gbase)
      (sk • hbase) = true := by
  have hflat : ProofToProofFlat c ⟨some (w • gbase), some (w • hbase),
      some ((w - sk * dleqChallenge c (w • gbase) (w • hbase)) % c.Order)⟩ =
        some (DLEQflat c gbase hbase sk w) := rfl
  rw [ProofFlatToProof_ProofToProofFlat c hflat]
  exact VerifyDLEQ_honest c gbase hbase sk w

end Wanchain.RandomBeacon
