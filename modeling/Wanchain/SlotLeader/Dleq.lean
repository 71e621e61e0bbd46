import Wanchain.Basic.Bytes
import Wanchain.Lib.CurveGroup

/-!
# The curve and the DLEQ proofs of uleaderselection

The package uleaderselection works on secp256k1 through the crypto package. Its points are
modelled as a group in which every point has an order dividing the prime `N`:
`ScalarMult(P, k)` and `ScalarBaseMult(k)` are `k • P` and `k • G` for the scalar `k` read as a
natural number, the curve's `Add` is the group law on distinct points and `Double` doubles.
This is the curve `crypto.S256` returns in a build without cgo, btcec's, whose `ScalarMult`
multiplies by any scalar. The cgo build's curve multiplies in libsecp256k1 and returns nil
points for a scalar of zero or of at least `N`, which the model does not follow.
`Keccak256` is any function with thirty-two bytes out and `FromECDSAPub` any encoding of points.

A DLEQ proof shows that the points `AlphaPublicKeys` are the points `PublicKeys` all scaled by
one secret `alpha`: the challenge `e` is the hash of the statement followed by the commitments
`w • Pᵢ` for a random nonce `w`, not reduced mod `N`, and the response is
`z = (w - alpha e mod N) mod N`. The verifier recomputes each commitment as `z • Pᵢ + e • αPᵢ`
(`Wadd`, which doubles equal points) and compares the hash with `e`. An honest proof whose two
numbers are non-zero verifies (`VerifyDleqProof_complete`).
-/

namespace Wanchain.SlotLeader

open CurveGroup

/-- What uleaderselection uses of the crypto package: secp256k1 with its chord addition and
doubling, the order `N` of its points, the base point `G`, `Keccak256` and `FromECDSAPub`. -/
structure Crypto (Pt : Type) [AddCommGroup Pt] extends CurveArith Pt where
  N : ℕ
  G : Pt
  N_prime : N.Prime
  N_smul : ∀ P : Pt, N • P = 0
  N_le : N ≤ 2 ^ 256
  Keccak256 : Bytes → Bytes
  length_Keccak256 : ∀ b, (Keccak256 b).length = 32
  FromECDSAPub : Pt → Bytes

variable {Pt : Type} [AddCommGroup Pt] (c : Crypto Pt)

def ErrInvalidDleqProofGeneration : String := "Invalid DLEQ Proof Generation"

/-- `randFieldElement`: a scalar in `[1, N - 1]` from the random bytes read. -/
def randFieldElement (rand : Bytes) : ℕ :=
  setBytes rand % (c.N - 1) + 1

/-- The first part of the challenge's preimage: each public key followed by its multiple. -/
def dleqStatement (PublicKeys AlphaPublicKeys : List Pt) : Bytes :=
  (PublicKeys.zip AlphaPublicKeys).flatMap fun p => c.FromECDSAPub p.1 ++ c.FromECDSAPub p.2

/-- `DleqProofGeneration`, with the random bytes of its nonce as an argument: the proof `[e, z]`.
-/
def DleqProofGeneration (PublicKeys AlphaPublicKeys : List Pt) (alpha : ℕ) (rand : Bytes) :
    Except String (List ℕ) :=
  if PublicKeys.length = 0 ∨ AlphaPublicKeys.length = 0 ∨
      PublicKeys.length ≠ AlphaPublicKeys.length ∨ alpha = 0 ∨ alpha = 1 then
    .error ErrInvalidDleqProofGeneration
  else
    let w := randFieldElement c rand
    let e := setBytes (c.Keccak256 (dleqStatement c PublicKeys AlphaPublicKeys ++
      PublicKeys.flatMap fun P => c.FromECDSAPub (w • P)))
    .ok [e, (((w : ℤ) - (alpha * e % c.N : ℕ)) % c.N).toNat]

lemma zip_map_self {α β : Type*} (l : List α) (f : α → β) :
    l.zip (l.map f) = l.map fun x => (x, f x) := by
  induction l with
  | nil => rfl
  | cons x l ih => simp [ih]

/-- What an honest proof is. -/
lemma DleqProofGeneration_ok {PublicKeys AlphaPublicKeys : List Pt} {alpha : ℕ} {rand : Bytes}
    {Proof : List ℕ} (h : DleqProofGeneration c PublicKeys AlphaPublicKeys alpha rand = .ok Proof) :
    PublicKeys ≠ [] ∧ PublicKeys.length = AlphaPublicKeys.length ∧
      Proof = [setBytes (c.Keccak256 (dleqStatement c PublicKeys AlphaPublicKeys ++
          PublicKeys.flatMap fun P => c.FromECDSAPub (randFieldElement c rand • P))),
        (((randFieldElement c rand : ℤ) - (alpha * setBytes (c.Keccak256
          (dleqStatement c PublicKeys AlphaPublicKeys ++ PublicKeys.flatMap fun P =>
            c.FromECDSAPub (randFieldElement c rand • P))) % c.N : ℕ)) % c.N).toNat] := by
  unfold DleqProofGeneration at h
  split_ifs at h with hguard
  cases h
  simp only [not_or, ne_eq, not_not] at hguard
  exact ⟨List.ne_nil_of_length_pos (Nat.pos_of_ne_zero hguard.1), hguard.2.2.1, rfl⟩

/-- The two numbers of a proof fit in thirty-two bytes: the challenge is a hash, the response
is below `N`. -/
lemma length_bigBytes_response (w alpha e : ℕ) :
    (bigBytes (((w : ℤ) - (alpha * e % c.N : ℕ)) % c.N).toNat).length ≤ 32 := by
  have hN0 : 0 < c.N := c.N_prime.pos
  have hlt : (((w : ℤ) - (alpha * e % c.N : ℕ)) % c.N).toNat < c.N :=
    (Int.toNat_lt' hN0).mpr (Int.emod_lt_of_pos _ (by exact_mod_cast hN0))
  rw [length_bigBytes_le_iff]
  calc _ < c.N := hlt
    _ ≤ 2 ^ 256 := c.N_le
    _ = 256 ^ 32 := by norm_num

lemma length_bigBytes_hash (b : Bytes) : (bigBytes (setBytes (c.Keccak256 b))).length ≤ 32 := by
  rw [length_bigBytes_le_iff, ← c.length_Keccak256 b]
  exact setBytes_lt _

variable [DecidableEq Pt]

/-- `Wadd`: the curve's doubling on equal points, its addition otherwise. -/
def Wadd (P Q : Pt) : Pt :=
  if P = Q then c.Double P else c.Add P Q

@[simp] lemma Wadd_eq (P Q : Pt) : Wadd c P Q = P + Q :=
  c.guardedAdd_eq P Q

/-- `PublicKeyEqual`: the same point of the same curve. -/
def PublicKeyEqual (P Q : Pt) : Bool := decide (P = Q)

/-- `VerifyDleqProof`. -/
def VerifyDleqProof (PublicKeys AlphaPublicKeys : List Pt) (Proof : List ℕ) : Bool :=
  match Proof with
  | [e, z] =>
    if PublicKeys.length = 0 ∨ AlphaPublicKeys.length = 0 ∨
        PublicKeys.length ≠ AlphaPublicKeys.length then false
    else if e = 0 ∨ z = 0 then false
    else if 32 < (bigBytes e).length ∨ 32 < (bigBytes z).length then false
    else
      setBytes (c.Keccak256 (dleqStatement c PublicKeys AlphaPublicKeys ++
        (PublicKeys.zip AlphaPublicKeys).flatMap fun p =>
          c.FromECDSAPub (Wadd c (z • p.1) (e • p.2)))) = e
  | _ => false

/-- Completeness of the DLEQ proof: an honest proof for points all scaled by `alpha` verifies
when its challenge and response are non-zero. -/
theorem VerifyDleqProof_complete {PublicKeys : List Pt} {alpha : ℕ} {rand : Bytes}
    {Proof : List ℕ}
    (h : DleqProofGeneration c PublicKeys (PublicKeys.map (alpha • ·)) alpha rand = .ok Proof)
    (hProof : ∀ x ∈ Proof, x ≠ 0) :
    VerifyDleqProof c PublicKeys (PublicKeys.map (alpha • ·)) Proof = true := by
  obtain ⟨hne, -, rfl⟩ := DleqProofGeneration_ok c h
  set w := randFieldElement c rand
  set e := setBytes (c.Keccak256 (dleqStatement c PublicKeys (PublicKeys.map (alpha • ·)) ++
    PublicKeys.flatMap fun P => c.FromECDSAPub (w • P)))
  set z := (((w : ℤ) - (alpha * e % c.N : ℕ)) % c.N).toNat with hz
  -- the verifier's commitments are the prover's, point by point
  have hcommit : ((PublicKeys.zip (PublicKeys.map (alpha • ·))).flatMap fun p =>
      c.FromECDSAPub (Wadd c (z • p.1) (e • p.2))) =
        PublicKeys.flatMap fun P => c.FromECDSAPub (w • P) := by
    rw [zip_map_self, List.flatMap_map]
    refine List.flatMap_congr fun P _ => ?_
    rw [Wadd_eq, hz, response_nsmul_add c.N_smul c.N_prime.pos]
  have hlen : ¬ (PublicKeys.length = 0 ∨ (PublicKeys.map (alpha • ·)).length = 0 ∨
      PublicKeys.length ≠ (PublicKeys.map (alpha • ·)).length) := by
    simp [hne]
  have hnz : ¬ (e = 0 ∨ z = 0) :=
    not_or.mpr ⟨hProof e List.mem_cons_self, hProof z (List.mem_cons_of_mem _ List.mem_cons_self)⟩
  have hbytes : ¬ (32 < (bigBytes e).length ∨ 32 < (bigBytes z).length) :=
    not_or.mpr ⟨not_lt.mpr (length_bigBytes_hash c _), not_lt.mpr (length_bigBytes_response c _ _ _)⟩
  simp only [VerifyDleqProof]
  rw [if_neg hlen, if_neg hnz, if_neg hbytes, hcommit]
  exact decide_eq_true rfl

end Wanchain.SlotLeader
