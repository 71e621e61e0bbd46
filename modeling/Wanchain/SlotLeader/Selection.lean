import Mathlib.Algebra.BigOperators.GroupWithZero.Action
import Wanchain.Basic.Config
import Wanchain.Lib.ExchangeSort
import Wanchain.SlotLeader.Dleq

/-!
# Slot-leader selection and its proof

Every epoch leader holds a secret message array `SMA` of points. For a slot, a hash chain seeded
with `RB || Uint64ToBytes(epochID) || Uint64ToBytes(slot)` picks one entry of `SMA` per epoch
leader and adds them up to the point `Gt`; the hash of `Gt` then picks the slot leader among
the epoch leaders, sorted by `Keccak256(RB || pk)` (`GenerateSlotLeaderSeqOne`). The leader
proves its election with `ProofMeg = [PK, Gt, sk • Gt]` and a DLEQ proof that `PK` and `sk • Gt`
are `G` and `Gt` scaled by one secret (`GenerateSlotLeaderProof`), which
`VerifySlotLeaderProof` checks against the epoch leaders.

The array is built from the pieces `alpha_j • PK` that the epoch leaders sent, scaled by the
inverse of `sk` (`GenerateSMA`), so it is `[alpha_j • G]` whoever computes it. A block verifier
that knows only the pieces runs the same chain over them (`getSkGtFromTrans`) and gets
`sk • Gt`: the chain only depends on the seed and the number of points
(`chainPoint_map_nsmul`).

The whole epoch's sequence is computed at once by `GenerateSlotLeaderSeqAndIndex`, with the
index of each leader in the list passed in; its slot `s` is what the one-slot function computes
for `s`, and the key a leader's own proof checks against.
-/

namespace Wanchain.SlotLeader

open CurveGroup ExchangeSort

/-- An `ecdsa.PrivateKey`: the secret scalar and its public key. -/
structure PrivateKey (Pt : Type) where
  D : ℕ
  PublicKey : Pt

def ErrInvalidSlotLeaderSequenceGeneration : String := "Invalid Slot Leader Sequence Generation"
def ErrInvalidSlotLeaderProofGeneration : String := "Invalid Slot Leader Proof Generation"
def ErrInvalidSecretMessageArrayGeneration : String := "Invalid Secret Message Array Generation"
def ErrInvalidSortPublicKeys : String := "Invalid PublicKeys Sort Operation"
def ErrInvalidPrivateKey : String := "private key is nil"
def ErrSortPublicKey : String := "sort public key error"
def ErrPublicKeyNotEqual : String := "public key is not equal"

/-- `(*big.Int).ModInverse`: the inverse of `g` mod `n`, none when they are not coprime. -/
def ModInverse (g n : ℕ) : Option ℕ :=
  if Nat.Coprime g n then some ((g : ZMod n)⁻¹).val else none

lemma ModInverse_spec {g n x : ℕ} (hn : 0 < n) (h : ModInverse g n = some x) :
    x * g ≡ 1 [MOD n] := by
  unfold ModInverse at h
  split_ifs at h with hcop
  cases h
  have : NeZero n := ⟨hn.ne'⟩
  rw [← ZMod.natCast_eq_natCast_iff]
  push_cast
  rw [ZMod.natCast_zmod_val, mul_comm, ZMod.coe_mul_inv_eq_one g hcop]

/-- A scalar strictly between `0` and a prime has an inverse mod the prime. -/
lemma ModInverse_isSome {g p : ℕ} (hp : p.Prime) (h0 : 0 < g) (hg : g < p) :
    ∃ x, ModInverse g p = some x := by
  have hcop : Nat.Coprime g p :=
    ((Nat.Prime.coprime_iff_not_dvd hp).mpr fun hdvd => absurd (Nat.le_of_dvd h0 hdvd)
      (not_le.mpr hg)).symm
  exact ⟨_, if_pos hcop⟩

variable {Pt : Type} [AddCommGroup Pt] (c : Crypto Pt)

/-- The key of a public key in the sort: `Keccak256(RB || FromECDSAPub(pk))` as a number. -/
def sortHash (RB : Bytes) (P : Pt) : ℕ :=
  setBytes (c.Keccak256 (RB ++ c.FromECDSAPub P))

/-- `SortPublicKeys`: the exchange sort of the pairs `(hasharray[i], PublicKeys[i])` by
hash. -/
def SortPublicKeys (PublicKeys : List Pt) (RB : Bytes) : Except String (List Pt) :=
  if PublicKeys.length = 0 then .error ErrInvalidSortPublicKeys
  else .ok ((sortList Prod.fst (PublicKeys.map fun P => (sortHash c RB P, P))).map Prod.snd)

/-- `SortPublicKeysAndIndex`: the same sort, carrying the position of each key in the input. -/
def SortPublicKeysAndIndex (PublicKeys : List Pt) (RB : Bytes) :
    Except String (List Pt × List ℕ) :=
  if PublicKeys.length = 0 then .error ErrInvalidSortPublicKeys
  else
    let sorted := sortList Prod.fst (PublicKeys.zipIdx.map fun p => (sortHash c RB p.1, p))
    .ok (sorted.map (·.2.1), sorted.map (·.2.2))

section Sorting

/-- The two parallel arrays of `SortPublicKeys` sort the keys by their hash. -/
lemma SortPublicKeys_eq {PublicKeys : List Pt} (hne : PublicKeys ≠ []) (RB : Bytes) :
    SortPublicKeys c PublicKeys RB = .ok (sortList (sortHash c RB) PublicKeys) := by
  have hmap := sortList_map (sortHash c RB) Prod.fst (fun P => (sortHash c RB P, P))
    (fun _ => rfl) PublicKeys
  rw [SortPublicKeys, if_neg (by simpa using hne), hmap, List.map_map]
  simp [Function.comp_def]

lemma SortPublicKeys_error (RB : Bytes) : ∃ e, SortPublicKeys c [] RB = .error e :=
  ⟨_, rfl⟩

/-- The keys `SortPublicKeysAndIndex` returns are those of `SortPublicKeys`. -/
lemma SortPublicKeysAndIndex_fst {PublicKeys : List Pt} (hne : PublicKeys ≠ []) (RB : Bytes) :
    ∃ index, SortPublicKeysAndIndex c PublicKeys RB =
      .ok (sortList (sortHash c RB) PublicKeys, index) := by
  -- sort the pairs (key, position) by the key's hash, then forget the positions
  have hpairs := sortList_map (fun p : Pt × ℕ => sortHash c RB p.1) Prod.fst
    (fun p => (sortHash c RB p.1, p)) (fun _ => rfl) PublicKeys.zipIdx
  have hkeys := sortList_map (fun p : Pt × ℕ => sortHash c RB p.1) (sortHash c RB) Prod.fst
    (fun _ => rfl) PublicKeys.zipIdx
  have hfst : PublicKeys.zipIdx.map Prod.fst = PublicKeys := by simp
  rw [hfst] at hkeys
  refine ⟨(sortList (fun p : Pt × ℕ => sortHash c RB p.1) PublicKeys.zipIdx).map Prod.snd, ?_⟩
  unfold SortPublicKeysAndIndex
  rw [if_neg (by simpa using hne)]
  dsimp only
  rw [hpairs, List.map_map, List.map_map, hkeys]
  rfl

/-- Sorting a sorted list of keys gives it back. -/
lemma SortPublicKeys_sorted {PublicKeys S : List Pt} {RB : Bytes}
    (h : SortPublicKeys c PublicKeys RB = .ok S) : SortPublicKeys c S RB = .ok S := by
  by_cases hne : PublicKeys = []
  · subst hne
    obtain ⟨e, he⟩ := SortPublicKeys_error c RB
    rw [he] at h
    cases h
  rw [SortPublicKeys_eq c hne] at h
  cases h
  have hne' : sortList (sortHash c RB) PublicKeys ≠ [] := by
    rw [← List.length_pos_iff, length_sortList]
    exact List.length_pos_iff.mpr hne
  rw [SortPublicKeys_eq c hne', sortList_sortList]

/-- Two permutations of one list of keys sort alike when the hash tells the keys apart. -/
lemma SortPublicKeys_perm {PublicKeys L : List Pt} {RB : Bytes} (hperm : L.Perm PublicKeys)
    (hinj : ∀ P ∈ PublicKeys, ∀ Q ∈ PublicKeys, sortHash c RB P = sortHash c RB Q → P = Q) :
    SortPublicKeys c L RB = SortPublicKeys c PublicKeys RB := by
  by_cases hne : PublicKeys = []
  · subst hne
    rw [List.perm_nil.mp hperm]
  have hne' : L ≠ [] := fun hL => hne (List.perm_nil.mp (hL ▸ hperm.symm))
  rw [SortPublicKeys_eq c hne, SortPublicKeys_eq c hne', sortList_eq_of_perm _ hperm hinj]

/-- The positions that `SortPublicKeysAndIndex` returns are those of the sorted keys among the
keys passed. -/
lemma SortPublicKeysAndIndex_index {PublicKeys keys : List Pt} {index : List ℕ} {RB : Bytes}
    (h : SortPublicKeysAndIndex c PublicKeys RB = .ok (keys, index)) :
    ∀ j < keys.length, PublicKeys.getD (index.getD j 0) 0 = keys.getD j 0 := by
  unfold SortPublicKeysAndIndex at h
  split_ifs at h with hlen
  simp only [Except.ok.injEq, Prod.mk.injEq] at h
  obtain ⟨rfl, rfl⟩ := h
  -- every entry of the sort is a key with its position, since the sort permutes the entries
  have hmem : ∀ x ∈ sortList Prod.fst (PublicKeys.zipIdx.map fun p => (sortHash c RB p.1, p)),
      PublicKeys[x.2.2]? = some x.2.1 := by
    intro x hx
    obtain ⟨p, hp, rfl⟩ := List.mem_map.mp ((sortList_perm Prod.fst _).subset hx)
    exact List.mem_zipIdx_iff_getElem?.mp hp
  intro j hj
  rw [List.length_map] at hj
  have hx := hmem _ (List.getElem_mem hj)
  simp only [List.getD_eq_getElem?_getD, List.getElem?_map, List.getElem?_eq_getElem hj,
    Option.map_some, Option.getD_some, hx]

end Sorting

variable [DecidableEq Pt]

/-- The buffer `RB || Uint64ToBytes(epochID) || Uint64ToBytes(slot)` that seeds the chain. -/
def slotSeed (RB : Bytes) (epochID slot : UInt64) : Bytes :=
  RB ++ uint64ToBytes epochID ++ uint64ToBytes slot

/-- Round `i` of the hash chain of `GenerateSlotLeaderSeqOne`, `GenerateSlotLeaderProof` and
`getSkGtFromTrans`: the next hash picks the point at its value mod the number of points; round
`0` starts the sum with it, later rounds add it (`Wadd`). -/
def gtRound (pts : List Pt) (acc : Bytes × Pt) (i : ℕ) : Bytes × Pt :=
  let tempHash := c.Keccak256 acc.1
  let cstemp := setBytes tempHash % pts.length
  (tempHash, if i = 0 then pts.getD cstemp 0 else Wadd c acc.2 (pts.getD cstemp 0))

/-- The sum that `n` rounds of the chain from `temp` pick from `pts`. -/
def chainPoint (pts : List Pt) (n : ℕ) (temp : Bytes) : Pt :=
  (Machine.run (gtRound c pts) (temp, 0) (List.range n)).2

/-- `GenerateSlotLeaderSeqOne`: the leader of slot `slotID`. -/
def GenerateSlotLeaderSeqOne (SMA PublicKeys : List Pt) (RB : Bytes) (slotID epochID : UInt64) :
    Except String Pt :=
  if SMA.length = 0 ∨ PublicKeys.length = 0 ∨ slotCount ≤ slotID.toNat then
    .error ErrInvalidSlotLeaderSequenceGeneration
  else
    match SortPublicKeysAndIndex c PublicKeys RB with
    | .error _ => .error ErrInvalidSortPublicKeys
    | .ok (PublicKeys, _) =>
      let Gt := chainPoint c SMA PublicKeys.length (slotSeed RB epochID slotID)
      let cstemp := setBytes (c.Keccak256 (c.FromECDSAPub Gt)) % PublicKeys.length
      .ok (PublicKeys.getD cstemp 0)

/-- `GenerateSlotLeaderSeqAndIndex`: the leaders of the slots `0, …, epochlen - 1`, the numbers
`cr` that picked them, and the position of each leader among the keys as they were passed. -/
def GenerateSlotLeaderSeqAndIndex (SMA PublicKeys : List Pt) (RB : Bytes)
    (epochlen epochID : UInt64) : Except String (List Pt × List ℕ × List ℕ) :=
  if SMA.length = 0 ∨ PublicKeys.length = 0 ∨ epochlen = 0 then
    .error ErrInvalidSlotLeaderSequenceGeneration
  else
    match SortPublicKeysAndIndex c PublicKeys RB with
    | .error _ => .error ErrInvalidSortPublicKeys
    | .ok (PublicKeys, PublicKeysIndex) =>
      -- the first loop: the chain of each slot and the hash of its point
      let cr := (List.range epochlen.toNat).map fun i =>
        setBytes (c.Keccak256 (c.FromECDSAPub
          (chainPoint c SMA PublicKeys.length (slotSeed RB epochID (UInt64.ofNat i)))))
      -- the second loop: the key each number picks, and where that key was passed
      let cs := cr.map (· % PublicKeys.length)
      .ok (cs.map (PublicKeys.getD · 0), cr, cs.map (PublicKeysIndex.getD · 0))

/-- `GenerateSlotLeaderProof`, with the random bytes of the DLEQ nonce as an argument:
`(ProofMeg, Proof)` for the leader of slot `slt`. -/
def GenerateSlotLeaderProof (PrivateKey : PrivateKey Pt) (SMA PublicKeys : List Pt) (RB : Bytes)
    (slt epochID : UInt64) (rand : Bytes) : Except String (List Pt × List ℕ) :=
  if SMA.length = 0 ∨ PublicKeys.length = 0 then .error ErrInvalidPrivateKey
  else
    match SortPublicKeys c PublicKeys RB with
    | .error _ => .error ErrSortPublicKey
    | .ok PublicKeys =>
      let Gt := chainPoint c SMA PublicKeys.length (slotSeed RB epochID slt)
      let tempint := setBytes (c.Keccak256 (c.FromECDSAPub Gt)) % PublicKeys.length
      if PublicKeyEqual PrivateKey.PublicKey (PublicKeys.getD tempint 0) then
        let skGt := PrivateKey.D • Gt
        match DleqProofGeneration c [1 • c.G, Gt] [PrivateKey.PublicKey, skGt] PrivateKey.D rand with
        | .error _ => .error ErrInvalidSlotLeaderProofGeneration
        | .ok Proof => .ok ([PrivateKey.PublicKey, Gt, skGt], Proof)
      else .error ErrPublicKeyNotEqual

/-- `VerifySlotLeaderProof`. -/
def VerifySlotLeaderProof (Proof : List ℕ) (ProofMeg PublicKeys : List Pt) (RB : Bytes) : Bool :=
  if Proof.length ≠ 2 ∨ ProofMeg.length ≠ 3 ∨ PublicKeys.length = 0 then false
  else
    match SortPublicKeys c PublicKeys RB with
    | .error _ => false
    | .ok PublicKeys =>
      let cs := setBytes (c.Keccak256 (c.FromECDSAPub (ProofMeg.getD 1 0))) % PublicKeys.length
      if !PublicKeyEqual (ProofMeg.getD 0 0) (PublicKeys.getD cs 0) then false
      else VerifyDleqProof c [1 • c.G, ProofMeg.getD 1 0] [ProofMeg.getD 0 0, ProofMeg.getD 2 0] Proof

/-- `GenerateSMA`: the array pieces scaled by the inverse of the secret. -/
def GenerateSMA (PrivateKey : PrivateKey Pt) (ArrayPiece : List Pt) : Except String (List Pt) :=
  if ArrayPiece.length = 0 then .error ErrInvalidSecretMessageArrayGeneration
  else
    match ModInverse PrivateKey.D c.N with
    | none => .error "invalid memory address or nil pointer dereference"
    | some skInverse => .ok (ArrayPiece.map fun P => skInverse • P)

/-- `SLS.getSkGtFromTrans`: the chain of the slot over the pieces of the epoch leaders. -/
def getSkGtFromTrans (epochLeadersPtrPre : List Pt) (epochID slotID : UInt64) (rbBytes : Bytes)
    (smaPieces : List Pt) : Pt :=
  chainPoint c smaPieces epochLeadersPtrPre.length (slotSeed rbBytes epochID slotID)


section Chain

/-- After `n` rounds the chain holds the `n`-th hash and the sum of the points picked. -/
lemma run_gtRound (pts : List Pt) (temp : Bytes) (n : ℕ) :
    Machine.run (gtRound c pts) (temp, 0) (List.range n) =
      (c.Keccak256^[n] temp, ((List.range n).map fun i =>
        pts.getD (setBytes (c.Keccak256^[i + 1] temp) % pts.length) 0).sum) := by
  induction n with
  | zero => simp
  | succ n ih =>
    rw [List.range_succ, Machine.run_append, ih, Machine.run_cons, Machine.run_nil,
      Function.iterate_succ_apply']
    simp only [gtRound, List.map_append, List.map_cons, List.map_nil, List.sum_append,
      List.sum_cons, List.sum_nil, add_zero, Function.iterate_succ_apply']
    -- round `0` starts the sum, later rounds add to it
    split_ifs with hn
    · subst hn
      simp
    · rw [Wadd_eq]

lemma chainPoint_eq_sum (pts : List Pt) (n : ℕ) (temp : Bytes) :
    chainPoint c pts n temp = ((List.range n).map fun i =>
      pts.getD (setBytes (c.Keccak256^[i + 1] temp) % pts.length) 0).sum := by
  rw [chainPoint, run_gtRound]

/-- The chain picks the same positions from any two lists of one length: scaling every point
scales the sum. -/
theorem chainPoint_map_nsmul (k : ℕ) (pts : List Pt) (n : ℕ) (temp : Bytes) :
    chainPoint c (pts.map (k • ·)) n temp = k • chainPoint c pts n temp := by
  have hget : ∀ j, (pts.map (k • ·)).getD j 0 = k • pts.getD j 0 := by
    intro j
    simp only [List.getD_eq_getElem?_getD, List.getElem?_map]
    cases pts[j]? <;> simp
  rw [chainPoint_eq_sum, chainPoint_eq_sum, List.smul_sum, List.map_map, List.length_map]
  simp only [Function.comp_def, hget]

end Chain

section Proof

/-- What a slot-leader proof is: the key at the position the hash of `Gt` picks among the
sorted keys proves with `ProofMeg = [PK, Gt, sk • Gt]` and a DLEQ proof for `(G, Gt)`. -/
lemma GenerateSlotLeaderProof_ok {PrivateKey : PrivateKey Pt} {SMA PublicKeys : List Pt}
    {RB : Bytes} {slt epochID : UInt64} {rand : Bytes} {ProofMeg : List Pt} {Proof : List ℕ}
    (h : GenerateSlotLeaderProof c PrivateKey SMA PublicKeys RB slt epochID rand =
      .ok (ProofMeg, Proof)) :
    PublicKeys ≠ [] ∧ SMA ≠ [] ∧ ∃ Gt, Gt = chainPoint c SMA PublicKeys.length
      (slotSeed RB epochID slt) ∧
      PrivateKey.PublicKey = (sortList (sortHash c RB) PublicKeys).getD
        (setBytes (c.Keccak256 (c.FromECDSAPub Gt)) % PublicKeys.length) 0 ∧
      ProofMeg = [PrivateKey.PublicKey, Gt, PrivateKey.D • Gt] ∧
      DleqProofGeneration c [1 • c.G, Gt] [PrivateKey.PublicKey, PrivateKey.D • Gt]
        PrivateKey.D rand = .ok Proof := by
  unfold GenerateSlotLeaderProof at h
  split_ifs at h with hlen
  have hSMA : SMA ≠ [] := fun h0 => hlen (Or.inl (by rw [h0]; rfl))
  have hne : PublicKeys ≠ [] := fun h0 => hlen (Or.inr (by rw [h0]; rfl))
  rw [SortPublicKeys_eq c hne] at h
  simp only [length_sortList] at h
  split_ifs at h with hpk
  split at h
  · cases h
  · rename_i Proof' hdleq
    cases h
    exact ⟨hne, hSMA, _, rfl, of_decide_eq_true hpk, rfl, hdleq⟩

/-- A verifier whose keys sort to the prover's accepts a proof whose two numbers are not
zero. -/
theorem VerifySlotLeaderProof_of_sort {PrivateKey : PrivateKey Pt}
    (hpk : PrivateKey.PublicKey = PrivateKey.D • c.G) {SMA PublicKeys L : List Pt} {RB : Bytes}
    {slt epochID : UInt64} {rand : Bytes} {ProofMeg : List Pt} {Proof : List ℕ}
    (h : GenerateSlotLeaderProof c PrivateKey SMA PublicKeys RB slt epochID rand =
      .ok (ProofMeg, Proof))
    (hProof : ∀ x ∈ Proof, x ≠ 0) (hL : SortPublicKeys c L RB = SortPublicKeys c PublicKeys RB) :
    VerifySlotLeaderProof c Proof ProofMeg L RB = true := by
  obtain ⟨hne, -, Gt, -, hleader, rfl, hdleq⟩ := GenerateSlotLeaderProof_ok c h
  -- the proof is a DLEQ proof for `(G, Gt)` scaled by the secret
  have hmap : [PrivateKey.PublicKey, PrivateKey.D • Gt] = [1 • c.G, Gt].map (PrivateKey.D • ·) := by
    simp [hpk]
  rw [hmap] at hdleq
  have hlen2 : Proof.length = 2 := by
    rw [(DleqProofGeneration_ok c hdleq).2.2]
    rfl
  have hLne : L.length ≠ 0 := by
    intro h0
    rw [List.eq_nil_of_length_eq_zero h0, SortPublicKeys_eq c hne] at hL
    obtain ⟨e, he⟩ := SortPublicKeys_error c RB
    rw [he] at hL
    cases hL
  have hguard : ¬ (Proof.length ≠ 2 ∨ [PrivateKey.PublicKey, Gt, PrivateKey.D • Gt].length ≠ 3 ∨
      L.length = 0) := by
    simp [hlen2, hLne]
  rw [VerifySlotLeaderProof, if_neg hguard, hL, SortPublicKeys_eq c hne]
  simp only [List.getD_cons_zero, List.getD_cons_succ, length_sortList, PublicKeyEqual,
    ← hleader, decide_true, Bool.not_true, Bool.false_eq_true, if_false]
  rw [hmap]
  exact VerifyDleqProof_complete c hdleq hProof

/-- Only the leader that `GenerateSlotLeaderSeqOne` names for a slot can prove its election. -/
theorem GenerateSlotLeaderProof_leader {PrivateKey : PrivateKey Pt} {SMA PublicKeys : List Pt}
    {RB : Bytes} {slt epochID : UInt64} {rand : Bytes} {ProofMeg : List Pt} {Proof : List ℕ}
    (h : GenerateSlotLeaderProof c PrivateKey SMA PublicKeys RB slt epochID rand =
      .ok (ProofMeg, Proof)) (hslot : slt.toNat < slotCount) :
    GenerateSlotLeaderSeqOne c SMA PublicKeys RB slt epochID = .ok PrivateKey.PublicKey := by
  obtain ⟨hne, hSMA, Gt, rfl, hleader, -, -⟩ := GenerateSlotLeaderProof_ok c h
  obtain ⟨index, hsort⟩ := SortPublicKeysAndIndex_fst c hne RB
  have hguard : ¬ (SMA.length = 0 ∨ PublicKeys.length = 0 ∨ slotCount ≤ slt.toNat) :=
    not_or.mpr ⟨fun h0 => hSMA (List.eq_nil_of_length_eq_zero h0),
      not_or.mpr ⟨fun h0 => hne (List.eq_nil_of_length_eq_zero h0), not_le.mpr hslot⟩⟩
  rw [GenerateSlotLeaderSeqOne, if_neg hguard, hsort]
  simp only [length_sortList]
  rw [← hleader]

/-- The proof is refused as `ErrPublicKeyNotEqual` exactly when the key is not the one that
the hash of `Gt` picks among the sorted keys. -/
lemma GenerateSlotLeaderProof_notEqual (PrivateKey : PrivateKey Pt) {SMA PublicKeys : List Pt}
    (hSMA : SMA ≠ []) (hPK : PublicKeys ≠ []) (RB : Bytes) (slt epochID : UInt64) (rand : Bytes) :
    GenerateSlotLeaderProof c PrivateKey SMA PublicKeys RB slt epochID rand =
        .error ErrPublicKeyNotEqual ↔
      PrivateKey.PublicKey ≠ (sortList (sortHash c RB) PublicKeys).getD (setBytes (c.Keccak256
        (c.FromECDSAPub (chainPoint c SMA PublicKeys.length (slotSeed RB epochID slt)))) %
          PublicKeys.length) 0 := by
  have hguard : ¬ (SMA.length = 0 ∨ PublicKeys.length = 0) := by simp [hSMA, hPK]
  rw [GenerateSlotLeaderProof, if_neg hguard, SortPublicKeys_eq c hPK]
  simp only [length_sortList, PublicKeyEqual]
  by_cases heq : PrivateKey.PublicKey = (sortList (sortHash c RB) PublicKeys).getD (setBytes
    (c.Keccak256 (c.FromECDSAPub (chainPoint c SMA PublicKeys.length (slotSeed RB epochID slt)))) %
      PublicKeys.length) 0
  · -- the leader: the proof is made, or refused for another reason
    rw [if_pos (decide_eq_true heq)]
    simp only [heq, ne_eq, not_true_eq_false, iff_false]
    split
    · intro h
      exact absurd (Except.error.inj h) (by decide)
    · intro h
      cases h
  · rw [if_neg (by simpa using heq)]
    simpa using heq

end Proof

section Sequence

/-- The batch of leaders, read at one slot: the key at the number of that slot among the
sorted keys, and its position among the keys passed. -/
lemma GenerateSlotLeaderSeqAndIndex_ok {SMA PublicKeys : List Pt} (hSMA : SMA ≠ [])
    (hPK : PublicKeys ≠ []) (RB : Bytes) {epochlen : UInt64} (hlen : 1 ≤ epochlen.toNat)
    (epochID : UInt64) :
    ∃ seq cr index, GenerateSlotLeaderSeqAndIndex c SMA PublicKeys RB epochlen epochID =
        .ok (seq, cr, index) ∧
      ∀ s : UInt64, s.toNat < epochlen.toNat →
        seq.getD s.toNat 0 = (sortList (sortHash c RB) PublicKeys).getD (setBytes (c.Keccak256
          (c.FromECDSAPub (chainPoint c SMA PublicKeys.length (slotSeed RB epochID s)))) %
            PublicKeys.length) 0 ∧
        PublicKeys.getD (index.getD s.toNat 0) 0 = seq.getD s.toNat 0 := by
  obtain ⟨index, hsort⟩ := SortPublicKeysAndIndex_fst c hPK RB
  have hidx := SortPublicKeysAndIndex_index c hsort
  have hguard : ¬ (SMA.length = 0 ∨ PublicKeys.length = 0 ∨ epochlen = 0) := by
    simp only [List.length_eq_zero_iff, hSMA, hPK, false_or]
    intro h0
    simp [h0] at hlen
  rw [GenerateSlotLeaderSeqAndIndex, if_neg hguard, hsort]
  simp only [length_sortList]
  refine ⟨_, _, _, rfl, fun s hs => ?_⟩
  -- the number of slot `s` picks a position below the number of keys
  have hpos : 0 < PublicKeys.length := List.length_pos_iff.mpr hPK
  set cr := setBytes (c.Keccak256 (c.FromECDSAPub
    (chainPoint c SMA PublicKeys.length (slotSeed RB epochID s)))) with hcr
  have hgetD : ∀ {α : Type} (f : ℕ → α) (d : α), List.getD (List.map f
      (List.map (· % PublicKeys.length) ((List.range epochlen.toNat).map fun i =>
        setBytes (c.Keccak256 (c.FromECDSAPub (chainPoint c SMA PublicKeys.length
          (slotSeed RB epochID (UInt64.ofNat i)))))))) s.toNat d = f (cr % PublicKeys.length) := by
    intro α f d
    simp [List.getD_eq_getElem?_getD, List.getElem?_range hs, hcr]
  rw [hgetD, hgetD]
  exact ⟨rfl, hidx _ (by rw [length_sortList]; exact Nat.mod_lt _ hpos)⟩

/-- The three slot-leader computations agree: at every slot of the epoch the batch names the
leader that `GenerateSlotLeaderSeqOne` names, its index points at that key among the keys
passed, and `GenerateSlotLeaderProof` refuses a key `sk • G` as not equal exactly when it is not
that leader. -/
theorem slotLeaderSeq_agree {SMA PublicKeys : List Pt} (hSMA : SMA ≠ []) (hPK : PublicKeys ≠ [])
    (RB : Bytes) {epochlen : UInt64} (hlen : 1 ≤ epochlen.toNat) (epochID : UInt64) :
    ∃ seq cr index, GenerateSlotLeaderSeqAndIndex c SMA PublicKeys RB epochlen epochID =
        .ok (seq, cr, index) ∧
      ∀ s : UInt64, s.toNat < min epochlen.toNat slotCount →
        GenerateSlotLeaderSeqOne c SMA PublicKeys RB s epochID = .ok (seq.getD s.toNat 0) ∧
        PublicKeys.getD (index.getD s.toNat 0) 0 = seq.getD s.toNat 0 ∧
        ∀ (PrivateKey : PrivateKey Pt), PrivateKey.PublicKey = PrivateKey.D • c.G → ∀ rand,
          (GenerateSlotLeaderProof c PrivateKey SMA PublicKeys RB s epochID rand =
              .error ErrPublicKeyNotEqual ↔ PrivateKey.D • c.G ≠ seq.getD s.toNat 0) := by
  obtain ⟨seq, cr, index, hbatch, hslot⟩ :=
    GenerateSlotLeaderSeqAndIndex_ok c hSMA hPK RB hlen epochID
  refine ⟨seq, cr, index, hbatch, fun s hs => ?_⟩
  obtain ⟨hseq, hindex⟩ := hslot s (lt_of_lt_of_le hs (min_le_left _ _))
  refine ⟨?_, hindex, fun PrivateKey hpk rand => ?_⟩
  · -- the single slot sorts the keys alike and picks with the same number
    obtain ⟨idx, hsort⟩ := SortPublicKeysAndIndex_fst c hPK RB
    have hguard : ¬ (SMA.length = 0 ∨ PublicKeys.length = 0 ∨ slotCount ≤ s.toNat) := by
      simp only [List.length_eq_zero_iff, hSMA, hPK, false_or, not_le]
      exact lt_of_lt_of_le hs (min_le_right _ _)
    rw [GenerateSlotLeaderSeqOne, if_neg hguard, hsort, hseq]
    simp only [length_sortList]
  · rw [GenerateSlotLeaderProof_notEqual c PrivateKey hSMA hPK RB s epochID rand, hpk, hseq]

end Sequence

section Agreement

omit [DecidableEq Pt] in
/-- `GenerateSMA` of the pieces `alpha_j • PK` sent for the key `PK = sk • G` is `[alpha_j • G]`,
whatever `sk` is. -/
lemma GenerateSMA_pieces {sk : ℕ} (hsk : 0 < sk ∧ sk < c.N) {alphas : List ℕ}
    (halphas : alphas ≠ []) :
    GenerateSMA c ⟨sk, sk • c.G⟩ (alphas.map fun a => a • sk • c.G) =
      .ok (alphas.map (· • c.G)) := by
  obtain ⟨skInverse, hinv⟩ := ModInverse_isSome c.N_prime hsk.1 hsk.2
  have hspec := ModInverse_spec c.N_prime.pos hinv
  have hlen : ¬ (alphas.map fun a => a • sk • c.G).length = 0 := by simpa using halphas
  rw [GenerateSMA, if_neg hlen]
  simp only [hinv, List.map_map]
  congr 1
  refine List.map_congr_left fun a _ => ?_
  simp only [Function.comp_apply]
  rw [smul_comm skInverse a, nsmul_nsmul_of_mul_modEq_one c.N_smul hspec]

/-- The block verifier's chain over the pieces is the prover's chain over its array, scaled by
the secret. -/
lemma getSkGtFromTrans_pieces (sk : ℕ) (alphas : List ℕ) (L : List Pt) (RB : Bytes)
    (epochID slotID : UInt64) :
    getSkGtFromTrans c L epochID slotID RB (alphas.map fun a => a • sk • c.G) =
      sk • chainPoint c (alphas.map (· • c.G)) L.length (slotSeed RB epochID slotID) := by
  have hpieces : (alphas.map fun a => a • sk • c.G) = (alphas.map (· • c.G)).map (sk • ·) := by
    rw [List.map_map]
    refine List.map_congr_left fun a _ => ?_
    exact smul_comm a sk c.G
  rw [getSkGtFromTrans, hpieces, chainPoint_map_nsmul]

/-- The prover and the block verifier agree on `sk • Gt`: for the key `sk • G`, the array that
`GenerateSMA` makes from the pieces `alpha_j • PK` is `[alpha_j • G]`; the verifier's chain over
the pieces is `sk` times the chain `Gt` over that array; and a slot-leader proof made from the
array carries `[PK, Gt, sk • Gt]` with that very point. -/
theorem skGt_agrees (sk : ℕ) (hsk : 0 < sk ∧ sk < c.N) (alphas : List ℕ) (halphas : alphas ≠ [])
    (L : List Pt) (RB : Bytes) (epochID slotID : UInt64) :
    GenerateSMA c ⟨sk, sk • c.G⟩ (alphas.map fun a => a • sk • c.G) =
        .ok (alphas.map (· • c.G)) ∧
      getSkGtFromTrans c L epochID slotID RB (alphas.map fun a => a • sk • c.G) =
        sk • chainPoint c (alphas.map (· • c.G)) L.length (slotSeed RB epochID slotID) ∧
      ∀ rand ProofMeg Proof, GenerateSlotLeaderProof c ⟨sk, sk • c.G⟩ (alphas.map (· • c.G)) L RB
          slotID epochID rand = .ok (ProofMeg, Proof) →
        ProofMeg = [sk • c.G, chainPoint c (alphas.map (· • c.G)) L.length
          (slotSeed RB epochID slotID),
          getSkGtFromTrans c L epochID slotID RB (alphas.map fun a => a • sk • c.G)] := by
  refine ⟨GenerateSMA_pieces c hsk halphas, getSkGtFromTrans_pieces c sk alphas L RB epochID slotID,
    fun rand ProofMeg Proof h => ?_⟩
  obtain ⟨-, -, Gt, rfl, -, hmeg, -⟩ := GenerateSlotLeaderProof_ok c h
  rw [hmeg, getSkGtFromTrans_pieces]

/-- Completeness of the slot-leader proof: a proof made with a key `sk • G` whose two numbers
are not zero verifies against the keys the generator leaves sorted, and against any permutation
of the epoch leaders on which the sort hash tells the keys apart. -/
theorem slotLeaderProof_verifies (PrivateKey : PrivateKey Pt)
    (hpk : PrivateKey.PublicKey = PrivateKey.D • c.G) {SMA PublicKeys : List Pt} {RB : Bytes}
    {slt epochID : UInt64} {rand : Bytes} {ProofMeg : List Pt} {Proof : List ℕ}
    (h : GenerateSlotLeaderProof c PrivateKey SMA PublicKeys RB slt epochID rand =
      .ok (ProofMeg, Proof))
    (hProof : ∀ x ∈ Proof, x ≠ 0) :
    (∀ S, SortPublicKeys c PublicKeys RB = .ok S → VerifySlotLeaderProof c Proof ProofMeg S RB) ∧
      ∀ L, L.Perm PublicKeys →
        (∀ P ∈ PublicKeys, ∀ Q ∈ PublicKeys, sortHash c RB P = sortHash c RB Q → P = Q) →
        VerifySlotLeaderProof c Proof ProofMeg L RB := by
  constructor
  · intro S hS
    exact VerifySlotLeaderProof_of_sort c hpk h hProof ((SortPublicKeys_sorted c hS).trans hS.symm)
  · intro L hperm hinj
    exact VerifySlotLeaderProof_of_sort c hpk h hProof (SortPublicKeys_perm c hperm hinj)

end Agreement

/-! ### A curve of order seven

`ZMod 7` with base point `1`, points encoded by their value, and three hashes of thirty-two
bytes: one that is always zero; one that only reads the length of its input, so that every key
of a sort has the same hash; and one that sums its input's bytes, which tells keys apart. -/

/-- The group `ZMod 7` as a curve, with the hash `h`. -/
lemma seven_prime : Nat.Prime 7 := by decide

lemma seven_nsmul (P : ZMod 7) : 7 • P = 0 := by
  revert P
  decide

def sevenCrypto (h : Bytes → Bytes) (hlen : ∀ b, (h b).length = 32) : Crypto (ZMod 7) where
  Add P Q := P + Q
  Double P := P + P
  Add_of_ne _ _ _ := rfl
  Double_eq _ := rfl
  N := 7
  G := 1
  N_prime := seven_prime
  N_smul := seven_nsmul
  N_le := by norm_num
  Keccak256 := h
  length_Keccak256 := hlen
  FromECDSAPub P := [UInt8.ofNat P.val]

/-- The curve whose hash is always zero. -/
lemma length_zeroHash (_b : Bytes) : (List.replicate 32 (0 : UInt8)).length = 32 :=
  List.length_replicate

def zeroHashCrypto : Crypto (ZMod 7) :=
  sevenCrypto (fun _ => List.replicate 32 0) length_zeroHash

/-- The curve whose hash is the length of its input plus one, in the last byte. -/
def lengthHashCrypto : Crypto (ZMod 7) :=
  sevenCrypto (fun b => List.replicate 31 0 ++ [UInt8.ofNat (b.length + 1)]) (fun _ => by simp)

/-- The curve whose hash is the sum of its input's bytes plus one, in the last byte. -/
def sumHashCrypto : Crypto (ZMod 7) :=
  sevenCrypto (fun b => List.replicate 31 0 ++ [UInt8.ofNat ((b.map UInt8.toNat).sum + 1)])
    (fun _ => by simp)

/-- The leader `3 • G` of a slot proves its election, with a non-zero response, and is
rejected: under the zero hash the challenge is `0`; under the length hash both epoch leaders
sort to one hash, and the verifier that lists them the other way round picks the other one. -/
theorem slotLeaderProof_rejected :
    GenerateSlotLeaderProof zeroHashCrypto ⟨3, 3⟩ [1] [3] [] 0 0 [] = .ok ([3, 1, 3], [0, 1]) ∧
      VerifySlotLeaderProof zeroHashCrypto [0, 1] [3, 1, 3] [3] [] = false ∧
    GenerateSlotLeaderProof lengthHashCrypto ⟨3, 3⟩ [1] [3, 5] [] 0 0 [] =
        .ok ([3, 2, 6], [7, 1]) ∧
      SortPublicKeys lengthHashCrypto [3, 5] [] = .ok [3, 5] ∧
      VerifySlotLeaderProof lengthHashCrypto [7, 1] [3, 2, 6] [5, 3] [] = false := by
  decide +kernel

/-- Under the byte-sum hash the epoch leaders `3` and `5` sort to the hashes `4` and `6`. The
leader `5 • G` of slot 0 proves its election with `[15, 3]`, and the proof verifies against the
sorted keys and against the keys listed the other way round. -/
theorem slotLeaderProof_verifies_seven :
    (5 : ZMod 7) = 5 • sumHashCrypto.G ∧
      GenerateSlotLeaderProof sumHashCrypto ⟨5, 5⟩ [1] [3, 5] [] 0 0 [] =
        .ok ([5, 2, 3], [15, 3]) ∧ (∀ x ∈ [15, 3], x ≠ 0) ∧
      (∀ P ∈ [(3 : ZMod 7), 5], ∀ Q ∈ [(3 : ZMod 7), 5],
        sortHash sumHashCrypto [] P = sortHash sumHashCrypto [] Q → P = Q) ∧
      VerifySlotLeaderProof sumHashCrypto [15, 3] [5, 2, 3] [3, 5] [] ∧
      VerifySlotLeaderProof sumHashCrypto [15, 3] [5, 2, 3] [5, 3] [] := by
  have hpk : (5 : ZMod 7) = 5 • sumHashCrypto.G := by decide
  have h : GenerateSlotLeaderProof sumHashCrypto ⟨5, 5⟩ [1] [3, 5] [] 0 0 [] =
      .ok ([5, 2, 3], [15, 3]) := by decide +kernel
  have hProof : ∀ x ∈ [15, 3], x ≠ 0 := by decide
  have hinj : ∀ P ∈ [(3 : ZMod 7), 5], ∀ Q ∈ [(3 : ZMod 7), 5],
      sortHash sumHashCrypto [] P = sortHash sumHashCrypto [] Q → P = Q := by decide +kernel
  have hv := slotLeaderProof_verifies sumHashCrypto ⟨5, 5⟩ hpk h hProof
  exact ⟨hpk, h, hProof, hinj, hv.1 [3, 5] (by decide +kernel),
    hv.2 [5, 3] (List.Perm.swap _ _ _) hinj⟩

theorem slotLeaderSeq_agree_seven :
    [(2 : ZMod 7), 4] ≠ [] ∧ [(3 : ZMod 7), 5] ≠ [] ∧ 1 ≤ (2 : UInt64).toNat ∧
    ∃ seq cr index, GenerateSlotLeaderSeqAndIndex sumHashCrypto [2, 4] [3, 5] [] 2 0 =
        .ok (seq, cr, index) ∧
      ∀ s : UInt64, s.toNat < min (2 : UInt64).toNat slotCount →
        GenerateSlotLeaderSeqOne sumHashCrypto [2, 4] [3, 5] [] s 0 = .ok (seq.getD s.toNat 0) ∧
        [(3 : ZMod 7), 5].getD (index.getD s.toNat 0) 0 = seq.getD s.toNat 0 ∧
        ∀ (PrivateKey : PrivateKey (ZMod 7)),
          PrivateKey.PublicKey = PrivateKey.D • sumHashCrypto.G → ∀ rand,
          (GenerateSlotLeaderProof sumHashCrypto PrivateKey [2, 4] [3, 5] [] s 0 rand =
              .error ErrPublicKeyNotEqual ↔ PrivateKey.D • sumHashCrypto.G ≠ seq.getD s.toNat 0) :=
  ⟨by simp, by simp, by decide,
    slotLeaderSeq_agree sumHashCrypto (by simp) (by simp) [] (by decide) 0⟩

theorem skGt_agrees_seven :
    (0 < 3 ∧ 3 < sumHashCrypto.N) ∧ [2, 4] ≠ [] ∧
    GenerateSMA sumHashCrypto ⟨3, 3 • sumHashCrypto.G⟩
        ([2, 4].map fun a => a • 3 • sumHashCrypto.G) = .ok ([2, 4].map (· • sumHashCrypto.G)) ∧
      getSkGtFromTrans sumHashCrypto [3, 5] 0 0 [] ([2, 4].map fun a => a • 3 • sumHashCrypto.G) =
        3 • chainPoint sumHashCrypto ([2, 4].map (· • sumHashCrypto.G)) 2 (slotSeed [] 0 0) ∧
      ∀ rand ProofMeg Proof, GenerateSlotLeaderProof sumHashCrypto ⟨3, 3 • sumHashCrypto.G⟩
          ([2, 4].map (· • sumHashCrypto.G)) [3, 5] [] 0 0 rand = .ok (ProofMeg, Proof) →
        ProofMeg = [3 • sumHashCrypto.G, chainPoint sumHashCrypto
          ([2, 4].map (· • sumHashCrypto.G)) 2 (slotSeed [] 0 0),
          getSkGtFromTrans sumHashCrypto [3, 5] 0 0 [] ([2, 4].map fun a => a • 3 • sumHashCrypto.G)] :=
  ⟨⟨by decide, by decide⟩, by simp,
    skGt_agrees sumHashCrypto 3 ⟨by decide, by decide⟩ [2, 4] (by simp) [3, 5] [] 0 0⟩

end Wanchain.SlotLeader
