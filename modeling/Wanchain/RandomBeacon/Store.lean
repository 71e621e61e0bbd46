import Mathlib.Data.List.Forall2
import Wanchain.Lib.Machine
import Wanchain.RandomBeacon.Contract

/-!
# What the random-beacon contract stores

Three methods share the contract's slots: `dkg1` writes commitments under `kindCij`, `dkg2`
encrypted shares under `kindEns`, `sigShare` signature payloads under `sigShareId` and the next
epoch's random under `kindR`. Distinct kinds, epochs and proposers name distinct slots
(`GetRBKeyHash_inj`), so each method's write is seen by the others' reads only where they mean
it to be.

One lemma per method says everything a successful call checked (`validDkg1_ok`,
`validDkg2_ok`, `validSigShare_ok`) and one says what a call can write (`Run_cases`); from them,
per slot, what a call that changes it must have been (`rbStep_cij`, `rbStep_ens`,
`rbStep_sig`). Every storage the contract reaches keeps its stored commitments and shares
readable (`DkgStored`), which the checks against a reset rely on: a commitment or share slot is
written once, only in its stage, with what its checks accepted, and a signature share is stored
only once enough proposers completed the key generation (`dkgStore_writes`).
-/

namespace Wanchain.RandomBeacon

open Rlp

/-! ### Keys -/

lemma length_leBytes (k n : ℕ) : (leBytes k n).length = k := by
  induction k generalizing n with
  | zero => rfl
  | succ k ih => simp [leBytes, ih]

/-- The bytes read back as the value modulo their range. -/
lemma leValue_leBytes (k n : ℕ) : leValue (leBytes k n) = n % 256 ^ k := by
  induction k generalizing n with
  | zero => simp [leBytes, leValue, Nat.mod_one]
  | succ k ih =>
    have hih := ih (n / 256)
    simp only [leValue, leBytes, List.foldr_cons] at hih ⊢
    rw [hih, UInt8.toNat_ofNat', pow_succ' 256 k, Nat.mod_mul]

lemma UIntToByteSlice_inj {a b : UInt64} : UIntToByteSlice a = UIntToByteSlice b ↔ a = b := by
  refine ⟨fun h => ?_, fun h => h ▸ rfl⟩
  have hv := congrArg leValue h
  simp only [UIntToByteSlice, leValue_leBytes] at hv
  rw [Nat.mod_eq_of_lt (show a.toNat < 256 ^ 8 from a.toNat_lt),
    Nat.mod_eq_of_lt (show b.toNat < 256 ^ 8 from b.toNat_lt)] at hv
  exact UInt64.toNat_inj.mp hv

lemma UInt32ToByteSlice_inj {a b : UInt32} : UInt32ToByteSlice a = UInt32ToByteSlice b ↔ a = b := by
  refine ⟨fun h => ?_, fun h => h ▸ rfl⟩
  have hv := congrArg leValue h
  simp only [UInt32ToByteSlice, leValue_leBytes] at hv
  rw [Nat.mod_eq_of_lt (show a.toNat < 256 ^ 4 from a.toNat_lt),
    Nat.mod_eq_of_lt (show b.toNat < 256 ^ 4 from b.toNat_lt)] at hv
  exact UInt32.toNat_inj.mp hv

lemma length_UIntToByteSlice (a : UInt64) : (UIntToByteSlice a).length = 8 := length_leBytes 8 _

lemma length_UInt32ToByteSlice (a : UInt32) : (UInt32ToByteSlice a).length = 4 :=
  length_leBytes 4 _

/-- Keys of the same length are equal only for the same kind, epoch and proposer. -/
lemma GetRBKeyHash_inj {k k' : Bytes} {e e' : UInt64} {p p' : UInt32} :
    GetRBKeyHash k e p = GetRBKeyHash k' e' p' ↔
      (k ++ List.replicate 4 0).take 4 = (k' ++ List.replicate 4 0).take 4 ∧ e = e' ∧ p = p' := by
  constructor
  · intro h
    unfold GetRBKeyHash at h
    obtain ⟨h₁, h₂⟩ := List.append_inj h (by simp [length_UIntToByteSlice])
    obtain ⟨h₃, h₄⟩ := List.append_inj h₁ (by simp)
    exact ⟨h₃, UIntToByteSlice_inj.mp h₄, UInt32ToByteSlice_inj.mp h₂⟩
  · rintro ⟨h, rfl, rfl⟩
    simp only [GetRBKeyHash, h]

lemma GetRBKeyHash_ne_of_kind {a b : Bytes}
    (hk : (a ++ List.replicate 4 0).take 4 ≠ (b ++ List.replicate 4 0).take 4)
    (e e' : UInt64) (p p' : UInt32) : GetRBKeyHash a e p ≠ GetRBKeyHash b e' p' :=
  fun h => hk (GetRBKeyHash_inj.mp h).1

/-- A proposer's slot is never a random's slot: the preimages have sixteen and twelve bytes. -/
lemma GetRBKeyHash_ne_GetRBRKeyHash (k : Bytes) (e e' : UInt64) (p : UInt32) :
    GetRBKeyHash k e p ≠ GetRBRKeyHash e' := by
  intro h
  have hlen := congrArg List.length h
  simp [GetRBKeyHash, GetRBRKeyHash, length_UIntToByteSlice, length_UInt32ToByteSlice] at hlen

/-- Keys of proposers below `2^32` are equal only for the same proposer. -/
lemma GetRBKeyHash_ofNat_inj {kind : Bytes} {e : UInt64} {p q : ℕ} (hp : p < 2 ^ 32)
    (hq : q < 2 ^ 32) :
    GetRBKeyHash kind e (UInt32.ofNat p) = GetRBKeyHash kind e (UInt32.ofNat q) ↔ p = q := by
  refine ⟨fun hpq => ?_, fun hpq => hpq ▸ rfl⟩
  have h32 := congrArg UInt32.toNat (GetRBKeyHash_inj.mp hpq).2.2
  rwa [UInt32.toNat_ofNat_of_lt' hp, UInt32.toNat_ofNat_of_lt' hq] at h32

example : GetRBKeyHash kindCij 0 0 ≠ GetRBKeyHash kindEns 0 0 :=
  GetRBKeyHash_ne_of_kind (by decide) 0 0 0 0

/-! ### Reading back what is written -/

lemma byteStrings_list (bs : List Bytes) : byteStrings (.list (bs.map .bytes)) = bs := by
  simp [byteStrings, List.filterMap_map]

lemma decodeByteSlices_encodeByteSlices {bs : List Bytes}
    (hlen : (EncodeToBytes (.list (bs.map .bytes))).length < 2 ^ 64) :
    decodeByteSlices (encodeByteSlices bs) = .ok bs := by
  have hty : HasTy (.slice .bytes) (.list (bs.map .bytes)) := by simp [HasTy]
  rw [decodeByteSlices, encodeByteSlices, DecodeBytes_EncodeToBytes hty hlen, Except.map,
    byteStrings_list]

lemma encodeByteSlices_ne_nil (bs : List Bytes) : encodeByteSlices bs ≠ [] := by
  rw [encodeByteSlices, EncodeToBytes_eq]
  exact encodeItem_ne_nil _

/-- One byte string read as one point, with nothing left over. -/
lemma unmarshalPoint_eq_ok {G : Type} {u : Bytes → Except String (G × Bytes)} {err : String}
    {b : Bytes} {P : G} :
    (match u b with
      | .error e => .error e
      | .ok (P, left) => if left ≠ [] then .error err else .ok P) = Except.ok P ↔
      u b = .ok (P, []) := by
  rcases u b with e | ⟨Q, left⟩
  · simp
  · by_cases hleft : left = [] <;> simp [hleft, eq_comm]

lemma unmarshalPoints_eq_ok {G : Type} {u : Bytes → Except String (G × Bytes)} {err : String}
    {d : List Bytes} {Ps : List G} :
    unmarshalPoints u err d = .ok Ps ↔ List.Forall₂ (fun b P => u b = .ok (P, [])) d Ps := by
  rw [unmarshalPoints, Machine.mapM_eq_ok_iff]
  exact ⟨fun h => h.imp fun _ _ => unmarshalPoint_eq_ok.mp,
    fun h => h.imp fun _ _ => unmarshalPoint_eq_ok.mpr⟩

/-- The points read from the byte strings of a payload are as many as the byte strings. -/
lemma length_of_unmarshalPoints {G : Type} {u : Bytes → Except String (G × Bytes)} {err : String}
    {bs : List Bytes} {Ps : List G} (h : unmarshalPoints u err bs = .ok Ps) :
    bs.length = Ps.length :=
  (unmarshalPoints_eq_ok.mp h).length_eq

/-- Points read by `Unmarshal` are read alike by `UnmarshalPure`, and each took exactly the
bytes of one point. -/
lemma unmarshalPoints_pure {G : Type} {u u' : Bytes → Except String (G × Bytes)} {n : ℕ}
    (hu' : ∀ b r, u b = .ok r → u' b = .ok r)
    (hn : ∀ b r, u b = .ok r → n ≤ b.length ∧ r.2 = b.drop n) {err err' : String}
    {bs : List Bytes} {Ps : List G} (h : unmarshalPoints u err bs = .ok Ps) :
    unmarshalPoints u' err' bs = .ok Ps ∧ ∀ b ∈ bs, b.length ≤ n := by
  rw [unmarshalPoints_eq_ok] at h ⊢
  refine ⟨h.imp fun b P hb => hu' b _ hb, ?_⟩
  have hF : List.Forall₂ (fun b (_ : G) => b.length ≤ n ∧ True) bs Ps := h.imp fun b P hb => by
    have hdrop := (hn b _ hb).2
    exact ⟨List.drop_eq_nil_iff.mp hdrop.symm, trivial⟩
  exact ((List.forall₂_and_left _ _).mp hF).1

/-- At most `RandomProperCount` byte strings of a point each encode in fewer than `2^64` bytes. -/
lemma length_encodeByteSlices_lt {bs : List Bytes} (hn : bs.length ≤ randomProperCount)
    (hb : ∀ b ∈ bs, b.length ≤ 128) : (EncodeToBytes (.list (bs.map .bytes))).length < 2 ^ 64 := by
  have hitem : ∀ v ∈ bs.map Value.bytes, (encodeItem v).length ≤ 137 := by
    intro v hv
    obtain ⟨b, hbs, rfl⟩ := List.mem_map.mp hv
    have hb' := hb b hbs
    have := length_encodeStr_le_add (b := b) (by omega)
    simp only [encodeItem]
    omega
  have hitems := length_encodeItems_le _ 137 hitem
  rw [List.length_map] at hitems
  have hcount : randomProperCount = 25 := rfl
  have hlist := length_encodeItem_list_le (bs.map .bytes) (by omega)
  rw [EncodeToBytes_eq]
  omega

variable {G1 G2 GT : Type} [AddCommGroup G1] [AddCommGroup G2] [AddCommGroup GT]
  (c : Bn256 G1 G2 GT) (env : RbEnv G1)

lemma getPoints_congr {G : Type} (bytesTo : List Bytes → Except String (List G)) (kind : Bytes)
    (errRlp : String) {st st' : RbStorage} {e : UInt64} {p : UInt32}
    (h : st'.slots (GetRBKeyHash kind e p) = st.slots (GetRBKeyHash kind e p)) :
    getPoints bytesTo kind errRlp st' e p = getPoints bytesTo kind errRlp st e p := by
  simp only [getPoints, h]

/-- A list of points written as the byte strings they were read from reads back. -/
lemma getPoints_set {G : Type} {bytesTo : List Bytes → Except String (List G)} {kind : Bytes}
    {errRlp : String} (st : RbStorage) (e : UInt64) (p : UInt32) {bs : List Bytes} {Ps : List G}
    (hlen : (EncodeToBytes (.list (bs.map .bytes))).length < 2 ^ 64) (hPs : bytesTo bs = .ok Ps) :
    getPoints bytesTo kind errRlp (st.set (GetRBKeyHash kind e p) (encodeByteSlices bs)) e p =
      .ok (some Ps) := by
  simp only [getPoints, RbStorage.set_slots, Function.update_self, encodeByteSlices_ne_nil, if_false,
    decodeByteSlices_encodeByteSlices hlen, hPs]
  rfl

lemma getPoints_ne_nil {G : Type} {bytesTo : List Bytes → Except String (List G)} {kind : Bytes}
    {errRlp : String} {st : RbStorage} {e : UInt64} {p : UInt32} {l : List G}
    (h : getPoints bytesTo kind errRlp st e p = .ok (some l)) :
    st.slots (GetRBKeyHash kind e p) ≠ [] := by
  intro h0
  simp [getPoints, h0] at h

/-- Commitments that `Unmarshal` read are stored so that `GetCji` reads them back. -/
lemma GetCji_set (st : RbStorage) (e : UInt64) (p : UInt32) {bs : List Bytes} {Commit : List G2}
    (h : unmarshalPoints c.UnmarshalG2 "invalid dkg commit bytes" bs = .ok Commit)
    (hlen : bs.length ≤ randomProperCount) :
    GetCji c (st.set (GetRBKeyHash kindCij e p) (encodeByteSlices bs)) e p = .ok (some Commit) := by
  obtain ⟨hpure, hb⟩ := unmarshalPoints_pure c.UnmarshalPureG2_of_Unmarshal c.UnmarshalG2_rest h
  exact getPoints_set st e p (length_encodeByteSlices_lt hlen hb) hpure

/-- Shares that `Unmarshal` read are stored so that `GetEncryptShare` reads them back. -/
lemma GetEncryptShare_set (st : RbStorage) (e : UInt64) (p : UInt32) {bs : List Bytes}
    {EnShare : List G1}
    (h : unmarshalPoints c.UnmarshalG1 "invalid dkg encrypt share bytes" bs = .ok EnShare)
    (hlen : bs.length ≤ randomProperCount) :
    GetEncryptShare c (st.set (GetRBKeyHash kindEns e p) (encodeByteSlices bs)) e p =
      .ok (some EnShare) := by
  obtain ⟨hpure, hb⟩ := unmarshalPoints_pure c.UnmarshalPureG1_of_Unmarshal c.UnmarshalG1_rest h
  exact getPoints_set st e p (length_encodeByteSlices_lt hlen fun b hb' => (hb b hb').trans
    (by norm_num)) hpure

lemma hasDkgData_of_ok {α : Type} {x : Except String (Option (List α))} {l : List α}
    (h : x = .ok (some l)) (hl : l.length ≠ 0) : hasDkgData x = true := by
  simp [h, hasDkgData, hl]

/-! ### What a call checks and writes -/

omit [AddCommGroup G1] in
lemma getRBProposerGroup_ok {eid : UInt64} {pks : List G1}
    (h : getRBProposerGroup env eid = .ok pks) : pks = env.GetRBProposerG1 eid ∧ pks.length ≠ 0 := by
  simp only [getRBProposerGroup] at h
  split_ifs at h with h0
  cases h
  exact ⟨rfl, h0⟩

lemma Dkg1FlatToDkg1_ok {d : RbDKG1FlatTxPayload} {param : RbDKG1TxPayload G2}
    (h : Dkg1FlatToDkg1 c d = .ok param) :
    ∃ Commit, unmarshalPoints c.UnmarshalG2 "invalid dkg commit bytes" d.Commit = .ok Commit ∧
      param = ⟨d.EpochId, d.ProposerId, Commit⟩ := by
  obtain ⟨Commit, hCommit, h⟩ := Machine.bind_ok h
  cases h
  exact ⟨Commit, hCommit, rfl⟩

/-- What `validDkg1` establishes of a payload it accepts, whose commitments read as the points
`Commit`. -/
structure Dkg1Accepted [DecidableEq G2] (st : RbStorage) (ctx : RbCtx) (flat : RbDKG1FlatTxPayload)
    (Commit : List G2) : Prop where
  unmarshal : unmarshalPoints c.UnmarshalG2 "invalid dkg commit bytes" flat.Commit = .ok Commit
  stage : isValidEpochStage flat.EpochId .RbDkg1Stage ctx.time = true
  inGroup : isInRandomGroup c env (env.GetRBProposerG1 flat.EpochId) flat.EpochId flat.ProposerId
    ctx.caller = true
  fresh : hasDkgData (GetCji c st flat.EpochId flat.ProposerId) = false
  length_pks : (env.GetRBProposerG1 flat.EpochId).length ≠ 0
  length_Commit : (env.GetRBProposerG1 flat.EpochId).length = Commit.length
  rscode : RScodeVerify c Commit (polynomialXs c (env.GetRBProposerG1 flat.EpochId)) polymDegree
    ctx.constant ctx.rand = true

lemma validDkg1_ok [DecidableEq G2] {st : RbStorage} {ctx : RbCtx} {payload : Bytes}
    {flat : RbDKG1FlatTxPayload} (h : validDkg1 c env st ctx payload = .ok flat) :
    env.decodeDkg1 payload = some flat ∧ ∃ Commit, Dkg1Accepted c env st ctx flat Commit := by
  unfold validDkg1 at h
  cases hd : env.decodeDkg1 payload with
  | none => simp [hd] at h
  | some flat0 =>
    simp only [hd] at h
    obtain ⟨param, hparam, h⟩ := Machine.bind_ok h
    obtain ⟨Commit, hCommit, rfl⟩ := Dkg1FlatToDkg1_ok c hparam
    obtain ⟨pks, hpks, h⟩ := Machine.bind_ok h
    obtain ⟨rfl, hpks0⟩ := getRBProposerGroup_ok env hpks
    obtain ⟨_, hstage, h⟩ := Machine.bind_ok h
    obtain ⟨_, hgroup, h⟩ := Machine.bind_ok h
    obtain ⟨_, hfresh, h⟩ := Machine.bind_ok h
    obtain ⟨_, hlen, h⟩ := Machine.bind_ok h
    obtain ⟨_, hrs, h⟩ := Machine.bind_ok h
    cases h
    simp only [check_eq_ok, Bool.not_eq_true', decide_eq_true_eq] at hstage hgroup hfresh hlen hrs
    exact ⟨rfl, Commit, ⟨hCommit, hstage, hgroup, hfresh, hpks0, hlen, hrs⟩⟩

lemma Dkg2FlatToDkg2_ok {d : RbDKG2FlatTxPayload} {param : RbDKG2TxPayload G1 G2}
    (h : Dkg2FlatToDkg2 c d = .ok param) :
    ∃ EnShare, unmarshalPoints c.UnmarshalG1 "invalid dkg encrypt share bytes" d.EnShare =
      .ok EnShare ∧ param = ⟨d.EpochId, d.ProposerId, EnShare, d.Proof.map (ProofFlatToProof c)⟩ := by
  obtain ⟨EnShare, hEnShare, h⟩ := Machine.bind_ok h
  cases h
  exact ⟨EnShare, hEnShare, rfl⟩

/-- What `validDkg2` establishes of a payload it accepts, whose shares read as the points
`EnShare`, against the stored commitments `commit`. -/
structure Dkg2Accepted (st : RbStorage) (ctx : RbCtx) (flat : RbDKG2FlatTxPayload)
    (EnShare : List G1) (commit : List G2) : Prop where
  unmarshal : unmarshalPoints c.UnmarshalG1 "invalid dkg encrypt share bytes" flat.EnShare =
    .ok EnShare
  stage : isValidEpochStage flat.EpochId .RbDkg2Stage ctx.time = true
  inGroup : isInRandomGroup c env (env.GetRBProposerG1 flat.EpochId) flat.EpochId flat.ProposerId
    ctx.caller = true
  fresh : hasDkgData (GetEncryptShare c st flat.EpochId flat.ProposerId) = false
  committed : GetCji c st flat.EpochId flat.ProposerId = .ok (some commit)
  length_pks : (env.GetRBProposerG1 flat.EpochId).length ≠ 0
  lengths : (env.GetRBProposerG1 flat.EpochId).length = EnShare.length ∧
    (env.GetRBProposerG1 flat.EpochId).length = flat.Proof.length ∧
    (env.GetRBProposerG1 flat.EpochId).length = commit.length
  dleq : ∀ j < (env.GetRBProposerG1 flat.EpochId).length,
    VerifyDLEQ c ((flat.Proof.map (ProofFlatToProof c)).getD j ⟨none, none, none⟩)
      ((env.GetRBProposerG1 flat.EpochId).getD j 0) c.hbase (EnShare.getD j 0)
      (commit.getD j 0) = true

/-- The commitment `validDkg2` reads: one that reads back without error and is not empty. -/
lemma filter_join_toOption_eq_some {α : Type} {x : Except String (Option (List α))}
    {l : List α} (h : x.toOption.join.filter (·.length ≠ 0) = some l) :
    x = .ok (some l) ∧ l.length ≠ 0 := by
  rcases x with e | _ | l'
  · simp [Except.toOption] at h
  · simp [Except.toOption] at h
  · simp only [Except.toOption, Option.join_some, Option.filter_eq_some_iff,
      decide_eq_true_eq] at h
    obtain ⟨heq, hl⟩ := h
    cases heq
    exact ⟨rfl, hl⟩

lemma validDkg2_ok {st : RbStorage} {ctx : RbCtx} {payload : Bytes} {flat : RbDKG2FlatTxPayload}
    (h : validDkg2 c env st ctx payload = .ok flat) :
    env.decodeDkg2 payload = some flat ∧
      ∃ EnShare commit, Dkg2Accepted c env st ctx flat EnShare commit := by
  unfold validDkg2 at h
  cases hd : env.decodeDkg2 payload with
  | none => simp [hd] at h
  | some flat0 =>
    simp only [hd] at h
    obtain ⟨param, hparam, h⟩ := Machine.bind_ok h
    obtain ⟨EnShare, hEnShare, rfl⟩ := Dkg2FlatToDkg2_ok c hparam
    obtain ⟨pks, hpks, h⟩ := Machine.bind_ok h
    obtain ⟨rfl, hpks0⟩ := getRBProposerGroup_ok env hpks
    obtain ⟨_, hstage, h⟩ := Machine.bind_ok h
    obtain ⟨_, hgroup, h⟩ := Machine.bind_ok h
    obtain ⟨_, hfresh, h⟩ := Machine.bind_ok h
    split at h
    next commit hcommit =>
      obtain ⟨hGet, -⟩ := filter_join_toOption_eq_some hcommit
      obtain ⟨_, hlen, h⟩ := Machine.bind_ok h
      obtain ⟨_, hdleq, h⟩ := Machine.bind_ok h
      cases h
      simp only [check_eq_ok, Bool.not_eq_true', decide_eq_true_eq, List.all_eq_true,
        List.mem_range, List.length_map] at hstage hgroup hfresh hlen hdleq
      exact ⟨rfl, EnShare, commit, ⟨hEnShare, hstage, hgroup, hfresh, hGet, hpks0, hlen, hdleq⟩⟩
    next => simp at h

/-- What `validSigShare` establishes of a payload it accepts. -/
structure SigAccepted (st : RbStorage) (ctx : RbCtx) (sp : RbSIGTxPayload G1) : Prop where
  stage : isValidEpochStage sp.EpochId .RbSignStage ctx.time = true
  inGroup : isInRandomGroup c env (env.GetRBProposerG1 sp.EpochId) sp.EpochId sp.ProposerId
    ctx.caller = true
  length_pks : (env.GetRBProposerG1 sp.EpochId).length ≠ 0
  threshold : rbThres ≤ (collectDkgData c st sp.EpochId (env.GetRBProposerG1 sp.EpochId)).length
  pairing : c.StringGT (c.Pair sp.GSignShare c.hbase) =
    c.StringGT (c.Pair ((setBytes (GetRBM c env st sp.EpochId) : ℤ) • c.gbase)
      ((collectDkgData c st sp.EpochId (env.GetRBProposerG1 sp.EpochId)).foldl
        (fun g d => g + d.1.getD sp.ProposerId.toNat 0) 0))

lemma validSigShare_ok {st : RbStorage} {ctx : RbCtx} {payload : Bytes} {sp : RbSIGTxPayload G1}
    {pks : List G1} {dkgData : List (List G2 × G1)}
    (h : validSigShare c env st ctx payload = .ok (sp, pks, dkgData)) :
    env.decodeSig payload = some sp ∧ pks = env.GetRBProposerG1 sp.EpochId ∧
      dkgData = collectDkgData c st sp.EpochId pks ∧ SigAccepted c env st ctx sp := by
  unfold validSigShare at h
  cases hd : env.decodeSig payload with
  | none => simp [hd] at h
  | some sp₀ =>
    simp only [hd] at h
    obtain ⟨pks₀, hpks, h⟩ := Machine.bind_ok h
    obtain ⟨rfl, hpks0⟩ := getRBProposerGroup_ok env hpks
    obtain ⟨_, hstage, h⟩ := Machine.bind_ok h
    obtain ⟨_, hgroup, h⟩ := Machine.bind_ok h
    obtain ⟨_, hthres, h⟩ := Machine.bind_ok h
    obtain ⟨_, hpair, h⟩ := Machine.bind_ok h
    cases h
    simp only [check_eq_ok, decide_eq_true_eq] at hstage hgroup hthres hpair
    exact ⟨rfl, rfl, rfl, ⟨hstage, hgroup, hpks0, hthres, hpair⟩⟩

/-- `computeRandom` gives a random only when none is stored, as the hash of a group signature
that passed the final pairing check. -/
lemma computeRandom_ok {st : RbStorage} {epochId : UInt64} {dkgData : List (List G2 × G1)}
    {pks : List G1} {r : ℕ} (h : computeRandom c env st epochId dkgData pks = .ok r) :
    (GetStateR c env st (epochId + 1)).all (· = 0) = true ∧
      ∃ gSignature, r = setBytes (c.Keccak256 (c.MarshalG1 gSignature)) ∧
        c.StringGT (c.Pair gSignature c.hbase) =
          c.StringGT (c.Pair ((setBytes (GetRBM c env st epochId) : ℤ) • c.gbase)
            (LagrangePub c ((List.range pks.length).map fun i =>
              dkgData.foldl (fun g d => g + d.1.getD i 0) 0) (polynomialXs c pks) polymDegree)) := by
  unfold computeRandom at h
  obtain ⟨_, hnone, h⟩ := Machine.bind_ok h
  obtain ⟨_, -, h⟩ := Machine.bind_ok h
  obtain ⟨_, -, h⟩ := Machine.bind_ok h
  obtain ⟨_, hpair, h⟩ := Machine.bind_ok h
  cases h
  rw [check_eq_ok] at hnone
  exact ⟨hnone, _, rfl, by simpa only [check_eq_ok, decide_eq_true_eq] using hpair⟩

/-- `sigShare` stores the payload under its proposer, counts it, and may store a random that
`computeRandom` gives. -/
lemma sigShare_ok {st st' : RbStorage} {ctx : RbCtx} {payload : Bytes}
    (h : sigShare c env st ctx payload = .ok st') :
    ∃ sp pks dkgData n, validSigShare c env st ctx payload = .ok (sp, pks, dkgData) ∧
      (st' = setSignorsNum (st.set (GetRBKeyHash sigShareId sp.EpochId sp.ProposerId) payload)
          sp.EpochId n ∨
        ∃ r, computeRandom c env (setSignorsNum (st.set (GetRBKeyHash sigShareId sp.EpochId
            sp.ProposerId) payload) sp.EpochId n) sp.EpochId dkgData pks = .ok r ∧
          st' = (setSignorsNum (st.set (GetRBKeyHash sigShareId sp.EpochId sp.ProposerId) payload)
            sp.EpochId n).set (GetRBRKeyHash (sp.EpochId + 1)) (bigBytes r)) := by
  unfold sigShare at h
  obtain ⟨⟨sp, pks, dkgData⟩, hvalid, h⟩ := Machine.bind_ok h
  refine ⟨sp, pks, dkgData,
    getSignorsNum (st.set (GetRBKeyHash sigShareId sp.EpochId sp.ProposerId) payload) sp.EpochId + 1,
    hvalid, ?_⟩
  dsimp only at h
  split_ifs at h
  · split at h
    next r hr =>
      cases h
      exact .inr ⟨r, hr, rfl⟩
    next => cases h; exact .inl rfl
  · cases h
    exact .inl rfl

/-- What one successful call writes: the commitments of `dkg1`, the shares of `dkg2`, what
`sigShare` writes, or nothing (the view methods). -/
lemma Run_cases [DecidableEq G2] {st st' : RbStorage} {ctx : RbCtx} {input : Bytes}
    (h : Run c env st ctx input = .ok st') :
    (input.take 4 = dkg1Id ∧ ∃ flat, validDkg1 c env st ctx (input.drop 4) = .ok flat ∧
      st' = st.set (GetRBKeyHash kindCij flat.EpochId flat.ProposerId)
        (encodeByteSlices flat.Commit)) ∨
    (input.take 4 = dkg2Id ∧ ∃ flat, validDkg2 c env st ctx (input.drop 4) = .ok flat ∧
      st' = st.set (GetRBKeyHash kindEns flat.EpochId flat.ProposerId)
        (encodeByteSlices flat.EnShare)) ∨
    (input.take 4 = sigShareId ∧ sigShare c env st ctx (input.drop 4) = .ok st') ∨
    st' = st := by
  unfold Run at h
  by_cases hlen : input.length < 4
  · rw [if_pos hlen] at h
    cases h
  rw [if_neg hlen] at h
  dsimp only at h
  by_cases h1 : input.take 4 = dkg1Id
  · rw [if_pos h1] at h
    obtain ⟨flat, hflat, h⟩ := Machine.bind_ok h
    cases h
    exact .inl ⟨h1, flat, hflat, rfl⟩
  rw [if_neg h1] at h
  by_cases h2 : input.take 4 = dkg2Id
  · rw [if_pos h2] at h
    obtain ⟨flat, hflat, h⟩ := Machine.bind_ok h
    cases h
    exact .inr (.inl ⟨h2, flat, hflat, rfl⟩)
  rw [if_neg h2] at h
  by_cases h3 : input.take 4 = sigShareId
  · rw [if_pos h3] at h
    exact .inr (.inr (.inl ⟨h3, h⟩))
  rw [if_neg h3] at h
  -- the view methods leave the storage; any other id fails
  split_ifs at h
  cases h
  exact .inr (.inr (.inr rfl))

/-- A call either fails and leaves the storage, or succeeds with the storage it leaves. -/
lemma rbStep_cases [DecidableEq G2] (st : RbStorage) (call : RbCall) :
    rbStep c env st call = st ∨ Run c env st call.ctx call.input = .ok (rbStep c env st call) := by
  cases h : Run c env st call.ctx call.input with
  | error e => exact .inl (by simp [rbStep, h])
  | ok st' => exact .inr (by simp [rbStep, h])

/-! ### Calls that pass the checks

The converse of the lemmas above: a payload that decodes and passes every check of its method is
accepted, and the call writes it. -/

lemma Run_dkg1 [DecidableEq G2] (st : RbStorage) (ctx : RbCtx) (payload : Bytes) :
    Run c env st ctx (dkg1Id ++ payload) = dkg1 c env st ctx payload := by
  simp [Run, dkg1Id]

lemma Run_dkg2 [DecidableEq G2] (st : RbStorage) (ctx : RbCtx) (payload : Bytes) :
    Run c env st ctx (dkg2Id ++ payload) = dkg2 c env st ctx payload := by
  simp [Run, dkg1Id, dkg2Id]

lemma Run_sigShare [DecidableEq G2] (st : RbStorage) (ctx : RbCtx) (payload : Bytes) :
    Run c env st ctx (sigShareId ++ payload) = sigShare c env st ctx payload := by
  simp [Run, dkg1Id, dkg2Id, sigShareId]

/-- Points written by a `Marshal` that its `Unmarshal` reads back read back. -/
lemma unmarshalPoints_map {G : Type} {u : Bytes → Except String (G × Bytes)} {m : G → Bytes}
    (hu : ∀ P, u (m P) = .ok (P, [])) (err : String) (Ps : List G) :
    unmarshalPoints u err (Ps.map m) = .ok Ps := by
  rw [unmarshalPoints_eq_ok, List.forall₂_map_left_iff]
  exact List.forall₂_same.mpr fun P _ => hu P

lemma UnmarshalG1_Marshal_nil (P : G1) : c.UnmarshalG1 (c.MarshalG1 P) = .ok (P, []) := by
  simpa using c.UnmarshalG1_Marshal P []

lemma UnmarshalG2_Marshal_nil (Q : G2) : c.UnmarshalG2 (c.MarshalG2 Q) = .ok (Q, []) := by
  simpa using c.UnmarshalG2_Marshal Q []

/-- An empty slot reads as nil. -/
lemma getPoints_of_nil {G : Type} (bytesTo : List Bytes → Except String (List G)) {kind : Bytes}
    (errRlp : String) {st : RbStorage} {e : UInt64} {p : UInt32}
    (h : st.slots (GetRBKeyHash kind e p) = []) :
    getPoints bytesTo kind errRlp st e p = .ok none := by
  simp [getPoints, h]

/-- A slot that holds marshalled commitments reads them back. -/
lemma GetCji_of_slot {st : RbStorage} {e : UInt64} {p : UInt32} {Ps : List G2}
    (h : st.slots (GetRBKeyHash kindCij e p) = encodeByteSlices (Ps.map c.MarshalG2))
    (hlen : Ps.length ≤ randomProperCount) : GetCji c st e p = .ok (some Ps) := by
  have hread : GetCji c st e p =
      GetCji c (st.set (GetRBKeyHash kindCij e p) (encodeByteSlices (Ps.map c.MarshalG2))) e p :=
    getPoints_congr _ _ _ (by rw [RbStorage.set_slots, Function.update_self, h])
  rw [hread]
  exact GetCji_set c st e p (unmarshalPoints_map (UnmarshalG2_Marshal_nil c) _ Ps)
    (by rwa [List.length_map])

omit [AddCommGroup G1] in
lemma length_GetRBProposerG1_lt (e : UInt64) : (env.GetRBProposerG1 e).length < 2 ^ 32 :=
  (env.length_GetRBProposerG1 e).trans_lt (by norm_num [randomProperCount])

/-- Writing the slot of proposer `p` in a family of slots that holds `v q` for the proposers `q`
of `d`, and nothing for the others, makes it hold `v q` for those of `d ++ [p]`. -/
lemma slots_set_family {st : RbStorage} {kind : Bytes} {e : UInt64} {n : ℕ} (hn : n ≤ 2 ^ 32)
    {d : List ℕ} (v : ℕ → Bytes)
    (h : ∀ q < n, st.slots (GetRBKeyHash kind e (UInt32.ofNat q)) = if q ∈ d then v q else [])
    {p : ℕ} (hp : p < n) (q : ℕ) (hq : q < n) :
    (st.set (GetRBKeyHash kind e (UInt32.ofNat p)) (v p)).slots
        (GetRBKeyHash kind e (UInt32.ofNat q)) = if q ∈ d ++ [p] then v q else [] := by
  by_cases hqp : q = p
  · subst hqp
    simp
  · have hkey : GetRBKeyHash kind e (UInt32.ofNat q) ≠ GetRBKeyHash kind e (UInt32.ofNat p) :=
      fun hk => hqp ((GetRBKeyHash_ofNat_inj (by omega) (by omega)).mp hk)
    rw [RbStorage.set_slots, Function.update_of_ne hkey, h q hq]
    simp [hqp]

/-- A write to a slot of another kind leaves a slot as it was. -/
lemma slots_set_of_kind {st : RbStorage} {kind kind' : Bytes}
    (hk : (kind ++ List.replicate 4 0).take 4 ≠ (kind' ++ List.replicate 4 0).take 4)
    (e e' : UInt64) (p p' : UInt32) (v : Bytes) :
    (st.set (GetRBKeyHash kind' e' p') v).slots (GetRBKeyHash kind e p) =
      st.slots (GetRBKeyHash kind e p) := by
  rw [RbStorage.set_slots, Function.update_of_ne (GetRBKeyHash_ne_of_kind hk e e' p p')]

/-- A write to a proposer's slot leaves the randoms as they were. -/
lemma slots_set_rand {st : RbStorage} (kind : Bytes) (e e' : UInt64) (p : UInt32) (v : Bytes) :
    (st.set (GetRBKeyHash kind e p) v).slots (GetRBRKeyHash e') = st.slots (GetRBRKeyHash e') := by
  rw [RbStorage.set_slots, Function.update_of_ne (GetRBKeyHash_ne_GetRBRKeyHash kind e e' p).symm]

lemma validDkg1_eq_ok [DecidableEq G2] {st : RbStorage} {ctx : RbCtx} {payload : Bytes}
    {flat : RbDKG1FlatTxPayload} {Commit : List G2} (hd : env.decodeDkg1 payload = some flat)
    (h : Dkg1Accepted c env st ctx flat Commit) : validDkg1 c env st ctx payload = .ok flat := by
  have hpks : env.GetRBProposerG1 flat.EpochId ≠ [] := List.ne_nil_of_length_pos (by
    have := h.length_pks; omega)
  simp [validDkg1, hd, Dkg1FlatToDkg1, h.unmarshal, getRBProposerGroup, hpks, check,
    h.stage, h.inGroup, h.fresh, h.length_Commit, h.rscode]

lemma validDkg2_eq_ok {st : RbStorage} {ctx : RbCtx} {payload : Bytes}
    {flat : RbDKG2FlatTxPayload} {EnShare : List G1} {commit : List G2}
    (hd : env.decodeDkg2 payload = some flat) (h : Dkg2Accepted c env st ctx flat EnShare commit) :
    validDkg2 c env st ctx payload = .ok flat := by
  have hcommit : commit.length ≠ 0 := h.lengths.2.2 ▸ h.length_pks
  have hfilter : (GetCji c st flat.EpochId flat.ProposerId).toOption.join.filter
      (·.length ≠ 0) = some commit := by
    simp [h.committed, Except.toOption, List.ne_nil_of_length_pos (Nat.pos_of_ne_zero hcommit)]
  have hdleq : (List.range (env.GetRBProposerG1 flat.EpochId).length).all (fun j =>
      VerifyDLEQ c ((flat.Proof.map (ProofFlatToProof c)).getD j ⟨none, none, none⟩)
        ((env.GetRBProposerG1 flat.EpochId).getD j 0) c.hbase (EnShare.getD j 0)
        (commit.getD j 0)) = true := by
    simpa using h.dleq
  have hlen : decide ((env.GetRBProposerG1 flat.EpochId).length = EnShare.length ∧
      (env.GetRBProposerG1 flat.EpochId).length = (flat.Proof.map (ProofFlatToProof c)).length ∧
      (env.GetRBProposerG1 flat.EpochId).length = commit.length) = true := by
    simpa using h.lengths
  unfold validDkg2
  simp only [hd, Dkg2FlatToDkg2, h.unmarshal, Machine.ok_bind, pure, Except.pure,
    getRBProposerGroup, h.length_pks, if_false, check, h.stage, h.inGroup, h.fresh, hfilter, hlen,
    hdleq, if_true, Bool.not_false]

lemma validSigShare_eq_ok {st : RbStorage} {ctx : RbCtx} {payload : Bytes}
    {sp : RbSIGTxPayload G1} (hd : env.decodeSig payload = some sp)
    (h : SigAccepted c env st ctx sp) :
    validSigShare c env st ctx payload = .ok (sp, env.GetRBProposerG1 sp.EpochId,
      collectDkgData c st sp.EpochId (env.GetRBProposerG1 sp.EpochId)) := by
  have hpks : env.GetRBProposerG1 sp.EpochId ≠ [] := List.ne_nil_of_length_pos (by
    have := h.length_pks; omega)
  simp [validSigShare, hd, getRBProposerGroup, hpks, check, h.stage, h.inGroup,
    h.threshold, h.pairing]

lemma UInt32_ofNat_add_one (k : ℕ) : UInt32.ofNat k + 1 = UInt32.ofNat (k + 1) :=
  UInt32.toNat_inj.mp (by simp [UInt32.toNat_add])

/-- The signer count written for an epoch reads back for it. -/
lemma getSignorsNum_setSignorsNum (st : RbStorage) (e : UInt64) (n : UInt32) :
    getSignorsNum (setSignorsNum st e n) e = n := by
  have h8 : (UIntToByteSlice e).length = 8 := length_UIntToByteSlice e
  have h4 : (UInt32ToByteSlice n).length = 4 := length_UInt32ToByteSlice n
  have hne : UIntToByteSlice e ++ UInt32ToByteSlice n ≠ [] :=
    List.ne_nil_of_length_pos (by rw [List.length_append, h8]; omega)
  have he : ByteSliceToUInt (UIntToByteSlice e ++ UInt32ToByteSlice n) = e := by
    rw [ByteSliceToUInt, List.take_left' h8, UIntToByteSlice, leValue_leBytes,
      Nat.mod_eq_of_lt (show e.toNat < 256 ^ 8 from e.toNat_lt), UInt64.ofNat_toNat]
  have hn : ByteSliceToUInt32 ((UIntToByteSlice e ++ UInt32ToByteSlice n).drop 8) = n := by
    rw [List.drop_left' h8, ByteSliceToUInt32, List.take_of_length_le h4.le, UInt32ToByteSlice,
      leValue_leBytes, Nat.mod_eq_of_lt (show n.toNat < 256 ^ 4 from n.toNat_lt),
      UInt32.ofNat_toNat]
  simp only [getSignorsNum, setSignorsNum, hne, he, hn, if_true, ne_eq, not_false_eq_true]

@[simp] lemma getSignorsNum_set (st : RbStorage) (key value : Bytes) (e : UInt64) :
    getSignorsNum (st.set key value) e = getSignorsNum st e := rfl

/-- A share accepted below the threshold is stored and counted, and no random is computed. -/
lemma sigShare_eq_of_lt {st : RbStorage} {ctx : RbCtx} {payload : Bytes}
    {sp : RbSIGTxPayload G1} {pks : List G1} {dkgData : List (List G2 × G1)}
    (hv : validSigShare c env st ctx payload = .ok (sp, pks, dkgData))
    (hlt : (getSignorsNum st sp.EpochId + 1).toNat < rbThres) :
    sigShare c env st ctx payload = .ok (setSignorsNum
      (st.set (GetRBKeyHash sigShareId sp.EpochId sp.ProposerId) payload) sp.EpochId
      (getSignorsNum st sp.EpochId + 1)) := by
  simp only [sigShare, hv, Machine.ok_bind]
  split
  · next hge => exact absurd hge (Nat.not_le.mpr hlt)
  · rfl

/-- A share accepted at the threshold is stored and counted, and the random `computeRandom`
gives is stored for the next epoch. -/
lemma sigShare_eq_of_random {st : RbStorage} {ctx : RbCtx} {payload : Bytes}
    {sp : RbSIGTxPayload G1} {pks : List G1} {dkgData : List (List G2 × G1)} {r : ℕ}
    (hv : validSigShare c env st ctx payload = .ok (sp, pks, dkgData))
    (hge : rbThres ≤ (getSignorsNum st sp.EpochId + 1).toNat)
    (hr : computeRandom c env (setSignorsNum
      (st.set (GetRBKeyHash sigShareId sp.EpochId sp.ProposerId) payload) sp.EpochId
      (getSignorsNum st sp.EpochId + 1)) sp.EpochId dkgData pks = .ok r) :
    sigShare c env st ctx payload = .ok ((setSignorsNum
      (st.set (GetRBKeyHash sigShareId sp.EpochId sp.ProposerId) payload) sp.EpochId
      (getSignorsNum st sp.EpochId + 1)).set (GetRBRKeyHash (sp.EpochId + 1)) (bigBytes r)) := by
  simp only [sigShare, hv, Machine.ok_bind]
  split
  · simp only [getSignorsNum_set, hr]
    rfl
  · next hlt => exact absurd hge hlt

/-- `computeRandom` gives the hash of the interpolated group signature when no random is
stored, enough shares are, and the final pairing check passes. -/
lemma computeRandom_eq_ok {st : RbStorage} {epochId : UInt64} {dkgData : List (List G2 × G1)}
    {pks : List G1} (hnone : (GetStateR c env st (epochId + 1)).all (· = 0) = true)
    (hpks : pks.length ≠ 0) (hthres : rbThres ≤ (collectSigData env st epochId pks).length)
    {gSig : G1} (hsig : LagrangeSig c ((collectSigData env st epochId pks).map fun d =>
        d.1.GSignShare) ((collectSigData env st epochId pks).map fun d =>
        (setBytes (GetPolynomialX c d.2 d.1.ProposerId) : ℤ)) polymDegree = gSig)
    (hpair : c.StringGT (c.Pair gSig c.hbase) =
      c.StringGT (c.Pair ((setBytes (GetRBM c env st epochId) : ℤ) • c.gbase)
        (LagrangePub c ((List.range pks.length).map fun i =>
          dkgData.foldl (fun g d => g + d.1.getD i 0) 0) (polynomialXs c pks) polymDegree))) :
    computeRandom c env st epochId dkgData pks =
      .ok (setBytes (c.Keccak256 (c.MarshalG1 gSig))) := by
  simp [computeRandom, check, hnone, hpks, hthres, hsig, hpair]

/-- `sigShare` writes only signature slots and random slots. -/
lemma sigShare_slot {st st' : RbStorage} {ctx : RbCtx} {payload : Bytes}
    (h : sigShare c env st ctx payload = .ok st') {key : Bytes}
    (hsig : ∀ e p, key ≠ GetRBKeyHash sigShareId e p) (hR : ∀ e, key ≠ GetRBRKeyHash e) :
    st'.slots key = st.slots key := by
  obtain ⟨sp, pks, dkgData, n, -, rfl | ⟨r, -, rfl⟩⟩ := sigShare_ok c env h
  · simp [Function.update_of_ne (hsig _ _)]
  · simp [Function.update_of_ne (hsig _ _), Function.update_of_ne (hR _)]

/-- A call that changes the commitments of proposer `p` of epoch `e` is a `dkg1` call accepted
for them, and writes its commitments there. -/
lemma rbStep_cij [DecidableEq G2] {st : RbStorage} {call : RbCall} {e : UInt64} {p : UInt32}
    (hchg : (rbStep c env st call).slots (GetRBKeyHash kindCij e p) ≠
      st.slots (GetRBKeyHash kindCij e p)) :
    call.input.take 4 = dkg1Id ∧ ∃ flat, validDkg1 c env st call.ctx (call.input.drop 4) = .ok flat ∧
      flat.EpochId = e ∧ flat.ProposerId = p ∧
      rbStep c env st call = st.set (GetRBKeyHash kindCij e p) (encodeByteSlices flat.Commit) := by
  rcases rbStep_cases c env st call with hst | hrun
  · rw [hst] at hchg
    exact absurd rfl hchg
  rcases Run_cases c env hrun with ⟨h1, flat, hflat, hst⟩ | ⟨-, flat, -, hst⟩ | ⟨-, hsig⟩ | hst
  · by_cases hkey : GetRBKeyHash kindCij e p = GetRBKeyHash kindCij flat.EpochId flat.ProposerId
    · obtain ⟨-, rfl, rfl⟩ := GetRBKeyHash_inj.mp hkey
      exact ⟨h1, flat, hflat, rfl, rfl, hst⟩
    · rw [hst] at hchg
      simp [Function.update_of_ne hkey] at hchg
  · rw [hst] at hchg
    simp [Function.update_of_ne (GetRBKeyHash_ne_of_kind (a := kindCij) (b := kindEns) (by decide)
      e flat.EpochId p flat.ProposerId)] at hchg
  · exact absurd (sigShare_slot c env hsig
      (fun _ _ => GetRBKeyHash_ne_of_kind (a := kindCij) (b := sigShareId) (by decide) _ _ _ _)
      (fun _ => GetRBKeyHash_ne_GetRBRKeyHash _ _ _ _)) hchg
  · rw [hst] at hchg
    exact absurd rfl hchg

/-- A call that changes the encrypted shares of proposer `p` of epoch `e` is a `dkg2` call
accepted for them, and writes its shares there. -/
lemma rbStep_ens [DecidableEq G2] {st : RbStorage} {call : RbCall} {e : UInt64} {p : UInt32}
    (hchg : (rbStep c env st call).slots (GetRBKeyHash kindEns e p) ≠
      st.slots (GetRBKeyHash kindEns e p)) :
    call.input.take 4 = dkg2Id ∧ ∃ flat, validDkg2 c env st call.ctx (call.input.drop 4) = .ok flat ∧
      flat.EpochId = e ∧ flat.ProposerId = p ∧
      rbStep c env st call = st.set (GetRBKeyHash kindEns e p) (encodeByteSlices flat.EnShare) := by
  rcases rbStep_cases c env st call with hst | hrun
  · rw [hst] at hchg
    exact absurd rfl hchg
  rcases Run_cases c env hrun with ⟨-, flat, -, hst⟩ | ⟨h2, flat, hflat, hst⟩ | ⟨-, hsig⟩ | hst
  · rw [hst] at hchg
    simp [Function.update_of_ne (GetRBKeyHash_ne_of_kind (a := kindEns) (b := kindCij) (by decide)
      e flat.EpochId p flat.ProposerId)] at hchg
  · by_cases hkey : GetRBKeyHash kindEns e p = GetRBKeyHash kindEns flat.EpochId flat.ProposerId
    · obtain ⟨-, rfl, rfl⟩ := GetRBKeyHash_inj.mp hkey
      exact ⟨h2, flat, hflat, rfl, rfl, hst⟩
    · rw [hst] at hchg
      simp [Function.update_of_ne hkey] at hchg
  · exact absurd (sigShare_slot c env hsig
      (fun _ _ => GetRBKeyHash_ne_of_kind (a := kindEns) (b := sigShareId) (by decide) _ _ _ _)
      (fun _ => GetRBKeyHash_ne_GetRBRKeyHash _ _ _ _)) hchg
  · rw [hst] at hchg
    exact absurd rfl hchg

/-- A call that changes the signature slot of proposer `p` of epoch `e` is a `sigShare` call
whose payload `validSigShare` accepted for them. -/
lemma rbStep_sig [DecidableEq G2] {st : RbStorage} {call : RbCall} {e : UInt64} {p : UInt32}
    (hchg : (rbStep c env st call).slots (GetRBKeyHash sigShareId e p) ≠
      st.slots (GetRBKeyHash sigShareId e p)) :
    call.input.take 4 = sigShareId ∧ ∃ sp pks dkgData,
      validSigShare c env st call.ctx (call.input.drop 4) = .ok (sp, pks, dkgData) ∧
      sp.EpochId = e ∧ sp.ProposerId = p := by
  rcases rbStep_cases c env st call with hst | hrun
  · rw [hst] at hchg
    exact absurd rfl hchg
  rcases Run_cases c env hrun with ⟨-, flat, -, hst⟩ | ⟨-, flat, -, hst⟩ | ⟨h3, hsig⟩ | hst
  · rw [hst] at hchg
    simp [Function.update_of_ne (GetRBKeyHash_ne_of_kind (a := sigShareId) (b := kindCij)
      (by decide) e flat.EpochId p flat.ProposerId)] at hchg
  · rw [hst] at hchg
    simp [Function.update_of_ne (GetRBKeyHash_ne_of_kind (a := sigShareId) (b := kindEns)
      (by decide) e flat.EpochId p flat.ProposerId)] at hchg
  · obtain ⟨sp, pks, dkgData, n, hvalid, hst'⟩ := sigShare_ok c env hsig
    refine ⟨h3, sp, pks, dkgData, hvalid, ?_⟩
    by_cases hkey : GetRBKeyHash sigShareId e p = GetRBKeyHash sigShareId sp.EpochId sp.ProposerId
    · obtain ⟨-, he, hp⟩ := GetRBKeyHash_inj.mp hkey
      exact ⟨he.symm, hp.symm⟩
    · rcases hst' with hst' | ⟨r, -, hst'⟩ <;> rw [hst'] at hchg
      · simp [Function.update_of_ne hkey] at hchg
      · simp [Function.update_of_ne hkey,
          Function.update_of_ne (GetRBKeyHash_ne_GetRBRKeyHash _ _ _ _)] at hchg
  · rw [hst] at hchg
    exact absurd rfl hchg

/-! ### The stored commitments and shares -/

/-- What every storage the contract reaches keeps: a commitment or share slot that is not empty
reads back as one point per proposer of its epoch. -/
structure DkgStored (st : RbStorage) : Prop where
  cij : ∀ e p, st.slots (GetRBKeyHash kindCij e p) ≠ [] → ∃ l, GetCji c st e p = .ok (some l) ∧
    l.length = (env.GetRBProposerG1 e).length ∧ l.length ≠ 0
  ens : ∀ e p, st.slots (GetRBKeyHash kindEns e p) ≠ [] →
    ∃ l, GetEncryptShare c st e p = .ok (some l) ∧
      l.length = (env.GetRBProposerG1 e).length ∧ l.length ≠ 0

lemma DkgStored.empty : DkgStored c env RbStorage.empty :=
  ⟨fun _ _ h => absurd rfl h, fun _ _ h => absurd rfl h⟩

lemma DkgStored.step [DecidableEq G2] {st : RbStorage} (hst : DkgStored c env st)
    (call : RbCall) : DkgStored c env (rbStep c env st call) := by
  constructor
  · intro e p hne
    by_cases hchg : (rbStep c env st call).slots (GetRBKeyHash kindCij e p) =
        st.slots (GetRBKeyHash kindCij e p)
    · have hread : GetCji c (rbStep c env st call) e p = GetCji c st e p :=
        getPoints_congr _ _ _ hchg
      rw [hread]
      exact hst.cij e p (hchg ▸ hne)
    · obtain ⟨-, flat, hflat, rfl, rfl, hst'⟩ := rbStep_cij c env hchg
      obtain ⟨-, Commit, hacc⟩ := validDkg1_ok c env hflat
      have hlen : flat.Commit.length ≤ randomProperCount := by
        rw [length_of_unmarshalPoints hacc.unmarshal, ← hacc.length_Commit]
        exact env.length_GetRBProposerG1 _
      rw [hst', GetCji_set c st _ _ hacc.unmarshal hlen]
      exact ⟨Commit, rfl, hacc.length_Commit.symm, hacc.length_Commit ▸ hacc.length_pks⟩
  · intro e p hne
    by_cases hchg : (rbStep c env st call).slots (GetRBKeyHash kindEns e p) =
        st.slots (GetRBKeyHash kindEns e p)
    · have hread : GetEncryptShare c (rbStep c env st call) e p = GetEncryptShare c st e p :=
        getPoints_congr _ _ _ hchg
      rw [hread]
      exact hst.ens e p (hchg ▸ hne)
    · obtain ⟨-, flat, hflat, rfl, rfl, hst'⟩ := rbStep_ens c env hchg
      obtain ⟨-, EnShare, commit, hacc⟩ := validDkg2_ok c env hflat
      have hlen : flat.EnShare.length ≤ randomProperCount := by
        rw [length_of_unmarshalPoints hacc.unmarshal, ← hacc.lengths.1]
        exact env.length_GetRBProposerG1 _
      rw [hst', GetEncryptShare_set c st _ _ hacc.unmarshal hlen]
      exact ⟨EnShare, rfl, hacc.lengths.1.symm, hacc.lengths.1 ▸ hacc.length_pks⟩


theorem DkgStored.reachable [DecidableEq G2] (pre : List RbCall) :
    DkgStored c env (Machine.run (rbStep c env) RbStorage.empty pre) :=
  Machine.run_invariant (fun _ call hst => hst.step c env call) (DkgStored.empty c env) pre

/-- In a reachable storage a commitment slot that the reset check finds empty is empty. -/
lemma DkgStored.cij_eq_nil {st : RbStorage} (hst : DkgStored c env st) {e : UInt64} {p : UInt32}
    (h : hasDkgData (GetCji c st e p) = false) : st.slots (GetRBKeyHash kindCij e p) = [] := by
  by_contra hne
  obtain ⟨l, hl, -, hl0⟩ := hst.cij e p hne
  rw [hasDkgData_of_ok hl hl0] at h
  cases h

/-- In a reachable storage a share slot that the reset check finds empty is empty. -/
lemma DkgStored.ens_eq_nil {st : RbStorage} (hst : DkgStored c env st) {e : UInt64} {p : UInt32}
    (h : hasDkgData (GetEncryptShare c st e p) = false) :
    st.slots (GetRBKeyHash kindEns e p) = [] := by
  by_contra hne
  obtain ⟨l, hl, -, hl0⟩ := hst.ens e p hne
  rw [hasDkgData_of_ok hl hl0] at h
  cases h

/-! ### The writes -/

/-- What a call that changes the commitments of proposer `p` of epoch `e` did: the slot was
empty, the call is `dkg1` in the first stage of `e`, and the slot now reads back one commitment
per proposer of `e`, that passed the Reed–Solomon check with the call's draws at the nodes of the
proposers. -/
structure CijWrite [DecidableEq G2] (st st' : RbStorage) (call : RbCall) (e : UInt64)
    (p : UInt32) : Prop where
  empty_before : st.slots (GetRBKeyHash kindCij e p) = []
  method : call.input.take 4 = dkg1Id
  stage : isValidEpochStage e .RbDkg1Stage call.ctx.time = true
  stored : ∃ commit, GetCji c st' e p = .ok (some commit) ∧
    commit.length = (env.GetRBProposerG1 e).length ∧
    RScodeVerify c commit (polynomialXs c (env.GetRBProposerG1 e)) polymDegree call.ctx.constant
      call.ctx.rand = true

/-- What a call that changes the encrypted shares of proposer `p` of epoch `e` did: the slot was
empty, the call is `dkg2` in the second stage of `e`, the proposer's commitments were stored, and
the slot now reads back one share per commitment, each with a proof of the call's payload that
verified against the commitment. -/
structure EnsWrite (st st' : RbStorage) (call : RbCall) (e : UInt64) (p : UInt32) : Prop where
  empty_before : st.slots (GetRBKeyHash kindEns e p) = []
  method : call.input.take 4 = dkg2Id
  stage : isValidEpochStage e .RbDkg2Stage call.ctx.time = true
  stored : ∃ commit enShare flat, GetCji c st e p = .ok (some commit) ∧ commit.length ≠ 0 ∧
    env.decodeDkg2 (call.input.drop 4) = some flat ∧
    GetEncryptShare c st' e p = .ok (some enShare) ∧ enShare.length = commit.length ∧
    flat.Proof.length = commit.length ∧
    ∀ j < commit.length, VerifyDLEQ c ((flat.Proof.map (ProofFlatToProof c)).getD j
      ⟨none, none, none⟩) ((env.GetRBProposerG1 e).getD j 0) c.hbase (enShare.getD j 0)
      (commit.getD j 0) = true

/-- The proposers of epoch `e` whose commitments and encrypted shares both exist, as the checks
against a reset read them. -/
def dkgParticipants (st : RbStorage) (e : UInt64) : List ℕ :=
  (List.range (env.GetRBProposerG1 e).length).filter fun i =>
    hasDkgData (GetCji c st e (UInt32.ofNat i)) &&
      hasDkgData (GetEncryptShare c st e (UInt32.ofNat i))

/-- What a call that stores a signature share of epoch `e` did: it is `sigShare` in the signing
stage of `e`, and `RBThres` proposers of `e` had stored their commitments and shares. -/
structure SigWrite (st : RbStorage) (call : RbCall) (e : UInt64) : Prop where
  method : call.input.take 4 = sigShareId
  stage : isValidEpochStage e .RbSignStage call.ctx.time = true
  threshold : rbThres ≤ (dkgParticipants c env st e).length

lemma length_filterMap_le_filter {α β : Type} {g : α → Option β} {q : α → Bool} :
    ∀ {l : List α}, (∀ a ∈ l, (g a).isSome → q a = true) →
      (l.filterMap g).length ≤ (l.filter q).length
  | [], _ => le_refl _
  | a :: l, h => by
    have ih := length_filterMap_le_filter fun b hb => h b (List.mem_cons_of_mem a hb)
    rw [List.filterMap_cons, List.filter_cons]
    cases hga : g a with
    | none =>
      split_ifs <;> simp only [List.length_cons] <;> omega
    | some b =>
      have hq := h a List.mem_cons_self (by simp [hga])
      simp only [hq, if_true, List.length_cons]
      omega

/-- In a reachable storage every proposer whose commitments `validSigShare` collects has stored
both its commitments and its shares. -/
lemma DkgStored.length_collectDkgData_le {st : RbStorage} (hst : DkgStored c env st)
    (e : UInt64) :
    (collectDkgData c st e (env.GetRBProposerG1 e)).length ≤ (dkgParticipants c env st e).length := by
  apply length_filterMap_le_filter
  intro i _ hsome
  obtain ⟨d, hd⟩ := Option.isSome_iff_exists.mp hsome
  split_ifs at hd with hjoin
  split at hd
  next l hl =>
    have hens : st.slots (GetRBKeyHash kindEns e (UInt32.ofNat i)) ≠ [] := by
      simpa [IsJoinDKG2] using hjoin
    obtain ⟨l₁, hl₁, -, hl₁0⟩ := hst.cij e _ (getPoints_ne_nil hl)
    obtain ⟨l₂, hl₂, -, hl₂0⟩ := hst.ens e _ hens
    simp [hasDkgData_of_ok hl₁ hl₁0, hasDkgData_of_ok hl₂ hl₂0]
  next => cases hd

/-- The commitments `dkg1` writes for a payload it accepted read back as the points it checked. -/
lemma Dkg1Accepted.stored [DecidableEq G2] {st : RbStorage} {ctx : RbCtx}
    {flat : RbDKG1FlatTxPayload} {Commit : List G2} (hacc : Dkg1Accepted c env st ctx flat Commit)
    (st₀ : RbStorage) :
    GetCji c (st₀.set (GetRBKeyHash kindCij flat.EpochId flat.ProposerId)
      (encodeByteSlices flat.Commit)) flat.EpochId flat.ProposerId = .ok (some Commit) := by
  have hlen : flat.Commit.length ≤ randomProperCount := by
    rw [length_of_unmarshalPoints hacc.unmarshal, ← hacc.length_Commit]
    exact env.length_GetRBProposerG1 _
  exact GetCji_set c st₀ _ _ hacc.unmarshal hlen

/-- The shares `dkg2` writes for a payload it accepted read back as the points it checked. -/
lemma Dkg2Accepted.stored {st : RbStorage} {ctx : RbCtx} {flat : RbDKG2FlatTxPayload}
    {EnShare : List G1} {commit : List G2} (hacc : Dkg2Accepted c env st ctx flat EnShare commit)
    (st₀ : RbStorage) :
    GetEncryptShare c (st₀.set (GetRBKeyHash kindEns flat.EpochId flat.ProposerId)
      (encodeByteSlices flat.EnShare)) flat.EpochId flat.ProposerId = .ok (some EnShare) := by
  have hlen : flat.EnShare.length ≤ randomProperCount := by
    rw [length_of_unmarshalPoints hacc.unmarshal, ← hacc.lengths.1]
    exact env.length_GetRBProposerG1 _
  exact GetEncryptShare_set c st₀ _ _ hacc.unmarshal hlen

lemma DkgStored.cijWrite [DecidableEq G2] {st : RbStorage} (hst : DkgStored c env st)
    {call : RbCall} {e : UInt64} {p : UInt32}
    (hchg : (rbStep c env st call).slots (GetRBKeyHash kindCij e p) ≠
      st.slots (GetRBKeyHash kindCij e p)) :
    CijWrite c env st (rbStep c env st call) call e p := by
  obtain ⟨h1, flat, hflat, rfl, rfl, hst'⟩ := rbStep_cij c env hchg
  obtain ⟨-, Commit, hacc⟩ := validDkg1_ok c env hflat
  refine ⟨hst.cij_eq_nil c env hacc.fresh, h1, hacc.stage, Commit, ?_, hacc.length_Commit.symm,
    hacc.rscode⟩
  rw [hst']
  exact hacc.stored c env st

lemma DkgStored.ensWrite [DecidableEq G2] {st : RbStorage} (hst : DkgStored c env st)
    {call : RbCall} {e : UInt64} {p : UInt32}
    (hchg : (rbStep c env st call).slots (GetRBKeyHash kindEns e p) ≠
      st.slots (GetRBKeyHash kindEns e p)) :
    EnsWrite c env st (rbStep c env st call) call e p := by
  obtain ⟨h2, flat, hflat, rfl, rfl, hst'⟩ := rbStep_ens c env hchg
  obtain ⟨hdec, EnShare, commit, hacc⟩ := validDkg2_ok c env hflat
  obtain ⟨hlE, hlP, hlC⟩ := hacc.lengths
  refine ⟨hst.ens_eq_nil c env hacc.fresh, h2, hacc.stage, commit, EnShare, flat, hacc.committed,
    hlC ▸ hacc.length_pks, hdec, ?_, hlE.symm.trans hlC, hlP.symm.trans hlC, ?_⟩
  · rw [hst']
    exact hacc.stored c env st
  · intro j hj
    exact hacc.dleq j (hlC ▸ hj)

lemma DkgStored.sigWrite [DecidableEq G2] {st : RbStorage} (hst : DkgStored c env st)
    {call : RbCall} {e : UInt64} {p : UInt32}
    (hchg : (rbStep c env st call).slots (GetRBKeyHash sigShareId e p) ≠
      st.slots (GetRBKeyHash sigShareId e p)) :
    SigWrite c env st call e := by
  obtain ⟨h3, sp, pks, dkgData, hvalid, rfl, -⟩ := rbStep_sig c env hchg
  obtain ⟨-, rfl, -, hacc⟩ := validSigShare_ok c env hvalid
  exact ⟨h3, hacc.stage, hacc.threshold.trans (hst.length_collectDkgData_le c env _)⟩

/-- A commitment slot changes only from empty to a value that reads back. -/
lemma DkgStored.cij_blank [DecidableEq G2] {st : RbStorage} (hst : DkgStored c env st)
    {call : RbCall} {e : UInt64} {p : UInt32}
    (hchg : (rbStep c env st call).slots (GetRBKeyHash kindCij e p) ≠
      st.slots (GetRBKeyHash kindCij e p)) :
    st.slots (GetRBKeyHash kindCij e p) = [] ∧
      (rbStep c env st call).slots (GetRBKeyHash kindCij e p) ≠ [] := by
  have hw := hst.cijWrite c env hchg
  obtain ⟨commit, hread, -⟩ := hw.stored
  exact ⟨hw.empty_before, getPoints_ne_nil hread⟩

/-- A share slot changes only from empty to a value that reads back. -/
lemma DkgStored.ens_blank [DecidableEq G2] {st : RbStorage} (hst : DkgStored c env st)
    {call : RbCall} {e : UInt64} {p : UInt32}
    (hchg : (rbStep c env st call).slots (GetRBKeyHash kindEns e p) ≠
      st.slots (GetRBKeyHash kindEns e p)) :
    st.slots (GetRBKeyHash kindEns e p) = [] ∧
      (rbStep c env st call).slots (GetRBKeyHash kindEns e p) ≠ [] := by
  have hw := hst.ensWrite c env hchg
  obtain ⟨commit, enShare, flat, -, -, -, hread, -⟩ := hw.stored
  exact ⟨hw.empty_before, getPoints_ne_nil hread⟩

/-- The store of the key generation, over every run of calls from the empty storage: a call that
changes the commitments or the encrypted shares of a proposer of an epoch wrote them into an
empty slot, in their stage, with what the checks accepted; a call that stores a signature share
of an epoch came when `RBThres` proposers of the epoch had both; and a commitment or share slot,
once changed, is changed by no later call. -/
theorem dkgStore_writes [DecidableEq G2] (pre : List RbCall) (call : RbCall) (e : UInt64)
    (p : UInt32) :
    let st := Machine.run (rbStep c env) RbStorage.empty pre
    let st' := rbStep c env st call
    (st'.slots (GetRBKeyHash kindCij e p) ≠ st.slots (GetRBKeyHash kindCij e p) →
      CijWrite c env st st' call e p) ∧
    (st'.slots (GetRBKeyHash kindEns e p) ≠ st.slots (GetRBKeyHash kindEns e p) →
      EnsWrite c env st st' call e p) ∧
    (st'.slots (GetRBKeyHash sigShareId e p) ≠ st.slots (GetRBKeyHash sigShareId e p) →
      SigWrite c env st call e) ∧
    ∀ (mid : List RbCall) (call' : RbCall),
      (st'.slots (GetRBKeyHash kindCij e p) ≠ st.slots (GetRBKeyHash kindCij e p) →
        (rbStep c env (Machine.run (rbStep c env) st' mid) call').slots
            (GetRBKeyHash kindCij e p) =
          (Machine.run (rbStep c env) st' mid).slots (GetRBKeyHash kindCij e p)) ∧
      (st'.slots (GetRBKeyHash kindEns e p) ≠ st.slots (GetRBKeyHash kindEns e p) →
        (rbStep c env (Machine.run (rbStep c env) st' mid) call').slots
            (GetRBKeyHash kindEns e p) =
          (Machine.run (rbStep c env) st' mid).slots (GetRBKeyHash kindEns e p)) := by
  intro st st'
  have hst : DkgStored c env st := DkgStored.reachable c env pre
  have hR : ∀ s a, DkgStored c env s → DkgStored c env (rbStep c env s a) :=
    fun _ a hs => hs.step c env a
  refine ⟨hst.cijWrite c env, hst.ensWrite c env, hst.sigWrite c env,
    fun mid call' => ⟨fun hchg => ?_, fun hchg => ?_⟩⟩
  · -- the slot was blank before the change and is not after, and every step keeps the invariant
    exact Machine.run_changes_once (f := fun s => s.slots (GetRBKeyHash kindCij e p)) hR
      (fun _ _ hs hchg => hs.cij_blank c env hchg) hst hchg mid call'
  · exact Machine.run_changes_once (f := fun s => s.slots (GetRBKeyHash kindEns e p)) hR
      (fun _ _ hs hchg => hs.ens_blank c env hchg) hst hchg mid call'

/-- Proposer `p`'s polynomial in the round run on `seventeenEnv`: `(2p + 1) x + (p + 3)`. -/
def seventeenPoly (p : ℕ) (x : ZMod 17) : ZMod 17 :=
  ((2 * p + 1 : ℕ) : ZMod 17) * x + ((p + 3 : ℕ) : ZMod 17)

/-- Fifteen proposers of key `1` over `seventeenCurve`, each registered under its key, from
epoch 0. A `dkg1` or `dkg2` payload is the proposer's index, and decodes to what proposer `p` of
polynomial `seventeenPoly p` sends in epoch 0, with nonces `p + j + 1`; a `sigShare` payload is
the index and the share. -/
def seventeenEnv : RbEnv (ZMod 17) where
  GetRBProposerG1 _ := List.replicate 15 1
  length_GetRBProposerG1 _ := by simp [randomProperCount]
  GetProposerBn256PK _ _ _ := some (seventeenCurve.MarshalG1 1)
  decodeDkg1
    | [p] => some ⟨0, UInt32.ofNat p.toNat,
        (polynomialXs seventeenCurve (List.replicate 15 1)).map fun x : ℤ =>
          seventeenCurve.MarshalG2 ((seventeenPoly p.toNat x).val • seventeenCurve.hbase)⟩
    | _ => none
  decodeDkg2
    | [p] => some ⟨0, UInt32.ofNat p.toNat,
        (List.range 15).map (fun j => seventeenCurve.MarshalG1
          (((seventeenPoly p.toNat ((polynomialXs seventeenCurve (List.replicate 15 1)).getD j 0)).val
            : ℤ) • (List.replicate 15 (1 : ZMod 17)).getD j 0)),
        (List.range 15).map fun j => DLEQflat seventeenCurve
          ((List.replicate 15 (1 : ZMod 17)).getD j 0) seventeenCurve.hbase
          ((seventeenPoly p.toNat ((polynomialXs seventeenCurve (List.replicate 15 1)).getD j 0)).val
            : ℤ) (p.toNat + j + 1)⟩
    | _ => none
  decodeSig
    | [p, s] => some ⟨0, UInt32.ofNat p.toNat, (s.toNat : ZMod 17)⟩
    | _ => none
  FirstEpochId := 0
  MercuryEpochId := 0

set_option maxRecDepth 10000 in
/-- Proposer 0's `dkg1` call in the first slot of epoch 0 writes its commitments, so it passed
every check; no later call changes them. -/
theorem dkgStore_writes_seventeen :
    (rbStep seventeenCurve seventeenEnv RbStorage.empty ⟨⟨0, 0, 0, fun _ => 0⟩, dkg1Id ++ [0]⟩).slots
        (GetRBKeyHash kindCij 0 0) ≠ RbStorage.empty.slots (GetRBKeyHash kindCij 0 0) ∧
      CijWrite seventeenCurve seventeenEnv RbStorage.empty
        (rbStep seventeenCurve seventeenEnv RbStorage.empty ⟨⟨0, 0, 0, fun _ => 0⟩, dkg1Id ++ [0]⟩)
        ⟨⟨0, 0, 0, fun _ => 0⟩, dkg1Id ++ [0]⟩ 0 0 ∧
      ∀ (mid : List RbCall) (call' : RbCall),
        (rbStep seventeenCurve seventeenEnv (Machine.run (rbStep seventeenCurve seventeenEnv)
          (rbStep seventeenCurve seventeenEnv RbStorage.empty ⟨⟨0, 0, 0, fun _ => 0⟩, dkg1Id ++ [0]⟩)
            mid) call').slots (GetRBKeyHash kindCij 0 0) =
          (Machine.run (rbStep seventeenCurve seventeenEnv) (rbStep seventeenCurve seventeenEnv
            RbStorage.empty ⟨⟨0, 0, 0, fun _ => 0⟩, dkg1Id ++ [0]⟩) mid).slots
            (GetRBKeyHash kindCij 0 0) := by
  have hchg : (rbStep seventeenCurve seventeenEnv RbStorage.empty
      ⟨⟨0, 0, 0, fun _ => 0⟩, dkg1Id ++ [0]⟩).slots (GetRBKeyHash kindCij 0 0) ≠
        RbStorage.empty.slots (GetRBKeyHash kindCij 0 0) := by
    decide +kernel
  have hw := dkgStore_writes seventeenCurve seventeenEnv [] ⟨⟨0, 0, 0, fun _ => 0⟩, dkg1Id ++ [0]⟩
    0 0
  exact ⟨hchg, hw.1 hchg, fun mid call' => (hw.2.2.2 mid call').1 hchg⟩

end Wanchain.RandomBeacon
