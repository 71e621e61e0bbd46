import Wanchain.RandomBeacon.Store

/-!
# The random of the next epoch

`sigShare` stores the next epoch's random once `computeRandom` accepts: it interpolates the
group signature from the stored signature shares, on nodes it does not reduce, and checks it by
a pairing against the group key, which it interpolates from the commitments on the reduced
nodes. The check alone fixes what is stored. When the committing proposers' commitments are the
values at the nodes of polynomials of degree at most `PolymDegree`, the group key is the
multiple of `hbase` by the sum of their values at zero (`groupKey_eq`); a pairing with `hbase`
tells points apart (`Pair_hbase_inj`), so the group signature is the same multiple of `m • gbase`,
whichever shares were stored. A random once stored, other than zero, is never replaced
(`GetStateR_rbStep`). Both make `random_agreement`.

Its premises are met by an honest round (`HonestRound.stores_random`): `RBThres` proposers that
commit to such polynomials, send their values encrypted under the proposers' keys with honest
DLEQ proofs, and then their shares of the group signature, pass every check, one call after
another, and the share that reaches the threshold stores the random.
-/

namespace Wanchain.RandomBeacon

open Finset

variable {G1 G2 GT : Type} [AddCommGroup G1] [AddCommGroup G2] [AddCommGroup GT]
  (c : Bn256 G1 G2 GT) (env : RbEnv G1)

/-! ### The pairing -/

lemma Pair_nsmul_left (k : ℕ) (P : G1) (Q : G2) : c.Pair (k • P) Q = k • c.Pair P Q :=
  map_nsmul (AddMonoidHom.mk' (fun P => c.Pair P Q) fun P P' => c.Pair_add_left P P' Q) k P

lemma Pair_nsmul_right (k : ℕ) (P : G1) (Q : G2) : c.Pair P (k • Q) = k • c.Pair P Q :=
  map_nsmul (AddMonoidHom.mk' (fun Q => c.Pair P Q) fun Q Q' => c.Pair_add_right P Q Q') k Q

/-- Pairing with `hbase` tells points of `G1` apart: `hbase` generates `G2` and the pairing is
non-degenerate. -/
lemma Pair_hbase_inj {P P' : G1} (h : c.Pair P c.hbase = c.Pair P' c.hbase) : P = P' := by
  have hsub : c.Pair (P - P') c.hbase = 0 := by
    have hadd := c.Pair_add_left (P - P') P' c.hbase
    rw [sub_add_cancel, h] at hadd
    exact add_eq_right.mp hadd.symm
  rw [← sub_eq_zero]
  apply c.Pair_nondegenerate
  intro Q
  obtain ⟨k, rfl⟩ := c.hbase_generates Q
  rw [Pair_nsmul_right, hsub, smul_zero]

/-! ### The group key -/

/-- Multiples of one point by residues add up to the multiple by their sum. -/
lemma sum_val_nsmul {G : Type} [AddCommGroup G] (hG : ∀ P : G, c.Order • P = 0)
    (as : List (ZMod c.Order)) (H : G) : (as.map fun a => a.val • H).sum = as.sum.val • H := by
  induction as with
  | nil => simp
  | cons a as ih =>
    rw [List.map_cons, List.sum_cons, ih, List.sum_cons, ← add_nsmul, ZMod.val_add]
    exact CurveGroup.nsmul_mod hG _ H

/-- Shares that are, mod `Order`, the values of a polynomial of degree at most `d` at `d + 1`
nodes distinct mod `Order`, as multiples of one point, interpolate at zero to the multiple by
its value at zero. -/
lemma scalarMultSum_eval {G : Type} [AddCommGroup G] (hG : ∀ P : G, c.Order • P = 0) {d : ℕ}
    {x : List ℤ} (hx : d + 1 ≤ x.length)
    (hdist : (x.take (d + 1)).Pairwise fun a b => ¬ a ≡ b [ZMOD c.Order])
    {p : Polynomial (ZMod c.Order)} (hp : p.natDegree ≤ d) {s : List ℤ}
    (hs : ∀ i < d + 1, (s.getD i 0 : ZMod c.Order) = p.eval (x.getD i 0 : ZMod c.Order)) (M : G) :
    scalarMultSum (s.map (· • M)) (evaluateB c x d) (d + 1) = (p.eval 0).val • M := by
  have hLag := Lagrange_eq_coeff_zero c hx hdist hp hs
  rw [Polynomial.coeff_zero_eq_eval_zero, ← ZMod.natCast_zmod_val (p.eval 0), ← Int.cast_natCast,
    ZMod.intCast_eq_intCast_iff] at hLag
  rw [scalarMultSum_evaluateB_map_smul c hG, CurveGroup.zsmul_eq_of_modEq hG hLag, natCast_zsmul]

/-- Interpolating at zero the multiples of one point by the values of a polynomial of degree at
most `d` at `d + 1` nodes distinct mod `Order` gives the multiple by its value at zero. -/
lemma LagrangePub_eval {d : ℕ} {x : List ℤ} (hx : d + 1 ≤ x.length)
    (hdist : (x.take (d + 1)).Pairwise fun a b => ¬ a ≡ b [ZMOD c.Order])
    {p : Polynomial (ZMod c.Order)} (hp : p.natDegree ≤ d) (H : G2) :
    LagrangePub c ((List.range x.length).map fun i =>
      (p.eval (x.getD i 0 : ZMod c.Order)).val • H) x d = (p.eval 0).val • H := by
  set s := (List.range x.length).map fun i => ((p.eval (x.getD i 0 : ZMod c.Order)).val : ℤ)
  have hshares : ((List.range x.length).map fun i =>
      (p.eval (x.getD i 0 : ZMod c.Order)).val • H) = s.map (· • H) := by
    simp only [s, List.map_map]
    exact List.map_congr_left fun i _ => (natCast_zsmul H _).symm
  -- the share at a node is the value there
  have hs : ∀ i < d + 1, (s.getD i 0 : ZMod c.Order) = p.eval (x.getD i 0 : ZMod c.Order) := by
    intro i hi
    simp [s, List.getElem?_range (show i < x.length by omega)]
  rw [hshares, LagrangePub]
  exact scalarMultSum_eval c c.Order_smul_G2 hx hdist hp hs H

/-- The proposers whose commitments `validSigShare` collects: those that stored their encrypted
shares and whose commitments read back. -/
def dkgIds (st : RbStorage) (e : UInt64) : List ℕ :=
  (List.range (env.GetRBProposerG1 e).length).filter fun id =>
    IsJoinDKG2 st e (UInt32.ofNat id) && (GetCji c st e (UInt32.ofNat id)).toOption.join.isSome

lemma filterMap_eq_map_filter_of {α β : Type} {g : α → Option β} {q : α → Bool} {h : α → β} :
    ∀ {l : List α}, (∀ a ∈ l, g a = if q a then some (h a) else none) →
      l.filterMap g = (l.filter q).map h
  | [], _ => rfl
  | a :: l, hg => by
    have ih := filterMap_eq_map_filter_of fun b hb => hg b (List.mem_cons_of_mem a hb)
    rw [List.filterMap_cons, List.filter_cons, hg a List.mem_cons_self]
    cases q a <;> simp [ih]

/-- `validSigShare` collects at most one entry per proposer. -/
lemma length_collectDkgData_le (st : RbStorage) (e : UInt64) (pks : List G1) :
    (collectDkgData c st e pks).length ≤ pks.length := by
  unfold collectDkgData
  exact (List.length_filterMap_le _ _).trans (List.length_range ..).le

/-- Given the commitments `cij j` that the proposers of `dkgIds` stored, the data
`validSigShare` collects is theirs, in proposer order. -/
lemma collectDkgData_eq {st : RbStorage} {e : UInt64} {cij : ℕ → List G2}
    (hcij : ∀ j ∈ dkgIds c env st e, GetCji c st e (UInt32.ofNat j) = .ok (some (cij j))) :
    collectDkgData c st e (env.GetRBProposerG1 e) =
      (dkgIds c env st e).map fun j => (cij j, (env.GetRBProposerG1 e).getD j 0) := by
  unfold collectDkgData
  apply filterMap_eq_map_filter_of
  intro j hj
  by_cases hq : (IsJoinDKG2 st e (UInt32.ofNat j) &&
      (GetCji c st e (UInt32.ofNat j)).toOption.join.isSome) = true
  · have hmem : j ∈ dkgIds c env st e := List.mem_filter.mpr ⟨hj, hq⟩
    rw [if_pos hq, if_pos (Bool.and_eq_true_iff.mp hq).1, hcij j hmem]
  · rw [if_neg hq]
    split_ifs with hjoin
    · rw [hjoin, Bool.true_and] at hq
      split
      next l hl => simp [hl, Except.toOption] at hq
      next => rfl
    · rfl

/-- The group key `computeRandom` checks against. When the proposers of `dkgIds` stored as their
commitments the multiples of `hbase` by the values of polynomials `f j` of degree at most
`PolymDegree` at the nodes, distinct mod `Order`, of at least `PolymDegree + 1` proposers, it is
the multiple of `hbase` by the sum of the polynomials' values at zero. -/
lemma groupKey_eq {st : RbStorage} {e : UInt64} {f : ℕ → Polynomial (ZMod c.Order)}
    (hf : ∀ j ∈ dkgIds c env st e, (f j).natDegree ≤ polymDegree ∧
      GetCji c st e (UInt32.ofNat j) = .ok (some ((polynomialXs c (env.GetRBProposerG1 e)).map
        fun x : ℤ => ((f j).eval (x : ZMod c.Order)).val • c.hbase)))
    (hn : polymDegree + 1 ≤ (env.GetRBProposerG1 e).length)
    (hdist : (polynomialXs c (env.GetRBProposerG1 e)).Pairwise
      fun a b => ¬ a ≡ b [ZMOD c.Order]) :
    LagrangePub c ((List.range (env.GetRBProposerG1 e).length).map fun i =>
        (collectDkgData c st e (env.GetRBProposerG1 e)).foldl (fun g d => g + d.1.getD i 0) 0)
      (polynomialXs c (env.GetRBProposerG1 e)) polymDegree =
      (((dkgIds c env st e).map fun j => (f j).eval 0).sum).val • c.hbase := by
  set pks := env.GetRBProposerG1 e
  set xs := polynomialXs c pks
  set F := ((dkgIds c env st e).map f).sum
  have hxs : xs.length = pks.length := by simp [xs, polynomialXs]
  -- each proposer's entry of the group key is the multiple by the value of the sum at its node
  have hentry : ∀ i < pks.length,
      (collectDkgData c st e pks).foldl (fun g d => g + d.1.getD i 0) 0 =
        (F.eval (xs.getD i 0 : ZMod c.Order)).val • c.hbase := by
    intro i hi
    have hi' : i < xs.length := hxs ▸ hi
    rw [collectDkgData_eq c env fun j hj => (hf j hj).2, List.foldl_map,
      Interpolation.foldl_add_eq_sum_map, zero_add, Polynomial.eval_listSum, List.map_map,
      ← sum_val_nsmul c c.Order_smul_G2, List.map_map]
    refine congrArg List.sum (List.map_congr_left fun j _ => ?_)
    simp [List.getElem?_map, List.getElem?_eq_getElem hi']
  have hF : F.natDegree ≤ polymDegree :=
    Interpolation.natDegree_list_sum_le fun p hp => by
      obtain ⟨j, hj, rfl⟩ := List.mem_map.mp hp
      exact (hf j hj).1
  have hcs : ((List.range pks.length).map fun i =>
      (collectDkgData c st e pks).foldl (fun g d => g + d.1.getD i 0) 0) =
      (List.range xs.length).map fun i => (F.eval (xs.getD i 0 : ZMod c.Order)).val • c.hbase := by
    rw [hxs]
    exact List.map_congr_left fun i hi => hentry i (List.mem_range.mp hi)
  rw [hcs, LagrangePub_eval c (hxs ▸ hn) (hdist.sublist (List.take_sublist _ _)) hF,
    Polynomial.eval_listSum, List.map_map]
  rfl

/-! ### The stored random -/

lemma GetRBRKeyHash_inj {a b : UInt64} : GetRBRKeyHash a = GetRBRKeyHash b ↔ a = b := by
  refine ⟨fun h => ?_, fun h => h ▸ rfl⟩
  obtain ⟨-, h₂⟩ := List.append_inj h (by simp)
  exact UIntToByteSlice_inj.mp h₂

lemma GetStateR_congr {st st' : RbStorage} {e : UInt64}
    (h : st'.slots (GetRBRKeyHash e) = st.slots (GetRBRKeyHash e)) :
    GetStateR c env st' e = GetStateR c env st e := by
  simp only [GetStateR, h]

lemma GetRBM_congr {st st' : RbStorage}
    (h : ∀ e, st'.slots (GetRBRKeyHash e) = st.slots (GetRBRKeyHash e)) (e : UInt64) :
    GetRBM c env st' e = GetRBM c env st e := by
  simp only [GetRBM, GetR, GetStateR_congr c env (h _)]

/-- A call that changes the random slot of epoch `e'` is a `sigShare` call of the epoch before,
whose `computeRandom`, run on a storage that holds the same randoms, gave the value written. -/
lemma rbStep_r [DecidableEq G2] {st : RbStorage} {call : RbCall} {e' : UInt64}
    (hchg : (rbStep c env st call).slots (GetRBRKeyHash e') ≠ st.slots (GetRBRKeyHash e')) :
    ∃ sp pks dkgData st₁ r,
      validSigShare c env st call.ctx (call.input.drop 4) = .ok (sp, pks, dkgData) ∧
      sp.EpochId + 1 = e' ∧ (∀ e, st₁.slots (GetRBRKeyHash e) = st.slots (GetRBRKeyHash e)) ∧
      computeRandom c env st₁ sp.EpochId dkgData pks = .ok r ∧
      (rbStep c env st call).slots (GetRBRKeyHash e') = bigBytes r := by
  rcases rbStep_cases c env st call with hst | hrun
  · rw [hst] at hchg
    exact absurd rfl hchg
  rcases Run_cases c env hrun with ⟨-, flat, -, hst⟩ | ⟨-, flat, -, hst⟩ | ⟨-, hsig⟩ | hst
  · rw [hst] at hchg
    simp [Function.update_of_ne (GetRBKeyHash_ne_GetRBRKeyHash _ _ _ _).symm] at hchg
  · rw [hst] at hchg
    simp [Function.update_of_ne (GetRBKeyHash_ne_GetRBRKeyHash _ _ _ _).symm] at hchg
  · obtain ⟨sp, pks, dkgData, n, hvalid, hst | ⟨r, hr, hst⟩⟩ := sigShare_ok c env hsig
    · rw [hst] at hchg
      simp [Function.update_of_ne (GetRBKeyHash_ne_GetRBRKeyHash _ _ _ _).symm] at hchg
    · -- the count and the signature payload are written outside the random slots
      have hR : ∀ e, (setSignorsNum (st.set (GetRBKeyHash sigShareId sp.EpochId sp.ProposerId)
          (call.input.drop 4)) sp.EpochId n).slots (GetRBRKeyHash e) =
          st.slots (GetRBRKeyHash e) := fun e => by
        simp [Function.update_of_ne (GetRBKeyHash_ne_GetRBRKeyHash _ _ _ _).symm]
      by_cases hkey : GetRBRKeyHash e' = GetRBRKeyHash (sp.EpochId + 1)
      · refine ⟨sp, pks, dkgData, _, r, hvalid, (GetRBRKeyHash_inj.mp hkey).symm, hR, hr, ?_⟩
        rw [hst, hkey]
        simp
      · rw [hst] at hchg
        simp only [RbStorage.set_slots, Function.update_of_ne hkey] at hchg
        exact absurd (hR e') hchg
  · rw [hst] at hchg
    exact absurd rfl hchg

/-- A random stored for an epoch, other than zero, stays: `computeRandom` computes none while
it reads one. -/
lemma GetStateR_rbStep [DecidableEq G2] {st : RbStorage} {e : UInt64} {r : ℕ}
    (hr : GetStateR c env st e = some r) (hr0 : r ≠ 0) (call : RbCall) :
    GetStateR c env (rbStep c env st call) e = some r := by
  by_cases hchg : (rbStep c env st call).slots (GetRBRKeyHash e) = st.slots (GetRBRKeyHash e)
  · rw [GetStateR_congr c env hchg, hr]
  · obtain ⟨sp, pks, dkgData, st₁, r', -, rfl, hR, hcomp, -⟩ := rbStep_r c env hchg
    have hnone := (computeRandom_ok c env hcomp).1
    rw [GetStateR_congr c env (hR _), hr] at hnone
    simp [hr0] at hnone

/-! ### An honest round

The premises of `random_agreement` are met by a round in which proposers commit to polynomials
of degree at most `PolymDegree` and send what they committed to. The storage during the round
is described by the proposers whose calls of each method ran (`HonestRound.Stored`); each call of
an honest proposer passes its checks and extends it (`Stored.step1`, `Stored.step2`,
`Stored.step3`), and the share that reaches `RBThres` stores the random (`Stored.last`). -/

/-- The members of a list of distinct indices below `n`, in increasing order. -/
lemma filter_mem_range_perm {l : List ℕ} {n : ℕ} (hl : l.Nodup) (hlt : ∀ a ∈ l, a < n) :
    ((List.range n).filter (· ∈ l)).Perm l := by
  refine (List.perm_ext_iff_of_nodup (List.nodup_range.filter _) hl).mpr fun a => ?_
  simp only [List.mem_filter, List.mem_range, decide_eq_true_eq]
  exact ⟨fun ha => ha.2, fun ha => ⟨hlt a ha, ha⟩⟩

/-- The node of a proposer is its hash reduced mod `Order`. -/
lemma getD_polynomialXs {pks : List G1} {id : ℕ} (hid : id < pks.length) :
    (polynomialXs c pks).getD id 0 =
      (setBytes (GetPolynomialX c (pks.getD id 0) (UInt32.ofNat id)) : ℤ) % c.Order := by
  simp [polynomialXs, List.getD_eq_getElem?_getD, List.getElem?_range hid]

/-- An honest round of an epoch: the proposers that take part, the polynomials of their
secrets, the nonces of their DLEQ proofs, and the payload and context of each of their three
calls. -/
structure HonestRound where
  epoch : UInt64
  ids : List ℕ
  f : ℕ → Polynomial (ZMod c.Order)
  nonce : ℕ → ℕ → ℤ
  payload1 : ℕ → Bytes
  payload2 : ℕ → Bytes
  payload3 : ℕ → Bytes
  ctx1 : ℕ → RbCtx
  ctx2 : ℕ → RbCtx
  ctx3 : ℕ → RbCtx

namespace HonestRound

variable {c} (h : HonestRound c)

/-- The commitments of proposer `p`: its polynomial's values at the nodes, times `hbase`. -/
noncomputable def commit (p : ℕ) : List G2 :=
  (polynomialXs c (env.GetRBProposerG1 h.epoch)).map fun x : ℤ =>
    ((h.f p).eval (x : ZMod c.Order)).val • c.hbase

/-- The value of proposer `p`'s polynomial at the node of proposer `j`. -/
noncomputable def value (p j : ℕ) : ℤ :=
  (((h.f p).eval ((polynomialXs c (env.GetRBProposerG1 h.epoch)).getD j 0 : ZMod c.Order)).val : ℤ)

/-- The encrypted shares of proposer `p`: the values times the proposers' keys. -/
noncomputable def enShare (p : ℕ) : List G1 :=
  (List.range (env.GetRBProposerG1 h.epoch).length).map fun j =>
    h.value env p j • (env.GetRBProposerG1 h.epoch).getD j 0

/-- The payload of proposer `p`'s `dkg1` call. -/
noncomputable def dkg1Payload (p : ℕ) : RbDKG1FlatTxPayload :=
  ⟨h.epoch, UInt32.ofNat p, (h.commit env p).map c.MarshalG2⟩

/-- The payload of proposer `p`'s `dkg2` call, with one proof of `DLEQ` per proposer. -/
noncomputable def dkg2Payload (p : ℕ) : RbDKG2FlatTxPayload :=
  ⟨h.epoch, UInt32.ofNat p, (h.enShare env p).map c.MarshalG1,
    (List.range (env.GetRBProposerG1 h.epoch).length).map fun j =>
      DLEQflat c ((env.GetRBProposerG1 h.epoch).getD j 0) c.hbase (h.value env p j) (h.nonce p j)⟩

/-- The group secret: the sum of the proposers' polynomials. -/
noncomputable def secret : Polynomial (ZMod c.Order) := (h.ids.map h.f).sum

/-- The payload of proposer `p`'s `sigShare` call: its share of the group secret times
`m • gbase`, `m` the message of the epoch. -/
noncomputable def sigPayload (p : ℕ) : RbSIGTxPayload G1 :=
  ⟨h.epoch, UInt32.ofNat p,
    (h.secret.eval ((polynomialXs c (env.GetRBProposerG1 h.epoch)).getD p 0 : ZMod c.Order)).val •
      ((setBytes (GetRBM c env RbStorage.empty h.epoch) : ℤ) • c.gbase)⟩

def call1 (p : ℕ) : RbCall := ⟨h.ctx1 p, dkg1Id ++ h.payload1 p⟩
def call2 (p : ℕ) : RbCall := ⟨h.ctx2 p, dkg2Id ++ h.payload2 p⟩
def call3 (p : ℕ) : RbCall := ⟨h.ctx3 p, sigShareId ++ h.payload3 p⟩

/-- The round up to the last share before the threshold: every `dkg1` call, every `dkg2` call,
and the `sigShare` calls of the first `PolymDegree` proposers. -/
def calls : List RbCall :=
  h.ids.map h.call1 ++ h.ids.map h.call2 ++ (h.ids.take polymDegree).map h.call3

/-- The `sigShare` call that reaches the threshold. -/
def lastCall : RbCall := h.call3 (h.ids.getD polymDegree 0)

/-- What an honest round needs of the epoch and of its calls: at least `RBThres` distinct
proposers of the epoch, more than `PolymDegree + 2` proposers in all with nodes distinct mod
`Order`, polynomials of degree at most `PolymDegree`, no random fixed for the next epoch, and
calls whose payloads decode to what the proposers send, made in their stages by the proposers'
registered accounts. -/
structure Valid : Prop where
  nodup : h.ids.Nodup
  lt : ∀ p ∈ h.ids, p < (env.GetRBProposerG1 h.epoch).length
  threshold : rbThres ≤ h.ids.length
  many : polymDegree + 2 < (env.GetRBProposerG1 h.epoch).length
  distinct : (polynomialXs c (env.GetRBProposerG1 h.epoch)).Pairwise
    fun a b => ¬ a ≡ b [ZMOD c.Order]
  degree : ∀ p ∈ h.ids, (h.f p).natDegree ≤ polymDegree
  next : h.epoch + 1 ≠ env.FirstEpochId
  decode1 : ∀ p ∈ h.ids, env.decodeDkg1 (h.payload1 p) = some (h.dkg1Payload env p)
  decode2 : ∀ p ∈ h.ids, env.decodeDkg2 (h.payload2 p) = some (h.dkg2Payload env p)
  decode3 : ∀ p ∈ h.ids, env.decodeSig (h.payload3 p) = some (h.sigPayload env p)
  sent3 : ∀ p ∈ h.ids, h.payload3 p ≠ []
  stage1 : ∀ p ∈ h.ids, isValidEpochStage h.epoch .RbDkg1Stage (h.ctx1 p).time = true
  stage2 : ∀ p ∈ h.ids, isValidEpochStage h.epoch .RbDkg2Stage (h.ctx2 p).time = true
  stage3 : ∀ p ∈ h.ids, isValidEpochStage h.epoch .RbSignStage (h.ctx3 p).time = true
  group1 : ∀ p ∈ h.ids, isInRandomGroup c env (env.GetRBProposerG1 h.epoch) h.epoch
    (UInt32.ofNat p) (h.ctx1 p).caller = true
  group2 : ∀ p ∈ h.ids, isInRandomGroup c env (env.GetRBProposerG1 h.epoch) h.epoch
    (UInt32.ofNat p) (h.ctx2 p).caller = true
  group3 : ∀ p ∈ h.ids, isInRandomGroup c env (env.GetRBProposerG1 h.epoch) h.epoch
    (UInt32.ofNat p) (h.ctx3 p).caller = true

/-- The storage during the round, once the proposers of `d1` made their `dkg1` calls, those of
`d2` their `dkg2` calls and those of `d3` their `sigShare` calls: each slot of a proposer of the
epoch holds what its call wrote or nothing, no random is stored, and the signer count is the
number of shares. -/
structure Stored (st : RbStorage) (d1 d2 d3 : List ℕ) : Prop where
  cij : ∀ p < (env.GetRBProposerG1 h.epoch).length,
    st.slots (GetRBKeyHash kindCij h.epoch (UInt32.ofNat p)) =
      if p ∈ d1 then encodeByteSlices ((h.commit env p).map c.MarshalG2) else []
  ens : ∀ p < (env.GetRBProposerG1 h.epoch).length,
    st.slots (GetRBKeyHash kindEns h.epoch (UInt32.ofNat p)) =
      if p ∈ d2 then encodeByteSlices ((h.enShare env p).map c.MarshalG1) else []
  sig : ∀ p < (env.GetRBProposerG1 h.epoch).length,
    st.slots (GetRBKeyHash sigShareId h.epoch (UInt32.ofNat p)) =
      if p ∈ d3 then h.payload3 p else []
  rand : ∀ e, st.slots (GetRBRKeyHash e) = []
  signors : getSignorsNum st h.epoch = UInt32.ofNat d3.length


/-! #### Reading the storage during the round -/

lemma empty_stored (h : HonestRound c) : h.Stored env RbStorage.empty [] [] [] :=
  ⟨fun _ _ => rfl, fun _ _ => rfl, fun _ _ => rfl, fun _ => rfl, rfl⟩

variable {env} {h}

lemma Valid.length_pos (hv : h.Valid env) : (env.GetRBProposerG1 h.epoch).length ≠ 0 := by
  have := hv.many
  omega

@[simp] lemma length_commit (p : ℕ) :
    (h.commit env p).length = (env.GetRBProposerG1 h.epoch).length := by
  simp [commit, polynomialXs]

lemma Valid.natDegree_secret (hv : h.Valid env) : h.secret.natDegree ≤ polymDegree :=
  Interpolation.natDegree_list_sum_le fun q hq => by
    obtain ⟨j, hj, rfl⟩ := List.mem_map.mp hq
    exact hv.degree j hj

/-- The commitments a proposer stored read back. -/
lemma Stored.GetCji_eq {st : RbStorage} {d1 d2 d3 : List ℕ} (hs : h.Stored env st d1 d2 d3)
    {p : ℕ} (hp : p < (env.GetRBProposerG1 h.epoch).length) (hin : p ∈ d1) :
    GetCji c st h.epoch (UInt32.ofNat p) = .ok (some (h.commit env p)) :=
  GetCji_of_slot c (by rw [hs.cij p hp, if_pos hin])
    (by rw [length_commit]; exact env.length_GetRBProposerG1 _)

/-- The share of proposer `p` stored and counted. -/
lemma Stored.sigWrite {st : RbStorage} {d1 d2 d3 : List ℕ} (hs : h.Stored env st d1 d2 d3) {p : ℕ}
    (hp : p < (env.GetRBProposerG1 h.epoch).length) :
    h.Stored env (setSignorsNum (st.set (GetRBKeyHash sigShareId h.epoch (UInt32.ofNat p))
      (h.payload3 p)) h.epoch (getSignorsNum st h.epoch + 1)) d1 d2 (d3 ++ [p]) := by
  refine ⟨fun q hq => ?_, fun q hq => ?_, fun q hq => ?_, fun e => ?_, ?_⟩
  · rw [setSignorsNum_slots, slots_set_of_kind (by decide)]
    exact hs.cij q hq
  · rw [setSignorsNum_slots, slots_set_of_kind (by decide)]
    exact hs.ens q hq
  · rw [setSignorsNum_slots]
    exact slots_set_family (length_GetRBProposerG1_lt env _).le h.payload3 hs.sig hp q hq
  · rw [setSignorsNum_slots, slots_set_rand]
    exact hs.rand e
  · rw [getSignorsNum_setSignorsNum, hs.signors, List.length_append, List.length_singleton,
      UInt32_ofNat_add_one]

/-- The count of shares after `d3` plus one, below `2^32`. -/
lemma Stored.count_succ {st : RbStorage} {d1 d2 d3 : List ℕ} (hs : h.Stored env st d1 d2 d3)
    (hcount : d3.length + 1 < 2 ^ 32) : (getSignorsNum st h.epoch + 1).toNat = d3.length + 1 := by
  rw [hs.signors, UInt32_ofNat_add_one, UInt32.toNat_ofNat_of_lt' hcount]

/-- The shares `computeRandom` reads: those of the proposers of `d3`, in proposer order. -/
lemma Stored.collectSigData_eq (hv : h.Valid env) {st : RbStorage} {d1 d2 d3 : List ℕ}
    (hs : h.Stored env st d1 d2 d3) (hsub : d3 ⊆ h.ids) :
    collectSigData env st h.epoch (env.GetRBProposerG1 h.epoch) =
      ((List.range (env.GetRBProposerG1 h.epoch).length).filter (· ∈ d3)).map fun id =>
        (h.sigPayload env id, (env.GetRBProposerG1 h.epoch).getD id 0) := by
  refine filterMap_eq_map_filter_of fun id hid => ?_
  have hid' := List.mem_range.mp hid
  by_cases hin : id ∈ d3
  · have hsent := hv.sent3 id (hsub hin)
    simp [GetSig, hs.sig id hid', hin, hsent, hv.decode3 id (hsub hin)]
  · simp [GetSig, hs.sig id hid', hin]

/-- The shares `computeRandom` reads are as many as the proposers that stored one. -/
lemma Stored.length_collectSigData (hv : h.Valid env) {st : RbStorage} {d1 d2 d3 : List ℕ}
    (hs : h.Stored env st d1 d2 d3) (hnd : d3.Nodup) (hsub : d3 ⊆ h.ids) :
    (collectSigData env st h.epoch (env.GetRBProposerG1 h.epoch)).length = d3.length := by
  rw [hs.collectSigData_eq hv hsub, List.length_map]
  exact (filter_mem_range_perm hnd fun a ha => hv.lt a (hsub ha)).length_eq

/-- Once `PolymDegree + 1` distinct proposers stored their shares, the group signature that
`computeRandom` interpolates from them is the group secret's value at zero times `m • gbase`. -/
lemma Stored.groupSig (hv : h.Valid env) {st : RbStorage} {d1 d2 d3 : List ℕ}
    (hs : h.Stored env st d1 d2 d3) (hnd : d3.Nodup) (hsub : d3 ⊆ h.ids)
    (hlen : d3.length = polymDegree + 1) :
    LagrangeSig c ((collectSigData env st h.epoch (env.GetRBProposerG1 h.epoch)).map
      fun d => d.1.GSignShare)
      ((collectSigData env st h.epoch (env.GetRBProposerG1 h.epoch)).map fun d =>
        (setBytes (GetPolynomialX c d.2 d.1.ProposerId) : ℤ)) polymDegree =
      (h.secret.eval 0).val • ((setBytes (GetRBM c env RbStorage.empty h.epoch) : ℤ) • c.gbase) := by
  set M := (setBytes (GetRBM c env RbStorage.empty h.epoch) : ℤ) • c.gbase
  -- the node of a proposer, before it is reduced
  set X : ℕ → ℤ := fun id => (setBytes (GetPolynomialX c ((env.GetRBProposerG1 h.epoch).getD id 0)
    (UInt32.ofNat id)) : ℤ)
  -- the shares `computeRandom` reads are those of `d3`, in proposer order
  obtain ⟨L, hsigs⟩ : ∃ L, L = (List.range (env.GetRBProposerG1 h.epoch).length).filter
      (· ∈ d3) := ⟨_, rfl⟩
  have hLlen : L.length = polymDegree + 1 := by
    rw [← hlen, hsigs]
    exact (filter_mem_range_perm hnd fun a ha => hv.lt a (hsub ha)).length_eq
  have hcollect := hs.collectSigData_eq hv hsub
  rw [← hsigs] at hcollect
  -- their nodes are distinct mod `Order`, as the reduced nodes of all the proposers are
  have hdistL : (L.map X).Pairwise fun a b => ¬ a ≡ b [ZMOD c.Order] := by
    have hred : (L.map fun id => X id % c.Order).Pairwise fun a b => ¬ a ≡ b [ZMOD c.Order] :=
      hv.distinct.sublist (hsigs ▸ (List.filter_sublist).map _)
    rw [List.pairwise_map] at hred ⊢
    exact hred.imp fun hab hX => hab ((Int.mod_modEq _ _).trans (hX.trans (Int.mod_modEq _ _).symm))
  have hshares : L.map ((fun d : RbSIGTxPayload G1 × G1 => d.1.GSignShare) ∘
      fun id => (h.sigPayload env id, (env.GetRBProposerG1 h.epoch).getD id 0)) =
      (L.map fun id => ((h.secret.eval (X id : ZMod c.Order)).val : ℤ)).map (· • M) := by
    rw [List.map_map]
    refine List.map_congr_left fun id hid => ?_
    have hid' : id < (env.GetRBProposerG1 h.epoch).length := by
      rw [hsigs] at hid
      exact List.mem_range.mp (List.mem_filter.mp hid).1
    have hx : ((polynomialXs c (env.GetRBProposerG1 h.epoch)).getD id 0 : ZMod c.Order) =
        (X id : ZMod c.Order) := by
      rw [getD_polynomialXs c hid', ZMod.intCast_mod]
    simp only [sigPayload, Function.comp_apply, hx]
    exact (natCast_zsmul M _).symm
  have hnodes : L.map ((fun d : RbSIGTxPayload G1 × G1 =>
      (setBytes (GetPolynomialX c d.2 d.1.ProposerId) : ℤ)) ∘
      fun id => (h.sigPayload env id, (env.GetRBProposerG1 h.epoch).getD id 0)) = L.map X := rfl
  rw [hcollect, List.map_map, List.map_map, hshares, hnodes, LagrangeSig]
  refine scalarMultSum_eval c c.Order_smul_G1 (by simp [hLlen])
    (by rwa [List.take_of_length_le (by simp [hLlen])]) hv.natDegree_secret (fun i hi => ?_) M
  have hi' : i < L.length := by omega
  simp [List.getD_eq_getElem?_getD, List.getElem?_eq_getElem hi']

/-- Once every proposer completed both stages of the key generation, `validSigShare` collects
the commitments of all of them, in proposer order. -/
lemma Stored.dkgIds_eq {st : RbStorage} {d3 : List ℕ} (hs : h.Stored env st h.ids h.ids d3) :
    dkgIds c env st h.epoch = (List.range (env.GetRBProposerG1 h.epoch).length).filter (· ∈ h.ids) := by
  refine List.filter_congr fun id hid => ?_
  have hid' := List.mem_range.mp hid
  by_cases hin : id ∈ h.ids
  · simp [IsJoinDKG2, hs.ens id hid', hs.GetCji_eq hid' hin, hin, encodeByteSlices_ne_nil,
      Except.toOption]
  · simp [IsJoinDKG2, hs.ens id hid', hin]

/-- The proposers whose commitments `validSigShare` collects are those of the round. -/
lemma Stored.dkgIds_perm (hv : h.Valid env) {st : RbStorage} {d3 : List ℕ}
    (hs : h.Stored env st h.ids h.ids d3) : (dkgIds c env st h.epoch).Perm h.ids :=
  hs.dkgIds_eq ▸ filter_mem_range_perm hv.nodup hv.lt

lemma Stored.mem_dkgIds {st : RbStorage} {d3 : List ℕ} (hs : h.Stored env st h.ids h.ids d3)
    {j : ℕ} : j ∈ dkgIds c env st h.epoch ↔ j < (env.GetRBProposerG1 h.epoch).length ∧ j ∈ h.ids := by
  rw [hs.dkgIds_eq, List.mem_filter, List.mem_range, decide_eq_true_eq]

/-- The proposers whose commitments `validSigShare` collects committed to their polynomials. -/
lemma Stored.committed (hv : h.Valid env) {st : RbStorage} {d3 : List ℕ}
    (hs : h.Stored env st h.ids h.ids d3) :
    ∀ j ∈ dkgIds c env st h.epoch, (h.f j).natDegree ≤ polymDegree ∧
      GetCji c st h.epoch (UInt32.ofNat j) = .ok (some (h.commit env j)) := fun j hj => by
  obtain ⟨hlt, hin⟩ := hs.mem_dkgIds.mp hj
  exact ⟨hv.degree j hin, hs.GetCji_eq hlt hin⟩

lemma Stored.dkgData_eq {st : RbStorage} {d3 : List ℕ} (hs : h.Stored env st h.ids h.ids d3) :
    collectDkgData c st h.epoch (env.GetRBProposerG1 h.epoch) =
      (dkgIds c env st h.epoch).map fun j => (h.commit env j, (env.GetRBProposerG1 h.epoch).getD j 0) :=
  collectDkgData_eq c env fun j hj => by
    obtain ⟨hlt, hin⟩ := hs.mem_dkgIds.mp hj
    exact hs.GetCji_eq hlt hin

/-- The commitments of the proposers that `validSigShare` sums for proposer `p`: the multiple
of `hbase` by the group secret at `p`'s node. -/
lemma Stored.gPKShare (hv : h.Valid env) {st : RbStorage} {d3 : List ℕ}
    (hs : h.Stored env st h.ids h.ids d3) {p : ℕ} (hp : p < (env.GetRBProposerG1 h.epoch).length) :
    (collectDkgData c st h.epoch (env.GetRBProposerG1 h.epoch)).foldl
        (fun g d => g + d.1.getD p 0) 0 =
      (h.secret.eval ((polynomialXs c (env.GetRBProposerG1 h.epoch)).getD p 0 : ZMod c.Order)).val •
        c.hbase := by
  set x := ((polynomialXs c (env.GetRBProposerG1 h.epoch)).getD p 0 : ZMod c.Order)
  have hx : p < (polynomialXs c (env.GetRBProposerG1 h.epoch)).length := by
    simpa [polynomialXs] using hp
  have hperm : (dkgIds c env st h.epoch).Perm h.ids := hs.dkgIds_perm hv
  have hentry : ∀ j, (h.commit env j).getD p 0 = ((h.f j).eval x).val • c.hbase := fun j => by
    simp only [commit, x, List.getD_eq_getElem?_getD, List.getElem?_map,
      List.getElem?_eq_getElem hx, Option.map_some, Option.getD_some]
  have hvals : (dkgIds c env st h.epoch).map (fun j => ((h.f j).eval x).val • c.hbase) =
      ((dkgIds c env st h.epoch).map fun j => (h.f j).eval x).map fun a => a.val • c.hbase := by
    rw [List.map_map]
    rfl
  rw [hs.dkgData_eq, List.foldl_map, Interpolation.foldl_add_eq_sum_map, zero_add]
  simp only [hentry]
  rw [hvals, sum_val_nsmul c c.Order_smul_G2, secret, Polynomial.eval_listSum, List.map_map,
    ((hperm.map _).sum_eq).symm]
  rfl

/-- The group key `computeRandom` checks against, once every proposer completed the key
generation: the group secret's value at zero times `hbase`. -/
lemma Stored.groupKey (hv : h.Valid env) {st : RbStorage} {d3 : List ℕ}
    (hs : h.Stored env st h.ids h.ids d3) :
    LagrangePub c ((List.range (env.GetRBProposerG1 h.epoch).length).map fun i =>
      (collectDkgData c st h.epoch (env.GetRBProposerG1 h.epoch)).foldl
        (fun g d => g + d.1.getD i 0) 0)
      (polynomialXs c (env.GetRBProposerG1 h.epoch)) polymDegree =
      (h.secret.eval 0).val • c.hbase := by
  rw [groupKey_eq c env (hs.committed hv) (by have := hv.many; omega) hv.distinct, secret,
    Polynomial.eval_listSum, List.map_map, ((hs.dkgIds_perm hv).map _).sum_eq]
  rfl

/-- A proposer's share passes `validSigShare` once every proposer completed the key
generation. -/
lemma Stored.validSigShare (hv : h.Valid env) {st : RbStorage} {d3 : List ℕ}
    (hs : h.Stored env st h.ids h.ids d3) {p : ℕ} (hp : p ∈ h.ids) :
    validSigShare c env st (h.ctx3 p) (h.payload3 p) = .ok (h.sigPayload env p,
      env.GetRBProposerG1 h.epoch, collectDkgData c st h.epoch (env.GetRBProposerG1 h.epoch)) := by
  have hlt := hv.lt p hp
  have hperm : (dkgIds c env st h.epoch).Perm h.ids := hs.dkgIds_perm hv
  have hthres : rbThres ≤ (collectDkgData c st h.epoch (env.GetRBProposerG1 h.epoch)).length := by
    rw [hs.dkgData_eq, List.length_map, hperm.length_eq]
    exact hv.threshold
  -- the message reads no random, as on the empty storage
  have hm : GetRBM c env st h.epoch = GetRBM c env RbStorage.empty h.epoch :=
    GetRBM_congr c env (fun e => hs.rand e) h.epoch
  refine validSigShare_eq_ok c env (hv.decode3 p hp) ⟨hv.stage3 p hp, hv.group3 p hp,
    hv.length_pos, hthres, ?_⟩
  show c.StringGT (c.Pair (h.sigPayload env p).GSignShare c.hbase) = _
  rw [sigPayload, hm, UInt32.toNat_ofNat_of_lt' ((hv.lt p hp).trans (length_GetRBProposerG1_lt env _)),
    hs.gPKShare hv hlt, Pair_nsmul_left, Pair_nsmul_right]

/-! #### One call at a time -/

variable [DecidableEq G2]

/-- The commitments of a proposer pass the Reed–Solomon check, whatever it draws. -/
lemma Valid.rscode (hv : h.Valid env) {p : ℕ} (hp : p ∈ h.ids) (constant : ℤ) (rand : ℕ → ℤ) :
    RScodeVerify c (h.commit env p) (polynomialXs c (env.GetRBProposerG1 h.epoch)) polymDegree
      constant rand = true := by
  rw [commit, map_val_smul]
  exact RScodeVerify_of_values c hv.many (by simp [polynomialXs]) hv.distinct (hv.degree p hp)
    (by simp) (fun i hi => getD_map_val c _ _ hi) _ _ _

/-- A proposer's `dkg1` call, before it made one, passes and writes its commitments. -/
lemma Stored.step1 (hv : h.Valid env) {st : RbStorage} {d1 d2 d3 : List ℕ}
    (hs : h.Stored env st d1 d2 d3) {p : ℕ} (hp : p ∈ h.ids) (hnew : p ∉ d1) :
    h.Stored env (rbStep c env st (h.call1 p)) (d1 ++ [p]) d2 d3 := by
  have hlt := hv.lt p hp
  have hacc : Dkg1Accepted c env st (h.ctx1 p) (h.dkg1Payload env p) (h.commit env p) :=
    ⟨unmarshalPoints_map (UnmarshalG2_Marshal_nil c) _ _, hv.stage1 p hp, hv.group1 p hp,
      show hasDkgData (GetCji c st h.epoch (UInt32.ofNat p)) = false by
        rw [GetCji, getPoints_of_nil _ _ (by rw [hs.cij p hlt, if_neg hnew])]; rfl,
      hv.length_pos, (length_commit p).symm, hv.rscode hp _ _⟩
  have hstep : rbStep c env st (h.call1 p) = st.set (GetRBKeyHash kindCij h.epoch (UInt32.ofNat p))
      (encodeByteSlices ((h.commit env p).map c.MarshalG2)) := by
    simp only [rbStep, call1, Run_dkg1, dkg1, validDkg1_eq_ok c env (hv.decode1 p hp) hacc]
    rfl
  rw [hstep]
  exact ⟨slots_set_family (length_GetRBProposerG1_lt env _).le
      (fun q => encodeByteSlices ((h.commit env q).map c.MarshalG2)) hs.cij hlt,
    fun q hq => by rw [slots_set_of_kind (by decide)]; exact hs.ens q hq,
    fun q hq => by rw [slots_set_of_kind (by decide)]; exact hs.sig q hq,
    fun e => by rw [slots_set_rand]; exact hs.rand e, hs.signors⟩

/-- A proposer's `dkg2` call, after its `dkg1` call and before it made one, passes and writes its
encrypted shares. -/
lemma Stored.step2 (hv : h.Valid env) {st : RbStorage} {d1 d2 d3 : List ℕ}
    (hs : h.Stored env st d1 d2 d3) {p : ℕ} (hp : p ∈ h.ids) (hin : p ∈ d1) (hnew : p ∉ d2) :
    h.Stored env (rbStep c env st (h.call2 p)) d1 (d2 ++ [p]) d3 := by
  have hlt := hv.lt p hp
  have hdleq : ∀ j < (env.GetRBProposerG1 h.epoch).length,
      VerifyDLEQ c (((h.dkg2Payload env p).Proof.map (ProofFlatToProof c)).getD j ⟨none, none, none⟩)
        ((env.GetRBProposerG1 h.epoch).getD j 0) c.hbase ((h.enShare env p).getD j 0)
        ((h.commit env p).getD j 0) = true := by
    intro j hj
    have hx : j < (polynomialXs c (env.GetRBProposerG1 h.epoch)).length := by
      simpa [polynomialXs] using hj
    have hcommit : (h.commit env p).getD j 0 = h.value env p j • c.hbase := by
      simp only [commit, value, natCast_zsmul, List.getD_eq_getElem?_getD, List.getElem?_map,
        List.getElem?_eq_getElem hx, Option.map_some, Option.getD_some]
    simp only [dkg2Payload, enShare, hcommit, List.map_map, List.getD_eq_getElem?_getD,
      List.getElem?_map, List.getElem?_range hj, Option.map_some, Option.getD_some,
      Function.comp_apply]
    exact VerifyDLEQ_DLEQflat c _ _ _ _
  have hacc : Dkg2Accepted c env st (h.ctx2 p) (h.dkg2Payload env p) (h.enShare env p)
      (h.commit env p) :=
    ⟨unmarshalPoints_map (UnmarshalG1_Marshal_nil c) _ _, hv.stage2 p hp, hv.group2 p hp,
      show hasDkgData (GetEncryptShare c st h.epoch (UInt32.ofNat p)) = false by
        rw [GetEncryptShare, getPoints_of_nil _ _ (by rw [hs.ens p hlt, if_neg hnew])]; rfl,
      hs.GetCji_eq hlt hin, hv.length_pos, by simp [enShare, dkg2Payload], hdleq⟩
  have hstep : rbStep c env st (h.call2 p) = st.set (GetRBKeyHash kindEns h.epoch (UInt32.ofNat p))
      (encodeByteSlices ((h.enShare env p).map c.MarshalG1)) := by
    simp only [rbStep, call2, Run_dkg2, dkg2, validDkg2_eq_ok c env (hv.decode2 p hp) hacc]
    rfl
  rw [hstep]
  exact ⟨fun q hq => by rw [slots_set_of_kind (by decide)]; exact hs.cij q hq,
    slots_set_family (length_GetRBProposerG1_lt env _).le
      (fun q => encodeByteSlices ((h.enShare env q).map c.MarshalG1)) hs.ens hlt,
    fun q hq => by rw [slots_set_of_kind (by decide)]; exact hs.sig q hq,
    fun e => by rw [slots_set_rand]; exact hs.rand e, hs.signors⟩

/-- A share below the threshold passes, is stored and counted, and no random is computed. -/
lemma Stored.step3 (hv : h.Valid env) {st : RbStorage} {d3 : List ℕ}
    (hs : h.Stored env st h.ids h.ids d3) {p : ℕ} (hp : p ∈ h.ids) (hlen : d3.length + 1 < rbThres) :
    h.Stored env (rbStep c env st (h.call3 p)) h.ids h.ids (d3 ++ [p]) := by
  have hcount : d3.length + 1 < 2 ^ 32 := hlen.trans (by norm_num [rbThres])
  have hstep := sigShare_eq_of_lt c env (hs.validSigShare hv hp)
    (by rw [show (h.sigPayload env p).EpochId = h.epoch from rfl, hs.count_succ hcount]; exact hlen)
  simp only [rbStep, call3, Run_sigShare, hstep]
  exact hs.sigWrite (hv.lt p hp)

/-- The share that reaches the threshold passes, and `computeRandom` stores the hash of the
group signature: the group secret's value at zero times `m • gbase`. -/
lemma Stored.last (hv : h.Valid env) {st : RbStorage} {d3 : List ℕ}
    (hs : h.Stored env st h.ids h.ids d3) (hnd : d3.Nodup) (hsub : d3 ⊆ h.ids)
    (hlen : d3.length = polymDegree) {p : ℕ} (hp : p ∈ h.ids) (hnew : p ∉ d3) :
    (rbStep c env st (h.call3 p)).slots (GetRBRKeyHash (h.epoch + 1)) =
      bigBytes (setBytes (c.Keccak256 (c.MarshalG1 ((h.secret.eval 0).val •
        ((setBytes (GetRBM c env RbStorage.empty h.epoch) : ℤ) • c.gbase))))) := by
  set M := (setBytes (GetRBM c env RbStorage.empty h.epoch) : ℤ) • c.gbase
  have hlt := hv.lt p hp
  have hcount : d3.length + 1 < 2 ^ 32 := by rw [hlen]; norm_num [polymDegree]
  set st₁ := setSignorsNum (st.set (GetRBKeyHash sigShareId h.epoch (UInt32.ofNat p))
    (h.payload3 p)) h.epoch (getSignorsNum st h.epoch + 1)
  -- after the write, `PolymDegree + 1` distinct proposers stored a share
  have hs₁ : h.Stored env st₁ h.ids h.ids (d3 ++ [p]) := hs.sigWrite hlt
  have hsub₁ : d3 ++ [p] ⊆ h.ids := List.append_subset.mpr ⟨hsub, by simpa using hp⟩
  have hnd₁ : (d3 ++ [p]).Nodup := hnd.append (List.nodup_singleton p)
    (List.disjoint_singleton.mpr hnew)
  have hlen₁ : (d3 ++ [p]).length = polymDegree + 1 := by
    rw [List.length_append, hlen, List.length_singleton]
  have hm : GetRBM c env st₁ h.epoch = GetRBM c env RbStorage.empty h.epoch :=
    GetRBM_congr c env (fun e => hs₁.rand e) h.epoch
  have hcr : computeRandom c env st₁ h.epoch
      (collectDkgData c st h.epoch (env.GetRBProposerG1 h.epoch)) (env.GetRBProposerG1 h.epoch) =
      .ok (setBytes (c.Keccak256 (c.MarshalG1 ((h.secret.eval 0).val • M)))) := by
    refine computeRandom_eq_ok c env ?_ hv.length_pos ?_ (hs₁.groupSig hv hnd₁ hsub₁ hlen₁) ?_
    · simp [GetStateR, hv.next, hs₁.rand]
    · rw [hs₁.length_collectSigData hv hnd₁ hsub₁, hlen₁]
      exact rbThres_eq.le
    · rw [hs.groupKey hv, hm, Pair_nsmul_left, Pair_nsmul_right]
  have hstep := sigShare_eq_of_random c env (hs.validSigShare hv hp)
    (by rw [show (h.sigPayload env p).EpochId = h.epoch from rfl, hs.count_succ hcount, hlen]
        exact rbThres_eq.le) hcr
  simp only [rbStep, call3, Run_sigShare, hstep, RbStorage.set_slots]
  exact Function.update_self _ _ _

/-! #### The whole round -/

/-- The `dkg1` calls, from the empty storage, store every proposer's commitments. -/
lemma run1 (hv : h.Valid env) :
    h.Stored env (Machine.run (rbStep c env) RbStorage.empty (h.ids.map h.call1)) h.ids [] [] := by
  rw [Machine.run_map_inputs]
  -- the invariant speaks of the proposers whose `dkg1` call ran, each new by `nodup`
  refine Machine.run_prefix_invariant (R := (· ≠ ·)) _ (fun pre s => h.Stored env s pre [] [])
    hv.nodup (fun pre p s hp hord hs => hs.step1 hv hp fun hin => hord p hin rfl) (h.empty_stored env)

/-- The `dkg2` calls, after every `dkg1` call, store every proposer's encrypted shares. -/
lemma Stored.run2 (hv : h.Valid env) {st : RbStorage} (hs : h.Stored env st h.ids [] []) :
    h.Stored env (Machine.run (rbStep c env) st (h.ids.map h.call2)) h.ids h.ids [] := by
  rw [Machine.run_map_inputs]
  refine Machine.run_prefix_invariant (R := (· ≠ ·)) _ (fun pre s => h.Stored env s h.ids pre [])
    hv.nodup (fun pre p s hp hord hs => hs.step2 hv hp hp fun hin => hord p hin rfl) hs

/-- The `sigShare` calls of the first `PolymDegree` proposers, after the key generation, store
their shares and compute no random. -/
lemma Stored.run3 (hv : h.Valid env) {st : RbStorage} (hs : h.Stored env st h.ids h.ids []) :
    h.Stored env (Machine.run (rbStep c env) st ((h.ids.take polymDegree).map h.call3)) h.ids h.ids
      (h.ids.take polymDegree) := by
  rw [Machine.run_map_inputs]
  -- the shares so far are distinct members of the first `PolymDegree`, so fewer than `RBThres`
  refine (Machine.run_prefix_invariant (R := (· ≠ ·)) _
    (fun pre s => h.Stored env s h.ids h.ids pre ∧ pre.Nodup ∧ pre ⊆ h.ids.take polymDegree)
    (hv.nodup.sublist (List.take_sublist _ _))
    (fun pre p s hp hord ⟨hs, hnd, hsub⟩ => ?_) ⟨hs, List.nodup_nil, List.nil_subset _⟩).1
  have hnd' : (pre ++ [p]).Nodup :=
    hnd.append (List.nodup_singleton p) (List.disjoint_singleton.mpr fun hin => hord p hin rfl)
  have hsub' : pre ++ [p] ⊆ h.ids.take polymDegree :=
    List.append_subset.mpr ⟨hsub, by simpa using hp⟩
  have hle : (pre ++ [p]).length ≤ polymDegree :=
    ((hnd'.subperm hsub').length_le).trans (List.length_take_le _ _)
  have hlen : pre.length + 1 < rbThres := by
    rw [List.length_append, List.length_singleton] at hle
    rw [rbThres_eq]
    omega
  exact ⟨hs.step3 hv (List.mem_of_mem_take hp) hlen, hnd', hsub'⟩

/-- An honest round stores the random of the next epoch. Before the share that reaches the
threshold, the committing proposers stored their polynomials' commitments and no random is
stored; that share stores the hash of the group secret's value at zero times `m • gbase`. -/
theorem stores_random (hv : h.Valid env) :
    (dkgIds c env (Machine.run (rbStep c env) RbStorage.empty h.calls) h.epoch).Perm h.ids ∧
    (∀ j ∈ dkgIds c env (Machine.run (rbStep c env) RbStorage.empty h.calls) h.epoch,
      (h.f j).natDegree ≤ polymDegree ∧
      GetCji c (Machine.run (rbStep c env) RbStorage.empty h.calls) h.epoch (UInt32.ofNat j) =
        .ok (some (h.commit env j))) ∧
    getSignorsNum (Machine.run (rbStep c env) RbStorage.empty h.calls) h.epoch =
      UInt32.ofNat polymDegree ∧
    (Machine.run (rbStep c env) RbStorage.empty h.calls).slots (GetRBRKeyHash (h.epoch + 1)) = [] ∧
    (rbStep c env (Machine.run (rbStep c env) RbStorage.empty h.calls) h.lastCall).slots
        (GetRBRKeyHash (h.epoch + 1)) =
      bigBytes (setBytes (c.Keccak256 (c.MarshalG1 ((h.secret.eval 0).val •
        ((setBytes (GetRBM c env RbStorage.empty h.epoch) : ℤ) • c.gbase))))) := by
  have hs : h.Stored env (Machine.run (rbStep c env) RbStorage.empty h.calls) h.ids h.ids
      (h.ids.take polymDegree) := by
    rw [calls, Machine.run_append, Machine.run_append]
    exact ((run1 hv).run2 hv).run3 hv
  -- the proposer after the first `PolymDegree` is the one whose share reaches the threshold
  have hlt : polymDegree < h.ids.length := by
    have := hv.threshold
    rw [rbThres_eq] at this
    omega
  have hget : h.ids.getD polymDegree 0 = h.ids[polymDegree] := by
    rw [List.getD_eq_getElem?_getD, List.getElem?_eq_getElem hlt, Option.getD_some]
  have hnext : h.ids.getD polymDegree 0 ∈ h.ids := hget ▸ List.getElem_mem hlt
  -- it is not among the first `PolymDegree`, which are disjoint from the rest
  have hnew : h.ids.getD polymDegree 0 ∉ h.ids.take polymDegree := by
    have hdrop : h.ids.getD polymDegree 0 ∈ h.ids.drop polymDegree := by
      rw [hget, List.drop_eq_getElem_cons hlt]
      exact List.mem_cons_self
    exact fun hin => List.disjoint_take_drop hv.nodup le_rfl hin hdrop
  exact ⟨hs.dkgIds_perm hv, hs.committed hv, by rw [hs.signors, List.length_take_of_le hlt.le],
    hs.rand _, hs.last hv (hv.nodup.sublist (List.take_sublist _ _))
    (List.take_subset _ _) (List.length_take_of_le hlt.le) hnext hnew⟩

end HonestRound

/-! ### A round on the curve of order 17 -/

/-- Proposer `p`'s share of the group signature in `seventeenRound`, computed: the sum of the
polynomials of proposers 0 to 12 at its node, times the message of epoch 0. -/
def seventeenShare (p : ℕ) : ZMod 17 :=
  ((List.range 13).map fun q => seventeenPoly q
    ((polynomialXs seventeenCurve (seventeenEnv.GetRBProposerG1 0)).getD p 0 : ZMod 17)).sum *
      (setBytes (GetRBM seventeenCurve seventeenEnv RbStorage.empty 0) : ZMod 17)

/-- The round of `seventeenEnv` in epoch 0: proposers 0 to 12, `RBThres` of the fifteen, with
polynomials `seventeenPoly p`, calling `dkg1` at time 0, `dkg2` at 28800 and `sigShare` at 57600,
the first slots of the three stages, with payloads that `seventeenEnv` decodes. -/
noncomputable def seventeenRound : HonestRound seventeenCurve where
  epoch := 0
  ids := List.range 13
  f p := Polynomial.C ((2 * p + 1 : ℕ) : ZMod seventeenCurve.Order) * Polynomial.X +
    Polynomial.C ((p + 3 : ℕ) : ZMod seventeenCurve.Order)
  nonce p j := p + j + 1
  payload1 p := [UInt8.ofNat p]
  payload2 p := [UInt8.ofNat p]
  payload3 p := [UInt8.ofNat p, UInt8.ofNat (seventeenShare p).val]
  ctx1 _ := ⟨0, 0, 0, fun _ => 0⟩
  ctx2 _ := ⟨28800, 0, 0, fun _ => 0⟩
  ctx3 _ := ⟨57600, 0, 0, fun _ => 0⟩

lemma seventeenRound_eval (p : ℕ) (x : ZMod seventeenCurve.Order) :
    (seventeenRound.f p).eval x = seventeenPoly p x := by
  simp only [seventeenRound, Polynomial.eval_add, Polynomial.eval_mul, Polynomial.eval_C,
    Polynomial.eval_X]
  rfl

lemma seventeenRound_secret_eval (x : ZMod seventeenCurve.Order) :
    seventeenRound.secret.eval x = ((List.range 13).map fun q => seventeenPoly q x).sum := by
  simp only [HonestRound.secret, Polynomial.eval_listSum, List.map_map]
  exact congrArg List.sum (List.map_congr_left fun q _ => seventeenRound_eval q x)

lemma seventeenRound_commit (p : ℕ) :
    seventeenRound.commit seventeenEnv p = (polynomialXs seventeenCurve (List.replicate 15 1)).map
      fun x : ℤ => (seventeenPoly p x).val • seventeenCurve.hbase := by
  simp only [HonestRound.commit, seventeenRound_eval]
  rfl

lemma seventeenRound_value (p j : ℕ) : seventeenRound.value seventeenEnv p j =
    ((seventeenPoly p ((polynomialXs seventeenCurve (List.replicate 15 1)).getD j 0)).val : ℤ) := by
  simp only [HonestRound.value, seventeenRound_eval]
  rfl

set_option maxRecDepth 10000 in
/-- The round is honest: every call of it passes. -/
lemma seventeenRound_valid : seventeenRound.Valid seventeenEnv := by
  -- a proposer's index is its payload's byte
  have hid : ∀ p ∈ seventeenRound.ids, (UInt8.ofNat p).toNat = p := fun p hp =>
    UInt8.toNat_ofNat_of_lt' ((List.mem_range.mp hp).trans (by norm_num))
  refine ⟨List.nodup_range, fun p hp => (List.mem_range.mp hp).trans (by decide), by decide,
    by decide, by decide +kernel, fun p _ => ?_, by decide, fun p hp => ?_, fun p hp => ?_,
    fun p hp => ?_, fun p _ => List.cons_ne_nil _ _, by decide, by decide, by decide, by decide,
    by decide, by decide⟩
  · exact (Polynomial.natDegree_linear_le).trans (by decide)
  · rw [HonestRound.dkg1Payload, seventeenRound_commit, List.map_map]
    simp only [seventeenEnv, seventeenRound, hid p hp]
    rfl
  · simp only [HonestRound.dkg2Payload, HonestRound.enShare, seventeenRound_value, List.map_map]
    simp only [seventeenEnv, seventeenRound, hid p hp]
    rfl
  · have hshare : ((UInt8.ofNat (seventeenShare p).val).toNat : ZMod 17) = seventeenShare p := by
      rw [UInt8.toNat_ofNat_of_lt' ((ZMod.val_lt _).trans (by norm_num)), ZMod.natCast_zmod_val]
    have hdec : seventeenEnv.decodeSig (seventeenRound.payload3 p) =
        some ⟨0, UInt32.ofNat p, seventeenShare p⟩ := by
      show some (⟨0, UInt32.ofNat (UInt8.ofNat p).toNat,
        ((UInt8.ofNat (seventeenShare p).val).toNat : ZMod 17)⟩ : RbSIGTxPayload (ZMod 17)) = _
      rw [hid p hp, hshare]
    -- the share is the group secret at the node times the message, `gbase` being `1`
    have hX : seventeenShare p = (((List.range 13).map fun q => seventeenPoly q
        ((polynomialXs seventeenCurve (seventeenEnv.GetRBProposerG1 0)).getD p 0 : ZMod 17)).sum).val •
          ((setBytes (GetRBM seventeenCurve seventeenEnv RbStorage.empty 0) : ℤ) • (1 : ZMod 17)) := by
      rw [nsmul_eq_mul, zsmul_eq_mul, mul_one, ZMod.natCast_zmod_val, Int.cast_natCast]
      rfl
    rw [hdec, HonestRound.sigPayload, seventeenRound_secret_eval, hX]
    rfl

/-! ### Output agreement -/

/-- Random-beacon output agreement. Suppose the proposers of `dkgIds` of epoch `e` stored as
their commitments the multiples of `hbase` by the values of polynomials `f j` of degree at most
`PolymDegree` at the nodes of the proposers, distinct mod `Order`. Then a call that stores the
random of epoch `e + 1` stores the hash of the multiple of `m • gbase`, `m` read from `GetRBM`,
by the sum of the polynomials' values at zero, whichever signature shares were stored and in
whatever order; and a random stored other than zero stays over any later run of calls. -/
theorem random_agreement [DecidableEq G2] (st : RbStorage) (call : RbCall) (e : UInt64)
    (f : ℕ → Polynomial (ZMod c.Order))
    (hf : ∀ j ∈ dkgIds c env st e, (f j).natDegree ≤ polymDegree ∧
      GetCji c st e (UInt32.ofNat j) = .ok (some ((polynomialXs c (env.GetRBProposerG1 e)).map
        fun x : ℤ => ((f j).eval (x : ZMod c.Order)).val • c.hbase)))
    (hdist : (polynomialXs c (env.GetRBProposerG1 e)).Pairwise
      fun a b => ¬ a ≡ b [ZMOD c.Order]) :
    ((rbStep c env st call).slots (GetRBRKeyHash (e + 1)) ≠ st.slots (GetRBRKeyHash (e + 1)) →
      (rbStep c env st call).slots (GetRBRKeyHash (e + 1)) =
        bigBytes (setBytes (c.Keccak256 (c.MarshalG1
          ((((dkgIds c env st e).map fun j => (f j).eval 0).sum).val •
            ((setBytes (GetRBM c env st e) : ℤ) • c.gbase)))))) ∧
    ∀ (calls : List RbCall) (r : ℕ), GetStateR c env st (e + 1) = some r → r ≠ 0 →
      GetStateR c env (Machine.run (rbStep c env) st calls) (e + 1) = some r := by
  refine ⟨fun hchg => ?_, fun calls r hr hr0 => ?_⟩
  · obtain ⟨sp, pks, dkgData, st₁, r, hvalid, hepoch, hR, hcomp, hslot⟩ := rbStep_r c env hchg
    obtain rfl : sp.EpochId = e := (UInt64.add_left_inj 1).mp hepoch
    obtain ⟨-, rfl, rfl, hacc⟩ := validSigShare_ok c env hvalid
    obtain ⟨-, gSig, rfl, hpair⟩ := computeRandom_ok c env hcomp
    -- `validSigShare` collected `RBThres = PolymDegree + 1` proposers, so there are as many
    have hn : polymDegree + 1 ≤ (env.GetRBProposerG1 sp.EpochId).length :=
      rbThres_eq ▸ hacc.threshold.trans (length_collectDkgData_le c st sp.EpochId _)
    rw [groupKey_eq c env hf hn hdist, GetRBM_congr c env hR] at hpair
    -- the final pairing check fixes the group signature
    have hsig : gSig = (((dkgIds c env st sp.EpochId).map fun j => (f j).eval 0).sum).val •
        ((setBytes (GetRBM c env st sp.EpochId) : ℤ) • c.gbase) := by
      apply Pair_hbase_inj c
      rw [c.StringGT_injective hpair, Pair_nsmul_right, Pair_nsmul_left]
    rw [hslot, hsig]
  · exact Machine.run_invariant (P := fun s => GetStateR c env s (e + 1) = some r)
      (fun s call hs => GetStateR_rbStep c env hs hr0 call) hr calls

/-- The storage of `seventeenEnv` after `seventeenRound`, up to the share that reaches the
threshold. -/
noncomputable def seventeenStorage : RbStorage :=
  Machine.run (rbStep seventeenCurve seventeenEnv) RbStorage.empty seventeenRound.calls

set_option maxRecDepth 10000 in
/-- In `seventeenRound` the thirteen proposers pass `dkg1` and `dkg2`, twelve shares are counted,
and the thirteenth stores the random `[64]` where there was none: the premises of
`random_agreement` hold and its first conclusion is met. -/
theorem random_agreement_seventeen :
    (dkgIds seventeenCurve seventeenEnv seventeenStorage 0).Perm (List.range 13) ∧
    getSignorsNum seventeenStorage 0 = 12 ∧
    seventeenStorage.slots (GetRBRKeyHash (0 + 1)) = [] ∧
    (rbStep seventeenCurve seventeenEnv seventeenStorage seventeenRound.lastCall).slots
      (GetRBRKeyHash (0 + 1)) = [64] ∧
    (∀ j ∈ dkgIds seventeenCurve seventeenEnv seventeenStorage 0,
      (seventeenRound.f j).natDegree ≤ polymDegree ∧
      GetCji seventeenCurve seventeenStorage 0 (UInt32.ofNat j) =
        .ok (some ((polynomialXs seventeenCurve (seventeenEnv.GetRBProposerG1 0)).map fun x : ℤ =>
          ((seventeenRound.f j).eval (x : ZMod seventeenCurve.Order)).val • seventeenCurve.hbase))) ∧
    (polynomialXs seventeenCurve (seventeenEnv.GetRBProposerG1 0)).Pairwise
      (fun a b => ¬ a ≡ b [ZMOD seventeenCurve.Order]) ∧
    (((rbStep seventeenCurve seventeenEnv seventeenStorage seventeenRound.lastCall).slots
        (GetRBRKeyHash (0 + 1)) ≠ seventeenStorage.slots (GetRBRKeyHash (0 + 1)) →
      (rbStep seventeenCurve seventeenEnv seventeenStorage seventeenRound.lastCall).slots
          (GetRBRKeyHash (0 + 1)) =
        bigBytes (setBytes (seventeenCurve.Keccak256 (seventeenCurve.MarshalG1
          ((((dkgIds seventeenCurve seventeenEnv seventeenStorage 0).map fun j =>
              (seventeenRound.f j).eval 0).sum).val •
            ((setBytes (GetRBM seventeenCurve seventeenEnv seventeenStorage 0) : ℤ) •
              seventeenCurve.gbase)))))) ∧
    ∀ (calls : List RbCall) (r : ℕ), GetStateR seventeenCurve seventeenEnv seventeenStorage (0 + 1) =
      some r → r ≠ 0 → GetStateR seventeenCurve seventeenEnv
        (Machine.run (rbStep seventeenCurve seventeenEnv) seventeenStorage calls) (0 + 1) = some r) := by
  have hepoch : seventeenRound.epoch = 0 := rfl
  obtain ⟨hperm, hf, hsig, hnone, hrand⟩ := HonestRound.stores_random seventeenRound_valid
  rw [hepoch] at hperm hf hsig hnone hrand
  -- the group secret is `117 = 15` at zero and the message `2`: the signature `13 • gbase`
  -- renders as 64 bytes of 13, which `byteSum` hashes to `64`
  have hval : (rbStep seventeenCurve seventeenEnv seventeenStorage seventeenRound.lastCall).slots
      (GetRBRKeyHash (0 + 1)) = [64] := by
    rw [seventeenStorage, hrand, seventeenRound_secret_eval]
    decide +kernel
  have hdist : (polynomialXs seventeenCurve (seventeenEnv.GetRBProposerG1 0)).Pairwise
      (fun a b => ¬ a ≡ b [ZMOD seventeenCurve.Order]) := seventeenRound_valid.distinct
  exact ⟨hperm, hsig, hnone, hval, hf, hdist, random_agreement seventeenCurve seventeenEnv
    seventeenStorage seventeenRound.lastCall 0 seventeenRound.f hf hdist⟩

end Wanchain.RandomBeacon
