import Wanchain.Lib.Machine
import Wanchain.Lib.Search
import Wanchain.Staking.StakeOut
import Wanchain.Incentive.Allocate

/-!
# Stake-weighted selection of the epoch leaders

At the start of an epoch every staker gets a probability: its own and its active partners'
stake, plus its active delegations' stake, capped at `MaxTimeDelegate + 1` times the former
(`CalEpochProbabilityStaker`). `createStakerProbabilityArray` sorts the stakers by probability,
stably, and turns the probabilities, in place, into running totals; the last entry is the total
`tp`. `epochLeaderSelection` and `randomProposerSelection` then draw from a chain of Keccak256
hashes seeded with `0 || r` and `1 || r`: each hash, read as a number modulo `tp`, selects by
`sort.Search` the first entry whose running total exceeds it.

The sampling is exact (`stakeSampling_exact`): when the total is positive, each draw selects an
index of the array with a positive probability, and of the `tp` residues exactly the staker's
own probability select it. The running totals are the prefix sums of the sorted probabilities
(`getElem?_accumulate`), so each draw is `Search.draw` over them (`drawIndex_accumulate`).

Not modelled: the decoding of the staker records (the list of stakers is the decoded records in
storage order), the `r == nil` test (`r` is `big.Int.Bytes()`, never nil), and the RLP encoding
of a selected `Proposer`, which never fails since its probability is not negative; the record
written under index `i` is the selected `Proposer` itself.
-/

namespace Wanchain.EpochLeader

open Finset Search Staking

/-- `epochLeader.Proposer`: a staker's keys and its probability, which
`createStakerProbabilityArray` replaces by the running total. -/
structure Proposer where
  PubSec256 : Bytes
  PubBn256 : Bytes
  Probabilities : ℕ
  deriving DecidableEq, Repr, Inhabited

def ErrInvalidRandomProposerSelection : String := "Invalid Random Proposer Selection"
def ErrInvalidEpochProposerSelection : String := "Invalid Epoch Proposer Selection"

/-! ### Probabilities -/

/-- A partner that takes part in `epochID`: before the last epoch of its lock. -/
def partnerActive (epochID : UInt64) (p : PartnerInfo) : Bool :=
  epochID < p.StakingEpoch + p.LockEpochs - 1

/-- A delegation that takes part in `epochID`: one that has not asked to quit, or before the
epoch before its quit epoch. -/
def clientActive (epochID : UInt64) (c : ClientInfo) : Bool :=
  c.QuitEpoch = 0 || epochID < c.QuitEpoch - 1

/-- `CalEpochProbabilityStaker`: the probabilities of a staker and of its delegations in
`epochID`, and the staker's total, capped at `MaxTimeDelegate + 1` times its own and its
partners' stake. A record from the PoW phase starts at `FirstEpochId + 2` (`powStart`). -/
def CalEpochProbabilityStaker (FirstEpochId : UInt64) (staker : StakerInfo) (epochID : UInt64) :
    Except String (List ClientProbability × ℕ) :=
  let staker := if staker.LockEpochs ≠ 0 then powStart FirstEpochId staker else staker
  if staker.LockEpochs ≠ 0 ∧ epochID ≥ staker.StakingEpoch + staker.LockEpochs - 1 then
    .error "Validator is exiting"
  else
    let partners := staker.Partners.filter (partnerActive epochID)
    let totalAmount := staker.Amount + (partners.map (·.Amount)).sum
    if staker.FeeRate ≠ UInt64.ofNat noDelegateFeeRate ∧ totalAmount < MinValidatorStake then
      .error "Validator don't have enough amount."
    else
      let totalPartnerProbability := staker.StakeAmount + (partners.map (·.StakeAmount)).sum
      let clients := staker.Clients.filter (clientActive epochID)
      let infors : List ClientProbability :=
        ⟨staker.Address, staker.From, totalPartnerProbability⟩ ::
          clients.map fun c => ⟨staker.Address, c.Address, c.StakeAmount⟩
      let totalProbability := totalPartnerProbability + (clients.map (·.StakeAmount)).sum
      let probabilityMax := totalPartnerProbability * (MaxTimeDelegate + 1)
      .ok (infors, if totalProbability > probabilityMax then probabilityMax else totalProbability)

/-- The item that `createStakerProbabilityArray` appends for a staker, when its probability can
be computed. -/
def stakerProposer (FirstEpochId epochID : UInt64) (staker : StakerInfo) : Option Proposer :=
  match CalEpochProbabilityStaker FirstEpochId staker epochID with
  | .ok (_, p) => some ⟨staker.PubSec256, staker.PubBn256, p⟩
  | .error _ => none

/-- `sort.Stable` with `ProposerSorter.Less`: by probability, ties in the order of the input. -/
def sortStable (ps : List Proposer) : List Proposer :=
  ps.mergeSort fun a b => decide (a.Probabilities ≤ b.Probabilities)

/-- The pass at `idx` of the loop of `createStakerProbabilityArray`: the entry there, after the
first, adds the entry before it, already a running total, in place. -/
def accumulateStep (ps : List Proposer) (idx : ℕ) : List Proposer :=
  if idx = 0 then ps
  else ps.modify idx fun p =>
    { p with Probabilities := p.Probabilities + (ps.getD (idx - 1) default).Probabilities }

/-- The loop of `createStakerProbabilityArray` over the indices of the array. -/
def accumulate (ps : List Proposer) : List Proposer :=
  Machine.run accumulateStep ps (List.range ps.length)

/-- `createStakerProbabilityArray`: the stakers with a probability, sorted, with running
totals. -/
def createStakerProbabilityArray (FirstEpochId : UInt64) (stakers : List StakerInfo)
    (epochID : UInt64) : List Proposer :=
  accumulate (sortStable (stakers.filterMap (stakerProposer FirstEpochId epochID)))

/-! ### Selection -/

variable (Keccak256 : Bytes → Bytes)

/-- The index that the residue `crBig` selects: `sort.Search` for the first entry whose
probability exceeds it. -/
def drawIndex (ps : List Proposer) (crBig : ℕ) : ℕ :=
  search ps.length fun i => decide (crBig < (ps.getD i default).Probabilities)

/-- One round of the selection loops: the hash `cr` modulo the total `tp` selects an entry,
written under the round's index, and the chain moves to the next hash. Go panics on a zero
modulus and on an index past the array. -/
def selectRound (ps : List Proposer) (tp : ℕ) (acc : Bytes × List (ℕ × Proposer)) (i : ℕ) :
    Except String (Bytes × List (ℕ × Proposer)) :=
  if tp = 0 then .error "division by zero"
  else
    match ps[drawIndex ps (setBytes acc.1 % tp)]? with
    | some p => .ok (Keccak256 acc.1, acc.2 ++ [(i, p)])
    | none => .error "index out of range"

/-- The body shared by `epochLeaderSelection` and `randomProposerSelection`: `count` rounds over
the chain of hashes seeded with `tag || r`, with the last entry's probability as the total. -/
def proposerSelection (tag : UInt8) (err : String) (count : ℕ) (r : Bytes) (ps : List Proposer) :
    Except String (List (ℕ × Proposer)) :=
  if ps = [] then .error err
  else
    let tp := (ps.getD (ps.length - 1) default).Probabilities
    ((List.range count).foldlM (selectRound Keccak256 ps tp) (Keccak256 (tag :: r), [])).map
      (·.2)

/-- The number of epoch leaders drawn: `EpochLeaderCount` less the white-listed count `WlCount`
when `GetWhiteInfo` finds one, as a Go `int`; a negative count draws none. -/
def selectionCount (whiteInfo : Option UInt64) : ℕ :=
  match whiteInfo with
  | some WlCount => (Int64.ofNat epochLeaderCount - WlCount.toInt64).toInt.toNat
  | none => epochLeaderCount

/-- `epochLeaderSelection`: the epoch leaders, drawn from `0 || r`. -/
def epochLeaderSelection (r : Bytes) (ps : List Proposer) (whiteInfo : Option UInt64) :
    Except String (List (ℕ × Proposer)) :=
  proposerSelection Keccak256 0 ErrInvalidRandomProposerSelection (selectionCount whiteInfo) r ps

/-- `randomProposerSelection`: the random-beacon proposers, drawn from `1 || r`. -/
def randomProposerSelection (r : Bytes) (ps : List Proposer) :
    Except String (List (ℕ × Proposer)) :=
  proposerSelection Keccak256 1 ErrInvalidEpochProposerSelection randomProperCount r ps

/-! ### Running totals -/

/-- The weights of a list of proposers: their probabilities, indexed. -/
def weight (ps : List Proposer) (j : ℕ) : ℕ := (ps.getD j default).Probabilities

lemma weight_of_getElem? {ps : List Proposer} {j : ℕ} {p : Proposer} (h : ps[j]? = some p) :
    weight ps j = p.Probabilities := by
  rw [weight, List.getD_eq_getElem?_getD, h, Option.getD_some]

@[simp] lemma length_accumulateStep (ps : List Proposer) (idx : ℕ) :
    (accumulateStep ps idx).length = ps.length := by
  unfold accumulateStep
  split_ifs
  · rfl
  · exact List.length_modify _ _ _

@[simp] lemma length_accumulate (ps : List Proposer) : (accumulate ps).length = ps.length :=
  Machine.run_invariant (P := fun qs => qs.length = ps.length)
    (fun qs idx h => (length_accumulateStep qs idx).trans h) rfl _

/-- The entry at `k` after the loop has run over the indices below `m`: a running total when
`k < m`, untouched otherwise. -/
def accumulated (ps : List Proposer) (m k : ℕ) (p : Proposer) : Proposer :=
  if k < m then { p with Probabilities := ∑ j ∈ range (k + 1), weight ps j } else p

/-- The pass at `m`, after the passes below `m`, makes the entry at `m` a running total. -/
lemma accumulated_succ (ps : List Proposer) {m k : ℕ} {p : Proposer} (hk : ps[k]? = some p)
    (hm0 : m ≠ 0) :
    (if m = k then
      { accumulated ps m k p with Probabilities := (accumulated ps m k p).Probabilities +
          (accumulated ps m (m - 1) (ps.getD (m - 1) default)).Probabilities }
      else accumulated ps m k p) = accumulated ps (m + 1) k p := by
  by_cases hkm : m = k
  · -- the entry at `m` adds the running total at `m - 1`
    subst hkm
    simp only [accumulated, if_true, lt_irrefl, if_false, if_pos (show m - 1 < m by omega),
      lt_add_one]
    rw [← weight_of_getElem? hk, Nat.sub_add_cancel (Nat.pos_of_ne_zero hm0), sum_range_succ,
      add_comm]
  · simp only [if_neg hkm, accumulated]
    by_cases hk : k < m
    · rw [if_pos hk, if_pos (by omega)]
    · rw [if_neg hk, if_neg (by omega)]

/-- The invariant of the loop of `accumulate`, by induction on the number of indices run. -/
lemma getElem?_run_accumulateStep (ps : List Proposer) {m : ℕ} (hm : m ≤ ps.length) (k : ℕ) :
    (Machine.run accumulateStep ps (List.range m))[k]? = ps[k]?.map (accumulated ps m k) := by
  induction m generalizing k with
  | zero =>
    have hid : accumulated ps 0 k = id := funext fun p => by simp [accumulated]
    simp [hid]
  | succ m ih =>
    rw [List.range_succ, Machine.run_append, Machine.run_cons, Machine.run_nil, accumulateStep]
    have ih' := ih (by omega)
    split_ifs with hm0
    · -- the first entry is its own running total
      subst hm0
      rw [ih']
      cases hk : ps[k]? with
      | none => rfl
      | some p =>
        by_cases hk0 : k = 0
        · subst hk0
          simp [accumulated, weight_of_getElem? hk]
        · simp [accumulated, hk0]
    · rw [List.getElem?_modify, ih']
      cases hk : ps[k]? with
      | none => rfl
      | some p =>
        have hprev : (Machine.run accumulateStep ps (List.range m)).getD (m - 1) default =
            accumulated ps m (m - 1) (ps.getD (m - 1) default) := by
          rw [List.getD_eq_getElem?_getD, ih' (m - 1), List.getD_eq_getElem?_getD,
            List.getElem?_eq_getElem (show m - 1 < ps.length by omega)]
          rfl
        rw [Option.map_some, Option.map_some, hprev]
        exact congrArg some (accumulated_succ ps hk hm0)

/-- After the loop, every entry is the running total of the probabilities up to it. -/
theorem getElem?_accumulate (ps : List Proposer) (k : ℕ) :
    (accumulate ps)[k]? =
      ps[k]?.map fun p => { p with Probabilities := ∑ j ∈ range (k + 1), weight ps j } := by
  rw [accumulate, getElem?_run_accumulateStep ps le_rfl]
  cases hk : ps[k]? with
  | none => rfl
  | some p =>
    have : k < ps.length := (List.getElem?_eq_some_iff.mp hk).1
    simp [accumulated, this]

example : (accumulate [⟨[], [], 2⟩, ⟨[], [], 0⟩, ⟨[], [], 3⟩]).map (·.Probabilities) =
    [2, 2, 5] := by decide

/-- The probability at an index of the accumulated array is the running total up to it. -/
lemma weight_accumulate {ps : List Proposer} {i : ℕ} (hi : i < ps.length) :
    weight (accumulate ps) i = ∑ j ∈ range (i + 1), weight ps j := by
  have h := getElem?_accumulate ps i
  rw [List.getElem?_eq_getElem hi, Option.map_some] at h
  rw [weight_of_getElem? h]

/-- The weights of a list add up to its total probability. -/
lemma sum_weight (ps : List Proposer) :
    ∑ j ∈ range ps.length, weight ps j = (ps.map (·.Probabilities)).sum := by
  induction ps with
  | nil => rfl
  | cons p ps ih =>
    rw [List.length_cons, sum_range_succ', List.map_cons, List.sum_cons, ← ih]
    simp only [weight, List.getD_cons_succ, List.getD_cons_zero]
    exact add_comm _ _

/-- The sort keeps the total probability. -/
lemma sum_sortStable (ps : List Proposer) :
    ((sortStable ps).map (·.Probabilities)).sum = (ps.map (·.Probabilities)).sum :=
  ((List.mergeSort_perm ps _).map _).sum_eq

/-- The last entry of the accumulated array holds the total probability. -/
lemma weight_accumulate_last {ps : List Proposer} (hps : ps ≠ []) :
    weight (accumulate ps) (ps.length - 1) = (ps.map (·.Probabilities)).sum := by
  have hn : 0 < ps.length := List.length_pos_iff.mpr hps
  rw [weight_accumulate (by omega), Nat.sub_add_cancel hn, sum_weight]

/-- A draw over the accumulated array is the draw by the prefix sums of the probabilities. -/
theorem drawIndex_accumulate (ps : List Proposer) (c : ℕ) :
    drawIndex (accumulate ps) c = draw (weight ps) ps.length c := by
  rw [drawIndex, length_accumulate, draw]
  apply search_congr
  intro i hi
  change decide (c < weight (accumulate ps) i) = _
  rw [weight_accumulate hi]

/-! ### The selection loops -/

/-- A round succeeds when the total is positive and every residue draws an index of the
array. -/
lemma selectRound_eq {ps : List Proposer} {tp : ℕ} (htp : 0 < tp)
    (hdraw : ∀ c < tp, drawIndex ps c < ps.length) (acc : Bytes × List (ℕ × Proposer))
    (i : ℕ) :
    selectRound Keccak256 ps tp acc i =
      .ok (Keccak256 acc.1,
        acc.2 ++ [(i, ps.getD (drawIndex ps (setBytes acc.1 % tp)) default)]) := by
  have hidx := hdraw _ (Nat.mod_lt (setBytes acc.1) htp)
  rw [selectRound, if_neg htp.ne', List.getD_eq_getElem?_getD, List.getElem?_eq_getElem hidx,
    Option.getD_some]

/-- The rounds, from the hash `cr`, write in round `i` the entry that the `i`-th hash after
`cr` draws. -/
lemma foldlM_selectRound {ps : List Proposer} {tp : ℕ} (htp : 0 < tp)
    (hdraw : ∀ c < tp, drawIndex ps c < ps.length) (count : ℕ) (cr : Bytes)
    (out : List (ℕ × Proposer)) :
    (List.range count).foldlM (selectRound Keccak256 ps tp) (cr, out) =
      .ok (Keccak256^[count] cr, out ++ (List.range count).map fun i =>
        (i, ps.getD (drawIndex ps (setBytes (Keccak256^[i] cr) % tp)) default)) := by
  rw [Machine.foldlM_ok (selectRound_eq Keccak256 htp hdraw)]
  congr 1
  -- the pure loop, by induction on the number of rounds
  induction count with
  | zero => simp
  | succ n ih =>
    rw [List.range_succ, List.foldl_append, ih, List.foldl_cons, List.foldl_nil,
      List.map_append, List.map_singleton, List.append_assoc, Function.iterate_succ_apply']

/-- `proposerSelection` over an array whose last entry is positive and whose every residue
draws an index of the array: round `i` writes the entry that the `(i + 1)`-th hash of
`tag || r` draws. -/
theorem proposerSelection_eq {ps : List Proposer} (hps : ps ≠ [])
    (htp : 0 < weight ps (ps.length - 1))
    (hdraw : ∀ c < weight ps (ps.length - 1), drawIndex ps c < ps.length)
    (tag : UInt8) (err : String) (count : ℕ) (r : Bytes) :
    proposerSelection Keccak256 tag err count r ps =
      .ok ((List.range count).map fun i => (i, ps.getD (drawIndex ps
        (setBytes (Keccak256^[i + 1] (tag :: r)) % weight ps (ps.length - 1))) default)) := by
  rw [proposerSelection, if_neg hps]
  change Except.map _ ((List.range count).foldlM
    (selectRound Keccak256 ps (weight ps (ps.length - 1))) (Keccak256 (tag :: r), [])) = _
  rw [foldlM_selectRound Keccak256 htp hdraw]
  simp only [Except.map, List.nil_append, Function.iterate_succ_apply]

/-! ### Exact sampling -/

/-- When the stakers' probabilities, sorted, have a positive total `tp`, the array of running
totals has one entry per staker, and a draw of a residue `c < tp` is `sort.Search` over the
prefix sums of the sorted probabilities; it selects an index of the array whose own probability
is positive, and every index is selected by exactly as many residues as its probability. Each
round of `epochLeaderSelection` and `randomProposerSelection` writes the entry that the next
hash of its chain, modulo `tp`, selects. -/
theorem stakeSampling_exact (FirstEpochId epochID : UInt64) (stakers : List StakerInfo)
    (r : Bytes) (whiteInfo : Option UInt64)
    (htp : 0 < ((sortStable (stakers.filterMap (stakerProposer FirstEpochId epochID))).map
      (·.Probabilities)).sum) :
    let sorted := sortStable (stakers.filterMap (stakerProposer FirstEpochId epochID))
    let ps := createStakerProbabilityArray FirstEpochId stakers epochID
    let tp := (sorted.map (·.Probabilities)).sum
    let pick := fun (tag : UInt8) (i : ℕ) =>
      drawIndex ps (setBytes (Keccak256^[i + 1] (tag :: r)) % tp)
    ps.length = sorted.length ∧
    (∀ c, drawIndex ps c = draw (weight sorted) sorted.length c) ∧
    (∀ c < tp, drawIndex ps c < ps.length ∧
      0 < (sorted.getD (drawIndex ps c) default).Probabilities) ∧
    (∀ k < ps.length, ((range tp).filter fun c => drawIndex ps c = k).card =
      (sorted.getD k default).Probabilities) ∧
    epochLeaderSelection Keccak256 r ps whiteInfo =
      .ok ((List.range (selectionCount whiteInfo)).map fun i => (i, ps.getD (pick 0 i) default)) ∧
    randomProposerSelection Keccak256 r ps =
      .ok ((List.range randomProperCount).map fun i => (i, ps.getD (pick 1 i) default)) := by
  intro sorted ps tp pick
  replace htp : 0 < tp := htp
  have hps : ps = accumulate sorted := rfl
  have hlen : ps.length = sorted.length := by rw [hps, length_accumulate]
  have hsum : ∑ j ∈ range sorted.length, weight sorted j = tp := sum_weight sorted
  have hne : sorted ≠ [] := by
    rintro hnil
    rw [show tp = 0 by simp [tp, hnil]] at htp
    exact Nat.lt_irrefl 0 htp
  have hdraw : ∀ c, drawIndex ps c = draw (weight sorted) sorted.length c :=
    fun c => by rw [hps, drawIndex_accumulate]
  -- every residue draws an index of the array, of positive weight
  have hin : ∀ c < tp, drawIndex ps c < ps.length ∧
      0 < (sorted.getD (drawIndex ps c) default).Probabilities := by
    intro c hc
    rw [hdraw, hlen]
    rw [← hsum] at hc
    exact ⟨draw_lt hc, draw_weight_pos hc⟩
  -- the total is the last running total, which the selections use
  have hlast : weight ps (ps.length - 1) = tp := by
    rw [hlen, hps]
    exact weight_accumulate_last hne
  have hpsne : ps ≠ [] := by
    rw [← List.length_pos_iff, hlen]
    exact List.length_pos_iff.mpr hne
  have hdraw' : ∀ c < weight ps (ps.length - 1), drawIndex ps c < ps.length := by
    rw [hlast]
    exact fun c hc => (hin c hc).1
  refine ⟨hlen, hdraw, hin, fun k hk => ?_, ?_, ?_⟩
  · simp only [hdraw]
    rw [← hsum]
    exact card_draw_eq (by omega)
  · rw [epochLeaderSelection, proposerSelection_eq Keccak256 hpsne (hlast ▸ htp) hdraw',
      hlast]
  · rw [randomProposerSelection, proposerSelection_eq Keccak256 hpsne (hlast ▸ htp) hdraw',
      hlast]

/-- Four stakers without delegations, partners or lock, of stakes 2, 0, 2 and 1: one of
probability zero, and two of the same probability, which the stable sort keeps in input order. -/
def fourStakers : List StakerInfo :=
  [⟨1, [1], [], 0, 2, 0, 0, 1, 0, 10000, [], []⟩, ⟨2, [2], [], 0, 0, 0, 0, 2, 0, 10000, [], []⟩,
    ⟨3, [3], [], 0, 2, 0, 0, 3, 0, 10000, [], []⟩, ⟨4, [4], [], 0, 1, 0, 0, 4, 0, 10000, [], []⟩]

/-- A chain of hashes that adds one to every byte, so that round `i` draws `i + 1 + tag`. -/
def succBytes (b : Bytes) : Bytes := b.map (· + 1)

theorem stakeSampling_exact_four :
    0 < ((sortStable (fourStakers.filterMap (stakerProposer 0 0))).map (·.Probabilities)).sum ∧
    let sorted := sortStable (fourStakers.filterMap (stakerProposer 0 0))
    let ps := createStakerProbabilityArray 0 fourStakers 0
    let tp := (sorted.map (·.Probabilities)).sum
    let pick := fun (tag : UInt8) (i : ℕ) =>
      drawIndex ps (setBytes (succBytes^[i + 1] (tag :: [])) % tp)
    ps.length = sorted.length ∧
    (∀ c, drawIndex ps c = draw (weight sorted) sorted.length c) ∧
    (∀ c < tp, drawIndex ps c < ps.length ∧
      0 < (sorted.getD (drawIndex ps c) default).Probabilities) ∧
    (∀ k < ps.length, ((range tp).filter fun c => drawIndex ps c = k).card =
      (sorted.getD k default).Probabilities) ∧
    epochLeaderSelection succBytes [] ps none =
      .ok ((List.range (selectionCount none)).map fun i => (i, ps.getD (pick 0 i) default)) ∧
    randomProposerSelection succBytes [] ps =
      .ok ((List.range randomProperCount).map fun i => (i, ps.getD (pick 1 i) default)) := by
  have htp : 0 < ((sortStable (fourStakers.filterMap (stakerProposer 0 0))).map
      (·.Probabilities)).sum := by
    rw [sum_sortStable]
    decide
  exact ⟨htp, stakeSampling_exact succBytes 0 0 fourStakers [] none htp⟩

end Wanchain.EpochLeader
