import Wanchain.Incentive.Subsidy

/-!
# Allocation of the epoch subsidies

`pos/incentive/delegate.go` and the allocators of `incentive.go`. Each of the three groups
(epoch leaders, random proposers, slot leaders) receives a subsidy; the group's allocator
splits it into one amount per active member, and `delegate` splits a member's amount between
the validator, who takes its commission first, and the delegators in proportion to their
probabilities.

The staker information is read through the `getStakerInfo` callback that the staking module
registers (`setStakerInterface`); it is a parameter here. Probabilities are `big.Int`s
computed from stake amounts, hence natural numbers.
-/

namespace Wanchain

/-- `vm.ClientProbability`. -/
structure ClientProbability where
  ValidatorAddr : Address
  WalletAddr : Address
  Probability : ℕ
  deriving DecidableEq, Repr

/-- `vm.ValidatorInfo`: position 0 of `Infos` is the validator, the others its delegators. -/
structure ValidatorInfo where
  TotalProbability : ℕ
  FeeRate : UInt64
  ValidatorAddr : Address
  WalletAddr : Address
  Infos : List ClientProbability
  deriving DecidableEq, Repr

/-- `vm.ClientIncentive`: one payment. -/
structure ClientIncentive where
  ValidatorAddr : Address
  WalletAddr : Address
  Incentive : ℤ
  deriving DecidableEq, Repr

namespace Incentive

/-- The `GetStakerInfoFn` callback: `none` is its error return. -/
abbrev GetStakerInfoFn := UInt64 → Address → Option ValidatorInfo

variable (getStakerInfo : GetStakerInfoFn)

/-- `getStakerInfoAndCheck`: stakers, fee rate and total probability of a validator, refused
when it has no stakers or a fee rate above 10000. -/
def getStakerInfoAndCheck (epochID : UInt64) (addr : Address) :
    Option (List ClientProbability × UInt64 × ℕ) := do
  let validator ← getStakerInfo epochID addr
  if validator.Infos = [] then none
  else if validator.FeeRate > 10000 then none
  else some (validator.Infos, validator.FeeRate, validator.TotalProbability)

/-- `sumStakerProbility`. -/
def sumStakerProbility (inputs : List ClientProbability) : ℕ :=
  (inputs.map (·.Probability)).sum

/-- The amount `delegateDivision` pays staker `i`: its share of what is left after the
commission, plus the commission at position 0, never negative. -/
def delegateShare (lastValue commission : ℤ) (tp : ℕ) (i : ℕ) (st : ClientProbability) : ℤ :=
  let incentive := lastValue * st.Probability
  let incentive := if incentive ≠ 0 then incentive / (tp : ℤ) else incentive
  let incentive := if i = 0 then incentive + commission else incentive
  if incentive < 0 then 0 else incentive

/-- `delegateDivision(addr, value, stakers, divisionPercent, totalProbility)`: the payments
to the stakers of one validator and the remainder, `value - valueCeiling = 0`. -/
def delegateDivision (value : ℤ) (stakers : List ClientProbability) (divisionPercent : UInt64) :
    List ClientIncentive × ℤ :=
  let valueCeiling := value
  let remain := value - valueCeiling
  let commission := calcPercent valueCeiling ((divisionPercent.toNat : ℚ) / 100)
  let lastValue := valueCeiling - commission
  let tp := sumStakerProbility stakers
  (stakers.mapIdx fun i st =>
    ⟨st.ValidatorAddr, st.WalletAddr, delegateShare lastValue commission tp i st⟩, remain)

/-- `delegate(addrs, values, epochID)`: one list of payments per validator whose staker
information passes the check; a validator that fails it is skipped and its value is neither
paid nor counted as remainder. -/
def delegate (epochID : UInt64) : List (Address × ℤ) → List (List ClientIncentive) × ℤ
  | [] => ([], 0)
  | (addr, value) :: rest =>
    let (finalIncentive, remain) := delegate epochID rest
    match getStakerInfoAndCheck getStakerInfo epochID addr with
    | none => (finalIncentive, remain)
    | some (stakers, division, _) =>
      let (incentive, subRemain) := delegateDivision value stakers division
      (incentive :: finalIncentive, subRemain + remain)

/-- `protocalRunerAllocate(funds, addrs, acts, epochID)`, the allocator of epoch leaders and
random proposers: every member is worth `funds / count`; the share of an inactive member
is a remainder. `none` is the error return. -/
def protocalRunerAllocate (funds : ℤ) (addrs : List Address) (acts : List ℤ) (epochID : UInt64) :
    Option (List (List ClientIncentive) × ℤ) :=
  if addrs = [] then some ([], funds)
  else if addrs.length ≠ acts.length then none
  else
    let fundOne := funds / (addrs.length : ℤ)
    let pairs := addrs.zip acts
    let funded := (pairs.filter fun p => p.2 = 1).map fun p => (p.1, fundOne)
    let remains := ((pairs.filter fun p => p.2 ≠ 1).length : ℤ) * fundOne
    let (finalIncentive, subRemain) := delegate getStakerInfo epochID funded
    some (finalIncentive, remains + subRemain)

/-- `epochLeaderAllocate`. -/
def epochLeaderAllocate (funds : ℤ) (addrs : List Address) (acts : List ℤ) (epochID : UInt64) :
    Option (List (List ClientIncentive) × ℤ) :=
  protocalRunerAllocate getStakerInfo funds addrs acts epochID

/-- `randomProposerAllocate`. -/
def randomProposerAllocate (funds : ℤ) (addrs : List Address) (acts : List ℤ) (epochID : UInt64) :
    Option (List (List ClientIncentive) × ℤ) :=
  protocalRunerAllocate getStakerInfo funds addrs acts epochID

/-- `slotLeaderAllocate(funds, addrs, blocks, act, slotCount, epochID)`: every slot not
produced by the foundation is worth `funds / slotCount`, scaled by the activity `act` to
five decimals; a slot leader is paid that amount for each block it produced, with the
staker information of the previous epoch. The leaders come with their block counts, as
`getSlotLeaderActivity` returns them. -/
def slotLeaderAllocate (funds : ℤ) (leaders : List (Address × ℤ)) (act : ℚ) (slotCnt : ℤ)
    (epochID : UInt64) : List (List ClientIncentive) × ℤ :=
  if leaders = [] ∨ slotCnt = 0 ∨ act = 0 then ([], funds)
  else
    let incentiveOfSlot := funds / slotCnt
    let incentiveScale := incentiveOfSlot * ⌊act * 100000⌋
    let incentiveActive := incentiveScale / 100000
    let singleRemain := incentiveOfSlot - incentiveActive
    let remains := singleRemain * slotCnt
    let fundValues := leaders.map fun l => (l.1, incentiveActive * l.2)
    let (finalIncentive, subRemain) := delegate getStakerInfo (epochID - 1) fundValues
    (finalIncentive, remains + subRemain)

/-! ### The split of one validator's value -/

section Division

/-- Half-up rounding leaves an integer as it is. -/
lemma round_intCast (n : ℤ) : round n = n := by
  rw [round, Int.floor_intCast_add, add_eq_left, Int.floor_eq_zero_iff]
  norm_num

/-- The scaled percentage of a fee rate `d` (in hundredths of a percent): `d · 10⁵`. -/
lemma round_divisionPercent (d : ℕ) : round ((d : ℚ) / 100 * 10000000) = d * 100000 := by
  rw [show (d : ℚ) / 100 * 10000000 = ((d * 100000 : ℤ) : ℚ) by push_cast; ring, round_intCast]

/-- For a fee rate of at most 10000, the commission is between zero and the value. -/
lemma commission_bounds {value : ℤ} (hvalue : 0 ≤ value) {d : ℕ} (hd : d ≤ 10000) :
    0 ≤ calcPercent value ((d : ℚ) / 100) ∧ calcPercent value ((d : ℚ) / 100) ≤ value := by
  rw [calcPercent, round_divisionPercent, round_hundred_scale]
  have hq : (d : ℤ) * 100000 ≤ 1000000000 := by omega
  have hlo : 0 ≤ value * (d * 100000) := mul_nonneg hvalue (by omega)
  have hhi : value * (d * 100000) ≤ value * 1000000000 := mul_le_mul_of_nonneg_left hq hvalue
  omega

variable {lastValue commission : ℤ} {tp : ℕ}

/-- A payment is never negative. -/
lemma delegateShare_nonneg (i : ℕ) (st : ClientProbability) :
    0 ≤ delegateShare lastValue commission tp i st := by
  dsimp only [delegateShare]
  split_ifs <;> omega

/-- With a non-negative amount to share and commission, staker `i` is paid its floored share,
and the validator at position 0 the commission on top; the zero-product guard changes nothing. -/
lemma delegateShare_eq (hlast : 0 ≤ lastValue) (hcomm : 0 ≤ commission) (i : ℕ)
    (st : ClientProbability) :
    delegateShare lastValue commission tp i st =
      lastValue * st.Probability / tp + if i = 0 then commission else 0 := by
  have hshare : 0 ≤ lastValue * st.Probability / tp :=
    Int.ediv_nonneg (mul_nonneg hlast (Int.natCast_nonneg _)) (Int.natCast_nonneg _)
  have hguard : (if lastValue * st.Probability ≠ 0 then lastValue * st.Probability / tp
      else lastValue * st.Probability) = lastValue * st.Probability / tp := by
    split_ifs with h
    · rfl
    · rw [not_not.mp h, Int.zero_ediv]
  dsimp only [delegateShare]
  rw [hguard]
  split_ifs <;> omega

/-- Floored shares `⌊a·pᵢ/t⌋` of a list of weights: together they are at most `a·Σp / t`, and
each falls short of its exact share by less than one. -/
lemma sum_floor_shares (a t : ℤ) (ht : 0 < t) (l : List ℕ) :
    (l.map fun p : ℕ => a * (p : ℤ) / t).sum * t ≤ a * (l.sum : ℤ) ∧
      a * (l.sum : ℤ) ≤ ((l.map fun p : ℕ => a * (p : ℤ) / t).sum + l.length) * t - l.length := by
  induction l with
  | nil => simp
  | cons p l ih =>
    have hle := Int.ediv_mul_le (a * p) ht.ne'
    have hlt := Int.lt_ediv_add_one_mul_self (a * p) ht
    simp only [List.map_cons, List.sum_cons, List.length_cons, Nat.cast_add, Nat.cast_one]
    constructor <;> nlinarith [ih.1, ih.2]

variable {value : ℤ} {d : UInt64}

lemma map_incentive_delegateDivision (hvalue : 0 ≤ value) (hd : d.toNat ≤ 10000)
    (s0 : ClientProbability) (rest : List ClientProbability) :
    (delegateDivision value (s0 :: rest) d).1.map (·.Incentive) =
      ((value - calcPercent value ((d.toNat : ℚ) / 100)) * s0.Probability /
          sumStakerProbility (s0 :: rest) + calcPercent value ((d.toNat : ℚ) / 100)) ::
        rest.map fun st => (value - calcPercent value ((d.toNat : ℚ) / 100)) * st.Probability /
          sumStakerProbility (s0 :: rest) := by
  obtain ⟨hc0, hcv⟩ := commission_bounds hvalue hd
  have hshare : ∀ i st, delegateShare (value - calcPercent value ((d.toNat : ℚ) / 100))
      (calcPercent value ((d.toNat : ℚ) / 100)) (sumStakerProbility (s0 :: rest)) i st = _ :=
    delegateShare_eq (sub_nonneg.mpr hcv) hc0
  simp only [delegateDivision, List.mapIdx_cons, List.map_cons, hshare, if_true,
    Nat.add_one_ne_zero, if_false, add_zero, List.cons.injEq, true_and]
  -- past position 0 every payment is the floored share alone
  apply List.ext_getElem (by simp)
  intro i h1 h2
  simp only [List.getElem_map, List.getElem_mapIdx]

/-- The sum of the payments: the floored shares of what is left after the commission, and the
commission. -/
lemma sum_incentive_delegateDivision (hvalue : 0 ≤ value) (hd : d.toNat ≤ 10000)
    (s0 : ClientProbability) (rest : List ClientProbability) :
    ((delegateDivision value (s0 :: rest) d).1.map (·.Incentive)).sum =
      (((s0 :: rest).map (·.Probability)).map fun p : ℕ =>
          (value - calcPercent value ((d.toNat : ℚ) / 100)) * (p : ℤ) /
            sumStakerProbility (s0 :: rest)).sum +
        calcPercent value ((d.toNat : ℚ) / 100) := by
  rw [map_incentive_delegateDivision hvalue hd, List.map_map, List.map_cons, List.sum_cons,
    List.sum_cons]
  simp only [Function.comp_def]
  ring

/-- The payments add up to at most the value, and fall short of it by less than one per
staker. -/
lemma sum_incentive_bounds (hvalue : 0 ≤ value) (hd : d.toNat ≤ 10000)
    (s0 : ClientProbability) (rest : List ClientProbability)
    (htp : 0 < sumStakerProbility (s0 :: rest)) :
    ((delegateDivision value (s0 :: rest) d).1.map (·.Incentive)).sum ≤ value ∧
      value - ((delegateDivision value (s0 :: rest) d).1.map (·.Incentive)).sum <
        (s0 :: rest).length := by
  obtain ⟨hc0, hcv⟩ := commission_bounds hvalue hd
  have htp' : (0 : ℤ) < sumStakerProbility (s0 :: rest) := by exact_mod_cast htp
  obtain ⟨hlo, hhi⟩ := sum_floor_shares (value - calcPercent value ((d.toNat : ℚ) / 100))
    (sumStakerProbility (s0 :: rest)) htp' ((s0 :: rest).map (·.Probability))
  rw [sum_incentive_delegateDivision hvalue hd]
  rw [List.length_map] at hhi
  -- the weights add up to `tp`, so the floored shares add up to at most what is left
  change _ ≤ _ * (sumStakerProbility (s0 :: rest) : ℤ) at hlo
  change _ * (sumStakerProbility (s0 :: rest) : ℤ) ≤ _ at hhi
  generalize (((s0 :: rest).map (·.Probability)).map fun p : ℕ =>
    (value - calcPercent value ((d.toNat : ℚ) / 100)) * (p : ℤ) /
      sumStakerProbility (s0 :: rest)).sum = S at hlo hhi ⊢
  generalize calcPercent value ((d.toNat : ℚ) / 100) = c at hc0 hcv hlo hhi ⊢
  have hn : (0 : ℤ) < (s0 :: rest).length := by simp
  have h1 : S ≤ value - c := le_of_mul_le_mul_right hlo htp'
  have h2 : value - c < S + (s0 :: rest).length :=
    lt_of_mul_lt_mul_right (show (value - c) * (sumStakerProbility (s0 :: rest) : ℤ) <
      (S + (s0 :: rest).length) * (sumStakerProbility (s0 :: rest) : ℤ) by linarith) htp'.le
  omega

theorem delegateDivision_split (value : ℤ) (hvalue : 0 ≤ value)
    (stakers : List ClientProbability) (hne : stakers ≠ []) (divisionPercent : UInt64)
    (hd : divisionPercent.toNat ≤ 10000) (htp : 0 < sumStakerProbility stakers) :
    (∀ c ∈ (delegateDivision value stakers divisionPercent).1, 0 ≤ c.Incentive) ∧
    ((delegateDivision value stakers divisionPercent).1.map (·.Incentive)).sum ≤ value ∧
    value - ((delegateDivision value stakers divisionPercent).1.map (·.Incentive)).sum <
      stakers.length ∧
    (∃ c, (delegateDivision value stakers divisionPercent).1.head? = some c ∧
      value * round ((divisionPercent.toNat : ℚ) / 100 * 10000000) / 1000000000 ≤
        c.Incentive) ∧
    (delegateDivision value stakers divisionPercent).2 = 0 := by
  obtain ⟨s0, rest, rfl⟩ := List.exists_cons_of_ne_nil hne
  obtain ⟨hc0, hcv⟩ := commission_bounds hvalue hd
  obtain ⟨hle, hlt⟩ := sum_incentive_bounds hvalue hd s0 rest htp
  refine ⟨?_, hle, hlt, ?_, by simp [delegateDivision]⟩
  · intro c hc
    obtain ⟨i, hi, rfl⟩ := List.mem_mapIdx.mp hc
    exact delegateShare_nonneg i _
  · -- the validator is paid its share and the whole commission
    refine ⟨_, List.head?_mapIdx.trans rfl, ?_⟩
    dsimp only
    rw [delegateShare_eq (sub_nonneg.mpr hcv) hc0, if_pos rfl, ← round_hundred_scale,
      ← calcPercent]
    have : 0 ≤ (value - calcPercent value ((divisionPercent.toNat : ℚ) / 100)) *
        s0.Probability / sumStakerProbility (s0 :: rest) :=
      Int.ediv_nonneg (mul_nonneg (sub_nonneg.mpr hcv) (Int.natCast_nonneg _))
        (Int.natCast_nonneg _)
    omega

theorem delegateDivision_split_two :
    (0 : ℤ) ≤ 100 ∧ [⟨0, 0, 1⟩, ⟨0, 0, 2⟩] ≠ ([] : List ClientProbability) ∧
    (1000 : UInt64).toNat ≤ 10000 ∧ 0 < sumStakerProbility [⟨0, 0, 1⟩, ⟨0, 0, 2⟩] ∧
    ((∀ c ∈ (delegateDivision 100 [⟨0, 0, 1⟩, ⟨0, 0, 2⟩] 1000).1, 0 ≤ c.Incentive) ∧
      ((delegateDivision 100 [⟨0, 0, 1⟩, ⟨0, 0, 2⟩] 1000).1.map (·.Incentive)).sum ≤ 100 ∧
      100 - ((delegateDivision 100 [⟨0, 0, 1⟩, ⟨0, 0, 2⟩] 1000).1.map (·.Incentive)).sum <
        ([⟨0, 0, 1⟩, ⟨0, 0, 2⟩] : List ClientProbability).length ∧
      (∃ c, (delegateDivision 100 [⟨0, 0, 1⟩, ⟨0, 0, 2⟩] 1000).1.head? = some c ∧
        100 * round (((1000 : UInt64).toNat : ℚ) / 100 * 10000000) / 1000000000 ≤
          c.Incentive) ∧
      (delegateDivision 100 [⟨0, 0, 1⟩, ⟨0, 0, 2⟩] 1000).2 = 0) :=
  ⟨by decide, by simp, by decide, by decide,
    delegateDivision_split 100 (by decide) _ (by simp) 1000 (by decide) (by decide)⟩

end Division

end Incentive

end Wanchain
