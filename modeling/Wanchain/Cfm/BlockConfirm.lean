import Wanchain.Basic.Bytes
import Wanchain.Basic.Config

/-!
# The maximum stable block

`pos/cfm/block_confirm.go`. In the PoS phase `GetMaxStableBlkNumber` scans the last `K` blocks
of the canonical chain from the head down (`scanAllBlockStatus`). Block `i` counts the
white-listed producers `Sx` and the others `NHx` of the blocks from the head down to it, and
the slots from its time to now; it is stable when `2 * Sx + NHx - slots > SecBlkDiff`, computed
in `uint64` and read as an `int64`. `getMaxStableBlkNumber` then walks the statuses from the
oldest block up and returns the number before the first unstable one.

Over the integers the test is `stableAt`: the `uint64` arithmetic never wraps inside the window
and the `int64` reading of the difference is the integer difference (`scanAllBlockStatus_eq`).
The number returned is one below the first unstable block of the window, with three edge cases
(`getMaxStableBlkNumber_window`); every block above the window's bottom up to it is stable
(`maxStable_sound`). Appending blocks at the same time only raises the counts, so the number does
not go down (`maxStable_mono`); time passing without blocks lowers every block's margin, and the
number can fall back (`maxStable_rolls_back`).

The chain is the list of its blocks, block `i` at index `i`: `GetBlock(hash, i)` walks the
parent hashes of the canonical chain from the head, so it reads block `i`, and its `NumberU64`
is `i`.
-/

namespace Wanchain.Cfm

/-- `SecBlkDiff`. -/
def SecBlkDiff : Int64 := 50

/-- `MaxUint64 = ^uint64(0)`. -/
def MaxUint64 : UInt64 := 18446744073709551615

/-- `SecPowBlks`. -/
def SecPowBlks : UInt64 := 12

/-- `ErrNullBlk`. -/
def ErrNullBlk : String := "can not read block"

/-- A block as the confirmation reads it. -/
structure Block where
  Coinbase : Address
  Time : UInt64
  deriving DecidableEq, Repr

/-- `CFM`: the canonical chain and the addresses of the white list. -/
structure CFM where
  bc : List Block
  whiteList : List Address

structure SuffixBlkStatic where
  SuffixBlockTrusted : UInt64
  SuffixBlockNonTrusted : UInt64

/-- The loop body's count of one more block, white-listed or not. -/
def SuffixBlkStatic.count (sbs : SuffixBlkStatic) (inWhiteList : Bool) : SuffixBlkStatic :=
  if inWhiteList then { sbs with SuffixBlockTrusted := sbs.SuffixBlockTrusted + 1 }
  else { sbs with SuffixBlockNonTrusted := sbs.SuffixBlockNonTrusted + 1 }

structure BlkStatus where
  BlkNumber : UInt64
  Stable : Bool
  deriving DecidableEq, Repr

namespace CFM

/-- `getCurrentBlkNumber`. -/
def getCurrentBlkNumber (c : CFM) : UInt64 :=
  match c.bc.getLast? with
  | none => 0
  | some _ => UInt64.ofNat (c.bc.length - 1)

/-- `getPowMaxStableBlkNumber`. -/
def getPowMaxStableBlkNumber (curBlkNumber : UInt64) : UInt64 :=
  if curBlkNumber < SecPowBlks then 0 else curBlkNumber - SecPowBlks

/-- `c.bc.GetBlock(hash, i)` on the canonical chain. -/
def GetBlock (c : CFM) (i : UInt64) : Option Block := c.bc[i.toNat]?

/-- `isInWhiteList`. -/
def isInWhiteList (c : CFM) (coinBase : Address) : Bool := c.whiteList.contains coinBase

end CFM

/-- `getSlotsCount`. -/
def getSlotsCount (startTime stopTime slotTime : UInt64) : UInt64 :=
  if stopTime ≤ startTime then 0 else (stopTime - startTime) / slotTime + 1

namespace CFM

/-- The loop of `scanAllBlockStatus`, `for i := startNumber; i > stopNumber && i < MaxUint64;
i--`, run for at most `fuel` rounds. -/
def scanLoop (c : CFM) (timeNow stopNumber : UInt64) :
    ℕ → UInt64 → SuffixBlkStatic → List BlkStatus → List BlkStatus × Option String
  | 0, _, _, blkStatusArr => (blkStatusArr, none)
  | fuel + 1, i, sbs, blkStatusArr =>
    if i > stopNumber ∧ i < MaxUint64 then
      match c.GetBlock i with
      | none => (blkStatusArr, some ErrNullBlk)
      | some blk =>
        let sbs := sbs.count (c.isInWhiteList blk.Coinbase)
        let slotsCount := getSlotsCount blk.Time timeNow (UInt64.ofNat slotTime)
        let diffBlk := (2 * sbs.SuffixBlockTrusted + sbs.SuffixBlockNonTrusted - slotsCount).toInt64
        let status := decide (diffBlk > SecBlkDiff)
        scanLoop c timeNow stopNumber fuel (i - 1) sbs (blkStatusArr ++ [⟨i, status⟩])
    else (blkStatusArr, none)

/-- `scanAllBlockStatus(timeNow)`: the statuses from the head down, the bottom and the top of
the window, and the error. The loop makes `startNumber - stopNumber` rounds at most, after which
its guard fails. -/
def scanAllBlockStatus (c : CFM) (timeNow : UInt64) :
    List BlkStatus × UInt64 × UInt64 × Option String :=
  match c.bc.getLast? with
  | none => ([], 0, 0, some ErrNullBlk)
  | some _ =>
    let startNumber := UInt64.ofNat (c.bc.length - 1)
    let stopNumber :=
      if startNumber > UInt64.ofNat kParam then startNumber - UInt64.ofNat kParam else 0
    let r := c.scanLoop timeNow stopNumber (startNumber - stopNumber).toNat startNumber ⟨0, 0⟩ []
    (r.1, stopNumber, startNumber, r.2)

end CFM

/-- The loop `for i := uint64(len(blkStatusArr) - 2); i >= 0 && i < MaxUint64; i--` of
`getMaxStableBlkNumber`: `stableLoop arr blkNumber k` visits the indices `k - 1` down to `0`,
and stops at the first unstable status. With one status, `len - 2` wraps to `MaxUint64` and the
loop does not run. -/
def stableLoop (blkStatusArr : List BlkStatus) (blkNumber : UInt64) : ℕ → UInt64
  | 0 => blkNumber
  | k + 1 =>
    let blkStatus := blkStatusArr.getD k ⟨0, false⟩
    if !blkStatus.Stable then blkStatus.BlkNumber
    else stableLoop blkStatusArr blkStatus.BlkNumber k

/-- `getMaxStableBlkNumber`. -/
def getMaxStableBlkNumber (blkStatusArr : List BlkStatus) (stopNumber startNumber : UInt64)
    (err : Option String) : UInt64 :=
  if startNumber < stopNumber then 0
  else if err.isSome then stopNumber
  else
    match blkStatusArr.getLast? with
    | none => 0
    | some blkStatus =>
      if UInt64.ofNat blkStatusArr.length ≠ startNumber - stopNumber then stopNumber
      else if !blkStatus.Stable then
        if blkStatus.BlkNumber > 0 then blkStatus.BlkNumber - 1 else 0
      else
        let blkNumber := stableLoop blkStatusArr 0 (blkStatusArr.length - 1)
        if blkNumber > 0 then blkNumber - 1 else 0

/-- `GetMaxStableBlkNumber` at the time `timeNow`, under the configured `FirstEpochId` and
`Pow2PosUpgradeBlockNumber`. -/
def GetMaxStableBlkNumber (c : CFM) (FirstEpochId Pow2PosUpgradeBlockNumber timeNow : UInt64) :
    UInt64 :=
  if FirstEpochId = 0 then CFM.getPowMaxStableBlkNumber c.getCurrentBlkNumber
  else
    let r := c.scanAllBlockStatus timeNow
    let maxStableBlkNumber := getMaxStableBlkNumber r.1 r.2.1 r.2.2.1 r.2.2.2
    if maxStableBlkNumber ≥ Pow2PosUpgradeBlockNumber then maxStableBlkNumber
    else Pow2PosUpgradeBlockNumber

/-! ### Stability over the integers -/

namespace CFM

/-- The white-listed producers of the blocks from `i` to the head. -/
def trusted (c : CFM) (i : ℕ) : ℕ := ((c.bc.drop i).filter fun b => c.isInWhiteList b.Coinbase).length

/-- The other producers of the blocks from `i` to the head. -/
def nonTrusted (c : CFM) (i : ℕ) : ℕ :=
  ((c.bc.drop i).filter fun b => !c.isInWhiteList b.Coinbase).length

/-- Block `i` is stable at `timeNow`: `2 * Sx + NHx - slots > SecBlkDiff` over the integers. -/
def stableAt (c : CFM) (timeNow : UInt64) (i : ℕ) : Bool :=
  match c.bc[i]? with
  | none => false
  | some blk => decide ((2 * c.trusted i + c.nonTrusted i : ℤ) -
      (getSlotsCount blk.Time timeNow (UInt64.ofNat slotTime)).toNat > 50)

/-- The lowest block number left out of the scan: `K` below the head, or 0. -/
def bottom (c : CFM) : ℕ := c.bc.length - 1 - kParam

lemma trusted_add_nonTrusted (c : CFM) (i : ℕ) :
    c.trusted i + c.nonTrusted i = c.bc.length - i := by
  rw [trusted, nonTrusted, ← List.length_drop]
  exact (List.length_eq_length_filter_add _).symm

/-- One block more below: its producer is counted. -/
lemma count_suffix (c : CFM) {i : ℕ} {blk : Block} (hblk : c.bc[i]? = some blk) :
    (SuffixBlkStatic.mk (UInt64.ofNat (c.trusted (i + 1))) (UInt64.ofNat (c.nonTrusted (i + 1)))).count
      (c.isInWhiteList blk.Coinbase) =
      ⟨UInt64.ofNat (c.trusted i), UInt64.ofNat (c.nonTrusted i)⟩ := by
  obtain ⟨hi, hget⟩ := List.getElem?_eq_some_iff.mp hblk
  have hdrop : c.bc.drop i = blk :: c.bc.drop (i + 1) := hget ▸ List.drop_eq_getElem_cons hi
  unfold SuffixBlkStatic.count trusted nonTrusted
  rw [hdrop, List.filter_cons, List.filter_cons]
  cases c.isInWhiteList blk.Coinbase
  · simp [UInt64.ofNat_add]
  · simp [UInt64.ofNat_add]

lemma getSlotsCount_lt (startTime stopTime : UInt64) :
    (getSlotsCount startTime stopTime (UInt64.ofNat slotTime)).toNat < 2 ^ 63 := by
  unfold getSlotsCount
  split_ifs
  · simp
  · have hlt := (stopTime - startTime).toNat_lt
    have h5 : (UInt64.ofNat slotTime).toNat = 5 := rfl
    rw [UInt64.toNat_add, UInt64.toNat_div, h5, UInt64.toNat_one]
    omega

/-- Inside the window the `uint64` test is the integer one: the counts do not wrap, and the
`int64` reading of the difference is the integer difference. -/
lemma diffBlk_gt_iff (c : CFM) (timeNow : UInt64) {i : ℕ} {blk : Block}
    (hblk : c.bc[i]? = some blk) (hwin : c.bc.length - i ≤ kParam) :
    (2 * UInt64.ofNat (c.trusted i) + UInt64.ofNat (c.nonTrusted i) -
        getSlotsCount blk.Time timeNow (UInt64.ofNat slotTime)).toInt64 > SecBlkDiff ↔
      c.stableAt timeNow i = true := by
  have hsum := c.trusted_add_nonTrusted i
  have hslots := getSlotsCount_lt blk.Time timeNow
  have hcounts : (2 * UInt64.ofNat (c.trusted i) + UInt64.ofNat (c.nonTrusted i)).toNat =
      2 * c.trusted i + c.nonTrusted i := by
    simp only [kParam] at hwin
    rw [UInt64.toNat_add, UInt64.toNat_mul, UInt64.toNat_ofNat_of_lt' (by unfold UInt64.size; omega),
      UInt64.toNat_ofNat_of_lt' (by unfold UInt64.size; omega)]
    simp only [UInt64.reduceToNat]
    omega
  have hsmall : (2 * UInt64.ofNat (c.trusted i) + UInt64.ofNat (c.nonTrusted i)).toNat < 2 ^ 63 := by
    simp only [kParam] at hwin
    omega
  rw [gt_iff_lt, Int64.lt_iff_toInt_lt, toInt_toInt64_sub hsmall hslots, hcounts, stableAt, hblk]
  simp only [SecBlkDiff, decide_eq_true_eq]
  push_cast
  constructor <;> intro h <;> simpa using h

end CFM

/-! ### The scan -/

/-- The statuses of the blocks `H` down to `S + 1` under the test `st`. -/
def window (st : ℕ → Bool) (S H : ℕ) : List BlkStatus :=
  (List.range (H - S)).map fun j => ⟨UInt64.ofNat (H - j), st (H - j)⟩

lemma window_self (st : ℕ → Bool) (S : ℕ) : window st S S = [] := by
  simp [window]

lemma window_succ (st : ℕ → Bool) (S d : ℕ) :
    window st S (S + d + 1) = ⟨UInt64.ofNat (S + d + 1), st (S + d + 1)⟩ :: window st S (S + d) := by
  rw [window, show S + d + 1 - S = d + 1 by omega, List.range_succ_eq_map, List.map_cons,
    List.map_map, window, show S + d - S = d by omega]
  congr 1
  refine List.map_congr_left fun j hj => ?_
  have hj := List.mem_range.mp hj
  simp only [Function.comp_apply, Nat.succ_eq_add_one]
  congr 2 <;> omega

lemma length_window (st : ℕ → Bool) (S H : ℕ) : (window st S H).length = H - S := by
  simp [window]

lemma getD_window (st : ℕ → Bool) {S H k : ℕ} (hk : k < H - S) (d : BlkStatus) :
    (window st S H).getD k d = ⟨UInt64.ofNat (H - k), st (H - k)⟩ := by
  simp [window, hk]

namespace CFM

/-- The scan from block `S + d` down, with the counts of the blocks above it: the statuses of
the blocks `S + d` down to `S + 1`. The induction is on the rounds left, which the guard stops at
`S`. -/
lemma scanLoop_eq (c : CFM) (timeNow : UInt64) {S : ℕ} (hK : c.bc.length ≤ S + 1 + kParam)
    (hlen : c.bc.length < 2 ^ 64) :
    ∀ (d : ℕ) (acc : List BlkStatus), S + d < c.bc.length →
      c.scanLoop timeNow (UInt64.ofNat S) d (UInt64.ofNat (S + d))
          ⟨UInt64.ofNat (c.trusted (S + d + 1)), UInt64.ofNat (c.nonTrusted (S + d + 1))⟩ acc =
        (acc ++ window (c.stableAt timeNow) S (S + d), none) := by
  intro d
  induction d with
  | zero =>
    intro acc _
    simp [scanLoop, window_self]
  | succ d ih =>
    intro acc hd
    have hi : S + (d + 1) = S + d + 1 := by omega
    obtain ⟨blk, hblk⟩ : ∃ blk, c.bc[S + d + 1]? = some blk :=
      Option.isSome_iff_exists.mp (by simp; omega)
    -- the guard holds: the block is above the bottom and below `MaxUint64`
    have hguard : UInt64.ofNat (S + d + 1) > UInt64.ofNat S ∧ UInt64.ofNat (S + d + 1) < MaxUint64 := by
      constructor
      · rw [gt_iff_lt, UInt64.lt_iff_toNat_lt, UInt64.toNat_ofNat_of_lt' (by unfold UInt64.size; omega),
          UInt64.toNat_ofNat_of_lt' (by unfold UInt64.size; omega)]
        omega
      · rw [UInt64.lt_iff_toNat_lt, UInt64.toNat_ofNat_of_lt' (by unfold UInt64.size; omega)]
        simp only [MaxUint64, UInt64.reduceToNat]
        omega
    have hget : c.GetBlock (UInt64.ofNat (S + d + 1)) = some blk := by
      rw [GetBlock, UInt64.toNat_ofNat_of_lt' (by unfold UInt64.size; omega), hblk]
    have hstatus := c.diffBlk_gt_iff timeNow hblk (by omega)
    have hprev : UInt64.ofNat (S + d + 1) - 1 = UInt64.ofNat (S + d) := by
      rw [UInt64.ofNat_add, UInt64.ofNat_one, UInt64.add_sub_cancel]
    rw [hi, scanLoop, if_pos hguard, hget]
    simp only [c.count_suffix hblk, hprev]
    rw [ih _ (by omega), window_succ, List.append_assoc, List.singleton_append]
    congr 4
    exact Bool.eq_iff_iff.mpr (decide_eq_true_iff.trans hstatus)

/-- The scan of a chain of fewer than `2 ^ 64` blocks: the statuses of the blocks from the head
down to one above the bottom, each the integer test, and no error. -/
theorem scanAllBlockStatus_eq (c : CFM) (timeNow : UInt64) (hne : c.bc ≠ [])
    (hlen : c.bc.length < 2 ^ 64) :
    c.scanAllBlockStatus timeNow = (window (c.stableAt timeNow) c.bottom (c.bc.length - 1),
      UInt64.ofNat c.bottom, UInt64.ofNat (c.bc.length - 1), none) := by
  obtain ⟨last, hlast⟩ := Option.isSome_iff_exists.mp (List.getLast?_isSome.mpr hne)
  have hpos : 0 < c.bc.length := List.length_pos_of_ne_nil hne
  have hH : (UInt64.ofNat (c.bc.length - 1)).toNat = c.bc.length - 1 :=
    UInt64.toNat_ofNat_of_lt' (by unfold UInt64.size; omega)
  have hK : (UInt64.ofNat kParam).toNat = kParam := rfl
  -- the bottom of the window, `K` below the head or 0
  have hstop : (if UInt64.ofNat (c.bc.length - 1) > UInt64.ofNat kParam then
      UInt64.ofNat (c.bc.length - 1) - UInt64.ofNat kParam else 0) = UInt64.ofNat c.bottom := by
    apply UInt64.toNat_inj.mp
    rw [UInt64.toNat_ofNat_of_lt' (by unfold UInt64.size bottom; omega), bottom]
    split_ifs with h
    · rw [gt_iff_lt, UInt64.lt_iff_toNat_lt, hH, hK] at h
      rw [UInt64.toNat_sub_of_le _ _ (UInt64.le_iff_toNat_le.mpr (by rw [hH, hK]; omega)), hH, hK]
    · rw [gt_iff_lt, UInt64.lt_iff_toNat_lt, hH, hK] at h
      simp only [UInt64.toNat_zero]
      omega
  have hrounds : (UInt64.ofNat (c.bc.length - 1) - UInt64.ofNat c.bottom).toNat =
      c.bc.length - 1 - c.bottom := by
    have hS : (UInt64.ofNat c.bottom).toNat = c.bottom :=
      UInt64.toNat_ofNat_of_lt' (by unfold UInt64.size bottom; omega)
    rw [UInt64.toNat_sub_of_le _ _ (UInt64.le_iff_toNat_le.mpr (by rw [hH, hS]; unfold bottom; omega)),
      hH, hS]
  have hloop := c.scanLoop_eq timeNow (S := c.bottom) (by unfold bottom; omega) hlen
    (c.bc.length - 1 - c.bottom) [] (by unfold bottom; omega)
  have htop : c.bottom + (c.bc.length - 1 - c.bottom) = c.bc.length - 1 := by
    unfold bottom
    omega
  -- above the head there is nothing to count
  have hnone : c.trusted (c.bc.length - 1 + 1) = 0 ∧ c.nonTrusted (c.bc.length - 1 + 1) = 0 := by
    simp [trusted, nonTrusted, show c.bc.length - 1 + 1 = c.bc.length by omega]
  have h0 : UInt64.ofNat 0 = 0 := by simp
  rw [htop, hnone.1, hnone.2, h0] at hloop
  rw [scanAllBlockStatus, hlast]
  simp only [hstop, hrounds, hloop, List.nil_append]

end CFM

/-! ### The number returned -/

/-- The loop over a window from index `k - 1` down stops at the lowest block above `H - k` that is
unstable, or else at the head. -/
lemma stableLoop_window (st : ℕ → Bool) {S H : ℕ} (hH : H < 2 ^ 64) :
    ∀ (k : ℕ) (b : UInt64), 0 < k → k ≤ H - S →
      H - k < (stableLoop (window st S H) b k).toNat ∧ (stableLoop (window st S H) b k).toNat ≤ H ∧
      (∀ i, H - k < i → i < (stableLoop (window st S H) b k).toNat → st i = true) ∧
      (st (stableLoop (window st S H) b k).toNat = false ∨
        (stableLoop (window st S H) b k).toNat = H) := by
  intro k
  induction k with
  | zero => intro b hk; omega
  | succ k ih =>
    intro b _ hk
    have hget := getD_window st (show k < H - S by omega) ⟨0, false⟩
    have hnum : (UInt64.ofNat (H - k)).toNat = H - k :=
      UInt64.toNat_ofNat_of_lt' (by unfold UInt64.size; omega)
    rw [stableLoop, hget]
    dsimp only
    cases hs : st (H - k)
    · -- the block `H - k` is the first unstable one
      simp only [Bool.not_false, if_true, hnum]
      exact ⟨by omega, by omega, fun i _ _ => by omega, .inl hs⟩
    · simp only [Bool.not_true, Bool.false_eq_true, if_false]
      rcases Nat.eq_zero_or_pos k with rfl | hk0
      · -- the last index visited is the head's
        simp only [stableLoop, hnum]
        exact ⟨by omega, by omega, fun i _ _ => by omega, .inr (by omega)⟩
      · obtain ⟨hlo, hhi, hall, hend⟩ := ih (UInt64.ofNat (H - k)) hk0 (by omega)
        refine ⟨by omega, hhi, fun i hi hir => ?_, hend⟩
        rcases Nat.eq_or_lt_of_le (show H - k ≤ i by omega) with rfl | hlt
        · exact hs
        · exact hall i hlt hir

/-- What `getMaxStableBlkNumber` returns on a window: 0 for a window of no block or of one
stable block, the bottom when the lowest block is unstable, and otherwise one below the lowest
unstable block above it, or one below the head. -/
theorem getMaxStableBlkNumber_window (st : ℕ → Bool) {S H : ℕ} (hSH : S ≤ H) (hH : H < 2 ^ 64) :
    let n := (getMaxStableBlkNumber (window st S H) (UInt64.ofNat S) (UInt64.ofNat H) none).toNat
    (n = 0 ∧ (H = S ∨ (H = S + 1 ∧ st (S + 1) = true))) ∨
    (S < H ∧ st (S + 1) = false ∧ n = S) ∨
    (S + 2 ≤ H ∧ S < n ∧ n < H ∧ (∀ i, S < i → i ≤ n → st i = true) ∧
      (n + 1 = H ∨ st (n + 1) = false)) := by
  intro n
  have hS : (UInt64.ofNat S).toNat = S := UInt64.toNat_ofNat_of_lt' (by unfold UInt64.size; omega)
  have hHn : (UInt64.ofNat H).toNat = H := UInt64.toNat_ofNat_of_lt' (by unfold UInt64.size; omega)
  have hnlt : ¬UInt64.ofNat H < UInt64.ofNat S := by
    rw [UInt64.lt_iff_toNat_lt, hS, hHn]
    omega
  have hlen : UInt64.ofNat (window st S H).length = UInt64.ofNat H - UInt64.ofNat S := by
    apply UInt64.toNat_inj.mp
    rw [length_window, UInt64.toNat_sub_of_le _ _ (UInt64.le_iff_toNat_le.mpr (by omega)), hS, hHn,
      UInt64.toNat_ofNat_of_lt' (by unfold UInt64.size; omega)]
  rcases Nat.eq_or_lt_of_le hSH with rfl | hlt
  · -- no block in the window
    left
    refine ⟨?_, .inl rfl⟩
    simp [n, getMaxStableBlkNumber, window_self]
  · obtain ⟨d, rfl⟩ : ∃ d, H = S + d + 1 := ⟨H - S - 1, by omega⟩
    have hlast : (window st S (S + d + 1)).getLast? = some ⟨UInt64.ofNat (S + 1), st (S + 1)⟩ := by
      rw [List.getLast?_eq_getElem?, length_window, show S + d + 1 - S - 1 = d by omega, window,
        List.getElem?_map, show S + d + 1 - S = d + 1 by omega, List.getElem?_range (by omega)]
      simp only [Option.map_some, show S + d + 1 - d = S + 1 by omega]
    have hn : n = (if !st (S + 1) then
        (if UInt64.ofNat (S + 1) > 0 then UInt64.ofNat (S + 1) - 1 else 0)
      else
        if stableLoop (window st S (S + d + 1)) 0 (S + d + 1 - S - 1) > 0 then
          stableLoop (window st S (S + d + 1)) 0 (S + d + 1 - S - 1) - 1
        else 0).toNat := by
      simp only [n, getMaxStableBlkNumber, if_neg hnlt, Option.isSome_none, Bool.false_eq_true,
        if_false, hlast, hlen, ne_eq, not_true_eq_false]
      rw [length_window]
    have hone : (UInt64.ofNat (S + 1)).toNat = S + 1 :=
      UInt64.toNat_ofNat_of_lt' (by unfold UInt64.size; omega)
    cases hs : st (S + 1)
    · -- the lowest block is unstable
      right; left
      refine ⟨by omega, rfl, ?_⟩
      rw [hn, hs]
      simp only [Bool.not_false, if_true]
      rw [if_pos (by rw [gt_iff_lt, UInt64.lt_iff_toNat_lt, hone]; simp),
        UInt64.toNat_sub_of_le _ _ (UInt64.le_iff_toNat_le.mpr (by rw [hone]; simp)), hone]
      simp
    · rcases Nat.eq_zero_or_pos d with rfl | hd
      · -- one stable block: the loop does not run
        left
        refine ⟨?_, .inr ⟨rfl, rfl⟩⟩
        rw [hn, hs]
        simp [stableLoop]
      · right; right
        obtain ⟨hlo, hhi, hall, hend⟩ := stableLoop_window st (S := S) hH (S + d + 1 - S - 1) 0
          (by omega) (by omega)
        set m := stableLoop (window st S (S + d + 1)) 0 (S + d + 1 - S - 1)
        have hm : n = m.toNat - 1 := by
          rw [hn, hs]
          simp only [Bool.not_true, Bool.false_eq_true, if_false]
          rw [if_pos (by rw [gt_iff_lt, UInt64.lt_iff_toNat_lt, UInt64.toNat_zero]; omega),
            UInt64.toNat_sub_of_le _ _ (UInt64.le_iff_toNat_le.mpr (by rw [UInt64.toNat_one]; omega)),
            UInt64.toNat_one]
        refine ⟨by omega, by omega, by omega, fun i hi hin => ?_, ?_⟩
        · rcases Nat.eq_or_lt_of_le (show S + 1 ≤ i by omega) with rfl | hlt
          · exact hs
          · exact hall i (by omega) (by omega)
        · rcases hend with hend | hend
          · exact .inr (by rw [hm, Nat.sub_add_cancel (by omega)]; exact hend)
          · exact .inl (by omega)

/-! ### Soundness, and what appending blocks does -/

namespace CFM

/-- The number `getMaxStableBlkNumber` computes from `scanAllBlockStatus(timeNow)`, as
`GetMaxStableBlkNumber` calls it. -/
def maxStable (c : CFM) (timeNow : UInt64) : UInt64 :=
  let r := c.scanAllBlockStatus timeNow
  getMaxStableBlkNumber r.1 r.2.1 r.2.2.1 r.2.2.2

lemma maxStable_eq (c : CFM) (timeNow : UInt64) (hne : c.bc ≠ []) (hlen : c.bc.length < 2 ^ 64) :
    c.maxStable timeNow = getMaxStableBlkNumber (window (c.stableAt timeNow) c.bottom
      (c.bc.length - 1)) (UInt64.ofNat c.bottom) (UInt64.ofNat (c.bc.length - 1)) none := by
  rw [maxStable, scanAllBlockStatus_eq c timeNow hne hlen]

/-- The window's characterization for the scan of a chain. -/
lemma maxStable_cases (c : CFM) (timeNow : UInt64) (hne : c.bc ≠ []) (hlen : c.bc.length < 2 ^ 64) :
    ((c.maxStable timeNow).toNat = 0 ∧ c.bc.length - 1 ≤ c.bottom + 1) ∨
    (c.bottom < c.bc.length - 1 ∧ c.stableAt timeNow (c.bottom + 1) = false ∧
      (c.maxStable timeNow).toNat = c.bottom) ∨
    (c.bottom < (c.maxStable timeNow).toNat ∧ (c.maxStable timeNow).toNat < c.bc.length - 1 ∧
      (∀ i, c.bottom < i → i ≤ (c.maxStable timeNow).toNat → c.stableAt timeNow i = true) ∧
      ((c.maxStable timeNow).toNat + 1 = c.bc.length - 1 ∨
        c.stableAt timeNow ((c.maxStable timeNow).toNat + 1) = false)) := by
  have hpos := List.length_pos_of_ne_nil hne
  have hw := getMaxStableBlkNumber_window (c.stableAt timeNow) (S := c.bottom)
    (H := c.bc.length - 1) (by unfold bottom; omega) (by omega)
  rw [← maxStable_eq c timeNow hne hlen] at hw
  rcases hw with ⟨h0, hH⟩ | h | ⟨-, h⟩
  · exact .inl ⟨h0, by omega⟩
  · exact .inr (.inl h)
  · exact .inr (.inr h)

/-- Every block above the bottom of the window, up to the number returned, is a scanned block and
is stable over the integers. -/
theorem maxStable_sound (c : CFM) (timeNow : UInt64) (hne : c.bc ≠ []) (hlen : c.bc.length < 2 ^ 64)
    (i : ℕ) (hlo : (c.scanAllBlockStatus timeNow).2.1.toNat < i)
    (hhi : i ≤ (c.maxStable timeNow).toNat) :
    i < c.bc.length ∧ c.stableAt timeNow i = true := by
  have hS : (UInt64.ofNat c.bottom).toNat = c.bottom :=
    UInt64.toNat_ofNat_of_lt' (by unfold UInt64.size bottom; omega)
  rw [scanAllBlockStatus_eq c timeNow hne hlen] at hlo
  simp only [hS] at hlo
  rcases c.maxStable_cases timeNow hne hlen with ⟨h0, -⟩ | ⟨-, -, hn⟩ | ⟨-, hlt, hall, -⟩
  · omega
  · omega
  · exact ⟨by omega, hall i hlo hhi⟩

lemma trusted_append (c : CFM) (ext : List Block) {i : ℕ} (hi : i ≤ c.bc.length) :
    (CFM.mk (c.bc ++ ext) c.whiteList).trusted i =
      c.trusted i + (ext.filter fun b => c.isInWhiteList b.Coinbase).length := by
  simp only [trusted, isInWhiteList, List.drop_append_of_le_length hi, List.filter_append,
    List.length_append]

lemma nonTrusted_append (c : CFM) (ext : List Block) {i : ℕ} (hi : i ≤ c.bc.length) :
    (CFM.mk (c.bc ++ ext) c.whiteList).nonTrusted i =
      c.nonTrusted i + (ext.filter fun b => !c.isInWhiteList b.Coinbase).length := by
  simp only [nonTrusted, isInWhiteList, List.drop_append_of_le_length hi, List.filter_append,
    List.length_append]

/-- At the same time, appending blocks keeps a stable block stable: the counts from the head down
to it only grow, and its slots stay. -/
lemma stableAt_append (c : CFM) (ext : List Block) (timeNow : UInt64) {i : ℕ}
    (hi : i < c.bc.length) (h : c.stableAt timeNow i = true) :
    (CFM.mk (c.bc ++ ext) c.whiteList).stableAt timeNow i = true := by
  have hget : (c.bc ++ ext)[i]? = c.bc[i]? := List.getElem?_append_left hi
  obtain ⟨blk, hblk⟩ : ∃ blk, c.bc[i]? = some blk := Option.isSome_iff_exists.mp (by simpa using hi)
  rw [stableAt, hblk] at h
  rw [stableAt, hget, hblk, c.trusted_append ext hi.le, c.nonTrusted_append ext hi.le]
  simp only [decide_eq_true_eq] at h ⊢
  push_cast
  omega

/-- At the same time, appending blocks does not lower the number returned. The old window's
stable blocks stay stable; the new window starts no lower, and its number is one below an
unstable block or the head. -/
theorem maxStable_mono (c : CFM) (ext : List Block) (timeNow : UInt64) (hne : c.bc ≠ [])
    (hlen : (c.bc ++ ext).length < 2 ^ 64) :
    (c.maxStable timeNow).toNat ≤ ((CFM.mk (c.bc ++ ext) c.whiteList).maxStable timeNow).toNat := by
  have hlen' : (c.bc ++ ext).length = c.bc.length + ext.length := List.length_append
  have hne' : c.bc ++ ext ≠ [] := by simp [hne]
  have hpos := List.length_pos_of_ne_nil hne
  have hbot : c.bottom ≤ (CFM.mk (c.bc ++ ext) c.whiteList).bottom := by
    unfold bottom
    dsimp only
    omega
  have hbot' : (CFM.mk (c.bc ++ ext) c.whiteList).bottom = c.bc.length + ext.length - 1 - kParam := by
    unfold bottom
    dsimp only
    rw [hlen']
  rcases c.maxStable_cases timeNow hne (by omega) with ⟨h0, -⟩ | ⟨-, -, hn⟩ | ⟨hlo, hhi, hall, -⟩
  · omega
  · -- the number was the bottom; the new number is at least the new bottom, or the chain is short
    rcases (CFM.mk (c.bc ++ ext) c.whiteList).maxStable_cases timeNow hne' hlen with
      ⟨-, hshort⟩ | ⟨-, -, hn'⟩ | ⟨hlo', -⟩
    · unfold bottom at hn
      simp only [kParam, hbot'] at hshort hn
      omega
    · omega
    · omega
  · -- the old window's stable blocks above the new bottom are stable in the new chain
    have hall' : ∀ i, c.bottom < i → i ≤ (c.maxStable timeNow).toNat →
        (CFM.mk (c.bc ++ ext) c.whiteList).stableAt timeNow i = true :=
      fun i hi hin => c.stableAt_append ext timeNow (by omega) (hall i hi hin)
    rcases (CFM.mk (c.bc ++ ext) c.whiteList).maxStable_cases timeNow hne' hlen with
      ⟨-, hshort⟩ | ⟨-, hs, hn'⟩ | ⟨hlo', hhi', -, hend'⟩
    · simp only [kParam, hbot'] at hshort
      unfold bottom at hlo
      simp only [kParam] at hlo
      omega
    · -- the new lowest block is unstable, so it lies above the old number
      by_contra hlt
      have hst := hall' ((CFM.mk (c.bc ++ ext) c.whiteList).bottom + 1) (by omega) (by omega)
      rw [hs] at hst
      exact Bool.false_ne_true hst
    · -- the block above the new number is unstable or the head, so it lies above the old number
      by_contra hlt
      dsimp only at hend' hhi'
      rcases hend' with hend' | hend'
      · omega
      · have hst := hall' (((CFM.mk (c.bc ++ ext) c.whiteList).maxStable timeNow).toNat + 1)
          (by omega) (by omega)
        rw [hend'] at hst
        exact Bool.false_ne_true hst

end CFM

/-- In the PoS phase, `GetMaxStableBlkNumber` is the number computed from the scan, raised to
`Pow2PosUpgradeBlockNumber`. -/
lemma GetMaxStableBlkNumber_of_pos (c : CFM) {FirstEpochId : UInt64} (hF : FirstEpochId ≠ 0)
    (Pow2PosUpgradeBlockNumber timeNow : UInt64) :
    GetMaxStableBlkNumber c FirstEpochId Pow2PosUpgradeBlockNumber timeNow =
      if c.maxStable timeNow ≥ Pow2PosUpgradeBlockNumber then c.maxStable timeNow
      else Pow2PosUpgradeBlockNumber := by
  rw [GetMaxStableBlkNumber, if_neg hF]
  rfl

/-- A chain of 61 blocks, one a slot, all by the white-listed address 1. -/
def steadyChain : CFM :=
  ⟨(List.range 61).map fun i => ⟨1, UInt64.ofNat (5 * i)⟩, [1]⟩

/-- At the time of the head, blocks 1 to 10 are stable and the number is 10; a thousand slots
later, with one block more, every block of the window has lost its margin and the number falls
back to 0. -/
theorem maxStable_rolls_back :
    GetMaxStableBlkNumber steadyChain 1 0 300 = 10 ∧
      GetMaxStableBlkNumber ⟨steadyChain.bc ++ [⟨1, 5300⟩], steadyChain.whiteList⟩ 1 0 5300 = 0 := by
  decide +kernel

/-- In the PoS phase, every block above the bottom of the window up to the number computed from
the scan is a scanned block that passes the test over the integers; and at the same time,
appending blocks does not lower `GetMaxStableBlkNumber`. -/
theorem maxStable_sound_and_monotone (c : CFM) (timeNow : UInt64) (hne : c.bc ≠ [])
    (hlen : c.bc.length < 2 ^ 64) :
    (∀ i, (c.scanAllBlockStatus timeNow).2.1.toNat < i → i ≤ (c.maxStable timeNow).toNat →
      i < c.bc.length ∧ c.stableAt timeNow i = true) ∧
    ∀ (ext : List Block) (FirstEpochId Pow2PosUpgradeBlockNumber : UInt64), FirstEpochId ≠ 0 →
      (c.bc ++ ext).length < 2 ^ 64 →
      GetMaxStableBlkNumber c FirstEpochId Pow2PosUpgradeBlockNumber timeNow ≤
        GetMaxStableBlkNumber ⟨c.bc ++ ext, c.whiteList⟩ FirstEpochId Pow2PosUpgradeBlockNumber
          timeNow := by
  refine ⟨c.maxStable_sound timeNow hne hlen, fun ext F P hF hlen' => ?_⟩
  have hm := c.maxStable_mono ext timeNow hne hlen'
  rw [GetMaxStableBlkNumber_of_pos c hF, GetMaxStableBlkNumber_of_pos _ hF, UInt64.le_iff_toNat_le]
  -- raising both numbers to `P` keeps their order
  split_ifs with h1 h2 h2 <;> simp only [ge_iff_le, UInt64.le_iff_toNat_le] at h1 h2 <;> omega

theorem maxStable_sound_and_monotone_steady :
    steadyChain.bc ≠ [] ∧ steadyChain.bc.length < 2 ^ 64 ∧
    ((∀ i, (steadyChain.scanAllBlockStatus 300).2.1.toNat < i →
        i ≤ (steadyChain.maxStable 300).toNat →
        i < steadyChain.bc.length ∧ steadyChain.stableAt 300 i = true) ∧
      ∀ (ext : List Block) (FirstEpochId Pow2PosUpgradeBlockNumber : UInt64), FirstEpochId ≠ 0 →
        (steadyChain.bc ++ ext).length < 2 ^ 64 →
        GetMaxStableBlkNumber steadyChain FirstEpochId Pow2PosUpgradeBlockNumber 300 ≤
          GetMaxStableBlkNumber ⟨steadyChain.bc ++ ext, steadyChain.whiteList⟩ FirstEpochId
            Pow2PosUpgradeBlockNumber 300) :=
  have hne : steadyChain.bc ≠ [] := by simp [steadyChain]
  have hlen : steadyChain.bc.length < 2 ^ 64 := by simp [steadyChain]
  ⟨hne, hlen, maxStable_sound_and_monotone steadyChain 300 hne hlen⟩

end Wanchain.Cfm
