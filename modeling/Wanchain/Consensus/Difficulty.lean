import Wanchain.RandomBeacon.Contract

/-!
# Epoch and slot in the block difficulty

A PoS block carries its epoch and slot in its difficulty: `Pluto.Prepare` writes
`1 + (slot << 8) + (epoch << 32)` for the slot of the header's time, and `Pluto.Seal` computes
the same number to refuse sealing twice. Three readers take the fields back:
`GetEpochSlotIDFromDifficulty`, which `Pluto.verifySeal` compares with the header's time, shifts
and then masks; `CalEpSlbyTd` and the inline decoding of `SLS.ValidateBody` mask and then shift.

The fields round-trip (`difficulty_roundTrip`): for a time whose epoch is below `2 ^ 32`, the
three readers give back the epoch and slot of the time, and `verifySeal` accepts the
difficulty. A slot is below `SlotCount`, far below `2 ^ 24`, so the two fields never overlap;
and on every 64-bit difficulty the three readers agree.
-/

namespace Wanchain.Pluto

open RandomBeacon

/-! ### Writers and readers -/

/-- The number that `Pluto.Prepare` and `Pluto.Seal` build from an epoch and a slot. -/
def epochSlotIdOf (epochId slotId : UInt64) : UInt64 :=
  (1 : UInt64) + (slotId <<< 8) + (epochId <<< 32)

/-- The difficulty that `Pluto.Prepare` sets for a header's time. -/
def PrepareDifficulty (time : UInt64) : UInt64 :=
  epochSlotIdOf (CalEpochSlotID time).1 (CalEpochSlotID time).2

/-- The number `Pluto.Seal` compares with the last sealed one. -/
def SealEpochSlotId (time : UInt64) : UInt64 :=
  epochSlotIdOf (CalEpochSlotID time).1 (CalEpochSlotID time).2

/-- `GetEpochSlotIDFromDifficulty`: the low 64 bits of the difficulty, shifted, then masked;
`nil` reads as zero. -/
def GetEpochSlotIDFromDifficulty (difficulty : Option ℕ) : UInt64 × UInt64 :=
  match difficulty with
  | none => (0, 0)
  | some d => (UInt64.ofNat d >>> 32, (UInt64.ofNat d >>> 8) &&& 0x00ffffff)

/-- `CalEpSlbyTd`: masked, then shifted. -/
def CalEpSlbyTd (blkTd : UInt64) : UInt64 × UInt64 :=
  (blkTd >>> 32, (blkTd &&& 0xffffffff) >>> 8)

/-- The decoding inline in `SLS.ValidateBody`. -/
def ValidateBodyEpochSlot (blkTd : UInt64) : UInt64 × UInt64 :=
  (blkTd >>> 32, (blkTd &&& 0xffffffff) >>> 8)

/-- The time and difficulty check of `Pluto.verifySeal`: the fields of the difficulty are the
epoch and slot of the time, and the difficulty fits in 64 bits. -/
def verifySealEpochSlot (time : UInt64) (difficulty : ℕ) : Bool :=
  let (epidTime, slIdTime) := CalEpochSlotID time
  let (epochID, slotID) := GetEpochSlotIDFromDifficulty (some difficulty)
  !(epidTime != epochID || slIdTime != slotID || difficulty > 2 ^ 64 - 1)

/-! ### The fields as numbers -/

lemma toNat_shiftRight_32 (d : UInt64) : (d >>> 32).toNat = d.toNat / 2 ^ 32 := by
  rw [UInt64.toNat_shiftRight, Nat.shiftRight_eq_div_pow]
  rfl

/-- The slot field read by shifting and masking. -/
lemma toNat_slot_shift_mask (d : UInt64) :
    ((d >>> 8) &&& 0x00ffffff).toNat = d.toNat / 2 ^ 8 % 2 ^ 24 := by
  rw [UInt64.toNat_and, UInt64.toNat_shiftRight, Nat.shiftRight_eq_div_pow]
  exact Nat.and_two_pow_sub_one_eq_mod _ 24

/-- The slot field read by masking and shifting. -/
lemma toNat_slot_mask_shift (d : UInt64) :
    ((d &&& 0xffffffff) >>> 8).toNat = d.toNat / 2 ^ 8 % 2 ^ 24 := by
  rw [UInt64.toNat_shiftRight, UInt64.toNat_and, Nat.shiftRight_eq_div_pow]
  have hmask : d.toNat &&& (0xffffffff : UInt64).toNat = d.toNat % (2 ^ 8 * 2 ^ 24) :=
    Nat.and_two_pow_sub_one_eq_mod _ 32
  rw [hmask, show (8 : UInt64).toNat % 64 = 8 from rfl, Nat.mod_mul_right_div_self]

/-- The number of an epoch below `2 ^ 32` and a slot below `2 ^ 24`. -/
lemma toNat_epochSlotIdOf {e s : UInt64} (he : e.toNat < 2 ^ 32) (hs : s.toNat < 2 ^ 24) :
    (epochSlotIdOf e s).toNat = 1 + s.toNat * 2 ^ 8 + e.toNat * 2 ^ 32 := by
  rw [epochSlotIdOf, UInt64.toNat_add, UInt64.toNat_add, UInt64.toNat_shiftLeft,
    UInt64.toNat_shiftLeft, Nat.shiftLeft_eq, Nat.shiftLeft_eq]
  change (((1 % 2 ^ 64) + s.toNat * 2 ^ 8 % 2 ^ 64) % 2 ^ 64 + e.toNat * 2 ^ 32 % 2 ^ 64) %
    2 ^ 64 = _
  omega

/-- A slot of `CalEpochSlotID` is below `SlotCount`. -/
lemma CalEpochSlotID_slot_lt (time : UInt64) : (CalEpochSlotID time).2.toNat < slotCount := by
  rw [CalEpochSlotID, UInt64.toNat_mod]
  exact Nat.mod_lt _ (by decide)

/-! ### Round trip -/

/-- The readers agree on every 64-bit difficulty: shifting then masking reads the same slot
field as masking then shifting. -/
theorem readers_agree (d : UInt64) :
    GetEpochSlotIDFromDifficulty (some d.toNat) = CalEpSlbyTd d ∧
      ValidateBodyEpochSlot d = CalEpSlbyTd d := by
  refine ⟨?_, rfl⟩
  rw [GetEpochSlotIDFromDifficulty, CalEpSlbyTd, UInt64.ofNat_toNat, Prod.mk.injEq]
  refine ⟨rfl, UInt64.toNat_inj.mp ?_⟩
  rw [toNat_slot_shift_mask, toNat_slot_mask_shift]

/-- `CalEpSlbyTd` reads back the epoch and the slot of `epochSlotIdOf`. -/
lemma CalEpSlbyTd_epochSlotIdOf {e s : UInt64} (he : e.toNat < 2 ^ 32) (hs : s.toNat < 2 ^ 24) :
    CalEpSlbyTd (epochSlotIdOf e s) = (e, s) := by
  have hd := toNat_epochSlotIdOf he hs
  rw [CalEpSlbyTd, Prod.mk.injEq]
  constructor
  · -- the low 32 bits hold `1 + (slot << 8)`, below `2 ^ 32`
    apply UInt64.toNat_inj.mp
    rw [toNat_shiftRight_32, hd]
    omega
  · apply UInt64.toNat_inj.mp
    rw [toNat_slot_mask_shift, hd]
    omega

/-- The difficulty that `Pluto.Prepare` writes for a time whose epoch is below `2 ^ 32` reads
back, by each of the three readers, as the epoch and slot of the time, and `verifySeal` accepts
it; `Pluto.Seal` builds the same number; and the readers agree on every 64-bit difficulty. -/
theorem difficulty_roundTrip (time : UInt64) (he : (CalEpochSlotID time).1.toNat < 2 ^ 32) :
    GetEpochSlotIDFromDifficulty (some (PrepareDifficulty time).toNat) = CalEpochSlotID time ∧
    CalEpSlbyTd (PrepareDifficulty time) = CalEpochSlotID time ∧
    ValidateBodyEpochSlot (PrepareDifficulty time) = CalEpochSlotID time ∧
    verifySealEpochSlot time (PrepareDifficulty time).toNat = true ∧
    SealEpochSlotId time = PrepareDifficulty time ∧
    ∀ d : UInt64, GetEpochSlotIDFromDifficulty (some d.toNat) = CalEpSlbyTd d ∧
      ValidateBodyEpochSlot d = CalEpSlbyTd d := by
  have hs : (CalEpochSlotID time).2.toNat < 2 ^ 24 :=
    lt_of_lt_of_le (CalEpochSlotID_slot_lt time) (by decide)
  have hcal : CalEpSlbyTd (PrepareDifficulty time) = CalEpochSlotID time :=
    CalEpSlbyTd_epochSlotIdOf he hs
  obtain ⟨hget, hbody⟩ := readers_agree (PrepareDifficulty time)
  have hget' := hget.trans hcal
  refine ⟨hget', hcal, hbody.trans hcal, ?_, rfl, readers_agree⟩
  -- the check compares equal fields, and the difficulty is a 64-bit number
  have hle : (PrepareDifficulty time).toNat ≤ 18446744073709551615 := by
    have := (PrepareDifficulty time).toNat_lt
    omega
  rw [verifySealEpochSlot, hget']
  simpa using hle

theorem difficulty_roundTrip_at :
    (CalEpochSlotID 1600000000).1.toNat < 2 ^ 32 ∧
    (GetEpochSlotIDFromDifficulty (some (PrepareDifficulty 1600000000).toNat) =
        CalEpochSlotID 1600000000 ∧
      CalEpSlbyTd (PrepareDifficulty 1600000000) = CalEpochSlotID 1600000000 ∧
      ValidateBodyEpochSlot (PrepareDifficulty 1600000000) = CalEpochSlotID 1600000000 ∧
      verifySealEpochSlot 1600000000 (PrepareDifficulty 1600000000).toNat = true ∧
      SealEpochSlotId 1600000000 = PrepareDifficulty 1600000000 ∧
      ∀ d : UInt64, GetEpochSlotIDFromDifficulty (some d.toNat) = CalEpSlbyTd d ∧
        ValidateBodyEpochSlot d = CalEpSlbyTd d) := by
  have he : (CalEpochSlotID 1600000000).1.toNat < 2 ^ 32 := by decide
  exact ⟨he, difficulty_roundTrip 1600000000 he⟩

end Wanchain.Pluto
