import Mathlib.Tactic.NormNum

/-!
# Protocol constants

The constants of `pos/posconfig/config.go` and of the staking contract that the modelled
functions read. `DefaultConfig` fixes `PolymDegree = 12` and `RBThres = 13`, and the slots of the random
beacon's stages; the node never changes them.
-/

namespace Wanchain

/-- `posconfig.SlotTime`: seconds per slot. -/
def slotTime : ℕ := 5

/-- `posconfig.K`. -/
def kParam : ℕ := 1440

/-- `posconfig.KCount`. -/
def kCount : ℕ := 12

/-- `posconfig.SlotCount`: slots per epoch. -/
def slotCount : ℕ := kParam * kCount

/-- `posconfig.EpochLeaderCount`. -/
def epochLeaderCount : ℕ := 50

/-- `posconfig.RandomProperCount`. -/
def randomProperCount : ℕ := 25

/-- `Cfg().PolymDegree` of `DefaultConfig`. -/
def polymDegree : ℕ := 12

/-- `Cfg().RBThres` of `DefaultConfig`. -/
def rbThres : ℕ := 13

/-- `Cfg().Dkg1End` of `DefaultConfig`: the last slot of the first DKG stage. -/
def dkg1End : ℕ := 2 * kParam - 1

/-- `Cfg().Dkg2Begin` of `DefaultConfig`. -/
def dkg2Begin : ℕ := 4 * kParam

/-- `Cfg().Dkg2End` of `DefaultConfig`. -/
def dkg2End : ℕ := 6 * kParam - 1

/-- `Cfg().SignBegin` of `DefaultConfig`. -/
def signBegin : ℕ := 8 * kParam

/-- `Cfg().SignEnd` of `DefaultConfig`. -/
def signEnd : ℕ := 10 * kParam - 1

@[simp] lemma slotCount_eq : slotCount = 17280 := rfl

/-- The threshold of signers is exactly the number of shares Lagrange interpolation reads. -/
lemma rbThres_eq : rbThres = polymDegree + 1 := rfl

end Wanchain
