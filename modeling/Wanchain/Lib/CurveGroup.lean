import Mathlib.Data.ZMod.Basic
import Mathlib.Tactic.Ring
import Mathlib.GroupTheory.OrderOfElement

/-!
# Points of a curve of prime order

Point arithmetic as an elliptic-curve library offers it: a chord addition that is the group law
only on two distinct points, and a doubling. The addition that doubles equal points and adds
distinct ones is the group law on every pair (`CurveArith.guardedAdd_eq`).

Scalars are natural numbers acting by repeated addition. In a group where `N • P = 0` for every
point, a scalar acts through its residue mod `N`; this gives the two facts the proofs of
knowledge of a discrete logarithm rest on: a scalar followed by an inverse mod `N` is the
identity (`nsmul_nsmul_of_mul_modEq_one`), and the response `z = (w - α e mod N) mod N` makes
`z • P + e • α • P` equal the commitment `w • P` (`response_nsmul_add`).
-/

namespace CurveGroup

variable {Pt : Type*} [AddCommGroup Pt]

/-- A chord addition that is the group law on distinct points, and a doubling. -/
structure CurveArith (Pt : Type*) [AddCommGroup Pt] where
  Add : Pt → Pt → Pt
  Double : Pt → Pt
  Add_of_ne : ∀ P Q, P ≠ Q → Add P Q = P + Q
  Double_eq : ∀ P, Double P = P + P

namespace CurveArith

variable [DecidableEq Pt] (c : CurveArith Pt)

/-- The addition that doubles a point added to itself. -/
def guardedAdd (P Q : Pt) : Pt :=
  if P = Q then c.Double P else c.Add P Q

@[simp] theorem guardedAdd_eq (P Q : Pt) : c.guardedAdd P Q = P + Q := by
  unfold guardedAdd
  split_ifs with h
  · rw [c.Double_eq, h]
  · exact c.Add_of_ne P Q h

end CurveArith

section Exponent

variable {N : ℕ} (hN : ∀ P : Pt, N • P = 0)
include hN

theorem nsmul_mod (k : ℕ) (P : Pt) : k • P = (k % N) • P := by
  conv_lhs => rw [← Nat.mod_add_div k N]
  rw [add_nsmul, mul_comm, ← smul_smul, hN, smul_zero, add_zero]

theorem nsmul_eq_of_modEq {a b : ℕ} (h : a ≡ b [MOD N]) (P : Pt) : a • P = b • P := by
  rw [nsmul_mod hN a, nsmul_mod hN b, h]

/-- Integer scalars congruent mod `N` act alike. -/
theorem zsmul_eq_of_modEq {a b : ℤ} (h : a ≡ b [ZMOD N]) (P : Pt) : a • P = b • P := by
  obtain ⟨m, hm⟩ := Int.ModEq.dvd h
  have hzero : (b - a) • P = 0 := by
    rw [hm, mul_comm, mul_zsmul, natCast_zsmul, hN, zsmul_zero]
  rw [sub_zsmul, ← sub_eq_add_neg, sub_eq_zero] at hzero
  exact hzero.symm

/-- Scaling by `k` and then by an inverse of `k` mod `N` is the identity. -/
theorem nsmul_nsmul_of_mul_modEq_one {k k' : ℕ} (h : k' * k ≡ 1 [MOD N]) (P : Pt) :
    k' • k • P = P := by
  rw [smul_smul, nsmul_eq_of_modEq hN h, one_nsmul]

/-- The response of a proof of knowledge of `α` with nonce `w` and challenge `e`, reduced mod
`N` after the subtraction, opens the commitment `w • P` against `α • P`. -/
theorem response_nsmul_add (hN0 : 0 < N) (w α e : ℕ) (P : Pt) :
    (((w : ℤ) - (α * e % N : ℕ)) % N).toNat • P + e • α • P = w • P := by
  set z := (((w : ℤ) - (α * e % N : ℕ)) % N).toNat
  have hz : (z : ℤ) = ((w : ℤ) - (α * e % N : ℕ)) % N :=
    Int.toNat_of_nonneg (Int.emod_nonneg _ (by exact_mod_cast hN0.ne'))
  -- the response and the challenge times the secret add up to the nonce, mod `N`
  have hmod : z + e * α ≡ w [MOD N] := by
    rw [← ZMod.natCast_eq_natCast_iff]
    have hzN : (z : ZMod N) = (w : ZMod N) - (α * e : ℕ) := by
      rw [← Int.cast_natCast z, hz, ZMod.intCast_mod, Int.cast_sub, Int.cast_natCast,
        Int.cast_natCast, ZMod.natCast_mod]
    push_cast [hzN]
    ring
  rw [smul_smul, ← add_nsmul, nsmul_eq_of_modEq hN hmod]

/-- The same response with integer scalars, reduced mod `N` after the subtraction. -/
theorem response_zsmul_add (w α e : ℤ) (P : Pt) : ((w - α * e) % N) • P + e • α • P = w • P := by
  -- the response and the challenge times the secret add up to the nonce, mod `N`
  have hmod : (w - α * e) % N + e * α ≡ w [ZMOD N] := by
    calc (w - α * e) % N + e * α ≡ (w - α * e) + e * α [ZMOD N] :=
          (Int.mod_modEq _ _).add_right _
      _ = w := by ring
  rw [smul_smul, ← add_zsmul, zsmul_eq_of_modEq hN hmod]

/-- A difference of naturals reduced mod `N` after the subtraction, with the subtrahend added
back, acts as the minuend. -/
theorem emod_sub_toNat_nsmul_add (hN0 : 0 < N) (w a : ℕ) (P : Pt) :
    (((w : ℤ) - a) % N).toNat • P + a • P = w • P := by
  have hz : ((((w : ℤ) - a) % N).toNat : ℤ) = ((w : ℤ) - a) % N :=
    Int.toNat_of_nonneg (Int.emod_nonneg _ (by exact_mod_cast hN0.ne'))
  rw [← natCast_zsmul, ← natCast_zsmul P a, ← natCast_zsmul P w, hz]
  simpa using response_zsmul_add hN (w : ℤ) (a : ℤ) 1 P

/-- In a group of prime exponent a scalar strictly between `0` and `N` moves no point other
than `0` to `0`. -/
theorem nsmul_ne_zero_of_lt (hp : N.Prime) {P : Pt} (hP : P ≠ 0) {k : ℕ} (h0 : 0 < k)
    (hk : k < N) : k • P ≠ 0 := by
  intro hkP
  -- the order of a point other than `0` is the prime itself, and it divides `k`
  rcases hp.eq_one_or_self_of_dvd _ (addOrderOf_dvd_of_nsmul_eq_zero (hN P)) with h1 | hord
  · exact hP (AddMonoid.addOrderOf_eq_one_iff.mp h1)
  · have hdvd := addOrderOf_dvd_of_nsmul_eq_zero hkP
    rw [hord] at hdvd
    exact absurd (Nat.le_of_dvd h0 hdvd) (by omega)

end Exponent

end CurveGroup
