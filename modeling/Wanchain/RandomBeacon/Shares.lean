import Mathlib.Algebra.Field.ZMod
import Mathlib.Tactic.NormNum.Prime
import Wanchain.Basic.Bytes
import Wanchain.Lib.CurveGroup
import Wanchain.Lib.Interpolation
import Wanchain.Lib.Machine

/-!
# Threshold shares of the random beacon

The package rbselection works on the pairing-friendly curve bn256: two groups `G1` and `G2` in
which every point has an order dividing the prime `Order`, and a pairing into a third group
`GT`. `ScalarMult(P, k)` is `k • P` for the integer `k`, and `ScalarBaseMult(0)` is the point at
infinity `0`. Scalars are `big.Int`s: integers, whose `Mod` is the Euclidean remainder `%`.

A secret is shared as the values `f(x_i)` at the nodes of the proposers of a polynomial `f`
over `ℤ/Order` (`EvaluatePoly`). Any `degree + 1` shares at distinct nodes give back `f(0)` by
interpolation at zero with the coefficients of `evaluateb` (`Lagrange`); the same coefficients
combine shares that are points scaled by `f(x_i)` (`LagrangeSig`, `LagrangePub`), and the nodes
need not be reduced (`Lagrange_at_zero`). `RScodeVerify` checks that committed points are the
values of a polynomial of degree at most `deg`, by weighting them with a random codeword of the
dual code; honest commitments pass whatever it draws (`RScodeVerify_complete`).
-/

namespace Wanchain.RandomBeacon

open CurveGroup Interpolation Finset

/-- What rbselection and the random-beacon contract use of bn256. The points of `G1` and `G2`
have orders dividing the prime `Order`, `hbase` generates `G2`, and `Pair` is bilinear and
non-degenerate (`GT` is written additively, as the package's `Add` on it suggests). `Marshal`
writes a point in 64 (G1) or 128 (G2) bytes that `Unmarshal` reads back; `Unmarshal` reads the
first 64 or 128 bytes of its input and returns the rest; `UnmarshalPure` is `Unmarshal` without the check that the point is on the curve. `String`
renders distinct points differently. -/
structure Bn256 (G1 G2 GT : Type) [AddCommGroup G1] [AddCommGroup G2] [AddCommGroup GT] where
  Order : ℕ
  Order_prime : Order.Prime
  Order_smul_G1 : ∀ P : G1, Order • P = 0
  Order_smul_G2 : ∀ P : G2, Order • P = 0
  gbase : G1
  hbase : G2
  hbase_generates : ∀ Q : G2, ∃ k : ℕ, Q = k • hbase
  Pair : G1 → G2 → GT
  Pair_add_left : ∀ P P' Q, Pair (P + P') Q = Pair P Q + Pair P' Q
  Pair_add_right : ∀ P Q Q', Pair P (Q + Q') = Pair P Q + Pair P Q'
  Pair_nondegenerate : ∀ P, (∀ Q, Pair P Q = 0) → P = 0
  MarshalG1 : G1 → Bytes
  MarshalG2 : G2 → Bytes
  length_MarshalG1 : ∀ P, (MarshalG1 P).length = 64
  length_MarshalG2 : ∀ Q, (MarshalG2 Q).length = 128
  UnmarshalG1 : Bytes → Except String (G1 × Bytes)
  UnmarshalG2 : Bytes → Except String (G2 × Bytes)
  UnmarshalG1_Marshal : ∀ P rest, UnmarshalG1 (MarshalG1 P ++ rest) = .ok (P, rest)
  UnmarshalG2_Marshal : ∀ Q rest, UnmarshalG2 (MarshalG2 Q ++ rest) = .ok (Q, rest)
  UnmarshalG1_rest : ∀ b r, UnmarshalG1 b = .ok r → 64 ≤ b.length ∧ r.2 = b.drop 64
  UnmarshalG2_rest : ∀ b r, UnmarshalG2 b = .ok r → 128 ≤ b.length ∧ r.2 = b.drop 128
  UnmarshalPureG1 : Bytes → Except String (G1 × Bytes)
  UnmarshalPureG2 : Bytes → Except String (G2 × Bytes)
  UnmarshalPureG1_of_Unmarshal : ∀ b r, UnmarshalG1 b = .ok r → UnmarshalPureG1 b = .ok r
  UnmarshalPureG2_of_Unmarshal : ∀ b r, UnmarshalG2 b = .ok r → UnmarshalPureG2 b = .ok r
  StringG1 : G1 → String
  StringG2 : G2 → String
  StringGT : GT → String
  StringG1_injective : Function.Injective StringG1
  StringG2_injective : Function.Injective StringG2
  StringGT_injective : Function.Injective StringGT
  Keccak256 : Bytes → Bytes
  length_Keccak256 : ∀ b, (Keccak256 b).length = 32

variable {G1 G2 GT : Type} [AddCommGroup G1] [AddCommGroup G2] [AddCommGroup GT]
  (c : Bn256 G1 G2 GT)

instance Bn256.factPrime : Fact c.Order.Prime := ⟨c.Order_prime⟩

/-- `EvaluatePoly`: the value at `x` of the polynomial with coefficients `f` (Go's `Polynomial`,
the constant first), each power and product reduced mod `Order`. -/
def EvaluatePoly (f : List ℤ) (x : ℤ) (degree : ℕ) : Except String ℤ :=
  if f.length < 1 ∨ degree ≠ f.length - 1 then .error "invalid polynomial len"
  else
    .ok ((List.range (degree + 1)).foldl (fun sum i =>
      -- temp1 = Exp(x, i, Order), reduced once more; temp2 = f[i] * temp1 mod Order
      (sum + f.getD i 0 * (x ^ i % c.Order % c.Order) % c.Order) % c.Order) 0)

/-- `(*big.Int).ModInverse(g, n)`: the inverse of `g` mod `n` in `[0, n)`, none when `g` and `n`
are not coprime. -/
def ModInverse (g : ℤ) (n : ℕ) : Option ℤ :=
  if Int.gcd g n = 1 then some (((g : ZMod n)⁻¹).val : ℤ) else none

/-- `evaluateb`: the coefficient of the `i`-th share in interpolation at zero over the first
`degree + 1` nodes, `∏_{j ≠ i} x_j (x_j - x_i)⁻¹` mod `Order`. The difference is not reduced
before its inverse is taken. -/
def evaluateb (x : List ℤ) (i degree : ℕ) : ℤ :=
  (List.range (degree + 1)).foldl (fun sum j =>
    if j ≠ i then
      -- temp1.ModInverse(temp1, Order); the model keeps temp1 when it has no inverse, which the
      -- results below never reach
      let temp1 := x.getD j 0 - x.getD i 0
      sum * (x.getD j 0 * (ModInverse temp1 c.Order).getD temp1) % c.Order
    else sum) 1

/-- `evaluateB`: the coefficients of the first `degree + 1` shares. -/
def evaluateB (x : List ℤ) (degree : ℕ) : List ℤ :=
  (List.range (degree + 1)).map fun i => evaluateb c x i degree

/-- `Lagrange`: the shares `f` at the nodes `x` interpolated at zero. -/
def Lagrange (f x : List ℤ) (degree : ℕ) : ℤ :=
  let b := evaluateB c x degree
  (List.range (degree + 1)).foldl (fun s i => (s + f.getD i 0 * b.getD i 0) % c.Order) 0

/-- The loop of `LagrangeSig`, `LagrangePub` and `RScodeVerify`: from `ScalarBaseMult(0)`, the
point at infinity, add `ScalarMult(P[i], b[i])` for each `i < n`. -/
def scalarMultSum {G : Type} [AddCommGroup G] (P : List G) (b : List ℤ) (n : ℕ) : G :=
  (List.range n).foldl (fun sum i => sum + b.getD i 0 • P.getD i 0) 0

/-- `LagrangeSig`: signature shares in `G1` at the nodes `x` interpolated at zero. -/
def LagrangeSig (sig : List G1) (x : List ℤ) (degree : ℕ) : G1 :=
  scalarMultSum sig (evaluateB c x degree) (degree + 1)

/-- `LagrangePub`: public-key shares in `G2` at the nodes `x` interpolated at zero. -/
def LagrangePub (cmt : List G2) (x : List ℤ) (degree : ℕ) : G2 :=
  scalarMultSum cmt (evaluateB c x degree) (degree + 1)

/-- `rscoffGeneratei`: `∏_{j ≠ i} ((x_i - x_j) mod Order)⁻¹` over all the nodes, the `i`-th
coefficient of the dual code. -/
def rscoffGeneratei (x : List ℤ) (i : ℕ) : ℤ :=
  (List.range x.length).foldl (fun sum j =>
    if j ≠ i then
      let temp1 := (x.getD i 0 - x.getD j 0) % c.Order
      sum * (ModInverse temp1 c.Order).getD temp1 % c.Order
    else sum) 1

/-- `rscoffGenerate`: the coefficients of the dual code, nil with fewer than two nodes. -/
def rscoffGenerate (x : List ℤ) : Option (List ℤ) :=
  if x.length < 2 then none else some ((List.range x.length).map (rscoffGeneratei c x))

/-- `RandPoly`, with the numbers it draws: the constant reduced mod `Order`, then each drawn
number plus one. With `degree` a natural number and the draws given, its errors cannot occur. -/
def RandPoly (degree : ℕ) (constant : ℤ) (rand : ℕ → ℤ) : List ℤ :=
  constant % c.Order :: (List.range degree).map fun i => rand (i + 1) + 1

/-- `rscodeGenerate`, with the numbers it draws (`constant`, then those of `RandPoly`): the
random codeword `C_i = q(x_i) v_i` of the dual code, nil with fewer than two nodes or with
`degree < 1`. -/
def rscodeGenerate (x : List ℤ) (degree : ℕ) (constant : ℤ) (rand : ℕ → ℤ) :
    Option (List ℤ) :=
  if x.length < 2 ∨ degree < 1 then none
  else
    let poly := RandPoly c degree constant rand
    match rscoffGenerate c x with
    | none => none
    | some coff => some ((List.range x.length).map fun i =>
        -- temp, _ := EvaluatePoly(...): a failed evaluation reads as zero
        let temp := match EvaluatePoly c poly (x.getD i 0) degree with
          | .ok t => t
          | .error _ => 0
        temp * coff.getD i 0 % c.Order)

/-- `RScodeVerify`, with the numbers `rscodeGenerate` draws: the points `P` weighted by the
random codeword add up to the point at infinity. An empty `P` fails the length check, as a nil
one does in Go. -/
def RScodeVerify [DecidableEq G2] (P : List G2) (x : List ℤ) (deg : ℕ) (constant : ℤ)
    (rand : ℕ → ℤ) : Bool :=
  if P.length ≠ x.length ∨ P.length ≤ deg + 2 then false
  else
    match rscodeGenerate c x (x.length - deg - 2) constant rand with
    | none => false
    | some C => decide (scalarMultSum P C x.length = 0)

/-! ### The loops in `ℤ/Order`

Every loop of the package reduces its accumulator mod `Order`; read in `ℤ/Order` it is a sum or
a product of the library (`foldl_range_add`, `foldl_range_mul_ite`). -/

section Residues

/-- Without an inverse mod the prime `Order`, `g` is a multiple of it: the value `ModInverse`
leaves in place is the inverse of `g` in `ℤ/Order` in every case. -/
lemma ModInverse_getD_cast (g : ℤ) :
    (((ModInverse g c.Order).getD g : ℤ) : ZMod c.Order) = (g : ZMod c.Order)⁻¹ := by
  unfold ModInverse
  split_ifs with hcop
  · simp
  · have hdvd : (c.Order : ℤ) ∣ g := by
      rcases Nat.coprime_or_dvd_of_prime c.Order_prime g.natAbs with hc | hd
      · exact absurd (by rw [Int.gcd, Int.natAbs_natCast, Nat.gcd_comm]; exact hc) hcop
      · exact Int.natCast_dvd.mpr hd
    have hzero : (g : ZMod c.Order) = 0 := (ZMod.intCast_zmod_eq_zero_iff_dvd g c.Order).mpr hdvd
    simp [hzero]

lemma evaluateb_cast (x : List ℤ) (i degree : ℕ) :
    ((evaluateb c x i degree : ℤ) : ZMod c.Order) =
      ∏ j ∈ (range (degree + 1)).erase i,
        (x.getD j 0 : ZMod c.Order) * ((x.getD j 0 : ZMod c.Order) - x.getD i 0)⁻¹ := by
  unfold evaluateb
  rw [← @List.foldl_hom ℤ (ZMod c.Order) ℕ Int.cast _ (fun s j => if j ≠ i then
    s * ((x.getD j 0 : ZMod c.Order) * ((x.getD j 0 : ZMod c.Order) - x.getD i 0)⁻¹) else s)
    _ _ (fun s j => by split_ifs <;> simp [ModInverse_getD_cast]),
    Int.cast_one, foldl_range_mul_ite, one_mul]

lemma evaluateB_getD (x : List ℤ) {i degree : ℕ} (hi : i < degree + 1) :
    (evaluateB c x degree).getD i 0 = evaluateb c x i degree := by
  simp [evaluateB, List.getD_eq_getElem?_getD, hi]

lemma Lagrange_cast (f x : List ℤ) (degree : ℕ) :
    ((Lagrange c f x degree : ℤ) : ZMod c.Order) =
      ∑ i ∈ range (degree + 1), (f.getD i 0 : ZMod c.Order) * (evaluateb c x i degree : ℤ) := by
  unfold Lagrange
  rw [← @List.foldl_hom ℤ (ZMod c.Order) ℕ Int.cast _ (fun s i => s +
    (f.getD i 0 : ZMod c.Order) * ((evaluateB c x degree).getD i 0 : ℤ)) _ _
    (fun s i => by simp), Int.cast_zero, foldl_range_add, zero_add]
  refine sum_congr rfl fun i hi => ?_
  rw [evaluateB_getD c x (mem_range.mp hi)]

/-- `Lagrange` is reduced mod `Order`. -/
lemma Lagrange_emod (f x : List ℤ) (degree : ℕ) :
    Lagrange c f x degree % c.Order = Lagrange c f x degree := by
  simp [Lagrange, List.range_succ, List.foldl_append]

/-- With as many coefficients as its degree says, `EvaluatePoly` succeeds with the value in
`ℤ/Order` of the polynomial. -/
lemma EvaluatePoly_ok {f : List ℤ} {degree : ℕ} (hf : f.length = degree + 1) (x : ℤ) :
    ∃ v, EvaluatePoly c f x degree = .ok v ∧
      (v : ZMod c.Order) =
        (ofCoeffs (fun i => (f.getD i 0 : ZMod c.Order)) (degree + 1)).eval (x : ZMod c.Order) := by
  refine ⟨_, if_neg (by omega), ?_⟩
  rw [← @List.foldl_hom ℤ (ZMod c.Order) ℕ Int.cast _ (fun s i => s +
    (f.getD i 0 : ZMod c.Order) * (x : ZMod c.Order) ^ i) _ _ (fun s i => by simp),
    Int.cast_zero, foldl_range_add, zero_add, eval_ofCoeffs]

lemma scalarMultSum_eq {G : Type} [AddCommGroup G] (P : List G) (b : List ℤ) (n : ℕ) :
    scalarMultSum P b n = ∑ i ∈ range n, b.getD i 0 • P.getD i 0 := by
  rw [scalarMultSum, foldl_range_add, zero_add]

/-- Points that are multiples of one point `M` add up to the multiple by the weighted sum of
their scalars. -/
lemma scalarMultSum_map_smul {G : Type} [AddCommGroup G] (s b : List ℤ) (n : ℕ) (M : G) :
    scalarMultSum (s.map (· • M)) b n = (∑ i ∈ range n, b.getD i 0 * s.getD i 0) • M := by
  rw [scalarMultSum_eq, sum_smul]
  refine sum_congr rfl fun i _ => ?_
  by_cases hi : i < s.length
  · simp [List.getElem?_eq_getElem hi, smul_smul]
  · simp [List.getElem?_eq_none (not_lt.mp hi)]

/-- Interpolating multiples of one point gives the multiple by the interpolated scalar. -/
lemma scalarMultSum_evaluateB_map_smul {G : Type} [AddCommGroup G]
    (hG : ∀ P : G, c.Order • P = 0) (s x : List ℤ) (degree : ℕ) (M : G) :
    scalarMultSum (s.map (· • M)) (evaluateB c x degree) (degree + 1) =
      Lagrange c s x degree • M := by
  rw [scalarMultSum_map_smul]
  apply zsmul_eq_of_modEq hG
  rw [← ZMod.intCast_eq_intCast_iff, Lagrange_cast]
  push_cast
  refine sum_congr rfl fun i hi => ?_
  rw [evaluateB_getD c x (mem_range.mp hi), mul_comm]

end Residues

/-! ### Interpolation at zero -/

section AtZero

/-- The entries at one index of two lists related pointwise are related. -/
lemma getD_of_forall₂ {α β : Type} {R : α → β → Prop} {l : List α} {l' : List β}
    (h : List.Forall₂ R l l') {i : ℕ} (hi : i < l.length) (a : α) (b : β) :
    R (l.getD i a) (l'.getD i b) := by
  induction h generalizing i with
  | nil => simp at hi
  | cons hab _ ih =>
    cases i with
    | zero => simpa using hab
    | succ i => simpa using ih (by simpa using hi)

/-- Entries pairwise distinct mod `n` among the first `k` of a list are distinct in `ℤ/n`. -/
lemma injOn_of_pairwise {n k : ℕ} {x : List ℤ} (hk : k ≤ x.length)
    (hdist : (x.take k).Pairwise fun a b => ¬ a ≡ b [ZMOD n]) :
    Set.InjOn (fun j => (x.getD j 0 : ZMod n)) (range k) := by
  have hne : ∀ i j, i < j → j < k → (x.getD i 0 : ZMod n) ≠ x.getD j 0 := by
    intro i j hij hjk heq
    have hi : i < (x.take k).length := by simp; omega
    have hj : j < (x.take k).length := by simp; omega
    have hR := List.pairwise_iff_getElem.mp hdist i j hi hj hij
    rw [ZMod.intCast_eq_intCast_iff] at heq
    simp [List.getElem?_eq_getElem (show i < x.length by omega),
      List.getElem?_eq_getElem (show j < x.length by omega)] at heq
    exact hR (by simpa using heq)
  intro i hi j hj hij
  simp only [coe_range, Set.mem_Iio] at hi hj
  by_contra hij'
  rcases Nat.lt_or_gt_of_ne hij' with h | h
  · exact hne i j h hj hij
  · exact hne j i h hi hij.symm

/-- Shares that are the values of a polynomial of degree at most `d` at the first `d + 1` nodes,
distinct mod `Order` but not reduced, interpolate at zero to its constant coefficient. -/
lemma Lagrange_eq_coeff_zero {d : ℕ} {s x : List ℤ} (hx : d + 1 ≤ x.length)
    (hdist : (x.take (d + 1)).Pairwise fun a b => ¬ a ≡ b [ZMOD c.Order])
    {p : Polynomial (ZMod c.Order)} (hp : p.natDegree ≤ d)
    (hs : ∀ i < d + 1, (s.getD i 0 : ZMod c.Order) = p.eval (x.getD i 0 : ZMod c.Order)) :
    ((Lagrange c s x d : ℤ) : ZMod c.Order) = p.coeff 0 := by
  have hdeg : p.degree < #(range (d + 1)) := by
    rw [card_range]
    exact Polynomial.degree_le_natDegree.trans_lt (by exact_mod_cast Nat.lt_succ_of_le hp)
  rw [Lagrange_cast, ← sum_eval_mul_prod_zero (injOn_of_pairwise hx hdist) hdeg]
  refine sum_congr rfl fun i hi => ?_
  rw [evaluateb_cast, hs i (mem_range.mp hi)]

/-- Interpolation at zero recovers the secret. The values, computed by `EvaluatePoly`, of a
polynomial with `d + 1` coefficients at the first `d + 1` nodes, distinct mod `Order` but not
reduced, interpolate at zero to its constant coefficient mod `Order`; and the same values as
multiples of any point of `G1` or `G2` interpolate to the constant coefficient's multiple. -/
theorem Lagrange_at_zero {d : ℕ} {f : List ℤ} (hf : f.length = d + 1) {x : List ℤ}
    (hx : d + 1 ≤ x.length)
    (hdist : (x.take (d + 1)).Pairwise fun a b => ¬ a ≡ b [ZMOD c.Order]) :
    ∃ shares, (x.take (d + 1)).mapM (fun xi => EvaluatePoly c f xi d) = .ok shares ∧
      Lagrange c shares x d = f.headD 0 % c.Order ∧
      (∀ M : G1, LagrangeSig c (shares.map (· • M)) x d = f.headD 0 • M) ∧
      ∀ M : G2, LagrangePub c (shares.map (· • M)) x d = f.headD 0 • M := by
  set p := ofCoeffs (fun i => (f.getD i 0 : ZMod c.Order)) (d + 1)
  obtain ⟨shares, hmap, hF⟩ := Machine.mapM_ok_forall₂
    (R := fun (xi v : ℤ) => (v : ZMod c.Order) = p.eval (xi : ZMod c.Order))
    fun xi _ => EvaluatePoly_ok c hf xi
  -- the `i`-th share is the value of the polynomial at the `i`-th node
  have hshare : ∀ i < d + 1,
      (shares.getD i 0 : ZMod c.Order) = p.eval (x.getD i 0 : ZMod c.Order) := by
    intro i hid
    have hi' : i < (x.take (d + 1)).length := by simp; omega
    simpa [hid] using getD_of_forall₂ hF hi' 0 0
  have hcoeff : p.coeff 0 = (f.headD 0 : ZMod c.Order) := by
    rw [coeff_zero_ofCoeffs _ (by omega)]
    cases f <;> simp
  have hLag : Lagrange c shares x d = f.headD 0 % c.Order := by
    rw [← Lagrange_emod, ← ZMod.intCast_eq_intCast_iff', ← hcoeff]
    exact Lagrange_eq_coeff_zero c hx hdist ((natDegree_ofCoeffs_le _ _).trans (by omega)) hshare
  refine ⟨shares, hmap, hLag, fun M => ?_, fun M => ?_⟩
  · rw [LagrangeSig, scalarMultSum_evaluateB_map_smul c c.Order_smul_G1, hLag]
    exact zsmul_eq_of_modEq c.Order_smul_G1 (Int.mod_modEq _ _) M
  · rw [LagrangePub, scalarMultSum_evaluateB_map_smul c c.Order_smul_G2, hLag]
    exact zsmul_eq_of_modEq c.Order_smul_G2 (Int.mod_modEq _ _) M

/-- Reads a point of `ℤ/p` written as `n` copies of its value. -/
def residueUnmarshal (p n : ℕ) (b : Bytes) : Except String (ZMod p × Bytes) :=
  if n ≤ b.length then .ok ((b.headD 0).toNat, b.drop n) else .error "bn256: not enough data"

lemma residueUnmarshal_replicate {p : ℕ} [NeZero p] (hp : p ≤ 256) (n : ℕ) (P : ZMod p)
    (rest : Bytes) :
    residueUnmarshal p (n + 1) (List.replicate (n + 1) (UInt8.ofNat P.val) ++ rest) =
      .ok (P, rest) := by
  have hP : P.val < 256 := (ZMod.val_lt P).trans_le hp
  simp [residueUnmarshal, List.replicate_succ, Nat.mod_eq_of_lt hP]

lemma residueUnmarshal_rest (p n : ℕ) (b : Bytes) (r : ZMod p × Bytes)
    (h : residueUnmarshal p n b = .ok r) : n ≤ b.length ∧ r.2 = b.drop n := by
  unfold residueUnmarshal at h
  split_ifs at h with hn
  cases h
  exact ⟨hn, rfl⟩

/-- A curve of order 7 to run the statements on: every group is `ℤ/7`, the pairing is the
product, and a point is written as copies of its value. -/
def sevenCurve : Bn256 (ZMod 7) (ZMod 7) (ZMod 7) where
  Order := 7
  Order_prime := by norm_num
  Order_smul_G1 := by decide
  Order_smul_G2 := by decide
  gbase := 1
  hbase := 1
  hbase_generates Q := ⟨Q.val, by simp⟩
  Pair a b := a * b
  Pair_add_left _ _ _ := add_mul _ _ _
  Pair_add_right _ _ _ := mul_add _ _ _
  Pair_nondegenerate P h := by simpa using h 1
  MarshalG1 P := List.replicate 64 (UInt8.ofNat P.val)
  MarshalG2 Q := List.replicate 128 (UInt8.ofNat Q.val)
  length_MarshalG1 _ := List.length_replicate
  length_MarshalG2 _ := List.length_replicate
  UnmarshalG1 := residueUnmarshal 7 64
  UnmarshalG2 := residueUnmarshal 7 128
  UnmarshalG1_Marshal := residueUnmarshal_replicate (by norm_num) 63
  UnmarshalG2_Marshal := residueUnmarshal_replicate (by norm_num) 127
  UnmarshalG1_rest := residueUnmarshal_rest 7 64
  UnmarshalG2_rest := residueUnmarshal_rest 7 128
  UnmarshalPureG1 := residueUnmarshal 7 64
  UnmarshalPureG2 := residueUnmarshal 7 128
  UnmarshalPureG1_of_Unmarshal _ _ h := h
  UnmarshalPureG2_of_Unmarshal _ _ h := h
  StringG1 P := toString P.val
  StringG2 Q := toString Q.val
  StringGT T := toString T.val
  StringG1_injective := by decide
  StringG2_injective := by decide
  StringGT_injective := by decide
  Keccak256 _ := List.replicate 32 0
  length_Keccak256 _ := List.length_replicate

/-- A hash that keeps the byte sum: 31 zero bytes, then the sum of the input's bytes. -/
def byteSum (b : Bytes) : Bytes := List.replicate 31 0 ++ [UInt8.ofNat (b.map UInt8.toNat).sum]

/-- A curve of order 17, as `sevenCurve`, whose hash is `byteSum`: the nodes of proposers of one
key are then their indices shifted, distinct for up to 17 proposers. -/
def seventeenCurve : Bn256 (ZMod 17) (ZMod 17) (ZMod 17) where
  Order := 17
  Order_prime := by norm_num
  Order_smul_G1 := by decide
  Order_smul_G2 := by decide
  gbase := 1
  hbase := 1
  hbase_generates Q := ⟨Q.val, by simp⟩
  Pair a b := a * b
  Pair_add_left _ _ _ := add_mul _ _ _
  Pair_add_right _ _ _ := mul_add _ _ _
  Pair_nondegenerate P h := by simpa using h 1
  MarshalG1 P := List.replicate 64 (UInt8.ofNat P.val)
  MarshalG2 Q := List.replicate 128 (UInt8.ofNat Q.val)
  length_MarshalG1 _ := List.length_replicate
  length_MarshalG2 _ := List.length_replicate
  UnmarshalG1 := residueUnmarshal 17 64
  UnmarshalG2 := residueUnmarshal 17 128
  UnmarshalG1_Marshal := residueUnmarshal_replicate (by norm_num) 63
  UnmarshalG2_Marshal := residueUnmarshal_replicate (by norm_num) 127
  UnmarshalG1_rest := residueUnmarshal_rest 17 64
  UnmarshalG2_rest := residueUnmarshal_rest 17 128
  UnmarshalPureG1 := residueUnmarshal 17 64
  UnmarshalPureG2 := residueUnmarshal 17 128
  UnmarshalPureG1_of_Unmarshal _ _ h := h
  UnmarshalPureG2_of_Unmarshal _ _ h := h
  StringG1 P := toString P.val
  StringG2 Q := toString Q.val
  StringGT T := toString T.val
  StringG1_injective := by decide
  StringG2_injective := by decide
  StringGT_injective := by decide
  Keccak256 := byteSum
  length_Keccak256 _ := by simp [byteSum]

theorem Lagrange_at_zero_seven :
    ([3, 5] : List ℤ).length = 1 + 1 ∧ 1 + 1 ≤ ([1, 9] : List ℤ).length ∧
      (([1, 9] : List ℤ).take (1 + 1)).Pairwise (fun a b => ¬ a ≡ b [ZMOD sevenCurve.Order]) ∧
      ∃ shares, (([1, 9] : List ℤ).take (1 + 1)).mapM
          (fun xi => EvaluatePoly sevenCurve [3, 5] xi 1) = .ok shares ∧
        Lagrange sevenCurve shares [1, 9] 1 = ([3, 5] : List ℤ).headD 0 % sevenCurve.Order ∧
        (∀ M : ZMod 7, LagrangeSig sevenCurve (shares.map (· • M)) [1, 9] 1 =
          ([3, 5] : List ℤ).headD 0 • M) ∧
        ∀ M : ZMod 7, LagrangePub sevenCurve (shares.map (· • M)) [1, 9] 1 =
          ([3, 5] : List ℤ).headD 0 • M :=
  ⟨rfl, by decide, by decide, Lagrange_at_zero sevenCurve rfl (by decide) (by decide)⟩

end AtZero

/-! ### The Reed–Solomon check -/

section ReedSolomon

@[simp] lemma length_RandPoly (degree : ℕ) (constant : ℤ) (rand : ℕ → ℤ) :
    (RandPoly c degree constant rand).length = degree + 1 := by
  simp [RandPoly]

lemma rscoffGeneratei_cast (x : List ℤ) (i : ℕ) :
    ((rscoffGeneratei c x i : ℤ) : ZMod c.Order) =
      Lagrange.nodalWeight (range x.length) (fun j => (x.getD j 0 : ZMod c.Order)) i := by
  unfold rscoffGeneratei
  rw [← @List.foldl_hom ℤ (ZMod c.Order) ℕ Int.cast _ (fun s j => if j ≠ i then
    s * ((x.getD i 0 : ZMod c.Order) - x.getD j 0)⁻¹ else s) _ _
    (fun s j => by split_ifs <;> simp [ModInverse_getD_cast]),
    Int.cast_one, foldl_range_mul_ite, one_mul, Lagrange.nodalWeight]

/-- With two nodes or more and `degree ≥ 1`, `rscodeGenerate` gives for each node the value
there of the polynomial `RandPoly` draws, times the node's nodal weight. -/
lemma rscodeGenerate_ok {x : List ℤ} (hx : 2 ≤ x.length) {degree : ℕ} (hdeg : 1 ≤ degree)
    (constant : ℤ) (rand : ℕ → ℤ) :
    ∃ C, rscodeGenerate c x degree constant rand = some C ∧ ∀ i < x.length,
      (C.getD i 0 : ZMod c.Order) =
        (ofCoeffs (fun j => ((RandPoly c degree constant rand).getD j 0 : ZMod c.Order))
            (degree + 1)).eval (x.getD i 0 : ZMod c.Order) *
          Lagrange.nodalWeight (range x.length) (fun j => (x.getD j 0 : ZMod c.Order)) i := by
  unfold rscodeGenerate rscoffGenerate
  rw [if_neg (by omega), if_neg (by omega)]
  refine ⟨_, rfl, fun i hi => ?_⟩
  obtain ⟨v, hv, hcast⟩ := EvaluatePoly_ok c (length_RandPoly c degree constant rand) (x.getD i 0)
  simp only [List.getD_eq_getElem?_getD, List.getElem?_map, List.getElem?_range hi,
    Option.map_some, Option.getD_some] at hv hcast ⊢
  rw [hv]
  dsimp only
  rw [ZMod.intCast_mod, Int.cast_mul, hcast, rscoffGeneratei_cast]
  simp only [List.getD_eq_getElem?_getD]

/-- The multiples of a point by the values of a polynomial at the nodes, as integer multiples. -/
lemma map_val_smul {G : Type} [AddCommGroup G] (x : List ℤ) (p : Polynomial (ZMod c.Order))
    (H : G) :
    x.map (fun xi : ℤ => (p.eval (xi : ZMod c.Order)).val • H) =
      (x.map fun xi : ℤ => ((p.eval (xi : ZMod c.Order)).val : ℤ)).map (· • H) := by
  rw [List.map_map]
  exact List.map_congr_left fun xi _ => (natCast_zsmul H _).symm

lemma getD_map_val (x : List ℤ) (p : Polynomial (ZMod c.Order)) {i : ℕ} (hi : i < x.length) :
    ((((x.map fun xi : ℤ => ((p.eval (xi : ZMod c.Order)).val : ℤ)).getD i 0 : ℤ)) :
      ZMod c.Order) = p.eval (x.getD i 0 : ZMod c.Order) := by
  simp [List.getD_eq_getElem?_getD, List.getElem?_eq_getElem hi]

/-- Multiples of `H` by integers that are, mod `Order`, the values of a polynomial of degree at
most `deg` at `k > deg + 2` nodes distinct mod `Order` pass `RScodeVerify` whatever it draws. -/
lemma RScodeVerify_of_values [DecidableEq G2] {k deg : ℕ} (hk : deg + 2 < k) {x : List ℤ}
    (hx : x.length = k) (hdist : x.Pairwise fun a b => ¬ a ≡ b [ZMOD c.Order])
    {p : Polynomial (ZMod c.Order)} (hp : p.natDegree ≤ deg) {s : List ℤ}
    (hslen : s.length = x.length)
    (hs : ∀ i < x.length, (s.getD i 0 : ZMod c.Order) = p.eval (x.getD i 0 : ZMod c.Order))
    (H : G2) (constant : ℤ) (rand : ℕ → ℤ) :
    RScodeVerify c (s.map (· • H)) x deg constant rand = true := by
  obtain ⟨C, hC, hCi⟩ := rscodeGenerate_ok c (show 2 ≤ x.length by omega)
    (show 1 ≤ x.length - deg - 2 by omega) constant rand
  set q := ofCoeffs (fun j => ((RandPoly c (x.length - deg - 2) constant rand).getD j 0 :
    ZMod c.Order)) (x.length - deg - 2 + 1)
  -- the checked sum is the dual code applied to `q * p`, of degree at most `k - 2`
  have hqp : (q * p).natDegree + 2 ≤ #(range x.length) := by
    have hq : q.natDegree ≤ x.length - deg - 2 + 1 - 1 := natDegree_ofCoeffs_le _ _
    have hmul := Polynomial.natDegree_mul_le (p := q) (q := p)
    rw [card_range]
    omega
  have hinj := injOn_of_pairwise (le_refl x.length) (by rwa [List.take_length])
  unfold RScodeVerify
  rw [if_neg (by simp; omega), hC]
  simp only [decide_eq_true_eq]
  rw [scalarMultSum_map_smul, ← zero_smul ℤ H]
  apply zsmul_eq_of_modEq c.Order_smul_G2
  rw [← ZMod.intCast_eq_intCast_iff]
  push_cast
  rw [← sum_nodalWeight_mul_eval hinj hqp]
  refine sum_congr rfl fun i hi => ?_
  rw [hCi i (mem_range.mp hi), hs i (mem_range.mp hi), Polynomial.eval_mul]
  ring

/-- Reed–Solomon check completeness: points that are the values at `k > deg + 2` nodes,
distinct mod `Order`, of a polynomial of degree at most `deg`, times one point `H`, pass
`RScodeVerify` whatever numbers it draws. -/
theorem RScodeVerify_complete [DecidableEq G2] {k deg : ℕ} (hk : deg + 2 < k) {x : List ℤ}
    (hx : x.length = k) (hdist : x.Pairwise fun a b => ¬ a ≡ b [ZMOD c.Order])
    {p : Polynomial (ZMod c.Order)} (hp : p.natDegree ≤ deg) (H : G2) (constant : ℤ)
    (rand : ℕ → ℤ) :
    RScodeVerify c (x.map fun xi : ℤ => (p.eval (xi : ZMod c.Order)).val • H) x deg constant rand =
      true := by
  rw [map_val_smul]
  exact RScodeVerify_of_values c hk hx hdist hp (by simp) (fun i hi => getD_map_val c x p hi) H
    constant rand

theorem RScodeVerify_complete_seven :
    1 + 2 < 4 ∧ ([1, 2, 3, 4] : List ℤ).length = 4 ∧
      ([1, 2, 3, 4] : List ℤ).Pairwise (fun a b => ¬ a ≡ b [ZMOD sevenCurve.Order]) ∧
      (Polynomial.X + Polynomial.C 3 : Polynomial (ZMod sevenCurve.Order)).natDegree ≤ 1 ∧
      RScodeVerify sevenCurve (([1, 2, 3, 4] : List ℤ).map fun xi : ℤ =>
          ((Polynomial.X + Polynomial.C 3 : Polynomial (ZMod sevenCurve.Order)).eval
            (xi : ZMod sevenCurve.Order)).val • (1 : ZMod 7))
        [1, 2, 3, 4] 1 0 (fun _ => 0) = true :=
  ⟨by norm_num, rfl, by decide, (Polynomial.natDegree_X_add_C _).le,
    RScodeVerify_complete sevenCurve (by norm_num) rfl (by decide)
      (Polynomial.natDegree_X_add_C _).le 1 0 _⟩

end ReedSolomon

end Wanchain.RandomBeacon
