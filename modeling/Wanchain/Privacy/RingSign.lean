import Wanchain.Privacy.Contracts
import Wanchain.Privacy.Hex
import Wanchain.Lib.CurveGroup

/-!
# Ring signatures

`RingSign` and `VerifyRingSign` of `crypto/crypto.go`, with the text form of a signature that
`encodeRingSignOut` of the RPC writes and `DecodeRingSignOut` of the privacy contracts reads.

secp256k1 is the group of its points (`S256`): every point times `secp256k1_N` is the identity,
`G` is the base point, and `elliptic.Marshal` writes a point as 65 bytes that
`elliptic.Unmarshal` reads back. `S256().Add` is the group law, as the curve of the build
without cgo computes it on every pair. A scalar handed over as `k.Bytes()` is read back as `k`.
The random draws of `RingSign` (the secret position `s` and the field elements `q i` and `w i`
of round `i`) are its arguments. The `nil` checks on points and numbers are left out: no value
the model can build is `nil`.

The signer hides its key `P₀ = x • G` at position `s`, computes `L_i` and `R_i` for every
round with the draws, and closes the ring at `s` with `c_s = H - Σ_{i ≠ s} w_i` and
`r_s = q_s - c_s x` mod `N`, where `H` is the hash of the message and all the points. The
verifier recomputes every `L_i` and `R_i` from `c` and `r`: off `s` they are the signer's by
construction, and at `s` the closing equations give them back (`verify_points`). So an honest
signature verifies, and it reads back from its text unchanged (`RingSign_complete`).
-/

namespace Wanchain.Privacy

open CurveGroup

/-- `secp256k1_N`, the order of the base point. -/
def secp256k1_N : ℕ := 0xfffffffffffffffffffffffffffffffebaaedce6af48a03bbfd25e8cd0364141

lemma secp256k1_N_pos : 0 < secp256k1_N := by
  unfold secp256k1_N
  norm_num

lemma secp256k1_N_lt : secp256k1_N < 2 ^ 256 := by
  unfold secp256k1_N
  norm_num

/-- secp256k1 as the ring signatures use it: a group of points in which every point times
`secp256k1_N` is the identity, the base point, and the 65 bytes of a point. -/
structure S256 (Pt : Type) [AddCommGroup Pt] where
  G : Pt
  /-- `elliptic.Marshal`. -/
  Marshal : Pt → Bytes
  /-- `elliptic.Unmarshal`: the point of 65 bytes, if they encode one. -/
  Unmarshal : Bytes → Option Pt
  nsmul_N : ∀ P : Pt, secp256k1_N • P = 0
  length_Marshal : ∀ P, (Marshal P).length = 65
  Unmarshal_Marshal : ∀ P, Unmarshal (Marshal P) = some P

variable {Pt : Type} [AddCommGroup Pt]

/-- `ScalarMult`: a point times the number of big-endian bytes. -/
def ScalarMult (P : Pt) (k : Bytes) : Pt := setBytes k • P

@[simp] lemma ScalarMult_bigBytes (P : Pt) (k : ℕ) : ScalarMult P (bigBytes k) = k • P := by
  simp [ScalarMult]

namespace S256

variable (S : S256 Pt)

/-- `ScalarBaseMult`: the base point times the number of big-endian bytes. -/
def ScalarBaseMult (k : Bytes) : Pt := ScalarMult S.G k

/-- `crypto.FromECDSAPub`. -/
def FromECDSAPub (pub : Pt) : Bytes := S.Marshal pub

/-- `crypto.ToECDSAPub`: the point of 65 bytes that `Unmarshal` reads, none otherwise. -/
def ToECDSAPub (pub : Bytes) : Option Pt :=
  if pub.length ≠ 65 then none else S.Unmarshal pub

@[simp] lemma ScalarBaseMult_bigBytes (k : ℕ) : S.ScalarBaseMult (bigBytes k) = k • S.G := by
  simp [ScalarBaseMult]

lemma ToECDSAPub_FromECDSAPub (P : Pt) : S.ToECDSAPub (S.FromECDSAPub P) = some P := by
  simp [ToECDSAPub, FromECDSAPub, S.length_Marshal, S.Unmarshal_Marshal]

lemma FromECDSAPub_ne_nil (P : Pt) : S.FromECDSAPub P ≠ [] := by
  rw [← List.length_pos_iff, FromECDSAPub, S.length_Marshal]
  norm_num

end S256

variable (S : S256 Pt) (Keccak256 : Bytes → Bytes)

/-! ### The scheme -/

/-- `xScalarHashP`: `[x]Hash(P)`, where `Hash(P)` is `P` times the hash of its encoding. -/
def xScalarHashP (x : Bytes) (pub : Pt) : Pt :=
  let KeyImg := ScalarMult pub (Keccak256 (S.FromECDSAPub pub))
  ScalarMult KeyImg x

lemma xScalarHashP_bigBytes (x : ℕ) (pub : Pt) :
    xScalarHashP S Keccak256 (bigBytes x) pub =
      x • setBytes (Keccak256 (S.FromECDSAPub pub)) • pub := by
  simp [xScalarHashP, ScalarMult]

/-- `ErrInvalidRingSignParams`. -/
def ErrInvalidRingSignParams : String := "invalid ring sign params"

/-- Round `i` of the first loop of `RingSign`: `[q_i]G`, plus `[w_i]P_i` off the secret
position, where `w_i` is also added to `SumC`; the point is written to the hash. -/
def signLStep (PublicKeys : List Pt) (s : ℕ) (q w : ℕ → ℕ) (acc : ℕ × Bytes) (i : ℕ) :
    ℕ × Bytes :=
  let Lpub := S.ScalarBaseMult (bigBytes (q i))
  if i ≠ s then
    let Ppub := ScalarMult (PublicKeys.getD i 0) (bigBytes (w i))
    ((acc.1 + w i) % secp256k1_N, acc.2 ++ S.FromECDSAPub (Lpub + Ppub))
  else (acc.1, acc.2 ++ S.FromECDSAPub Lpub)

/-- Round `i` of the second loop of `RingSign`: `[q_i]Hash(P_i)`, plus `[w_i]I` off the secret
position, written to the hash. -/
def signRStep (PublicKeys : List Pt) (I : Pt) (s : ℕ) (q w : ℕ → ℕ) (d : Bytes) (i : ℕ) :
    Bytes :=
  let Rpub := xScalarHashP S Keccak256 (bigBytes (q i)) (PublicKeys.getD i 0)
  if i ≠ s then
    let Ppub := ScalarMult I (bigBytes (w i))
    d ++ S.FromECDSAPub (Rpub + Ppub)
  else d ++ S.FromECDSAPub Rpub

/-- `RingSign`, with its draws as arguments: the public keys with the signer's `PublicKeys[0]`
and the one at `s` changed places, the key image, and the lists `w` and `q` with the ring
closed at `s`. -/
def RingSign (M : Bytes) (x : ℕ) (PublicKeys : List Pt) (s : ℕ) (q w : ℕ → ℕ) :
    Except String (RingSigned Pt) :=
  if PublicKeys.length = 0 then .error ErrInvalidRingSignParams
  else
    let n := PublicKeys.length
    let I := xScalarHashP S Keccak256 (bigBytes x) (PublicKeys.getD 0 0)
    let PublicKeys :=
      if s > 0 then (PublicKeys.set 0 (PublicKeys.getD s 0)).set s (PublicKeys.getD 0 0)
      else PublicKeys
    -- `d` is the hash state: the message, then every `L_i`, then every `R_i`
    let acc := (List.range n).foldl (signLStep S PublicKeys s q w) (0, M)
    let SumC := acc.1
    let d := (List.range n).foldl (signRStep S Keccak256 PublicKeys I s q w) acc.2
    let Cs := (((setBytes (Keccak256 d) : ℤ) - SumC) % secp256k1_N).toNat
    let Rs := (((q s : ℤ) - (Cs * x : ℕ)) % secp256k1_N).toNat
    .ok ⟨PublicKeys, I, ((List.range n).map w).set s Cs, ((List.range n).map q).set s Rs⟩

/-- Round `i` of the first loop of `VerifyRingSign`: `[r_i]G + [c_i]P_i`, with `c_i` added to
`SumC`. -/
def verifyLStep (PublicKeys : List Pt) (c r : List ℕ) (acc : ℕ × Bytes) (i : ℕ) : ℕ × Bytes :=
  let Lpub := S.ScalarBaseMult (bigBytes (r.getD i 0))
  let Ppub := ScalarMult (PublicKeys.getD i 0) (bigBytes (c.getD i 0))
  ((acc.1 + c.getD i 0) % secp256k1_N, acc.2 ++ S.FromECDSAPub (Lpub + Ppub))

/-- Round `i` of the second loop of `VerifyRingSign`: `[r_i]Hash(P_i) + [c_i]I`. -/
def verifyRStep (PublicKeys : List Pt) (I : Pt) (c r : List ℕ) (d : Bytes) (i : ℕ) : Bytes :=
  let Rpub := xScalarHashP S Keccak256 (bigBytes (r.getD i 0)) (PublicKeys.getD i 0)
  let Ppub := ScalarMult I (bigBytes (c.getD i 0))
  d ++ S.FromECDSAPub (Rpub + Ppub)

/-- `VerifyRingSign`: the hash of the message and the recomputed points, mod `N`, is the sum of
the `c_i` mod `N`. -/
def VerifyRingSign (M : Bytes) (PublicKeys : List Pt) (I : Pt) (c r : List ℕ) : Bool :=
  if PublicKeys.length = 0 ∨ PublicKeys.length ≠ c.length ∨ PublicKeys.length ≠ r.length then
    false
  else
    let n := PublicKeys.length
    let acc := (List.range n).foldl (verifyLStep S PublicKeys c r) (0, M)
    let d := (List.range n).foldl (verifyRStep S Keccak256 PublicKeys I c r) acc.2
    setBytes (Keccak256 d) % secp256k1_N == acc.1

/-! ### The text form -/

/-- `encodeRingSignOut`: the keys, the key image, `w` and `q`, joined by `+`, each list joined
by `&`. -/
def encodeRingSignOut (publicKeys : List Pt) (keyimage : Pt) (Ws Qs : List ℕ) : String :=
  let pkStr := String.intercalate "&" (publicKeys.map fun pk => ToHex (S.FromECDSAPub pk))
  let k := ToHex (S.FromECDSAPub keyimage)
  let wStr := String.intercalate "&" (Ws.map EncodeBig)
  let qStr := String.intercalate "&" (Qs.map EncodeBig)
  String.intercalate "+" [pkStr, k, wStr, qStr]

/-- `ErrInvalidRingSigned`. -/
def ErrInvalidRingSigned : String := "invalid ring signed info"

/-- A point of the text, as `DecodeRingSignOut` reads each key and the key image. -/
def decodePoint (pi : String) : Except String Pt :=
  match S.ToECDSAPub (FromHex pi) with
  | some publickey => .ok publickey
  | none => .error ErrInvalidRingSigned

/-- A number of the text, as `DecodeRingSignOut` reads each entry of `w` and `q`. -/
def decodeScalar (wi : String) : Except String ℕ :=
  (DecodeBig wi).mapError fun _ => ErrInvalidRingSigned

/-- `DecodeRingSignOut`: the four parts of the text, the first four of its `+` pieces, read
piece by piece. -/
def DecodeRingSignOut (s : String) : Except String (RingSigned Pt) := do
  let ss := Split s '+'
  if ss.length < 4 then throw ErrInvalidRingSigned
  let publickeys ← (Split (ss.getD 0 "") '&').mapM (decodePoint S)
  let keyimgae ← decodePoint S (ss.getD 1 "")
  let w ← (Split (ss.getD 2 "") '&').mapM decodeScalar
  let q ← (Split (ss.getD 3 "") '&').mapM decodeScalar
  if publickeys.length ≠ w.length ∨ publickeys.length ≠ q.length then throw ErrInvalidRingSigned
  pure ⟨publickeys, keyimgae, w, q⟩

/-! ### The loops -/

section Loops

/-- A loop whose steps append `e i` to the second part of its state writes `e` of every index
in order. -/
lemma foldl_snd_append {σ : Type*} {f : σ × Bytes → ℕ → σ × Bytes} {e : ℕ → Bytes}
    (hf : ∀ p i, (f p i).2 = p.2 ++ e i) (l : List ℕ) (p : σ × Bytes) :
    (l.foldl f p).2 = p.2 ++ (l.map e).flatten := by
  induction l generalizing p with
  | nil => simp
  | cons i l ih =>
    rw [List.foldl_cons, ih, hf, List.map_cons, List.flatten_cons, List.append_assoc]

lemma foldl_append_of {f : Bytes → ℕ → Bytes} {e : ℕ → Bytes} (hf : ∀ d i, f d i = d ++ e i)
    (l : List ℕ) (d : Bytes) : l.foldl f d = d ++ (l.map e).flatten := by
  rw [show f = (· ++ e ·) from funext₂ hf, List.foldl_append_eq_append]

/-- The first part of a loop's state, when each step computes it from the first part alone. -/
lemma foldl_fst_eq {σ τ : Type*} {f : σ × τ → ℕ → σ × τ} {g : σ → ℕ → σ}
    (hf : ∀ p i, (f p i).1 = g p.1 i) (l : List ℕ) (p : σ × τ) :
    (l.foldl f p).1 = l.foldl g p.1 :=
  (Machine.run_map Prod.fst (fun p i => (hf p i).symm) p l).symm

/-- A loop that keeps its accumulator reduced mod `N` and adds `t i` at index `i` ends with the
sum of the terms mod `N`. -/
lemma foldl_range_mod {N : ℕ} {g : ℕ → ℕ → ℕ} {t : ℕ → ℕ}
    (hg : ∀ a i, g (a % N) i = (a + t i) % N) (k : ℕ) :
    (List.range k).foldl g 0 = (∑ i ∈ Finset.range k, t i) % N := by
  induction k with
  | zero => simp
  | succ k ih =>
    rw [List.range_succ, List.foldl_append, ih, List.foldl_cons, List.foldl_nil, hg,
      Finset.sum_range_succ]

/-- The sum closed by `H - A mod N`, reduced mod `N` after the subtraction, is `H` mod `N`. -/
lemma add_toNat_emod_sub {N : ℕ} (hN : 0 < N) (A H : ℕ) :
    (A + (((H : ℤ) - (A % N : ℕ)) % N).toNat) % N = H % N := by
  have hz : ((((H : ℤ) - (A % N : ℕ)) % N).toNat : ℤ) = ((H : ℤ) - (A % N : ℕ)) % N :=
    Int.toNat_of_nonneg (Int.emod_nonneg _ (by exact_mod_cast hN.ne'))
  rw [← ZMod.natCast_eq_natCast_iff', Nat.cast_add,
    ← Int.cast_natCast (((H : ℤ) - (A % N : ℕ)) % N).toNat, hz, ZMod.intCast_mod, Int.cast_sub,
    Int.cast_natCast, Int.cast_natCast, ZMod.natCast_mod]
  ring

lemma toNat_emod_lt (z : ℤ) {N : ℕ} (hN : 0 < N) : (z % N).toNat < N := by
  have h1 := Int.emod_lt_of_pos z (by exact_mod_cast hN : (0 : ℤ) < N)
  have h2 := Int.emod_nonneg z (by exact_mod_cast hN.ne' : (N : ℤ) ≠ 0)
  omega

/-- The list of the draws of every round with the one of round `s` replaced. -/
lemma getD_set_map_range (f : ℕ → ℕ) (v : ℕ) {s i n : ℕ} (hi : i < n) :
    (((List.range n).map f).set s v).getD i 0 = if i = s then v else f i := by
  rw [List.getD_eq_getElem?_getD]
  by_cases h : i = s
  · subst h
    rw [List.getElem?_set_self (by simpa using hi), if_pos rfl, Option.getD_some]
  · rw [List.getElem?_set_ne (Ne.symm h), if_neg h, List.getElem?_map, List.getElem?_range hi]
    rfl

/-- `RingSign` swaps the keys at `0` and `s`. -/
lemma getElem?_swapKeys {α : Type*} [Zero α] (P : List α) {s : ℕ} (hs : s < P.length) (i : ℕ) :
    (if s > 0 then (P.set 0 (P.getD s 0)).set s (P.getD 0 0) else P)[i]? =
      P[Equiv.swap 0 s i]? := by
  have h0 : 0 < P.length := by omega
  split_ifs with hpos
  · rcases eq_or_ne i s with rfl | his
    · rw [Equiv.swap_apply_right, List.getElem?_set_self (by simpa using hs),
        List.getD_eq_getElem?_getD, List.getElem?_eq_getElem h0, Option.getD_some]
    rcases eq_or_ne i 0 with rfl | hi0
    · rw [Equiv.swap_apply_left, List.getElem?_set_ne his.symm, List.getElem?_set_self h0,
        List.getD_eq_getElem?_getD, List.getElem?_eq_getElem hs, Option.getD_some]
    · rw [Equiv.swap_apply_of_ne_of_ne hi0 his, List.getElem?_set_ne his.symm,
        List.getElem?_set_ne hi0.symm]
  · obtain rfl : s = 0 := by omega
    rw [Equiv.swap_self, Equiv.refl_apply]

end Loops

/-! ### What each round computes -/

section Rounds

variable (PublicKeys : List Pt) (I : Pt) (s : ℕ) (q w : ℕ → ℕ) (c r : List ℕ) (i : ℕ)

lemma signLStep_fst (acc : ℕ × Bytes) :
    (signLStep S PublicKeys s q w acc i).1 =
      if i ≠ s then (acc.1 + w i) % secp256k1_N else acc.1 := by
  unfold signLStep
  split_ifs <;> rfl

lemma signLStep_snd (acc : ℕ × Bytes) :
    (signLStep S PublicKeys s q w acc i).2 = acc.2 ++ S.FromECDSAPub
      (if i ≠ s then q i • S.G + w i • PublicKeys.getD i 0 else q i • S.G) := by
  unfold signLStep
  split_ifs <;> simp

lemma signRStep_eq (d : Bytes) :
    signRStep S Keccak256 PublicKeys I s q w d i = d ++ S.FromECDSAPub
      (if i ≠ s then
        q i • setBytes (Keccak256 (S.FromECDSAPub (PublicKeys.getD i 0))) • PublicKeys.getD i 0 +
          w i • I
      else q i • setBytes (Keccak256 (S.FromECDSAPub (PublicKeys.getD i 0))) •
        PublicKeys.getD i 0) := by
  unfold signRStep
  split_ifs <;> simp [xScalarHashP_bigBytes]

lemma verifyLStep_snd (acc : ℕ × Bytes) :
    (verifyLStep S PublicKeys c r acc i).2 =
      acc.2 ++ S.FromECDSAPub (r.getD i 0 • S.G + c.getD i 0 • PublicKeys.getD i 0) := by
  simp [verifyLStep]

lemma verifyRStep_eq (d : Bytes) :
    verifyRStep S Keccak256 PublicKeys I c r d i = d ++ S.FromECDSAPub
      (r.getD i 0 • setBytes (Keccak256 (S.FromECDSAPub (PublicKeys.getD i 0))) •
        PublicKeys.getD i 0 + c.getD i 0 • I) := by
  simp [verifyRStep, xScalarHashP_bigBytes]

end Rounds

/-! ### The text reads back -/

section Wire

variable {S}

lemma decodePoint_ToHex (P : Pt) : decodePoint S (ToHex (S.FromECDSAPub P)) = .ok P := by
  rw [decodePoint, FromHex_ToHex (S.FromECDSAPub_ne_nil P), S.ToECDSAPub_FromECDSAPub]

lemma decodeScalar_EncodeBig {n : ℕ} (hn : n < 2 ^ 256) : decodeScalar (EncodeBig n) = .ok n := by
  rw [decodeScalar, DecodeBig_EncodeBig hn]
  rfl

lemma HexText_points (Ps : List Pt) :
    ∀ t ∈ Ps.map (fun P => ToHex (S.FromECDSAPub P)), HexText t := by
  simp only [List.mem_map]
  rintro t ⟨P, -, rfl⟩
  exact HexText_ToHex _

lemma HexText_scalars (l : List ℕ) : ∀ t ∈ l.map EncodeBig, HexText t := by
  simp only [List.mem_map]
  rintro t ⟨n, -, rfl⟩
  exact HexText_EncodeBig n

/-- A list of hex pieces joined at `&` holds no `+`. -/
lemma plus_not_mem_join {l : List String} (hl : ∀ t ∈ l, HexText t) :
    '+' ∉ (String.intercalate "&" l).toList :=
  not_mem_intercalate (by decide) fun t ht => (hl t ht).not_mem (by decide) rfl

/-- A list of hex pieces joined at `&` splits back into its pieces. -/
lemma Split_join {l : List String} (hl : ∀ t ∈ l, HexText t) (hne : l ≠ []) :
    Split (String.intercalate "&" l) '&' = l := by
  rw [show ("&" : String) = String.singleton '&' from rfl]
  exact Split_intercalate (fun t ht => (hl t ht).not_mem (by decide) rfl) hne

/-- `DecodeRingSignOut` reads back what `encodeRingSignOut` writes of a ring that is not empty,
with as many entries in `w` and in `q` as keys, all of at most 256 bits. -/
theorem DecodeRingSignOut_encodeRingSignOut (rs : RingSigned Pt) (hP : rs.PublicKeys ≠ [])
    (hW : rs.W_Random.length = rs.PublicKeys.length)
    (hQ : rs.Q_Random.length = rs.PublicKeys.length) (hw : ∀ n ∈ rs.W_Random, n < 2 ^ 256)
    (hq : ∀ n ∈ rs.Q_Random, n < 2 ^ 256) :
    DecodeRingSignOut S
      (encodeRingSignOut S rs.PublicKeys rs.KeyImage rs.W_Random rs.Q_Random) = .ok rs := by
  obtain ⟨Ps, I, W, Q⟩ := rs
  dsimp only at hP hW hQ hw hq ⊢
  have hW0 : W ≠ [] := by
    rintro rfl
    exact hP (List.length_eq_zero_iff.mp hW.symm)
  have hQ0 : Q ≠ [] := by
    rintro rfl
    exact hP (List.length_eq_zero_iff.mp hQ.symm)
  -- the four parts come back at `+`, and each list at `&`
  have hsplit : Split (encodeRingSignOut S Ps I W Q) '+' =
      [String.intercalate "&" (Ps.map fun P => ToHex (S.FromECDSAPub P)),
        ToHex (S.FromECDSAPub I), String.intercalate "&" (W.map EncodeBig),
        String.intercalate "&" (Q.map EncodeBig)] := by
    rw [encodeRingSignOut, show ("+" : String) = String.singleton '+' from rfl]
    refine Split_intercalate ?_ (List.cons_ne_nil _ _)
    simp only [List.mem_cons, List.not_mem_nil, or_false]
    rintro t (rfl | rfl | rfl | rfl)
    · exact plus_not_mem_join (HexText_points Ps)
    · exact (HexText_ToHex _).not_mem (by decide) rfl
    · exact plus_not_mem_join (HexText_scalars W)
    · exact plus_not_mem_join (HexText_scalars Q)
  have hdecP : (Split (String.intercalate "&" (Ps.map fun P => ToHex (S.FromECDSAPub P))) '&').mapM
      (decodePoint S) = .ok Ps := by
    rw [Split_join (HexText_points Ps) (by simpa using hP)]
    exact Machine.mapM_eq_ok_iff.mpr (List.forall₂_map_left_iff.mpr
      (List.forall₂_same.mpr fun P _ => decodePoint_ToHex P))
  have hdecW : (Split (String.intercalate "&" (W.map EncodeBig)) '&').mapM decodeScalar =
      .ok W := by
    rw [Split_join (HexText_scalars W) (by simpa using hW0)]
    exact Machine.mapM_eq_ok_iff.mpr (List.forall₂_map_left_iff.mpr
      (List.forall₂_same.mpr fun n hn => decodeScalar_EncodeBig (hw n hn)))
  have hdecQ : (Split (String.intercalate "&" (Q.map EncodeBig)) '&').mapM decodeScalar =
      .ok Q := by
    rw [Split_join (HexText_scalars Q) (by simpa using hQ0)]
    exact Machine.mapM_eq_ok_iff.mpr (List.forall₂_map_left_iff.mpr
      (List.forall₂_same.mpr fun n hn => decodeScalar_EncodeBig (hq n hn)))
  simp only [DecodeRingSignOut, hsplit]
  simp [hdecP, hdecW, hdecQ, decodePoint_ToHex, hW, hQ]
  rfl

end Wire

/-! ### An honest signature verifies -/

section Complete

/-- At the closing position the verifier's `r_s • B + c_s • (x • B)` is the signer's `q_s • B`,
for the base point and for `Hash(P_s)` alike. -/
lemma close_point (S : S256 Pt) (B : Pt) (qs Cs x : ℕ) :
    (((qs : ℤ) - (Cs * x : ℕ)) % secp256k1_N).toNat • B + Cs • x • B = qs • B := by
  rw [smul_smul]
  exact emod_sub_toNat_nsmul_add S.nsmul_N secp256k1_N_pos qs (Cs * x) B

variable {S Keccak256}

/-- The signature closed at `s` verifies: in every round the verifier recomputes the signer's
points, so it hashes the signer's bytes, and its sum of the `c_i` is that hash mod `N`. -/
theorem verify_closed {M : Bytes} {x s n : ℕ} {P : List Pt} {I : Pt} {q w : ℕ → ℕ}
    (hlen : P.length = n) (hn : 0 < n) (hs : s < n) (hx : P.getD s 0 = x • S.G)
    (hI : I = x • setBytes (Keccak256 (S.FromECDSAPub (P.getD s 0))) • P.getD s 0)
    {acc : ℕ × Bytes} (hacc : acc = (List.range n).foldl (signLStep S P s q w) (0, M))
    {d : Bytes} (hd : d = (List.range n).foldl (signRStep S Keccak256 P I s q w) acc.2)
    {Cs Rs : ℕ} (hCs : Cs = (((setBytes (Keccak256 d) : ℤ) - acc.1) % secp256k1_N).toNat)
    (hRs : Rs = (((q s : ℤ) - (Cs * x : ℕ)) % secp256k1_N).toNat) :
    VerifyRingSign S Keccak256 M P I (((List.range n).map w).set s Cs)
      (((List.range n).map q).set s Rs) = true := by
  set c := ((List.range n).map w).set s Cs
  set r := ((List.range n).map q).set s Rs
  have hc : ∀ i < n, c.getD i 0 = if i = s then Cs else w i :=
    fun i hi => getD_set_map_range w Cs hi
  have hr : ∀ i < n, r.getD i 0 = if i = s then Rs else q i :=
    fun i hi => getD_set_map_range q Rs hi
  -- in every round the verifier's points are the signer's
  have hL : ∀ i < n, r.getD i 0 • S.G + c.getD i 0 • P.getD i 0 =
      if i ≠ s then q i • S.G + w i • P.getD i 0 else q i • S.G := by
    intro i hi
    rw [hc i hi, hr i hi]
    by_cases his : i = s
    · subst his
      rw [if_pos rfl, if_pos rfl, if_neg (not_not.mpr rfl), hx, hRs]
      exact close_point S S.G (q i) Cs x
    · rw [if_neg his, if_neg his, if_pos his]
  have hR : ∀ i < n,
      r.getD i 0 • setBytes (Keccak256 (S.FromECDSAPub (P.getD i 0))) • P.getD i 0 +
          c.getD i 0 • I =
        if i ≠ s then
          q i • setBytes (Keccak256 (S.FromECDSAPub (P.getD i 0))) • P.getD i 0 + w i • I
        else q i • setBytes (Keccak256 (S.FromECDSAPub (P.getD i 0))) • P.getD i 0 := by
    intro i hi
    rw [hc i hi, hr i hi]
    by_cases his : i = s
    · subst his
      rw [if_pos rfl, if_pos rfl, if_neg (not_not.mpr rfl), hI, hRs]
      exact close_point S _ (q i) Cs x
    · rw [if_neg his, if_neg his, if_pos his]
  -- so the verifier hashes the signer's bytes
  have hLbytes : ((List.range n).foldl (verifyLStep S P c r) (0, M)).2 = acc.2 := by
    rw [hacc, foldl_snd_append (fun p i => verifyLStep_snd S P c r i p),
      foldl_snd_append (fun p i => signLStep_snd S P s q w i p)]
    congr 2
    exact List.map_congr_left fun i hi => by rw [hL i (List.mem_range.mp hi)]
  have hbytes : (List.range n).foldl (verifyRStep S Keccak256 P I c r)
      ((List.range n).foldl (verifyLStep S P c r) (0, M)).2 = d := by
    rw [hLbytes, hd, foldl_append_of (fun d i => verifyRStep_eq S Keccak256 P I c r i d),
      foldl_append_of (fun d i => signRStep_eq S Keccak256 P I s q w i d)]
    congr 2
    exact List.map_congr_left fun i hi => by rw [hR i (List.mem_range.mp hi)]
  -- and its sum of the `c_i` is the signer's sum off `s` closed by `c_s`
  have hsumS : acc.1 = (∑ i ∈ Finset.range n, if i ≠ s then w i else 0) % secp256k1_N := by
    rw [hacc, foldl_fst_eq (g := fun a i => if i ≠ s then (a + w i) % secp256k1_N else a)
      (fun p i => signLStep_fst S P s q w i p)]
    refine foldl_range_mod (fun a i => ?_) n
    by_cases his : i ≠ s
    · rw [if_pos his, if_pos his, Nat.mod_add_mod]
    · rw [if_neg his, if_neg his, add_zero]
  have hsumV : ((List.range n).foldl (verifyLStep S P c r) (0, M)).1 =
      (∑ i ∈ Finset.range n, c.getD i 0) % secp256k1_N := by
    rw [foldl_fst_eq (g := fun a i => (a + c.getD i 0) % secp256k1_N) (fun _ _ => rfl)]
    exact foldl_range_mod (fun a i => Nat.mod_add_mod a _ _) n
  have hsumc : ∑ i ∈ Finset.range n, c.getD i 0 =
      (∑ i ∈ Finset.range n, if i ≠ s then w i else 0) + Cs := by
    rw [Finset.sum_congr rfl fun i hi => hc i (Finset.mem_range.mp hi)]
    have hsplit : ∀ i, (if i = s then Cs else w i) =
        (if i ≠ s then w i else 0) + (if i = s then Cs else 0) := fun i => by
      by_cases his : i = s <;> simp [his]
    rw [Finset.sum_congr rfl fun i _ => hsplit i, Finset.sum_add_distrib,
      Finset.sum_ite_eq' (Finset.range n) s, if_pos (Finset.mem_range.mpr hs)]
  have hclose : setBytes (Keccak256 d) % secp256k1_N =
      ((List.range n).foldl (verifyLStep S P c r) (0, M)).1 := by
    rw [hsumV, hsumc, hCs, hsumS]
    exact (add_toNat_emod_sub secp256k1_N_pos _ _).symm
  have hclen : c.length = n := by simp [c]
  have hrlen : r.length = n := by simp [r]
  unfold VerifyRingSign
  rw [if_neg (by omega)]
  simp only [hlen, hbytes, hclose, beq_self_eq_true]

/-- Every entry of the draws with the one at `s` replaced is below a bound all of them keep. -/
lemma lt_of_mem_set_map_range {f : ℕ → ℕ} {n s v B : ℕ} (hf : ∀ i < n, f i < B) (hv : v < B) :
    ∀ m ∈ ((List.range n).map f).set s v, m < B := by
  intro m hm
  rcases List.mem_or_eq_of_mem_set hm with hm | rfl
  · obtain ⟨i, hi, rfl⟩ := List.mem_map.mp hm
    exact hf i (List.mem_range.mp hi)
  · exact hv

variable (S Keccak256)

/-- Completeness of the ring signature through its text: for every message, key `x`, ring whose
first key is `x • G`, secret position and draws below `N`, `RingSign` returns the ring with the
keys at `0` and `s` swapped and the key image `x • Hash(x • G)`; the text `encodeRingSignOut`
writes of it reads back as the same signature, and `VerifyRingSign` accepts it. -/
theorem RingSign_complete (M : Bytes) (x : ℕ) (P : List Pt) (hP0 : P[0]? = some (x • S.G))
    (s : ℕ) (hs : s < P.length) (q w : ℕ → ℕ) (hq : ∀ i < P.length, q i < secp256k1_N)
    (hw : ∀ i < P.length, w i < secp256k1_N) :
    ∃ rs : RingSigned Pt, RingSign S Keccak256 M x P s q w = .ok rs ∧
      (∀ i, rs.PublicKeys[i]? = P[Equiv.swap 0 s i]?) ∧
      rs.KeyImage = x • setBytes (Keccak256 (S.FromECDSAPub (x • S.G))) • x • S.G ∧
      DecodeRingSignOut S
        (encodeRingSignOut S rs.PublicKeys rs.KeyImage rs.W_Random rs.Q_Random) = .ok rs ∧
      VerifyRingSign S Keccak256 M rs.PublicKeys rs.KeyImage rs.W_Random rs.Q_Random = true := by
  have hn : 0 < P.length := by
    rcases P with _ | ⟨P0, P⟩
    · simp at hP0
    · simp
  have hP0' : P.getD 0 0 = x • S.G := by
    rw [List.getD_eq_getElem?_getD, hP0]
    rfl
  -- what `RingSign` computes, under its own names
  set P' := if s > 0 then (P.set 0 (P.getD s 0)).set s (P.getD 0 0) else P with hP'
  set I := xScalarHashP S Keccak256 (bigBytes x) (P.getD 0 0) with hI
  set acc := (List.range P.length).foldl (signLStep S P' s q w) (0, M) with hacc
  set d := (List.range P.length).foldl (signRStep S Keccak256 P' I s q w) acc.2 with hd
  set Cs := (((setBytes (Keccak256 d) : ℤ) - acc.1) % secp256k1_N).toNat with hCs
  set Rs := (((q s : ℤ) - (Cs * x : ℕ)) % secp256k1_N).toNat with hRs
  have hsign : RingSign S Keccak256 M x P s q w = .ok ⟨P', I,
      ((List.range P.length).map w).set s Cs, ((List.range P.length).map q).set s Rs⟩ := by
    rw [RingSign, if_neg hn.ne']
  have hswap : ∀ i, P'[i]? = P[Equiv.swap 0 s i]? := getElem?_swapKeys P hs
  have hlen' : P'.length = P.length := by
    rw [hP']
    split_ifs <;> simp
  -- the signer's key sits at `s` after the swap
  have hPs : P'.getD s 0 = x • S.G := by
    rw [List.getD_eq_getElem?_getD, hswap, Equiv.swap_apply_right, hP0]
    rfl
  have hIs : I = x • setBytes (Keccak256 (S.FromECDSAPub (P'.getD s 0))) • P'.getD s 0 := by
    rw [hI, xScalarHashP_bigBytes, hP0', hPs]
  have hbound : ∀ m, m < secp256k1_N → m < 2 ^ 256 := fun m hm => hm.trans secp256k1_N_lt
  refine ⟨_, hsign, hswap, ?_, ?_, ?_⟩
  · show I = _
    rw [hI, xScalarHashP_bigBytes, hP0']
  · refine DecodeRingSignOut_encodeRingSignOut _ ?_ (by simp [hlen']) (by simp [hlen'])
      (fun m hm => hbound m (lt_of_mem_set_map_range hw (toNat_emod_lt _ secp256k1_N_pos) m hm))
      (fun m hm => hbound m (lt_of_mem_set_map_range hq (toNat_emod_lt _ secp256k1_N_pos) m hm))
    show P' ≠ []
    rw [← List.length_pos_iff, hlen']
    exact hn
  · exact verify_closed hlen' hn hs hPs hIs hacc hd hCs hRs

end Complete

/-! ### secp256k1 by discrete logarithms -/

instance : NeZero secp256k1_N := ⟨secp256k1_N_pos.ne'⟩

lemma setBytes_replicate_zero_append (k : ℕ) (l : Bytes) :
    setBytes (List.replicate k 0 ++ l) = setBytes l := by
  induction k with
  | zero => rfl
  | succ k ih =>
    rw [List.replicate_succ, List.cons_append, setBytes, List.foldl_cons]
    simpa [setBytes] using ih

/-- secp256k1 by discrete logarithms: a point is its logarithm in `ZMod secp256k1_N`, the base
point is `1`, and `Marshal` writes `4` and the logarithm in 64 big-endian bytes. -/
def dlogCurve : S256 (ZMod secp256k1_N) where
  G := 1
  Marshal P := 4 :: (List.replicate (64 - (bigBytes P.val).length) 0 ++ bigBytes P.val)
  Unmarshal b := some (setBytes (b.drop 1) : ZMod secp256k1_N)
  nsmul_N P := by rw [nsmul_eq_mul, ZMod.natCast_self, zero_mul]
  length_Marshal P := by
    have hlen : (bigBytes P.val).length ≤ 64 := length_bigBytes_le_iff.mpr
      ((ZMod.val_lt P).trans (secp256k1_N_lt.trans (by norm_num)))
    simp only [List.length_cons, List.length_append, List.length_replicate]
    omega
  Unmarshal_Marshal P := by
    simp [setBytes_replicate_zero_append]

theorem RingSign_complete_dlog :
    [(7 : ℕ) • dlogCurve.G, (11 : ℕ) • dlogCurve.G][0]? = some ((7 : ℕ) • dlogCurve.G) ∧
    1 < [(7 : ℕ) • dlogCurve.G, (11 : ℕ) • dlogCurve.G].length ∧
    (∀ i < 2, (fun _ => 3 : ℕ → ℕ) i < secp256k1_N) ∧
    (∀ i < 2, (fun _ => 5 : ℕ → ℕ) i < secp256k1_N) ∧
    ∃ rs : RingSigned (ZMod secp256k1_N),
      RingSign dlogCurve id [1, 2, 3] 7 [(7 : ℕ) • dlogCurve.G, (11 : ℕ) • dlogCurve.G] 1
          (fun _ => 3) (fun _ => 5) = .ok rs ∧
        (∀ i, rs.PublicKeys[i]? =
          [(7 : ℕ) • dlogCurve.G, (11 : ℕ) • dlogCurve.G][Equiv.swap 0 1 i]?) ∧
        rs.KeyImage = (7 : ℕ) • setBytes (id (dlogCurve.FromECDSAPub ((7 : ℕ) • dlogCurve.G))) •
          (7 : ℕ) • dlogCurve.G ∧
        DecodeRingSignOut dlogCurve
          (encodeRingSignOut dlogCurve rs.PublicKeys rs.KeyImage rs.W_Random rs.Q_Random) =
            .ok rs ∧
        VerifyRingSign dlogCurve id [1, 2, 3] rs.PublicKeys rs.KeyImage rs.W_Random
          rs.Q_Random = true := by
  have hq : ∀ i < 2, (fun _ => 3 : ℕ → ℕ) i < secp256k1_N := fun _ _ => by
    show 3 < secp256k1_N
    unfold secp256k1_N
    norm_num
  have hw : ∀ i < 2, (fun _ => 5 : ℕ → ℕ) i < secp256k1_N := fun _ _ => by
    show 5 < secp256k1_N
    unfold secp256k1_N
    norm_num
  exact ⟨rfl, by decide, hq, hw, RingSign_complete dlogCurve id [1, 2, 3] 7
    [(7 : ℕ) • dlogCurve.G, (11 : ℕ) • dlogCurve.G] rfl 1 (by decide) _ _ hq hw⟩

end Wanchain.Privacy
