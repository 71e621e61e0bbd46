import Mathlib.Data.Nat.Digits.Lemmas

/-!
# Byte strings

The byte encodings that the node feeds to `Keccak256` and stores in contract storage:
the minimal big-endian bytes of a `big.Int` (`(*big.Int).Bytes` and `SetBytes`), and
`convert.Uint64ToBytes`, which writes zero as the single byte `0` and every other value as
its minimal big-endian bytes.

Storage slots of the precompiled contracts are addressed by `Keccak256` of such byte strings.
The development identifies a slot with the preimage of its key: two slots are the same exactly
when their preimages are equal, which is the collision resistance the contracts rely on.
-/

namespace Wanchain

/-- A byte string (`[]byte`). -/
abbrev Bytes := List UInt8

/-- `common.Address`: twenty bytes, read as a 160-bit number. -/
abbrev Address := Fin (2 ^ 160)

/-- Addresses are read modulo `2 ^ 160`, which is not zero. -/
instance (priority := high) address_neZero : NeZero (2 ^ 160 : ℕ) :=
  ⟨pow_ne_zero 160 two_ne_zero⟩

/-- `(*big.Int).SetBytes`: the value of a big-endian byte string. -/
def setBytes (b : Bytes) : ℕ :=
  b.foldl (fun acc x => acc * 256 + x.toNat) 0

/-- `(*big.Int).Bytes` of a non-negative value: its minimal big-endian bytes, empty for zero. -/
def bigBytes (n : ℕ) : Bytes :=
  ((Nat.digits 256 n).map UInt8.ofNat).reverse

/-- `convert.Uint64ToBytes`: zero is written as one zero byte, every other value as
`big.Int` bytes. -/
def uint64ToBytes (input : UInt64) : Bytes :=
  if input = 0 then [0] else bigBytes input.toNat

lemma setBytes_foldl (l : Bytes) (a : ℕ) :
    l.foldl (fun acc x => acc * 256 + x.toNat) a =
      a * 256 ^ l.length + Nat.ofDigits 256 (l.reverse.map UInt8.toNat) := by
  induction l generalizing a with
  | nil => simp
  | cons x l ih =>
    rw [List.foldl_cons, ih, List.reverse_cons, List.map_append, Nat.ofDigits_append]
    simp only [List.map_cons, List.map_nil, Nat.ofDigits_singleton, List.length_reverse,
      List.length_map, List.length_cons, pow_succ]
    ring

lemma setBytes_eq_ofDigits (l : Bytes) :
    setBytes l = Nat.ofDigits 256 (l.reverse.map UInt8.toNat) := by
  simp [setBytes, setBytes_foldl]

/-- `SetBytes` inverts `Bytes`. -/
@[simp] lemma setBytes_bigBytes (n : ℕ) : setBytes (bigBytes n) = n := by
  -- every digit is below the base, so it survives the round trip through a byte
  have hmap : (Nat.digits 256 n).map (UInt8.toNat ∘ UInt8.ofNat) = Nat.digits 256 n := by
    conv_rhs => rw [← List.map_id (Nat.digits 256 n)]
    refine List.map_congr_left fun d hd => ?_
    have : d < 256 := Nat.digits_lt_base (by norm_num) hd
    simp [Nat.mod_eq_of_lt this]
  rw [setBytes_eq_ofDigits, bigBytes, List.reverse_reverse, List.map_map, hmap]
  exact Nat.ofDigits_digits 256 n

lemma bigBytes_injective : Function.Injective bigBytes := by
  intro m n h
  rw [← setBytes_bigBytes m, h, setBytes_bigBytes]

@[simp] lemma bigBytes_zero : bigBytes 0 = [] := by simp [bigBytes]

/-- A value has at most `k` bytes exactly when it is below `256 ^ k`. -/
lemma length_bigBytes_le_iff {n k : ℕ} : (bigBytes n).length ≤ k ↔ n < 256 ^ k := by
  rw [bigBytes, List.length_reverse, List.length_map]
  exact Nat.digits_length_le_iff (by norm_num) n

lemma setBytes_lt (l : Bytes) : setBytes l < 256 ^ l.length := by
  rw [setBytes_eq_ofDigits]
  have hlen : (l.reverse.map UInt8.toNat).length = l.length := by simp
  rw [← hlen]
  refine Nat.ofDigits_lt_base_pow_length (by norm_num) fun d hd => ?_
  obtain ⟨x, -, rfl⟩ := List.mem_map.mp hd
  exact x.toNat_lt

lemma bigBytes_eq_nil_iff {n : ℕ} : bigBytes n = [] ↔ n = 0 := by
  constructor
  · intro h
    rw [← setBytes_bigBytes n, h]
    rfl
  · rintro rfl
    exact bigBytes_zero

/-- `Bytes` inverts `SetBytes` on bytes with no leading zero. -/
lemma bigBytes_setBytes {b : Bytes} (hb : b.headD 0 ≠ 0) : bigBytes (setBytes b) = b := by
  obtain ⟨x, t, rfl⟩ : ∃ x t, b = x :: t :=
    List.exists_cons_of_ne_nil (by rintro rfl; exact hb rfl)
  have hdig : ∀ d ∈ (x :: t).reverse.map UInt8.toNat, d < 256 := by
    intro d hd
    obtain ⟨y, -, rfl⟩ := List.mem_map.mp hd
    exact y.toNat_lt
  -- the last digit is the first byte, which is not zero
  have hlast : ∀ h : (x :: t).reverse.map UInt8.toNat ≠ [],
      ((x :: t).reverse.map UInt8.toNat).getLast h ≠ 0 := by
    intro h
    simpa [List.getLast_map, List.getLast_reverse, ← UInt8.toNat_inj] using hb
  have hid : UInt8.ofNat ∘ UInt8.toNat = id := funext fun y => UInt8.ofNat_toNat
  rw [setBytes_eq_ofDigits, bigBytes, Nat.digits_ofDigits 256 (by norm_num) _ hdig hlast,
    List.map_map, hid, List.map_id, List.reverse_reverse]

/-- `Uint64ToBytes` can be decoded: its value is the input. -/
@[simp] lemma setBytes_uint64ToBytes (x : UInt64) : setBytes (uint64ToBytes x) = x.toNat := by
  unfold uint64ToBytes
  split_ifs with h
  · subst h
    rfl
  · exact setBytes_bigBytes _

lemma uint64ToBytes_injective : Function.Injective uint64ToBytes := by
  intro x y h
  have := congrArg setBytes h
  simp only [setBytes_uint64ToBytes] at this
  exact UInt64.toNat_inj.mp this

lemma uint64ToBytes_inj {x y : UInt64} : uint64ToBytes x = uint64ToBytes y ↔ x = y :=
  uint64ToBytes_injective.eq_iff

example : uint64ToBytes 0 = [0] := by decide
example : uint64ToBytes 258 = [1, 2] := by simp [uint64ToBytes, bigBytes]

/-! ### `int64(x)` of a `uint64` -/

lemma toInt_toInt64_of_lt {e : UInt64} (he : e.toNat < 2 ^ 63) : e.toInt64.toInt = e.toNat := by
  change e.toBitVec.toInt = _
  rw [BitVec.toInt_eq_toNat_cond, if_pos (by simpa using (show 2 * e.toNat < 2 ^ 64 by omega))]
  rfl

lemma toInt_toInt64_of_le {e : UInt64} (he : 2 ^ 63 ≤ e.toNat) :
    e.toInt64.toInt = e.toNat - 2 ^ 64 := by
  change e.toBitVec.toInt = _
  rw [BitVec.toInt_eq_toNat_cond, if_neg (by simp; omega)]
  rfl

lemma toInt_toInt64_neg {e : UInt64} (he : 2 ^ 63 ≤ e.toNat) : e.toInt64.toInt < 0 := by
  have := e.toNat_lt
  rw [toInt_toInt64_of_le he]
  omega

/-- A `uint64` difference cast to `int64` is the difference of the integers, when both are below
`2 ^ 63`. -/
lemma toInt_toInt64_sub {a b : UInt64} (ha : a.toNat < 2 ^ 63) (hb : b.toNat < 2 ^ 63) :
    (a - b).toInt64.toInt = a.toNat - b.toNat := by
  by_cases hba : b ≤ a
  · have hsub : (a - b).toNat = a.toNat - b.toNat := UInt64.toNat_sub_of_le a b hba
    rw [toInt_toInt64_of_lt (by omega), hsub]
    have : b.toNat ≤ a.toNat := UInt64.le_iff_toNat_le.mp hba
    omega
  · -- the difference wraps around to the upper half
    have hlt : a.toNat < b.toNat := by
      rw [UInt64.le_iff_toNat_le] at hba
      omega
    have hsub : (a - b).toNat = 2 ^ 64 - b.toNat + a.toNat := by
      rw [UInt64.toNat_sub]
      omega
    rw [toInt_toInt64_of_le (by omega), hsub]
    omega

end Wanchain
