import Wanchain.Privacy.Ota

/-!
# Hex text

Ring signatures travel between the node's RPC and the privacy contracts as text. Points go as
`common.ToHex` writes bytes (`0x` and two lowercase digits a byte, in `Ota`), read back by
`common.FromHex`; scalars go as `hexutil.EncodeBig` writes a number (`0x` and its digits with no
leading zero), read back by `hexutil.DecodeBig`, which takes at most 64 digits. The pieces are
joined by `strings.Join` and cut apart again by `strings.Split`.

Each reader undoes its writer (`FromHex_ToHex`, `DecodeBig_EncodeBig`), and what the writers
produce holds neither separator, so splitting the joined text gives the pieces back
(`Split_intercalate`). Go strings are read here as their characters; all the text is ASCII.
`DecodeBig` gathers the digits into machine words before it makes a number of them: the words
spell the number the digits spell, which is what the model computes.
-/

namespace Wanchain.Privacy

/-- `decodeNibble`: the value of a hex digit, either case. -/
def decodeNibble (c : Char) : Option ℕ :=
  if '0' ≤ c ∧ c ≤ '9' then some (c.toNat - '0'.toNat)
  else if 'A' ≤ c ∧ c ≤ 'F' then some (c.toNat - 'A'.toNat + 10)
  else if 'a' ≤ c ∧ c ≤ 'f' then some (c.toNat - 'a'.toNat + 10)
  else none

/-- `common.Hex2Bytes`: `hex.DecodeString` with its error dropped, so the bytes of the digit
pairs before the first one that does not read. -/
def Hex2Bytes : List Char → Bytes
  | a :: b :: rest =>
    match decodeNibble a, decodeNibble b with
    | some x, some y => UInt8.ofNat (x * 16 + y) :: Hex2Bytes rest
    | _, _ => []
  | _ => []

/-- `common.FromHex`: drops a `0x` or `0X`, pads an odd count of digits with a leading `0`,
and reads the digits; text of one character or none is no bytes. -/
def FromHex (s : String) : Bytes :=
  let s := s.toList
  if s.length > 1 then
    let s := if s.take 2 = ['0', 'x'] ∨ s.take 2 = ['0', 'X'] then s.drop 2 else s
    let s := if s.length % 2 = 1 then '0' :: s else s
    Hex2Bytes s
  else []

/-- `hexutil.Has0xPrefix`. -/
def Has0xPrefix (input : List Char) : Bool :=
  input.length ≥ 2 && input.getD 0 ' ' == '0' &&
    (input.getD 1 ' ' == 'x' || input.getD 1 ' ' == 'X')

/-- `hexutil.checkNumber`: the digits of a quantity, behind `0x`, not empty and with no
leading zero. -/
def checkNumber (input : List Char) : Except String (List Char) :=
  if input.length = 0 then .error "empty hex string"
  else if !Has0xPrefix input then .error "hex string without 0x prefix"
  else
    let input := input.drop 2
    if input.length = 0 then .error "hex string \"0x\""
    else if input.length > 1 ∧ input.head? = some '0' then
      .error "hex number with leading zero digits"
    else .ok input

/-- `hexutil.DecodeBig`: a quantity of at most 64 hex digits. -/
def DecodeBig (input : String) : Except String ℕ := do
  let raw ← checkNumber input.toList
  if raw.length > 64 then throw "hex number > 256 bits"
  match raw.mapM decodeNibble with
  | some nibs => pure (nibs.foldl (fun acc d => acc * 16 + d) 0)
  | none => throw "invalid hex string"

/-- `hexutil.EncodeBig`: `0x0` for zero, otherwise `%#x`, the digits behind `0x`. -/
def EncodeBig (bigint : ℕ) : String :=
  if bigint = 0 then "0x0"
  else "0x" ++ String.ofList ((Nat.digits 16 bigint).reverse.map Nat.digitChar)

/-- `strings.Split` at a one-character separator. -/
def Split (s : String) (sep : Char) : List String :=
  (s.split sep).toList.map String.Slice.copy

/-! ### Reading back what was written -/

lemma decodeNibble_digitChar {n : ℕ} (h : n < 16) : decodeNibble (Nat.digitChar n) = some n := by
  interval_cases n <;> rfl

/-- The digits `ToHex` writes for a byte string. -/
def hexChars (b : Bytes) : List Char :=
  b.foldr (fun x s => Nat.digitChar (x.toNat / 16) :: Nat.digitChar (x.toNat % 16) :: s) []

@[simp] lemma hexChars_nil : hexChars [] = [] := rfl

@[simp] lemma hexChars_cons (x : UInt8) (b : Bytes) :
    hexChars (x :: b) =
      Nat.digitChar (x.toNat / 16) :: Nat.digitChar (x.toNat % 16) :: hexChars b :=
  rfl

lemma length_hexChars (b : Bytes) : (hexChars b).length = 2 * b.length := by
  induction b with
  | nil => rfl
  | cons x b ih => simp [ih]; omega

lemma toList_ToHex {b : Bytes} (hb : b ≠ []) : (ToHex b).toList = '0' :: 'x' :: hexChars b := by
  have hne : (hexChars b).isEmpty = false := by
    rw [List.isEmpty_eq_false_iff, ← List.length_pos_iff, length_hexChars]
    have := List.length_pos_iff.mpr hb
    omega
  simp only [ToHex]
  rw [show b.foldr _ [] = hexChars b from rfl, hne]
  simp

lemma Hex2Bytes_hexChars (b : Bytes) : Hex2Bytes (hexChars b) = b := by
  induction b with
  | nil => rfl
  | cons x b ih =>
    have hx := x.toNat_lt
    rw [hexChars_cons, Hex2Bytes, decodeNibble_digitChar (by omega),
      decodeNibble_digitChar (Nat.mod_lt _ (by norm_num))]
    dsimp only
    rw [ih, Nat.div_add_mod', UInt8.ofNat_toNat]

/-- `FromHex` reads back the text `ToHex` writes for bytes that are there. -/
theorem FromHex_ToHex {b : Bytes} (hb : b ≠ []) : FromHex (ToHex b) = b := by
  have hlen : (hexChars b).length % 2 = 0 := by rw [length_hexChars]; omega
  simp only [FromHex, toList_ToHex hb, List.length_cons, List.take_succ_cons, List.take_zero,
    List.drop_succ_cons, List.drop_zero]
  simp only [gt_iff_lt, Nat.one_lt_succ_succ, if_true, true_or]
  rw [if_neg (by omega), Hex2Bytes_hexChars]

lemma checkNumber_digits {ds : List ℕ} (hne : ds ≠ []) (hlead : ds.head? ≠ some 0)
    (hlt : ∀ d ∈ ds, d < 16) :
    checkNumber ('0' :: 'x' :: ds.map Nat.digitChar) = .ok (ds.map Nat.digitChar) := by
  -- a digit below sixteen is written `0` only for zero
  have hhead : (ds.map Nat.digitChar).head? ≠ some '0' := by
    cases ds with
    | nil => exact absurd rfl hne
    | cons d ds =>
      have hd : d ≠ 0 := fun h => hlead (by rw [h]; rfl)
      have hd16 := hlt d List.mem_cons_self
      simp only [List.map_cons, List.head?_cons, ne_eq, Option.some.injEq]
      intro h
      have := decodeNibble_digitChar hd16
      rw [h] at this
      exact hd (Option.some.inj this).symm
  have hlen : (ds.map Nat.digitChar).length ≠ 0 := by simpa using hne
  simp only [checkNumber, Has0xPrefix, List.length_cons, List.drop_succ_cons, List.drop_zero,
    hlen, hhead, if_false, and_false]
  rfl

lemma mapM_decodeNibble_digits {ds : List ℕ} (hlt : ∀ d ∈ ds, d < 16) :
    (ds.map Nat.digitChar).mapM decodeNibble = some ds := by
  induction ds with
  | nil => rfl
  | cons d ds ih =>
    rw [List.map_cons, List.mapM_cons, decodeNibble_digitChar (hlt d List.mem_cons_self),
      ih fun e he => hlt e (List.mem_cons_of_mem d he)]
    rfl

/-- Reading the digits from the most significant one down gives the number back. -/
lemma foldl_digits_reverse (b n : ℕ) :
    ((Nat.digits b n).reverse.foldl (fun acc d => acc * b + d) 0) = n := by
  conv_rhs => rw [← Nat.ofDigits_digits b n]
  rw [List.foldl_reverse, Nat.ofDigits_eq_foldr]
  induction Nat.digits b n with
  | nil => rfl
  | cons d ds ih => simp only [List.foldr_cons, ih, Nat.cast_id]; ring

/-- `DecodeBig` reads back the text `EncodeBig` writes for a number of at most 256 bits. -/
theorem DecodeBig_EncodeBig {n : ℕ} (hn : n < 2 ^ 256) : DecodeBig (EncodeBig n) = .ok n := by
  by_cases h0 : n = 0
  · subst h0
    rfl
  have hlt : ∀ d ∈ (Nat.digits 16 n).reverse, d < 16 :=
    fun d hd => Nat.digits_lt_base (by norm_num) (List.mem_reverse.mp hd)
  have hdigits : Nat.digits 16 n ≠ [] := Nat.digits_ne_nil_iff_ne_zero.mpr h0
  have hne : (Nat.digits 16 n).reverse ≠ [] := List.reverse_ne_nil_iff.mpr hdigits
  -- the most significant digit is the last one `Nat.digits` gives, and it is not zero
  have hlead : (Nat.digits 16 n).reverse.head? ≠ some 0 := by
    rw [List.head?_reverse, List.getLast?_eq_some_getLast hdigits]
    exact fun h => Nat.getLast_digit_ne_zero 16 h0 (Option.some.inj h)
  have hlen : ((Nat.digits 16 n).reverse.map Nat.digitChar).length ≤ 64 := by
    rw [List.length_map, List.length_reverse, Nat.digits_length_le_iff (by norm_num)]
    calc n < 2 ^ 256 := hn
      _ = 16 ^ 64 := by norm_num
  have htext :
      (EncodeBig n).toList = '0' :: 'x' :: (Nat.digits 16 n).reverse.map Nat.digitChar := by
    simp [EncodeBig, h0]
  simp only [DecodeBig, htext, checkNumber_digits hne hlead hlt]
  simp only [bind, Except.bind, gt_iff_lt, not_lt.mpr hlen, if_false, mapM_decodeNibble_digits hlt]
  rw [foldl_digits_reverse]
  rfl

/-! ### Separators -/

/-- Text made of hex digits and the `x` of a `0x`. -/
def HexText (s : String) : Prop := ∀ c ∈ s.toList, c = 'x' ∨ (decodeNibble c).isSome

lemma HexText.not_mem {s : String} (hs : HexText s) {c : Char} (hx : c ≠ 'x')
    (hc : decodeNibble c = none) : c ∉ s.toList := by
  intro hmem
  rcases hs c hmem with h | h
  · exact hx h
  · rw [hc] at h
    cases h

lemma isSome_decodeNibble_digitChar {n : ℕ} (h : n < 16) :
    (decodeNibble (Nat.digitChar n)).isSome := by
  rw [decodeNibble_digitChar h]
  rfl

lemma HexText_ToHex (b : Bytes) : HexText (ToHex b) := by
  -- the digits of each byte, behind `0x`, or the `0x0` of no bytes
  have hdigits : ∀ c ∈ hexChars b, (decodeNibble c).isSome := by
    induction b with
    | nil => simp
    | cons x b ih =>
      have hx := x.toNat_lt
      simp only [hexChars_cons, List.mem_cons]
      rintro c (rfl | rfl | hc)
      · exact isSome_decodeNibble_digitChar (by omega)
      · exact isSome_decodeNibble_digitChar (Nat.mod_lt _ (by norm_num))
      · exact ih c hc
  by_cases hb : b = []
  · subst hb
    intro c hc
    simp [ToHex] at hc
    rcases hc with rfl | rfl | rfl <;> simp [decodeNibble]
  · intro c hc
    rw [toList_ToHex hb] at hc
    rcases List.mem_cons.mp hc with rfl | hc
    · exact .inr rfl
    rcases List.mem_cons.mp hc with rfl | hc
    · exact .inl rfl
    · exact .inr (hdigits c hc)

lemma HexText_EncodeBig (n : ℕ) : HexText (EncodeBig n) := by
  by_cases h0 : n = 0
  · subst h0
    intro c hc
    simp [EncodeBig] at hc
    rcases hc with rfl | rfl | rfl <;> simp [decodeNibble]
  · intro c hc
    simp only [EncodeBig, h0, if_false, String.toList_append, List.mem_append,
      String.toList_ofList, List.mem_map, List.mem_reverse] at hc
    rcases hc with hc | ⟨d, hd, rfl⟩
    · simp at hc
      rcases hc with rfl | rfl <;> simp [decodeNibble]
    · exact .inr (isSome_decodeNibble_digitChar (Nat.digits_lt_base (by norm_num) hd))

lemma not_mem_intercalate {c : Char} {sep : String} {l : List String} (hsep : c ∉ sep.toList)
    (hl : ∀ s ∈ l, c ∉ s.toList) : c ∉ (String.intercalate sep l).toList := by
  rw [String.toList_intercalate]
  induction l with
  | nil => simp
  | cons s l ih =>
    cases l with
    | nil => simpa using hl s List.mem_cons_self
    | cons t l =>
      rw [List.map_cons, List.map_cons, List.intercalate_cons_cons, ← List.map_cons]
      simp only [List.mem_append, not_or]
      exact ⟨⟨hl s List.mem_cons_self, hsep⟩,
        ih fun u hu => hl u (List.mem_cons_of_mem s hu)⟩

/-- Splitting text joined at a separator that none of the pieces holds gives the pieces. -/
theorem Split_intercalate {l : List String} {c : Char} (hl : ∀ s ∈ l, c ∉ s.toList)
    (hne : l ≠ []) : Split (String.intercalate (String.singleton c) l) c = l := by
  rw [Split, String.toList_split_intercalate hl, if_neg hne]

end Wanchain.Privacy
