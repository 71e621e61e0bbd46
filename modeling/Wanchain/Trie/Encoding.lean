import Wanchain.Basic.Bytes

/-!
# Key encodings of the Merkle Patricia trie

Trie keys come in three encodings (`trie/encoding.go`): the key bytes; the hex encoding, one
nibble a byte with an optional terminator `16`; and the compact encoding of the hex form, whose
first byte carries a terminator flag (bit 5), an odd-length flag (bit 4) and, for an odd number
of nibbles, the first nibble, the other nibbles packed two to a byte.

The encodings invert each other (`trieEncoding_inverse`): `compactToHex` undoes `hexToCompact` on
every nibble sequence with or without the terminator, `hexToKeybytes` undoes `keybytesToHex`,
and `prefixLen` is the length of the longest common prefix.

Go writes the nibbles of `keybytesToHex` and the bytes of `decodeNibbles` into buffers by index;
the model gives the lists those loops fill. An odd number of nibbles never reaches
`decodeNibbles` (Go would index past the input): `hexToCompact` moves the odd nibble into the
flag byte first and `hexToKeybytes` refuses it.
-/

namespace Wanchain.Trie

/-- `hasTerm`: a hex key ending with the terminator. -/
def hasTerm (s : Bytes) : Bool := s.getLast? = some 16

/-- `decodeNibbles`: every two nibbles make a byte, the first one high. -/
def decodeNibbles : Bytes → Bytes
  | ni :: ni' :: rest => (ni <<< 4 ||| ni') :: decodeNibbles rest
  | _ => []

/-- The two nibbles of a byte, as `keybytesToHex` writes them. -/
def nibbles (b : UInt8) : Bytes := [b / 16, b % 16]

/-- `keybytesToHex`: the two nibbles of every byte, then the terminator. -/
def keybytesToHex (str : Bytes) : Bytes := str.flatMap nibbles ++ [16]

/-- `hexToCompact`: the flag byte, with the first nibble of an odd-length key, then the other
nibbles packed. -/
def hexToCompact (hex : Bytes) : Bytes :=
  let terminator : UInt8 := if hasTerm hex then 1 else 0
  let hex := if hasTerm hex then hex.dropLast else hex
  if hex.length % 2 = 1 then
    (terminator <<< 5 ||| (1 : UInt8) <<< 4 ||| hex.headD 0) :: decodeNibbles hex.tail
  else (terminator <<< 5) :: decodeNibbles hex

/-- `compactToHex`: the nibbles of the compact bytes without their terminator; the terminator
back when the flag says so, and the flag nibbles dropped, with the padding nibble of an even
key. An empty input panics (`base[0]`). -/
def compactToHex (compact : Bytes) : Option Bytes :=
  match (keybytesToHex compact).dropLast with
  | [] => none
  | b0 :: rest =>
    let base := if b0 ≥ 2 then b0 :: rest ++ [16] else b0 :: rest
    some (base.drop (2 - (b0 &&& 1)).toNat)

/-- `hexToKeybytes`, which panics on a key of odd length. -/
def hexToKeybytes (hex : Bytes) : Except String Bytes :=
  let hex := if hasTerm hex then hex.dropLast else hex
  if hex.length % 2 ≠ 0 then .error "can't convert hex key of odd length"
  else .ok (decodeNibbles hex)

/-- `prefixLen`: the loop advances while the two keys agree, up to the shorter one's end. -/
def prefixLen : Bytes → Bytes → ℕ
  | x :: a, y :: b => if x ≠ y then 0 else prefixLen a b + 1
  | _, _ => 0

/-! ### Nibbles -/

lemma nibbles_pack_fin : ∀ n : Fin 256,
    (UInt8.ofNat n / 16) <<< 4 ||| UInt8.ofNat n % 16 = UInt8.ofNat n := by decide +kernel

/-- The two nibbles of a byte pack back into it. -/
lemma nibbles_pack (b : UInt8) : (b / 16) <<< 4 ||| b % 16 = b := by
  have h := nibbles_pack_fin ⟨b.toNat, b.toNat_lt⟩
  simp only [UInt8.ofNat_toNat] at h
  exact h

lemma pack_nibbles_fin : ∀ a b : Fin 16,
    (UInt8.ofNat a <<< 4 ||| UInt8.ofNat b) / 16 = UInt8.ofNat a ∧
      (UInt8.ofNat a <<< 4 ||| UInt8.ofNat b) % 16 = UInt8.ofNat b := by decide

/-- Two nibbles packed into a byte split back into them. -/
lemma nibbles_of_pack {a b : UInt8} (ha : a < 16) (hb : b < 16) :
    nibbles (a <<< 4 ||| b) = [a, b] := by
  have ha' : a.toNat < 16 := ha
  have hb' : b.toNat < 16 := hb
  obtain ⟨h1, h2⟩ := pack_nibbles_fin ⟨a.toNat, ha'⟩ ⟨b.toNat, hb'⟩
  simp only [UInt8.ofNat_toNat] at h1 h2
  rw [nibbles, h1, h2]

/-- Unpacking the packed nibbles gives them back. -/
theorem flatMap_nibbles_decodeNibbles (h : Bytes) (hh : ∀ x ∈ h, x < 16)
    (heven : h.length % 2 = 0) : (decodeNibbles h).flatMap nibbles = h := by
  induction h using decodeNibbles.induct with
  | case1 ni ni' rest ih =>
    have hni : ni < 16 := hh ni (by simp)
    have hni' : ni' < 16 := hh ni' (by simp)
    rw [decodeNibbles, List.flatMap_cons, nibbles_of_pack hni hni',
      ih (fun x hx => hh x (by simp [hx])) (by simp at heven; omega)]
    rfl
  | case2 l hl =>
    -- an empty list, or a single nibble, which the even length excludes
    rcases l with _ | ⟨x, _ | ⟨y, r⟩⟩
    · rfl
    · simp at heven
    · exact absurd rfl (hl x y r)

/-- Packing the nibbles of key bytes gives the bytes back. -/
theorem decodeNibbles_flatMap_nibbles (k : Bytes) : decodeNibbles (k.flatMap nibbles) = k := by
  induction k with
  | nil => rfl
  | cons b k ih =>
    rw [List.flatMap_cons, nibbles, List.cons_append, List.cons_append, List.nil_append,
      decodeNibbles, nibbles_pack, ih]

lemma length_flatMap_nibbles (k : Bytes) : (k.flatMap nibbles).length = 2 * k.length := by
  induction k with
  | nil => rfl
  | cons b k ih =>
    rw [List.flatMap_cons, List.length_append, ih, List.length_cons]
    simp only [nibbles, List.length_cons, List.length_nil]
    omega

/-! ### The terminator -/

/-- A hex key with or without the terminator. -/
def withTerm (ns : Bytes) (term : Bool) : Bytes := ns ++ if term then [16] else []

lemma hasTerm_withTerm {ns : Bytes} (hns : ∀ x ∈ ns, x < 16) (term : Bool) :
    hasTerm (withTerm ns term) = term := by
  cases term with
  | true => simp [hasTerm, withTerm]
  | false =>
    -- the last nibble, if any, is below the terminator
    rw [hasTerm, withTerm, if_neg Bool.false_ne_true, List.append_nil]
    cases hl : ns.getLast? with
    | none => rfl
    | some x =>
      have hx : x < 16 := hns x (List.mem_of_getLast? hl)
      have hne : x ≠ 16 := fun h => by rw [h] at hx; exact absurd hx (by decide)
      simp [hne]

/-- The flag byte of an even-length key. -/
lemma flag_even (t : Bool) :
    nibbles ((if t then 1 else 0 : UInt8) <<< 5) = [if t then 2 else 0, 0] := by
  cases t <;> decide

/-- The flag byte of an odd-length key, with its first nibble. -/
lemma flag_odd_fin : ∀ (t : Bool) (n : Fin 16),
    nibbles ((if t then 1 else 0 : UInt8) <<< 5 ||| (1 : UInt8) <<< 4 ||| UInt8.ofNat n) =
      [if t then 3 else 1, UInt8.ofNat n] := by decide

lemma flag_odd (t : Bool) {n : UInt8} (hn : n < 16) :
    nibbles ((if t then 1 else 0 : UInt8) <<< 5 ||| (1 : UInt8) <<< 4 ||| n) =
      [if t then 3 else 1, n] := by
  have h := flag_odd_fin t ⟨n.toNat, hn⟩
  simp only [UInt8.ofNat_toNat] at h
  exact h

/-- `compactToHex` of a flag byte followed by packed nibbles. -/
lemma compactToHex_cons (f : UInt8) (body : Bytes) :
    compactToHex (f :: body) =
      let base := if f / 16 ≥ 2 then f / 16 :: f % 16 :: body.flatMap nibbles ++ [16]
        else f / 16 :: f % 16 :: body.flatMap nibbles
      some (base.drop (2 - (f / 16 &&& 1)).toNat) := by
  simp only [compactToHex, keybytesToHex, List.flatMap_cons, List.cons_append,
    List.dropLast_concat]
  rfl

/-- The flag nibbles of a flag byte, from `nibbles`. -/
lemma flag_nibbles {f a b : UInt8} (h : nibbles f = [a, b]) : f / 16 = a ∧ f % 16 = b := by
  rw [nibbles, List.cons.injEq, List.cons.injEq] at h
  exact ⟨h.1, h.2.1⟩

/-! ### Round trips -/

/-- `hexToCompact` of nibbles with or without the terminator: the terminator becomes the flag. -/
lemma hexToCompact_withTerm {ns : Bytes} (hns : ∀ x ∈ ns, x < 16) (term : Bool) :
    hexToCompact (withTerm ns term) =
      if ns.length % 2 = 1 then
        ((if term then 1 else 0 : UInt8) <<< 5 ||| (1 : UInt8) <<< 4 ||| ns.headD 0) ::
          decodeNibbles ns.tail
      else ((if term then 1 else 0 : UInt8) <<< 5) :: decodeNibbles ns := by
  simp only [hexToCompact, hasTerm_withTerm hns term]
  cases term with
  | true => simp only [if_true, withTerm, List.dropLast_concat]
  | false => simp only [withTerm, List.append_nil, Bool.false_eq_true, if_false]

/-- `compactToHex` undoes `hexToCompact` on nibbles, with or without the terminator. -/
theorem compactToHex_hexToCompact {ns : Bytes} (hns : ∀ x ∈ ns, x < 16) (term : Bool) :
    compactToHex (hexToCompact (withTerm ns term)) = some (withTerm ns term) := by
  rw [hexToCompact_withTerm hns]
  by_cases hodd : ns.length % 2 = 1
  · -- an odd key: its first nibble goes into the flag byte
    rw [if_pos hodd]
    obtain ⟨n0, ns', rfl⟩ : ∃ n0 ns', ns = n0 :: ns' := by
      cases ns with
      | nil => simp at hodd
      | cons n0 ns' => exact ⟨n0, ns', rfl⟩
    have hn0 : n0 < 16 := hns n0 List.mem_cons_self
    obtain ⟨h1, h2⟩ := flag_nibbles (flag_odd term hn0)
    have hbody := flatMap_nibbles_decodeNibbles ns' (fun x hx => hns x (List.mem_cons_of_mem _ hx))
      (by simp only [List.length_cons] at hodd; omega)
    rw [List.headD_cons, List.tail_cons, compactToHex_cons, h1, h2, hbody]
    cases term <;> simp +decide [withTerm]
  · -- an even key: the flag byte carries a padding nibble
    rw [if_neg hodd]
    obtain ⟨h1, h2⟩ := flag_nibbles (flag_even term)
    have hbody := flatMap_nibbles_decodeNibbles ns hns (by omega)
    rw [compactToHex_cons, h1, h2, hbody]
    cases term <;> simp +decide [withTerm]

example : hexToCompact [1, 2, 3, 16] = [49, 35] := by decide

/-- `hexToKeybytes` undoes `keybytesToHex`. -/
theorem hexToKeybytes_keybytesToHex (k : Bytes) : hexToKeybytes (keybytesToHex k) = .ok k := by
  have hterm : hasTerm (keybytesToHex k) = true := by simp [hasTerm, keybytesToHex]
  have hdrop : (keybytesToHex k).dropLast = k.flatMap nibbles := by
    rw [keybytesToHex, List.dropLast_concat]
  have heven : (k.flatMap nibbles).length % 2 = 0 := by rw [length_flatMap_nibbles]; omega
  simp only [hexToKeybytes, hterm, if_true, hdrop, heven, ne_eq, not_true_eq_false, if_false,
    decodeNibbles_flatMap_nibbles]

/-- `prefixLen` is a common prefix of both keys, and no longer common prefix exists. -/
theorem prefixLen_spec (a b : Bytes) :
    prefixLen a b ≤ a.length ∧ prefixLen a b ≤ b.length ∧
      a.take (prefixLen a b) = b.take (prefixLen a b) ∧
      ∀ m ≤ a.length, m ≤ b.length → a.take m = b.take m → m ≤ prefixLen a b := by
  induction a, b using prefixLen.induct with
  | case1 x a y b hne =>
    -- the first bytes differ: the only common prefix is empty
    rw [prefixLen, if_pos hne]
    refine ⟨Nat.zero_le _, Nat.zero_le _, rfl, fun m _ _ hm => ?_⟩
    rcases m with _ | m
    · exact le_rfl
    · simp only [List.take_succ_cons, List.cons.injEq] at hm
      exact absurd hm.1 hne
  | case2 x a y b heq ih =>
    rw [prefixLen, if_neg heq]
    have hxy : x = y := not_not.mp heq
    subst hxy
    obtain ⟨h1, h2, h3, h4⟩ := ih
    refine ⟨by simpa using h1, by simpa using h2, by simp [h3], fun m hma hmb hm => ?_⟩
    rcases m with _ | m
    · exact Nat.zero_le _
    · simp only [List.take_succ_cons, List.cons.injEq, true_and] at hm
      have := h4 m (by simpa using hma) (by simpa using hmb) hm
      omega
  | case3 a b hab =>
    -- one key is empty
    rw [prefixLen]
    · refine ⟨Nat.zero_le _, Nat.zero_le _, rfl, fun m hma hmb _ => ?_⟩
      rcases a with _ | ⟨x, a⟩
      · simpa using hma
      · rcases b with _ | ⟨y, b⟩
        · simpa using hmb
        · exact absurd rfl (hab x a y b rfl)
    · exact hab

/-- The three key encodings invert each other, and `prefixLen` is the length of the longest
common prefix. -/
theorem trieEncoding_inverse (ns : Bytes) (hns : ∀ x ∈ ns, x < 16) (term : Bool) (k a b : Bytes) :
    compactToHex (hexToCompact (withTerm ns term)) = some (withTerm ns term) ∧
    hexToKeybytes (keybytesToHex k) = .ok k ∧
    (prefixLen a b ≤ a.length ∧ prefixLen a b ≤ b.length ∧
      a.take (prefixLen a b) = b.take (prefixLen a b) ∧
      ∀ m ≤ a.length, m ≤ b.length → a.take m = b.take m → m ≤ prefixLen a b) :=
  ⟨compactToHex_hexToCompact hns term, hexToKeybytes_keybytesToHex k, prefixLen_spec a b⟩

theorem trieEncoding_inverse_odd :
    (∀ x ∈ ([1, 2, 3] : Bytes), x < 16) ∧
    (compactToHex (hexToCompact (withTerm [1, 2, 3] true)) = some (withTerm [1, 2, 3] true) ∧
    hexToKeybytes (keybytesToHex [171]) = .ok [171] ∧
    (prefixLen [1, 2] [1, 3] ≤ ([1, 2] : Bytes).length ∧
      prefixLen [1, 2] [1, 3] ≤ ([1, 3] : Bytes).length ∧
      ([1, 2] : Bytes).take (prefixLen [1, 2] [1, 3]) =
        ([1, 3] : Bytes).take (prefixLen [1, 2] [1, 3]) ∧
      ∀ m ≤ ([1, 2] : Bytes).length, m ≤ ([1, 3] : Bytes).length →
        ([1, 2] : Bytes).take m = ([1, 3] : Bytes).take m → m ≤ prefixLen [1, 2] [1, 3])) := by
  have hns : ∀ x ∈ ([1, 2, 3] : Bytes), x < 16 := by simp
  exact ⟨hns, trieEncoding_inverse [1, 2, 3] hns true [171] [1, 2] [1, 3]⟩

end Wanchain.Trie
