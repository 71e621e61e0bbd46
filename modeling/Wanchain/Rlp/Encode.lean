import Wanchain.Basic.Bytes

/-!
# The RLP encoder

The package rlp writes a value into an `encbuf`: string data goes to `str` as it comes, and a
list only records a header (`list`) whose size is filled in when the list ends (`listEnd`), with
the total size of all headers kept in `lhsize`. `toBytes` then copies the string data and puts
each header in front of its list. The values the node encodes here are unsigned integers, byte
strings, non-negative big integers, and slices and structs of them, which are all RLP lists.

The deferred headers give the recursive RLP encoding (`EncodeToBytes_eq`): a byte below `0x80`
stands for itself, a string and a list carry their length in a header, and a list's payload is
the encodings of its items one after another. The proof follows what writing a value does to
any buffer (`writeValue_eq`): it appends the value's string data, appends the headers of its
lists at their offsets, and adds their sizes to `lhsize`; `toBytes` of such a buffer splits
along the string data (`render_append`).
-/

namespace Wanchain.Rlp

/-- The values the node encodes, with the shape the encoder gives them. -/
inductive Value where
  | uint (n : UInt64)
  | bytes (b : Bytes)
  | bigInt (n : ℕ)
  | list (vs : List Value)
  deriving Repr, Inhabited

/-- `putint`: the minimal big-endian bytes of `i`, one zero byte for zero. -/
def putint (i : ℕ) : Bytes :=
  if i = 0 then [0] else bigBytes i

/-- `intsize`: the number of bytes of `putint`. -/
def intsize (i : ℕ) : ℕ := (putint i).length

/-- `headsize`: the size of the header of a string or list of `size` bytes. -/
def headsize (size : ℕ) : ℕ :=
  if size < 56 then 1 else 1 + intsize size

/-- `puthead`: the header of a string (`0x80`, `0xB7`) or list (`0xC0`, `0xF7`) of `size`
bytes. -/
def puthead (smalltag largetag : UInt8) (size : ℕ) : Bytes :=
  if size < 56 then [smalltag + UInt8.ofNat size]
  else (largetag + UInt8.ofNat (intsize size)) :: putint size

/-- `encodeStringHeader`: the string header, written by the same rule as `puthead`. -/
def encodeStringHeader (size : ℕ) : Bytes := puthead 0x80 0xB7 size

/-- The position and size of a list in the buffer. -/
structure ListHead where
  offset : ℕ
  size : ℕ

/-- `encbuf`: string data, list headers in the order the lists began, and their total size. -/
structure Encbuf where
  str : Bytes
  lheads : List ListHead
  lhsize : ℕ

namespace Encbuf

def empty : Encbuf := ⟨[], [], 0⟩

/-- `encbuf.size`: the size of the output. -/
def size (w : Encbuf) : ℕ := w.str.length + w.lhsize

def write (w : Encbuf) (b : Bytes) : Encbuf := { w with str := w.str ++ b }

/-- `encbuf.encodeString`: a single byte below `0x80` is written bare. -/
def encodeString (w : Encbuf) (b : Bytes) : Encbuf :=
  if b.length = 1 ∧ b.headD 0 ≤ 0x7F then w.write b
  else (w.write (encodeStringHeader b.length)).write b

/-- `encbuf.list`: a new header at the end of the string data; its size field holds `lhsize`
until the list ends. Returns the new header's index. -/
def list (w : Encbuf) : Encbuf × ℕ :=
  ({ w with lheads := w.lheads ++ [⟨w.str.length, w.lhsize⟩] }, w.lheads.length)

/-- `encbuf.listEnd`: the list's size is everything written since it began. -/
def listEnd (w : Encbuf) (lh : ℕ) : Encbuf :=
  let head := w.lheads.getD lh ⟨0, 0⟩
  let size := w.size - head.offset - head.size
  { w with lheads := w.lheads.set lh ⟨head.offset, size⟩, lhsize := w.lhsize + headsize size }

/-- One header of `toBytes`: the string data up to the header's offset, then the header. -/
def toBytesStep (w : Encbuf) (acc : Bytes × ℕ) (head : ListHead) : Bytes × ℕ :=
  (acc.1 ++ (w.str.drop acc.2).take (head.offset - acc.2) ++ puthead 0xC0 0xF7 head.size,
    head.offset)

/-- `encbuf.toBytes`. -/
def toBytes (w : Encbuf) : Bytes :=
  let r := w.lheads.foldl (toBytesStep w) ([], 0)
  r.1 ++ w.str.drop r.2

/-- One header of `toWriter`: the string data up to the header's offset, if there is any, then
the header, written to the output. -/
def toWriterStep (w : Encbuf) (acc : Bytes × ℕ) (head : ListHead) : Bytes × ℕ :=
  let acc := if head.offset - acc.2 > 0 then
      (acc.1 ++ (w.str.drop acc.2).take (head.offset - acc.2), head.offset)
    else acc
  (acc.1 ++ puthead 0xC0 0xF7 head.size, acc.2)

/-- `encbuf.toWriter` to a writer that takes every write, such as a `bytes.Buffer` holding
`out`. -/
def toWriter (w : Encbuf) (out : Bytes) : Bytes :=
  let r := w.lheads.foldl (toWriterStep w) (out, 0)
  if r.2 < w.str.length then r.1 ++ w.str.drop r.2 else r.1

end Encbuf

/-- `writeUint`. -/
def writeUint (i : UInt64) (w : Encbuf) : Encbuf :=
  if i = 0 then w.write [0x80]
  else if i.toNat < 128 then w.write [UInt8.ofNat i.toNat]
  else w.write ((0x80 + UInt8.ofNat (intsize i.toNat)) :: putint i.toNat)

/-- `writeBigInt` of a non-negative value. -/
def writeBigInt (i : ℕ) (w : Encbuf) : Encbuf :=
  if i = 0 then w.write [0x80] else w.encodeString (bigBytes i)

mutual

/-- The writer of a value: `writeUint`, `writeBytes`, `writeBigIntPtr`, or the writer of a
slice or struct, which opens a list, writes the elements and ends the list. -/
def writeValue : Value → Encbuf → Encbuf
  | .uint i, w => writeUint i w
  | .bytes b, w => w.encodeString b
  | .bigInt i, w => writeBigInt i w
  | .list vs, w =>
    let (w, lh) := w.list
    (writeValues vs w).listEnd lh

def writeValues : List Value → Encbuf → Encbuf
  | [], w => w
  | v :: vs, w => writeValues vs (writeValue v w)

end

/-- `EncodeToBytes`. -/
def EncodeToBytes (v : Value) : Bytes :=
  (writeValue v Encbuf.empty).toBytes

/-- `Encode` to a writer holding `out`. -/
def Encode (out : Bytes) (v : Value) : Bytes :=
  (writeValue v Encbuf.empty).toWriter out

/-! ### The recursive encoding -/

/-- An RLP string. -/
def encodeStr (b : Bytes) : Bytes :=
  if b.length = 1 ∧ b.headD 0 ≤ 0x7F then b else encodeStringHeader b.length ++ b

mutual

/-- The RLP encoding of a value. -/
def encodeItem : Value → Bytes
  | .uint i => encodeStr (bigBytes i.toNat)
  | .bytes b => encodeStr b
  | .bigInt i => encodeStr (bigBytes i)
  | .list vs => puthead 0xC0 0xF7 (encodeItems vs).length ++ encodeItems vs

/-- The payload of a list: its items' encodings one after another. -/
def encodeItems : List Value → Bytes
  | [] => []
  | v :: vs => encodeItem v ++ encodeItems vs

end

mutual

/-- The string data of a value: its encoding without list headers. -/
def strData : Value → Bytes
  | .list vs => strDatas vs
  | v => encodeItem v

def strDatas : List Value → Bytes
  | [] => []
  | v :: vs => strData v ++ strDatas vs

end

/-- A header moved `n` bytes further into the string data. -/
def ListHead.shift (n : ℕ) (h : ListHead) : ListHead := ⟨n + h.offset, h.size⟩

mutual

/-- The headers of a value's lists, in the order they begin, with offsets into its string
data. -/
def headsOf : Value → List ListHead
  | .list vs => ⟨0, (encodeItems vs).length⟩ :: headsOfs vs
  | _ => []

def headsOfs : List Value → List ListHead
  | [] => []
  | v :: vs => headsOf v ++ (headsOfs vs).map (ListHead.shift (strData v).length)

end

mutual

/-- The total size of the headers of a value's lists. -/
def hdrLen : Value → ℕ
  | .list vs => headsize (encodeItems vs).length + hdrLens vs
  | _ => 0

def hdrLens : List Value → ℕ
  | [] => 0
  | v :: vs => hdrLen v + hdrLens vs

end

/-- The string data with the headers put in at their offsets, from position `p` on. -/
def render (str : Bytes) : List ListHead → ℕ → Bytes
  | [], p => str.drop p
  | h :: hs, p => (str.drop p).take (h.offset - p) ++ puthead 0xC0 0xF7 h.size ++ render str hs h.offset

section Lemmas

lemma bigBytes_ne_nil {n : ℕ} (h : n ≠ 0) : bigBytes n ≠ [] :=
  fun h' => h (bigBytes_eq_nil_iff.mp h')

lemma putint_of_ne {n : ℕ} (h : n ≠ 0) : putint n = bigBytes n := if_neg h

lemma length_puthead (smalltag largetag : UInt8) (size : ℕ) :
    (puthead smalltag largetag size).length = headsize size := by
  unfold puthead headsize intsize
  split_ifs
  · rfl
  · simp [Nat.add_comm]

/-- The bytes of a value below `256` are the value itself. -/
lemma bigBytes_of_lt {n : ℕ} (h0 : n ≠ 0) (h : n < 256) : bigBytes n = [UInt8.ofNat n] := by
  have hd : Nat.digits 256 n = [n] := Nat.digits_of_lt 256 n h0 h
  simp [bigBytes, hd]

/-- `writeUint` writes the RLP string of the integer's bytes. -/
lemma writeUint_eq (i : UInt64) (w : Encbuf) : writeUint i w = w.write (encodeItem (.uint i)) := by
  have hlt := i.toNat_lt
  unfold writeUint encodeItem encodeStr
  by_cases h0 : i = 0
  · subst h0
    simp [encodeStringHeader, puthead]
  have h0' : i.toNat ≠ 0 := fun h => h0 (UInt64.toNat_inj.mp (by simpa using h))
  rw [if_neg h0]
  by_cases hsmall : i.toNat < 128
  · -- a single byte below `0x80` is its own encoding
    rw [if_pos hsmall, bigBytes_of_lt h0' (by omega), if_pos]
    refine ⟨rfl, ?_⟩
    simp only [List.headD_cons]
    rw [UInt8.le_iff_toNat_le]
    simp [Nat.mod_eq_of_lt (show i.toNat < 256 by omega)]
    omega
  · rw [if_neg hsmall]
    -- the bytes of an integer of at least `128` fit in eight bytes and need a header
    have hlen : (bigBytes i.toNat).length ≤ 8 := by
      rw [length_bigBytes_le_iff]
      exact lt_of_lt_of_le hlt (by norm_num)
    have hhead : ¬ ((bigBytes i.toNat).length = 1 ∧ (bigBytes i.toNat).headD 0 ≤ 0x7F) := by
      rintro ⟨h1, hle⟩
      have hlt256 : i.toNat < 256 := by
        have := (length_bigBytes_le_iff (n := i.toNat) (k := 1)).mp (by omega)
        simpa using this
      rw [bigBytes_of_lt h0' hlt256] at hle
      simp only [List.headD_cons, UInt8.le_iff_toNat_le] at hle
      simp [Nat.mod_eq_of_lt hlt256] at hle
      omega
    rw [if_neg hhead]
    simp [encodeStringHeader, puthead, intsize, putint_of_ne h0', show (bigBytes i.toNat).length < 56 by omega]

lemma encodeString_eq (w : Encbuf) (b : Bytes) : w.encodeString b = w.write (encodeStr b) := by
  unfold Encbuf.encodeString encodeStr Encbuf.write
  split_ifs <;> simp

lemma writeBigInt_eq (i : ℕ) (w : Encbuf) : writeBigInt i w = w.write (encodeItem (.bigInt i)) := by
  unfold writeBigInt encodeItem
  split_ifs with h0
  · subst h0
    simp [encodeStr, encodeStringHeader, puthead]
  · rw [encodeString_eq]

mutual

/-- An encoding is the string data and the list headers. -/
theorem length_encodeItem : ∀ v : Value, (encodeItem v).length = (strData v).length + hdrLen v
  | .uint _ => by simp [strData, hdrLen]
  | .bytes _ => by simp [strData, hdrLen]
  | .bigInt _ => by simp [strData, hdrLen]
  | .list vs => by
    rw [encodeItem, List.length_append, length_puthead, strData, hdrLen, length_encodeItems vs]
    omega

theorem length_encodeItems : ∀ vs : List Value,
    (encodeItems vs).length = (strDatas vs).length + hdrLens vs
  | [] => rfl
  | v :: vs => by
    rw [encodeItems, List.length_append, length_encodeItem v, length_encodeItems vs, strDatas,
      List.length_append, hdrLens]
    omega

end

lemma getD_append_length {α : Type*} (l₁ l₂ : List α) (a d : α) :
    (l₁ ++ a :: l₂).getD l₁.length d = a := by
  simp

lemma set_append_length {α : Type*} (l₁ l₂ : List α) (a b : α) :
    (l₁ ++ a :: l₂).set l₁.length b = l₁ ++ b :: l₂ := by
  simp

mutual

/-- Writing a value appends its string data, appends the headers of its lists at their offsets
and adds their sizes, whatever the buffer holds: the headers of lists still open are left as
they are. -/
theorem writeValue_eq : ∀ (v : Value) (w : Encbuf), writeValue v w =
    ⟨w.str ++ strData v, w.lheads ++ (headsOf v).map (ListHead.shift w.str.length),
      w.lhsize + hdrLen v⟩
  | .uint i, w => by
    rw [writeValue, writeUint_eq]
    simp [Encbuf.write, strData, headsOf, hdrLen]
  | .bytes b, w => by
    rw [writeValue, encodeString_eq]
    simp [Encbuf.write, strData, headsOf, hdrLen, encodeItem]
  | .bigInt i, w => by
    rw [writeValue, writeBigInt_eq]
    simp [Encbuf.write, strData, headsOf, hdrLen]
  | .list vs, w => by
    rw [writeValue]
    simp only [Encbuf.list]
    rw [writeValues_eq vs]
    -- the list's own header is the one `list` added, at index `w.lheads.length`
    simp only [Encbuf.listEnd, Encbuf.size, List.append_assoc, List.singleton_append,
      getD_append_length, set_append_length]
    have hsize : w.str.length + (strDatas vs).length + (w.lhsize + hdrLens vs) - w.str.length -
        w.lhsize = (encodeItems vs).length := by
      rw [length_encodeItems]
      omega
    simp only [List.length_append, hsize, strData, headsOf, hdrLen, List.map_cons,
      ListHead.shift, add_zero]
    congr 1
    omega

theorem writeValues_eq : ∀ (vs : List Value) (w : Encbuf), writeValues vs w =
    ⟨w.str ++ strDatas vs, w.lheads ++ (headsOfs vs).map (ListHead.shift w.str.length),
      w.lhsize + hdrLens vs⟩
  | [], w => by simp [writeValues, strDatas, headsOfs, hdrLens]
  | v :: vs, w => by
    rw [writeValues, writeValue_eq v, writeValues_eq vs]
    simp only [strDatas, headsOfs, hdrLens, List.append_assoc, List.map_append, List.map_map,
      List.length_append]
    have hshift : ListHead.shift (w.str.length + (strData v).length) =
        ListHead.shift w.str.length ∘ ListHead.shift (strData v).length := by
      funext h
      simp [ListHead.shift, Nat.add_assoc]
    rw [hshift, Nat.add_assoc]

end

lemma foldl_toBytesStep (w : Encbuf) (H : List ListHead) (acc : Bytes) (p : ℕ) :
    (H.foldl w.toBytesStep (acc, p)).1 ++ w.str.drop (H.foldl w.toBytesStep (acc, p)).2 =
      acc ++ render w.str H p := by
  induction H generalizing acc p with
  | nil => rfl
  | cons h hs ih =>
    rw [List.foldl_cons, Encbuf.toBytesStep, ih, render]
    simp only [List.append_assoc]

lemma toBytes_eq_render (w : Encbuf) : w.toBytes = render w.str w.lheads 0 := by
  rw [Encbuf.toBytes]
  exact foldl_toBytesStep w w.lheads [] 0

/-- Headers moved past a prefix of the string data render as they did without it. -/
lemma render_shift (s₁ s₂ : Bytes) (H : List ListHead) (p : ℕ) :
    render (s₁ ++ s₂) (H.map (ListHead.shift s₁.length)) (s₁.length + p) = render s₂ H p := by
  induction H generalizing p with
  | nil => simp [render, List.drop_append]
  | cons h hs ih =>
    simp only [List.map_cons, render, ListHead.shift]
    rw [ih, Nat.add_sub_add_left, List.drop_append, List.drop_eq_nil_of_le (by omega)]
    simp

/-- Rendering splits along the string data, when the headers of the first part lie in it. -/
lemma render_append (s₁ s₂ : Bytes) (H₁ H₂ : List ListHead) (p : ℕ) (hp : p ≤ s₁.length)
    (hH : ∀ h ∈ H₁, h.offset ≤ s₁.length) :
    render (s₁ ++ s₂) (H₁ ++ H₂.map (ListHead.shift s₁.length)) p =
      render s₁ H₁ p ++ render s₂ H₂ 0 := by
  induction H₁ generalizing p with
  | nil =>
    cases H₂ with
    | nil => simp [render, List.drop_append_of_le_length hp]
    | cons h hs =>
      have hrest := render_shift s₁ s₂ hs h.offset
      simp only [List.nil_append, List.map_cons, render, ListHead.shift] at hrest ⊢
      rw [hrest, List.drop_append_of_le_length hp]
      have htake : (s₁.drop p ++ s₂).take (s₁.length + h.offset - p) =
          s₁.drop p ++ s₂.take h.offset := by
        rw [show s₁.length + h.offset - p = (s₁.drop p).length + h.offset by simp; omega,
          List.take_length_add_append]
      rw [htake]
      simp
  | cons h hs ih =>
    have hh : h.offset ≤ s₁.length := hH h List.mem_cons_self
    simp only [List.cons_append, render]
    rw [ih h.offset hh (fun h' hh' => hH h' (List.mem_cons_of_mem _ hh')), List.drop_append_of_le_length hp,
      List.take_append_of_le_length (by simp; omega)]
    simp

mutual

theorem offset_le_strData : ∀ v : Value, ∀ h ∈ headsOf v, h.offset ≤ (strData v).length
  | .uint _ => by simp [headsOf]
  | .bytes _ => by simp [headsOf]
  | .bigInt _ => by simp [headsOf]
  | .list vs => by
    intro h hh
    rw [headsOf, List.mem_cons] at hh
    rcases hh with rfl | hh
    · exact Nat.zero_le _
    · rw [strData]
      exact offset_le_strDatas vs h hh

theorem offset_le_strDatas : ∀ vs : List Value, ∀ h ∈ headsOfs vs, h.offset ≤ (strDatas vs).length
  | [] => by simp [headsOfs]
  | v :: vs => by
    intro h hh
    rw [headsOfs, List.mem_append] at hh
    rw [strDatas, List.length_append]
    rcases hh with hh | hh
    · have := offset_le_strData v h hh
      omega
    · obtain ⟨h', hh', rfl⟩ := List.mem_map.mp hh
      have := offset_le_strDatas vs h' hh'
      simp only [ListHead.shift]
      omega

end

mutual

/-- The headers rendered into the string data give the RLP encoding. -/
theorem render_headsOf : ∀ v : Value, render (strData v) (headsOf v) 0 = encodeItem v
  | .uint _ => by simp [render, strData, headsOf]
  | .bytes _ => by simp [render, strData, headsOf]
  | .bigInt _ => by simp [render, strData, headsOf]
  | .list vs => by
    rw [strData, headsOf, render, render_headsOfs vs, encodeItem]
    simp

theorem render_headsOfs : ∀ vs : List Value, render (strDatas vs) (headsOfs vs) 0 = encodeItems vs
  | [] => by simp [render, strDatas, headsOfs, encodeItems]
  | v :: vs => by
    rw [strDatas, headsOfs, render_append _ _ _ _ 0 (Nat.zero_le _) (offset_le_strData v),
      render_headsOf v, render_headsOfs vs, encodeItems]

end

/-- The deferred headers of `encbuf` give the recursive RLP encoding. -/
theorem EncodeToBytes_eq (v : Value) : EncodeToBytes v = encodeItem v := by
  have hshift : ListHead.shift 0 = id := by
    funext h
    simp [ListHead.shift]
  rw [EncodeToBytes, writeValue_eq, toBytes_eq_render]
  simp only [Encbuf.empty, List.nil_append, List.length_nil, hshift, List.map_id]
  exact render_headsOf v

mutual

/-- The headers of a value's lists come in the order of their offsets. -/
theorem pairwise_headsOf : ∀ v : Value, (headsOf v).Pairwise (·.offset ≤ ·.offset)
  | .uint _ => by simp [headsOf]
  | .bytes _ => by simp [headsOf]
  | .bigInt _ => by simp [headsOf]
  | .list vs => by
    rw [headsOf, List.pairwise_cons]
    exact ⟨fun _ _ => Nat.zero_le _, pairwise_headsOfs vs⟩

theorem pairwise_headsOfs : ∀ vs : List Value, (headsOfs vs).Pairwise (·.offset ≤ ·.offset)
  | [] => by simp [headsOfs]
  | v :: vs => by
    rw [headsOfs, List.pairwise_append, List.pairwise_map]
    refine ⟨pairwise_headsOf v, (pairwise_headsOfs vs).imp fun h => ?_, ?_⟩
    · simpa [ListHead.shift] using h
    · -- the headers of the first value lie within its string data, the others after it
      intro a ha b hb
      obtain ⟨b', -, rfl⟩ := List.mem_map.mp hb
      have := offset_le_strData v a ha
      simp only [ListHead.shift]
      omega

end

/-- `toWriter` writes what `toBytes` returns, from the point where the headers not yet written
all lie at or after the string data written so far. -/
lemma foldl_toWriterStep (w : Encbuf) (H : List ListHead)
    (hH : H.Pairwise (·.offset ≤ ·.offset)) (out acc : Bytes) (p : ℕ)
    (hp : ∀ h ∈ H, p ≤ h.offset) :
    H.foldl w.toWriterStep (out ++ acc, p) =
      ((H.foldl w.toBytesStep (acc, p)).1 |> (out ++ ·), (H.foldl w.toBytesStep (acc, p)).2) := by
  induction H generalizing acc p with
  | nil => rfl
  | cons h H ih =>
    rw [List.pairwise_cons] at hH
    have hph := hp h List.mem_cons_self
    -- either way the string data up to the header is written and the position moves to it
    have hstep : w.toWriterStep (out ++ acc, p) h = (out ++ (w.toBytesStep (acc, p) h).1, h.offset) := by
      unfold Encbuf.toWriterStep Encbuf.toBytesStep
      split_ifs with hgt
      · simp
      · have hoff : h.offset = p := by omega
        simp [hoff]
    rw [List.foldl_cons, List.foldl_cons, hstep, ih hH.2 _ _ fun h' hh' => hH.1 h' hh']
    rfl

theorem toWriter_eq (w : Encbuf) (hw : w.lheads.Pairwise (·.offset ≤ ·.offset)) (out : Bytes) :
    w.toWriter out = out ++ w.toBytes := by
  have h := foldl_toWriterStep w w.lheads hw out [] 0 fun _ _ => Nat.zero_le _
  rw [List.append_nil] at h
  rw [Encbuf.toWriter, Encbuf.toBytes, h]
  simp only [List.append_assoc]
  split_ifs with hlt
  · rfl
  · rw [List.drop_eq_nil_of_le (by omega), List.append_nil]

/-! ### Sizes -/

lemma headsize_le {n : ℕ} (hn : n < 2 ^ 64) : headsize n ≤ 9 := by
  unfold headsize
  split_ifs with h
  · omega
  · have : intsize n ≤ 8 := by
      rw [intsize, putint_of_ne (by omega), length_bigBytes_le_iff]
      simpa using hn
    omega

lemma length_encodeStr_le {b : Bytes} (hb : b.length < 56) : (encodeStr b).length ≤ b.length + 1 := by
  unfold encodeStr encodeStringHeader
  split_ifs
  · omega
  · rw [List.length_append, length_puthead, headsize, if_pos hb]
    omega

/-- A string header is at most nine bytes. -/
lemma length_encodeStr_le_add {b : Bytes} (hb : b.length < 2 ^ 64) :
    (encodeStr b).length ≤ b.length + 9 := by
  unfold encodeStr encodeStringHeader
  split_ifs
  · omega
  · rw [List.length_append, length_puthead]
    have := headsize_le hb
    omega

lemma length_encodeItem_list_le (vs : List Value) (h : (encodeItems vs).length < 2 ^ 64) :
    (encodeItem (.list vs)).length ≤ (encodeItems vs).length + 9 := by
  rw [encodeItem, List.length_append, length_puthead]
  have := headsize_le h
  omega

lemma length_encodeItems_le (vs : List Value) (k : ℕ) (h : ∀ v ∈ vs, (encodeItem v).length ≤ k) :
    (encodeItems vs).length ≤ vs.length * k := by
  induction vs with
  | nil => simp [encodeItems]
  | cons v vs ih =>
    rw [encodeItems, List.length_append, List.length_cons, Nat.succ_mul]
    have h₁ := h v List.mem_cons_self
    have h₂ := ih fun w hw => h w (List.mem_cons_of_mem v hw)
    omega

/-- The recursive RLP encoding is what both outputs of `encbuf` give. -/
theorem encbuf_output_eq_encodeItem (v : Value) :
    EncodeToBytes v = encodeItem v ∧ ∀ out, Encode out v = out ++ encodeItem v := by
  have hsorted : (writeValue v Encbuf.empty).lheads.Pairwise (·.offset ≤ ·.offset) := by
    rw [writeValue_eq]
    simp only [Encbuf.empty, List.nil_append, List.length_nil, List.pairwise_map, ListHead.shift,
      Nat.zero_add]
    exact pairwise_headsOf v
  refine ⟨EncodeToBytes_eq v, fun out => ?_⟩
  rw [Encode, toWriter_eq _ hsorted, ← EncodeToBytes, EncodeToBytes_eq]

end Lemmas

end Wanchain.Rlp
