import Wanchain.Rlp.Decode

/-!
# The decoder accepts only canonical encodings

The other direction of the round trip: whatever a typed decoder accepts from a ready stream is
exactly the encoding of the value it returns (`decodeTy_parses`), so `DecodeBytes` succeeds only
on the encoding of its result (`encodeItem_of_DecodeBytes`). The checks that make this hold are
spread over the stream: `readKind` refuses a size of a long header below `56`, `readUint` a
leading zero byte, `Bytes` a single byte below `0x80` written as a string, `uint` a zero byte
and a small integer written as a string, `decodeBigInt` a leading zero byte, and `ListEnd` a
list whose content is not read to its declared end.

Each step of the stream gets an inversion lemma: what a successful run of it read and how it
left the stream. The loop over a slice's elements stops at `EOL`, which the decoders throw only
at the end of the innermost list and before reading anything (`decodeTy_eol_inv`).
-/

namespace Wanchain.Rlp

open Machine

variable {s s' : Stream}

/-! ### Reading bytes -/

lemma bump_zero (st : List ListPos) : bump st 0 = st := by
  cases st with
  | nil => rfl
  | cons tos rest => rfl

lemma advance_zero (s : Stream) : advance s 0 = { s with kind := none } := by
  simp [advance, bump_zero]

theorem willRead_inv {n : ℕ} {u : Unit} (hs : SliceReader s)
    (h : Stream.willRead n s = .ok u s') :
    n ≤ s.r.length ∧ Room s.stack n ∧
      s' = { s with kind := none, stack := bump s.stack n, remaining := s.remaining - n } := by
  have hrem := hs.remaining
  cases hst : s.stack with
  | nil =>
    simp only [Stream.willRead, ebind_apply, emodify_apply, eget_apply, hst, hs.limited,
      if_true] at h
    split_ifs at h with hn
    · cases h
    · cases h
      exact ⟨by omega, trivial, by simp [hs.limited, bump]⟩
  | cons tos rest =>
    simp only [Stream.willRead, ebind_apply, emodify_apply, eget_apply, hst] at h
    split_ifs at h with hfit
    · cases h
    · simp only [ebind_apply, eset_apply, eget_apply, hs.limited, if_true] at h
      split_ifs at h with hn
      · cases h
      · cases h
        exact ⟨by omega, by simp only [Room]; omega, by simp [hs.limited]⟩

theorem readByte_inv {b : UInt8} (hs : SliceReader s) (h : Stream.readByte s = .ok b s') :
    s.r = b :: s'.r ∧ s' = advance s 1 := by
  obtain ⟨u, s₁, hw, h⟩ := ebind_ok_inv h
  obtain ⟨-, -, rfl⟩ := willRead_inv hs hw
  cases hr : s.r with
  | nil => simp [ebind_apply, hr] at h
  | cons x rest =>
    simp only [ebind_apply, eget_apply, hr, eset_apply, epure_apply] at h
    cases h
    exact ⟨rfl, by simp [advance, hr]⟩

theorem readFull_inv {n : ℕ} {b : Bytes} (hs : SliceReader s) (h : Stream.readFull n s = .ok b s') :
    s.r = b ++ s'.r ∧ b.length = n ∧ s' = advance s n := by
  obtain ⟨u, s₁, hw, h⟩ := ebind_ok_inv h
  obtain ⟨hn, -, rfl⟩ := willRead_inv hs hw
  simp only [ebind_apply, eget_apply, eset_apply] at h
  split_ifs at h with hlt
  · cases h
  · cases h
    exact ⟨by simp, by simpa using hn, rfl⟩

/-- What `readUint` read: `size` bytes and their value, with no leading zero byte where there
are two bytes or more. -/
theorem readUint_inv {size v : ℕ} (hs : SliceReader s) (h : Stream.readUint size s = .ok v s') :
    ∃ b, s.r = b ++ s'.r ∧ b.length = size ∧ v = setBytes b ∧ (2 ≤ size → b.headD 0 ≠ 0) ∧
      s' = advance s size := by
  unfold Stream.readUint at h
  split_ifs at h with h0 h1
  · -- nothing is read
    subst h0
    simp only [ebind_apply, emodify_apply] at h
    cases h
    exact ⟨[], by simp, rfl, rfl, by omega, (advance_zero s).symm⟩
  · -- one byte, read with readByte
    subst h1
    obtain ⟨b, s₁, hb, h⟩ := ebind_ok_inv h
    obtain ⟨hr, rfl⟩ := readByte_inv hs hb
    cases h
    exact ⟨[b], by rw [List.singleton_append]; exact hr, rfl, by simp [setBytes], by omega, rfl⟩
  · -- more bytes, read with readFull
    obtain ⟨b, s₁, hb, h⟩ := ebind_ok_inv h
    obtain ⟨hr, hlen, rfl⟩ := readFull_inv hs hb
    split_ifs at h with hz
    · cases h
    · cases h
      exact ⟨b, hr, hlen, rfl, fun _ => hz, rfl⟩

/-- A long size that `readLongSize` accepted: at least `56`, in its minimal bytes. -/
theorem readLongSize_inv {kind kind' : Rlp.Kind} {k size : ℕ} (hs : SliceReader s)
    (h : Stream.readLongSize kind k s = .ok (kind', size, none) s') :
    kind' = kind ∧ 56 ≤ size ∧ s.r = bigBytes size ++ s'.r ∧ (bigBytes size).length = k ∧
      s' = advance s k := by
  obtain ⟨r, s₁, ha, h⟩ := ebind_ok_inv h
  cases r with
  | error e => cases h
  | ok v =>
    obtain ⟨b, hr, hlen, rfl, hcanon, rfl⟩ := readUint_inv hs (attempt_ok_inv ha)
    simp only [epure_apply, EStateM.Result.ok.injEq, Prod.mk.injEq] at h
    obtain ⟨⟨rfl, rfl, hnone⟩, rfl⟩ := h
    have h56 : 56 ≤ setBytes b := by
      by_contra hlt
      rw [if_pos (Nat.lt_of_not_le hlt)] at hnone
      cases hnone
    -- a size of one byte is not zero; longer ones have no leading zero byte
    have hhead : b.headD 0 ≠ 0 := by
      rcases b with _ | ⟨x, _ | ⟨y, t⟩⟩
      · simp [setBytes] at h56
      · rintro (rfl : x = 0)
        simp [setBytes] at h56
      · exact hcanon (by simp [← hlen])
    rw [bigBytes_setBytes hhead]
    exact ⟨rfl, h56, hr, hlen, rfl⟩

/-! ### Type tags -/

/-- The type tag that `readKind` read for a kind and a size, with the byte it left in `byteval`:
a byte below `0x80` stands for itself, a string or a list has its header. -/
def HeaderOf : Rlp.Kind → ℕ → Bytes → UInt8 → Prop
  | .Byte, size, hdr, bv => size = 0 ∧ bv < 0x80 ∧ hdr = [bv]
  | .String, size, hdr, bv => bv = 0 ∧ hdr = encodeStringHeader size
  | .List, size, hdr, bv => bv = 0 ∧ hdr = puthead 0xC0 0xF7 size

lemma tag_add_sub (t b : UInt8) : t + UInt8.ofNat (b - t).toNat = b := by
  rw [UInt8.ofNat_toNat]
  grind

/-- A one-byte header: the tag is the small tag plus a size below `56`. -/
lemma puthead_short {t b : UInt8} (hlo : t ≤ b) (hhi : b.toNat < t.toNat + 56)
    (largetag : UInt8) : puthead t largetag (b - t).toNat = [b] := by
  have hsize : (b - t).toNat < 56 := by
    rw [UInt8.toNat_sub_of_le _ _ hlo]
    omega
  rw [puthead, if_pos hsize, tag_add_sub]

/-- A long header: the tag is the large tag plus the length of the size's bytes, which follow. -/
lemma puthead_long {t b : UInt8} {size : ℕ} (h56 : 56 ≤ size)
    (hlen : (bigBytes size).length = (b - t).toNat) (smalltag : UInt8) :
    puthead smalltag t size = b :: bigBytes size := by
  rw [puthead, if_neg (by omega), intsize_of_ne (by omega), putint_of_ne (by omega), hlen,
    tag_add_sub]

theorem readKind_inv {k : Rlp.Kind} {size : ℕ} (hs : SliceReader s)
    (h : Stream.readKind s = .ok (k, size, none) s') :
    ∃ hdr bv, s.r = hdr ++ s'.r ∧ s' = { advance s hdr.length with byteval := bv } ∧
      HeaderOf k size hdr bv := by
  obtain ⟨r, s₁, ha, h⟩ := ebind_ok_inv h
  cases r with
  | error e =>
    simp only [ebind_apply, eget_apply, epure_apply] at h
    cases h
  | ok b =>
    obtain ⟨hr, rfl⟩ := readByte_inv hs (attempt_ok_inv ha)
    have hs₁ : SliceReader { advance s 1 with byteval := 0 } :=
      ⟨(hs.advance 1).limited, (hs.advance 1).remaining⟩
    have hnat : ∀ x y : UInt8, x < y ↔ x.toNat < y.toNat := fun _ _ => UInt8.lt_iff_toNat_lt
    simp only [ebind_apply, emodify_apply] at h
    split_ifs at h with h80 hB8 hC0 hF8
    · -- a byte below `0x80`
      simp only [ebind_apply, emodify_apply, epure_apply] at h
      cases h
      exact ⟨[b], b, hr, rfl, rfl, h80, rfl⟩
    · -- a short string
      cases h
      have hlo : (0x80 : UInt8) ≤ b := UInt8.le_iff_toNat_le.mpr (by simp [hnat] at h80 ⊢; omega)
      refine ⟨[b], 0, hr, rfl, rfl, ?_⟩
      rw [encodeStringHeader, puthead_short hlo (by simp [hnat] at hB8 ⊢; omega)]
    · -- a long string: the size follows in its minimal bytes
      obtain ⟨rfl, h56, hr₁, hlen, rfl⟩ := readLongSize_inv hs₁ h
      refine ⟨b :: bigBytes size, 0, ?_, ?_, rfl, ?_⟩
      · rw [hr]
        exact congrArg (b :: ·) hr₁
      · rw [advance_byteval, advance_advance, List.length_cons, hlen, Nat.add_comm]
      · rw [encodeStringHeader, puthead_long h56 hlen]
    · -- a short list
      cases h
      have hlo : (0xC0 : UInt8) ≤ b := UInt8.le_iff_toNat_le.mpr (by simp [hnat] at hC0 ⊢; omega)
      refine ⟨[b], 0, hr, rfl, rfl, ?_⟩
      rw [puthead_short hlo (by simp [hnat] at hF8 ⊢; omega)]
    · -- a long list
      obtain ⟨rfl, h56, hr₁, hlen, rfl⟩ := readLongSize_inv hs₁ h
      refine ⟨b :: bigBytes size, 0, ?_, ?_, rfl, ?_⟩
      · rw [hr]
        exact congrArg (b :: ·) hr₁
      · rw [advance_byteval, advance_advance, List.length_cons, hlen, Nat.add_comm]
      · rw [puthead_long h56 hlen]

/-- A checked read of a tag that left no error: `readKind` read it without one, and the size
fits. -/
theorem readKindChecked_inv {u : Unit} (h : Stream.readKindChecked s = .ok u s')
    (herr : s'.kinderr = none) :
    ∃ k size s₀, Stream.readKind s = .ok (k, size, none) s₀ ∧
      s' = { s₀ with kind := some k, size := size, kinderr := none } := by
  obtain ⟨⟨k, size, err⟩, s₀, hr, h⟩ := ebind_ok_inv h
  simp only [ebind_apply, emodify_apply] at h
  split_ifs at h with he
  · subst he
    refine ⟨k, size, s₀, hr, ?_⟩
    simp only [ebind_apply, eget_apply] at h
    -- the size is checked against the innermost list, or the input at the top level
    cases hst : s₀.stack with
    | nil =>
      simp only [hst] at h
      split_ifs at h
      · cases h
        cases herr
      · cases h
        rfl
    | cons tos rest =>
      simp only [hst] at h
      split_ifs at h
      · cases h
        cases herr
      · cases h
        rfl
  · cases h
    exact absurd herr he

/-- What `Kind` read on a new value that it accepted: a tag, cached with its kind. -/
theorem Kind_inv {k : Rlp.Kind} {size : ℕ} (hs : Ready s)
    (h : Stream.Kind s = .ok (k, size, none) s') :
    ∃ hdr, s.r = hdr ++ s'.r ∧ Consumed s s' hdr.length ∧ s'.kind = some k ∧
      HeaderOf k size hdr s'.byteval := by
  simp only [Stream.Kind, ebind_apply, eget_apply, hs.kind, if_true, eset_apply] at h
  split_ifs at h with heol
  · cases h
  · obtain ⟨u, s₁, hc, h⟩ := ebind_ok_inv h
    simp only [Stream.cached, ebind_apply, eget_apply, epure_apply, EStateM.Result.ok.injEq,
      Prod.mk.injEq] at h
    obtain ⟨⟨hk, hsize, herr⟩, rfl⟩ := h
    obtain ⟨k', size', s₀, hr, rfl⟩ := readKindChecked_inv hc herr
    obtain ⟨hdr, bv, hr', rfl, hhead⟩ := readKind_inv hs.toSliceReader.of_kinderr hr
    cases hk
    cases hsize
    exact ⟨hdr, hr', ⟨rfl, rfl, rfl, rfl⟩, rfl, hhead⟩

theorem KindE_inv {k : Rlp.Kind} {size : ℕ} (hs : Ready s)
    (h : Stream.KindE s = .ok (k, size) s') :
    ∃ hdr, s.r = hdr ++ s'.r ∧ Consumed s s' hdr.length ∧ s'.kind = some k ∧
      HeaderOf k size hdr s'.byteval := by
  obtain ⟨⟨k', size', err⟩, s₁, hk, h⟩ := ebind_ok_inv h
  cases err with
  | some e => cases h
  | none =>
    cases h
    exact Kind_inv hs hk

/-! ### What a decoder accepted -/

/-- `d` accepts only encodings: from a ready stream, a successful run of `d` read exactly the
encoding `enc a` of what it returned, counted it in the innermost list, and cached nothing. -/
def Parses {α : Type} (d : StreamM α) (enc : α → Bytes) : Prop :=
  ∀ s a s', Ready s → d s = .ok a s' →
    s.r = enc a ++ s'.r ∧ Consumed s s' (enc a).length ∧ s'.kind = none

lemma encodeStr_single {x : UInt8} (hx : x < 0x80) : encodeStr [x] = [x] := by
  have hle : x ≤ 0x7F := by
    rw [UInt8.lt_iff_toNat_lt] at hx
    rw [UInt8.le_iff_toNat_le]
    simp only [UInt8.reduceToNat] at hx ⊢
    omega
  exact if_pos ⟨rfl, hle⟩

lemma encodeStr_of_not_single {b : Bytes} (h : ¬ (b.length = 1 ∧ b.headD 0 < 128)) :
    encodeStr b = encodeStringHeader b.length ++ b := by
  refine if_neg fun hle => h ⟨hle.1, ?_⟩
  have := hle.2
  rw [UInt8.le_iff_toNat_le] at this
  rw [UInt8.lt_iff_toNat_lt]
  simp only [UInt8.reduceToNat] at this ⊢
  omega

theorem Bytes_parses : Parses Stream.Bytes encodeStr := by
  intro s b s' hs h
  obtain ⟨⟨k, size⟩, s₁, hk, h⟩ := ebind_ok_inv h
  obtain ⟨hdr, hr, hc, -, hhead⟩ := KindE_inv hs hk
  cases k with
  | Byte =>
    obtain ⟨-, hbv, rfl⟩ := hhead
    simp only [ebind_apply, emodify_apply, eget_apply, epure_apply] at h
    cases h
    rw [encodeStr_single hbv]
    exact ⟨hr, ⟨hc.r, hc.remaining, hc.limited, hc.stack⟩, rfl⟩
  | String =>
    obtain ⟨-, rfl⟩ := hhead
    obtain ⟨b', s₂, hf, h⟩ := ebind_ok_inv h
    obtain ⟨hr₁, hlen, rfl⟩ := readFull_inv (hs.toSliceReader.of_consumed hc) hf
    split_ifs at h with hcanon
    · cases h
    · cases h
      rw [encodeStr_of_not_single (by rwa [hlen]), List.append_assoc, List.length_append, hlen]
      exact ⟨by rw [hr, hr₁], hc.trans ⟨rfl, rfl, rfl, rfl⟩, rfl⟩
  | List => cases h

/-- The bytes of an integer that `uint` accepted are its minimal bytes, and not a single byte
below `0x80`. -/
lemma bigBytes_of_uint {b : Bytes} (hcanon : 2 ≤ b.length → b.headD 0 ≠ 0)
    (hsmall : ¬ (b.length > 0 ∧ setBytes b < 128)) :
    bigBytes (setBytes b) = b ∧ ¬ (b.length = 1 ∧ b.headD 0 < 128) := by
  rcases b with _ | ⟨x, _ | ⟨y, t⟩⟩
  · simp [setBytes]
  · -- one byte: it is at least `128`
    have hx : 128 ≤ x.toNat := by simpa [setBytes] using hsmall
    refine ⟨bigBytes_setBytes ?_, ?_⟩
    · rintro (h0 : x = 0)
      simp [h0] at hx
    · rintro ⟨-, hlt⟩
      simp [UInt8.lt_iff_toNat_lt] at hlt
      omega
  · exact ⟨bigBytes_setBytes (hcanon (by simp)), by simp⟩

/-- What `uint` accepted: an integer below `2 ^ 64` in its canonical string. -/
theorem uint_inv {v : ℕ} (hs : Ready s) (h : Stream.uint 64 s = .ok v s') :
    v < 2 ^ 64 ∧ s.r = encodeStr (bigBytes v) ++ s'.r ∧
      Consumed s s' (encodeStr (bigBytes v)).length ∧ s'.kind = none := by
  obtain ⟨⟨k, size⟩, s₁, hk, h⟩ := ebind_ok_inv h
  obtain ⟨hdr, hr, hc, -, hhead⟩ := KindE_inv hs hk
  cases k with
  | Byte =>
    -- a byte below `0x80` that is not zero
    obtain ⟨-, hbv, rfl⟩ := hhead
    simp only [ebind_apply, eget_apply] at h
    split_ifs at h with h0
    · cases h
    · simp only [ebind_apply, eset_apply, epure_apply] at h
      cases h
      have hlt : s₁.byteval.toNat < 128 := by simpa [UInt8.lt_iff_toNat_lt] using hbv
      have hne : s₁.byteval.toNat ≠ 0 := fun h => h0 (UInt8.toNat_inj.mp (by simpa using h))
      rw [bigBytes_of_lt hne (by omega), UInt8.ofNat_toNat, encodeStr_single hbv]
      exact ⟨by omega, hr, ⟨hc.r, hc.remaining, hc.limited, hc.stack⟩, rfl⟩
  | String =>
    -- at most eight bytes with no leading zero, standing for at least `128`
    obtain ⟨-, rfl⟩ := hhead
    simp only at h
    split_ifs at h with hbig
    · cases h
    · obtain ⟨r, s₂, ha, h⟩ := ebind_ok_inv h
      cases r with
      | error e => cases e <;> cases h
      | ok v' =>
        obtain ⟨b, hr₁, hlen, rfl, hcanon, rfl⟩ :=
          readUint_inv (hs.toSliceReader.of_consumed hc) (attempt_ok_inv ha)
        simp only at h
        split_ifs at h with hsmall
        · cases h
        · cases h
          rw [← hlen] at hcanon hsmall hbig
          obtain ⟨hbytes, hsingle⟩ := bigBytes_of_uint hcanon hsmall
          have hv : setBytes b < 2 ^ 64 :=
            lt_of_lt_of_le (setBytes_lt b) (by rw [show 2 ^ 64 = 256 ^ 8 by norm_num]; gcongr <;> omega)
          rw [hbytes, encodeStr_of_not_single hsingle, List.append_assoc, List.length_append, hlen]
          exact ⟨hv, by rw [hr, hr₁], hc.trans ⟨rfl, rfl, rfl, rfl⟩, rfl⟩
  | List => cases h

/-! ### Typed values -/

lemma wrapErr_ok_inv {α : Type} {d : StreamM α} {a : α} {typ : String}
    (h : wrapErr typ d s = .ok a s') : d s = .ok a s' := by
  rcases tryCatch_ok_inv h with h | ⟨e, s₁, -, h⟩
  · exact h
  · cases h

theorem decodeUint_parses : Parses decodeUint encodeItem := by
  intro s v s' hs h
  obtain ⟨num, s₁, hu, h⟩ := ebind_ok_inv h
  obtain ⟨hlt, hr, hc, hk⟩ := uint_inv hs (wrapErr_ok_inv hu)
  cases h
  have hnum : (UInt64.ofNat num).toNat = num := UInt64.toNat_ofNat_of_lt' hlt
  rw [encodeItem, hnum]
  exact ⟨hr, hc, hk⟩

theorem decodeByteSlice_parses : Parses decodeByteSlice encodeItem := by
  intro s v s' hs h
  obtain ⟨b, s₁, hb, h⟩ := ebind_ok_inv h
  cases h
  exact Bytes_parses s b s' hs (wrapErr_ok_inv hb)

/-- `decodeBigInt` refuses a leading zero byte, so the bytes it read are the minimal ones. -/
theorem decodeBigInt_parses : Parses decodeBigInt encodeItem := by
  intro s v s' hs h
  obtain ⟨b, s₁, hb, h⟩ := ebind_ok_inv h
  obtain ⟨hr, hc, hk⟩ := Bytes_parses s b s₁ hs (wrapErr_ok_inv hb)
  split_ifs at h with hz
  · cases h
  · cases h
    have hbytes : bigBytes (setBytes b) = b := by
      by_cases hnil : b = []
      · subst hnil
        rfl
      · exact bigBytes_setBytes fun h0 => hz ⟨hnil, h0⟩
    rw [encodeItem, hbytes]
    exact ⟨hr, hc, hk⟩

/-! ### Lists -/

/-- `List` entered a list: it read a list header and put the list on the stack. -/
theorem List_inv {size : ℕ} (hs : Ready s) (h : Stream.List s = .ok size s') :
    ∃ s₁, s.r = puthead 0xC0 0xF7 size ++ s₁.r ∧ Consumed s s₁ (puthead 0xC0 0xF7 size).length ∧
      s' = { s₁ with stack := ⟨0, size⟩ :: s₁.stack, kind := none, size := 0 } := by
  obtain ⟨⟨k, n⟩, s₁, hk, h⟩ := ebind_ok_inv h
  obtain ⟨hdr, hr, hc, -, hhead⟩ := KindE_inv hs hk
  cases k with
  | List =>
    obtain ⟨-, rfl⟩ := hhead
    simp only [ebind_apply, emodify_apply, epure_apply, ne_eq, not_true_eq_false, if_false] at h
    cases h
    exact ⟨s₁, hr, hc, rfl⟩
  | Byte => cases h
  | String => cases h

lemma List_ready {size : ℕ} (hs : Ready s) (h : Stream.List s = .ok size s') : Ready s' := by
  obtain ⟨s₁, -, hc, rfl⟩ := List_inv hs h
  have hsr := hs.toSliceReader.of_consumed hc
  exact { limited := hsr.limited, remaining := hsr.remaining, kind := rfl }

theorem ListEnd_inv {u : Unit} (h : Stream.ListEnd s = .ok u s') :
    ∃ tos rest, s.stack = tos :: rest ∧ tos.pos = tos.size ∧
      s' = { s with stack := bump rest tos.size, kind := none, size := 0 } := by
  simp only [Stream.ListEnd, ebind_apply, eget_apply] at h
  cases hst : s.stack with
  | nil =>
    simp only [hst] at h
    cases h
  | cons tos rest =>
    simp only [hst] at h
    split_ifs at h with hpos
    · cases h
    · cases h
      exact ⟨tos, rest, rfl, not_not.mp hpos, rfl⟩

/-- A list that `List`, a body and `ListEnd` accepted: its header, then exactly the bytes the
body read, as many as the header says. -/
theorem list_frame_inv {size : ℕ} {pay : Bytes} {s₁ s₂ s₃ : Stream} {u : Unit} (hs : Ready s)
    (hl : Stream.List s = .ok size s₁) (hr₂ : s₁.r = pay ++ s₂.r)
    (hc₂ : Consumed s₁ s₂ pay.length) (he : Stream.ListEnd s₂ = .ok u s₃) :
    pay.length = size ∧ s.r = puthead 0xC0 0xF7 size ++ pay ++ s₃.r ∧
      Consumed s s₃ (puthead 0xC0 0xF7 size ++ pay).length ∧ s₃.kind = none := by
  obtain ⟨s₀, hr, hc, rfl⟩ := List_inv hs hl
  obtain ⟨tos, rest, hst, hpos, rfl⟩ := ListEnd_inv he
  -- the body counted its bytes in the list `List` opened, which `ListEnd` found full
  have hst₂ : s₂.stack = ⟨pay.length, size⟩ :: s₀.stack := by
    rw [hc₂.stack]
    simp [bump]
  rw [hst] at hst₂
  cases hst₂
  simp only at hpos
  refine ⟨hpos, by rw [hr, hr₂, List.append_assoc], ?_, rfl⟩
  rw [List.length_append]
  exact hc.trans ⟨hc₂.r, hc₂.remaining, hc₂.limited, by rw [hpos]⟩

/-! ### Where `EOL` comes from -/

lemma cached_ok (s : Stream) : Stream.cached s = .ok (s.kind.getD .Byte, s.size, s.kinderr) s :=
  rfl

section EOL

variable {e : RlpError}

theorem willRead_error {n : ℕ} (h : Stream.willRead n s = .error e s') : e ≠ .EOL := by
  simp only [Stream.willRead, ebind_apply, emodify_apply, eget_apply] at h
  cases hst : s.stack with
  | nil =>
    simp only [hst, ebind_apply, eget_apply] at h
    split_ifs at h <;> cases h
    decide
  | cons tos rest =>
    simp only [hst] at h
    split_ifs at h
    · cases h
      decide
    · simp only [ebind_apply, eset_apply, eget_apply] at h
      split_ifs at h <;> cases h
      decide

theorem readByte_error (h : Stream.readByte s = .error e s') : e ≠ .EOL := by
  rcases ebind_error_inv h with h | ⟨u, s₁, -, h⟩
  · exact willRead_error h
  · simp only [ebind_apply, eget_apply] at h
    cases hr : s₁.r with
    | nil =>
      simp only [hr] at h
      cases h
      decide
    | cons x rest =>
      simp only [hr, ebind_apply, eset_apply] at h
      cases h

theorem readFull_error {n : ℕ} (h : Stream.readFull n s = .error e s') : e ≠ .EOL := by
  rcases ebind_error_inv h with h | ⟨u, s₁, -, h⟩
  · exact willRead_error h
  · simp only [ebind_apply, eget_apply, eset_apply] at h
    split_ifs at h <;> cases h
    decide

theorem readUint_error {size : ℕ} (h : Stream.readUint size s = .error e s') : e ≠ .EOL := by
  unfold Stream.readUint at h
  split_ifs at h
  · cases h
  · rcases ebind_error_inv h with h | ⟨b, s₁, -, h⟩
    · exact readByte_error h
    · cases h
  · rcases ebind_error_inv h with h | ⟨b, s₁, -, h⟩
    · exact readFull_error h
    · split_ifs at h <;> cases h
      decide

/-- `readLongSize` never fails: its error comes with the size, and is never `EOL`. -/
theorem readLongSize_ne_error {kind : Rlp.Kind} {k : ℕ} : Stream.readLongSize kind k s ≠ .error e s' := by
  intro h
  rcases ebind_error_inv h with h | ⟨r, s₁, -, h⟩
  · exact attempt_ne_error h
  · cases r <;> cases h

theorem readLongSize_ok_err {kind kind' : Rlp.Kind} {k size : ℕ} {err : Option RlpError}
    (h : Stream.readLongSize kind k s = .ok (kind', size, err) s') : err ≠ some .EOL := by
  obtain ⟨r, s₁, ha, h⟩ := ebind_ok_inv h
  cases r with
  | error e' =>
    simp only [epure_apply, EStateM.Result.ok.injEq, Prod.mk.injEq] at h
    obtain ⟨⟨-, -, rfl⟩, -⟩ := h
    simpa using readUint_error (attempt_error_inv ha)
  | ok v =>
    simp only [epure_apply, EStateM.Result.ok.injEq, Prod.mk.injEq] at h
    obtain ⟨⟨-, -, rfl⟩, -⟩ := h
    split_ifs <;> decide

/-- `readKind` never fails either, and the error it returns with a tag is never `EOL`. -/
theorem readKind_ne_error : Stream.readKind s ≠ .error e s' := by
  intro h
  rcases ebind_error_inv h with h | ⟨r, s₁, -, h⟩
  · exact attempt_ne_error h
  · cases r with
    | error e' =>
      simp only [ebind_apply, eget_apply] at h
      cases h
    | ok b =>
      simp only [ebind_apply, emodify_apply] at h
      split_ifs at h
      · simp only [ebind_apply, emodify_apply] at h
        cases h
      · cases h
      · exact readLongSize_ne_error h
      · cases h
      · exact readLongSize_ne_error h

theorem readKind_ok_err {k : Rlp.Kind} {size : ℕ} {err : Option RlpError}
    (h : Stream.readKind s = .ok (k, size, err) s') : err ≠ some .EOL := by
  obtain ⟨r, s₁, ha, h⟩ := ebind_ok_inv h
  cases r with
  | error e' =>
    -- the end of the input is `EOF` at the top level, and the error of `readByte` elsewhere
    have he := readByte_error (attempt_error_inv ha)
    simp only [ebind_apply, eget_apply, epure_apply, EStateM.Result.ok.injEq, Prod.mk.injEq] at h
    obtain ⟨⟨-, -, rfl⟩, -⟩ := h
    split_ifs
    · decide
    · simpa using he
  | ok b =>
    simp only [ebind_apply, emodify_apply] at h
    split_ifs at h
    · simp only [ebind_apply, emodify_apply, epure_apply] at h
      cases h
      decide
    · cases h
      decide
    · exact readLongSize_ok_err h
    · cases h
      decide
    · exact readLongSize_ok_err h

theorem readKindChecked_ne_error : Stream.readKindChecked s ≠ .error e s' := by
  intro h
  rcases ebind_error_inv h with h | ⟨⟨k, size, err⟩, s₀, -, h⟩
  · exact readKind_ne_error h
  · simp only [ebind_apply, emodify_apply] at h
    split_ifs at h
    · simp only [ebind_apply, eget_apply] at h
      cases hst : s₀.stack <;> simp only [hst] at h <;> split_ifs at h <;> cases h
    · cases h

/-- The error that a checked read of a tag caches is never `EOL`. -/
theorem readKindChecked_kinderr {u : Unit} (h : Stream.readKindChecked s = .ok u s') :
    s'.kinderr ≠ some .EOL := by
  obtain ⟨⟨k, size, err⟩, s₀, hr, h⟩ := ebind_ok_inv h
  have herr := readKind_ok_err hr
  simp only [ebind_apply, emodify_apply] at h
  split_ifs at h
  · simp only [ebind_apply, eget_apply] at h
    cases hst : s₀.stack <;> simp only [hst] at h <;> split_ifs at h <;> cases h <;>
      first | exact herr | simp
  · cases h
    exact herr

theorem Kind_ne_error : Stream.Kind s ≠ .error e s' := by
  intro h
  simp only [Stream.Kind, ebind_apply, eget_apply] at h
  split_ifs at h
  · cases h
  · -- a new value: the tag is read and cached
    rw [ebind_ok (eset_apply _ _)] at h
    rcases ebind_error_inv h with h | ⟨u, s₁, -, h⟩
    · exact readKindChecked_ne_error h
    · rw [cached_ok] at h
      cases h
  · rw [cached_ok] at h
    cases h

/-- `Kind` says `EOL` only at the end of the innermost list, having read nothing. -/
theorem Kind_eol_inv {k : Rlp.Kind} {size : ℕ} (hk : s.kind = none)
    (h : Stream.Kind s = .ok (k, size, some .EOL) s') : s' = { s with kinderr := none } := by
  simp only [Stream.Kind, ebind_apply, eget_apply] at h
  split_ifs at h
  · cases h
    rfl
  · rw [ebind_ok (eset_apply _ _)] at h
    obtain ⟨u, s₁, hc, h⟩ := ebind_ok_inv h
    rw [cached_ok] at h
    simp only [EStateM.Result.ok.injEq, Prod.mk.injEq] at h
    obtain ⟨⟨-, -, herr⟩, -⟩ := h
    exact absurd herr (readKindChecked_kinderr hc)

theorem KindE_eol_inv (hk : s.kind = none) (h : Stream.KindE s = .error .EOL s') :
    s' = { s with kinderr := none } := by
  rcases ebind_error_inv h with h | ⟨⟨k, size, err⟩, s₁, hkind, h⟩
  · exact absurd h Kind_ne_error
  · cases err with
    | none => cases h
    | some e' =>
      cases h
      exact Kind_eol_inv hk hkind

theorem Bytes_eol_inv (hk : s.kind = none) (h : Stream.Bytes s = .error .EOL s') :
    s' = { s with kinderr := none } := by
  rcases ebind_error_inv h with h | ⟨⟨k, size⟩, s₁, -, h⟩
  · exact KindE_eol_inv hk h
  · exfalso
    cases k with
    | Byte =>
      simp only [ebind_apply, emodify_apply, eget_apply] at h
      cases h
    | String =>
      rcases ebind_error_inv h with h | ⟨b, s₂, -, h⟩
      · exact readFull_error h rfl
      · split_ifs at h <;> cases h
    | List => cases h

theorem uint_eol_inv (hk : s.kind = none) (h : Stream.uint 64 s = .error .EOL s') :
    s' = { s with kinderr := none } := by
  rcases ebind_error_inv h with h | ⟨⟨k, size⟩, s₁, -, h⟩
  · exact KindE_eol_inv hk h
  · exfalso
    cases k with
    | Byte =>
      simp only [ebind_apply, eget_apply] at h
      split_ifs at h <;> cases h
    | String =>
      simp only at h
      split_ifs at h
      · cases h
      · rcases ebind_error_inv h with h | ⟨r, s₂, ha, h⟩
        · exact attempt_ne_error h
        · cases r with
          | error e' =>
            -- the errors of `readUint` are passed on, `ErrCanonSize` as `ErrCanonInt`
            have he := readUint_error (attempt_error_inv ha)
            cases e' <;> first | exact he rfl | cases h
          | ok v =>
            simp only at h
            split_ifs at h <;> cases h
    | List => cases h

theorem List_eol_inv (hk : s.kind = none) (h : Stream.List s = .error .EOL s') :
    s' = { s with kinderr := none } := by
  rcases ebind_error_inv h with h | ⟨⟨k, size⟩, s₁, -, h⟩
  · exact KindE_eol_inv hk h
  · exfalso
    simp only at h
    split_ifs at h <;> cases h

theorem ListEnd_error (h : Stream.ListEnd s = .error e s') : e ≠ .EOL := by
  simp only [Stream.ListEnd, ebind_apply, eget_apply] at h
  cases hst : s.stack with
  | nil =>
    simp only [hst] at h
    cases h
    decide
  | cons tos rest =>
    simp only [hst] at h
    split_ifs at h <;> cases h
    decide

lemma wrapStreamError_eq_eol {typ : String} (h : wrapStreamError e typ = .EOL) : e = .EOL := by
  cases e <;> first | rfl | cases h

lemma addErrorContext_ne_eol {ctx : String} (h : e ≠ .EOL) : addErrorContext e ctx ≠ .EOL := by
  cases e <;> first | exact h | (intro h'; cases h')

lemma wrapErr_eol_inv {α : Type} {d : StreamM α} {typ : String}
    (h : wrapErr typ d s = .error .EOL s') : d s = .error .EOL s' := by
  obtain ⟨e', s₁, hd, h⟩ := tryCatch_error_inv h
  simp only [ethrow_apply, EStateM.Result.error.injEq] at h
  obtain ⟨he, rfl⟩ := h
  rwa [wrapStreamError_eq_eol he] at hd

/-- The loop over a slice's elements ends at `EOL` and passes on every other error with the
element's index, so it never fails with `EOL`. -/
theorem decodeSliceElemsLoop_error {elemdec : StreamM Value} :
    ∀ (fuel : ℕ) (acc : List Value) (st : Stream),
      decodeSliceElemsLoop elemdec fuel acc st = .error e s' → e ≠ .EOL
  | 0, acc, st, h => by cases h
  | fuel + 1, acc, st, h => by
    rw [decodeSliceElemsLoop] at h
    rcases ebind_error_inv h with h | ⟨r, s₁, -, h⟩
    · exact absurd h attempt_ne_error
    · split at h
      · cases h
      · rename_i err hne
        simp only [ethrow_apply, EStateM.Result.error.injEq] at h
        obtain ⟨rfl, -⟩ := h
        exact addErrorContext_ne_eol hne
      · exact decodeSliceElemsLoop_error fuel _ _ h

theorem decodeSliceElems_error {elemdec : StreamM Value} {st : Stream}
    (h : decodeSliceElems elemdec st = .error e s') : e ≠ .EOL := by
  rw [decodeSliceElems, ebind_ok (eget_apply st)] at h
  exact decodeSliceElemsLoop_error _ _ _ h

/-- A struct's fields report `EOL` as too few elements, and every other error with the field's
name, so they never fail with `EOL`. -/
theorem decodeFields_error {name : String} :
    ∀ (fields : List (String × Ty)) (st : Stream), decodeFields name fields st = .error e s' →
      e ≠ .EOL
  | [], st, h => by cases h
  | (f, t) :: fields, st, h => by
    rw [decodeFields] at h
    rcases ebind_error_inv h with h | ⟨v, s₁, -, h⟩
    · obtain ⟨e', s₁, -, h⟩ := tryCatch_error_inv h
      simp only [ethrow_apply, EStateM.Result.error.injEq] at h
      obtain ⟨rfl, -⟩ := h
      split_ifs with he
      · intro h'
        cases h'
      · exact addErrorContext_ne_eol he
    · rcases ebind_error_inv h with h | ⟨vs, s₂, -, h⟩
      · exact decodeFields_error fields s₁ h
      · cases h

/-- A decoder fails with `EOL` only at the end of the innermost list, and then has read
nothing. -/
theorem decodeTy_eol_inv (hk : s.kind = none) :
    ∀ t : Ty, decodeTy t s = .error .EOL s' → s' = { s with kinderr := none }
  | .uint64, h => by
    rw [decodeTy, decodeUint] at h
    rcases ebind_error_inv h with h | ⟨n, s₁, -, h⟩
    · exact uint_eol_inv hk (wrapErr_eol_inv h)
    · cases h
  | .bytes, h => by
    rw [decodeTy, decodeByteSlice] at h
    rcases ebind_error_inv h with h | ⟨b, s₁, -, h⟩
    · exact Bytes_eol_inv hk (wrapErr_eol_inv h)
    · cases h
  | .bigInt, h => by
    rw [decodeTy, decodeBigInt] at h
    rcases ebind_error_inv h with h | ⟨b, s₁, -, h⟩
    · exact Bytes_eol_inv hk (wrapErr_eol_inv h)
    · split_ifs at h <;> cases h
  | .slice t, h => by
    rw [decodeTy] at h
    have h := emap_error_inv h
    rw [decodeListSlice] at h
    rcases ebind_error_inv h with h | ⟨size, s₁, -, h⟩
    · exact List_eol_inv hk (wrapErr_eol_inv h)
    · -- inside the list the loop stops at `EOL` and `ListEnd` never says it
      exfalso
      split_ifs at h
      · rcases ebind_error_inv h with h | ⟨u, s₂, -, h⟩
        · exact ListEnd_error h rfl
        · cases h
      · rcases ebind_error_inv h with h | ⟨vs, s₂, -, h⟩
        · exact decodeSliceElems_error h rfl
        · rcases ebind_error_inv h with h | ⟨u, s₃, -, h⟩
          · exact ListEnd_error h rfl
          · cases h
  | .struct name fields, h => by
    rw [decodeTy] at h
    rcases ebind_error_inv h with h | ⟨size, s₁, -, h⟩
    · exact List_eol_inv hk (wrapErr_eol_inv h)
    · exfalso
      rcases ebind_error_inv h with h | ⟨vs, s₂, -, h⟩
      · exact decodeFields_error fields s₁ h rfl
      · rcases ebind_error_inv h with h | ⟨u, s₃, -, h⟩
        · exact ListEnd_error (wrapErr_eol_inv h) rfl
        · cases h
  | .ptr t, h => by
    rw [decodeTy] at h
    exact decodeTy_eol_inv hk t h

end EOL

/-! ### Slices and structs -/

section Slice

variable {elemdec : StreamM Value} (hdec : Parses elemdec encodeItem)
  (heol : ∀ st st' : Stream, st.kind = none → elemdec st = .error .EOL st' →
    st' = { st with kinderr := none })
include hdec heol

/-- The loop over a slice's elements read the encodings of the elements it returned, one after
another: each element is read by `elemdec`, and `EOL` reads nothing. -/
theorem decodeSliceElemsLoop_parses :
    ∀ (fuel : ℕ) (acc : List Value) (st : Stream) (vs : List Value) (st' : Stream), Ready st →
      decodeSliceElemsLoop elemdec fuel acc st = .ok vs st' →
      ∃ new, vs = acc.reverse ++ new ∧ st.r = encodeItems new ++ st'.r ∧
        Consumed st st' (encodeItems new).length ∧ st'.kind = none
  | 0, acc, st, vs, st', hs, h => by
    cases h
    exact ⟨[], by simp, by simp [encodeItems], Consumed.refl st, hs.kind⟩
  | fuel + 1, acc, st, vs, st', hs, h => by
    rw [decodeSliceElemsLoop] at h
    obtain ⟨r, s₁, ha, h⟩ := ebind_ok_inv h
    split at h
    · -- `EOL`: the end of the list, where nothing was read
      rw [heol st s₁ hs.kind (attempt_error_inv ha)] at h
      cases h
      exact ⟨[], by simp, by simp [encodeItems],
        ⟨by simp [encodeItems], by simp [encodeItems], rfl, (bump_zero _).symm⟩, hs.kind⟩
    · cases h
    · rename_i v
      obtain ⟨hr, hc, hk⟩ := hdec st v s₁ hs (attempt_ok_inv ha)
      obtain ⟨new, rfl, hr', hc', hk'⟩ :=
        decodeSliceElemsLoop_parses fuel (v :: acc) s₁ vs st' (hs.of_consumed hc hk) h
      refine ⟨v :: new, by simp, ?_, ?_, hk'⟩
      · rw [hr, hr', encodeItems, List.append_assoc]
      · rw [encodeItems, List.length_append]
        exact hc.trans hc'

/-- A slice that `decodeListSlice` accepted is the list of its elements' encodings. -/
theorem decodeListSlice_parses (typ : String) :
    Parses (decodeListSlice typ elemdec) fun vs => encodeItem (.list vs) := by
  intro st vs st' hs h
  obtain ⟨size, s₁, hl, h⟩ := ebind_ok_inv h
  have hl := wrapErr_ok_inv hl
  dsimp only
  rw [encodeItem_list]
  split_ifs at h with h0
  · -- an empty list: `ListEnd` right after `List`
    obtain ⟨u, s₂, he, h⟩ := ebind_ok_inv h
    cases h
    obtain ⟨hlen, hr, hc, hk⟩ :=
      list_frame_inv hs hl (show s₁.r = [] ++ s₁.r from rfl) (Consumed.refl s₁) he
    rw [← hlen] at hr hc
    exact ⟨hr, hc, hk⟩
  · obtain ⟨vs', s₂, hv, h⟩ := ebind_ok_inv h
    obtain ⟨u, s₃, he, h⟩ := ebind_ok_inv h
    cases h
    rw [decodeSliceElems, ebind_ok (eget_apply s₁)] at hv
    obtain ⟨new, hnew, hr₂, hc₂, -⟩ :=
      decodeSliceElemsLoop_parses hdec heol _ [] s₁ vs s₂ (List_ready hs hl) hv
    rw [List.reverse_nil, List.nil_append] at hnew
    subst hnew
    obtain ⟨hlen, hr, hc, hk⟩ := list_frame_inv hs hl hr₂ hc₂ he
    rw [← hlen] at hr hc
    exact ⟨hr, hc, hk⟩

end Slice

mutual

/-- Every typed decoder accepts only the canonical encodings of the values it returns. -/
theorem decodeTy_parses : ∀ t : Ty, Parses (decodeTy t) encodeItem
  | .uint64 => decodeUint_parses
  | .bytes => decodeByteSlice_parses
  | .bigInt => decodeBigInt_parses
  | .slice t => by
    intro st v st' hs h
    rw [decodeTy] at h
    obtain ⟨vs, hv, rfl⟩ := emap_ok_inv h
    exact decodeListSlice_parses (decodeTy_parses t) (fun _ _ hk h => decodeTy_eol_inv hk t h) _
      st vs st' hs hv
  | .struct name fields => by
    -- the fields, read to the end of the list
    intro st v st' hs h
    rw [decodeTy] at h
    obtain ⟨size, s₁, hl, h⟩ := ebind_ok_inv h
    have hl := wrapErr_ok_inv hl
    obtain ⟨vs, s₂, hf, h⟩ := ebind_ok_inv h
    obtain ⟨u, s₃, he, h⟩ := ebind_ok_inv h
    cases h
    obtain ⟨hr₂, hc₂, -⟩ := decodeFields_parses name fields s₁ vs s₂ (List_ready hs hl) hf
    obtain ⟨hlen, hr, hc, hk⟩ := list_frame_inv hs hl hr₂ hc₂ (wrapErr_ok_inv he)
    rw [← hlen] at hr hc
    rw [encodeItem_list]
    exact ⟨hr, hc, hk⟩
  | .ptr t => by
    rw [decodeTy]
    exact decodeTy_parses t

/-- The fields of a struct are read one after another. -/
theorem decodeFields_parses (name : String) :
    ∀ fields : List (String × Ty), Parses (decodeFields name fields) encodeItems
  | [] => by
    intro st vs st' hs h
    cases h
    exact ⟨by simp [encodeItems], Consumed.refl st, hs.kind⟩
  | (f, t) :: fields => by
    intro st vs st' hs h
    rw [decodeFields] at h
    obtain ⟨v, s₁, hv, h⟩ := ebind_ok_inv h
    -- the handler of a field's error only throws, so the field was read
    have hv : decodeTy t st = .ok v s₁ := by
      rcases tryCatch_ok_inv hv with hv | ⟨e, s₀, -, hv⟩
      · exact hv
      · cases hv
    obtain ⟨vs', s₂, hf, h⟩ := ebind_ok_inv h
    cases h
    obtain ⟨hr, hc, hk⟩ := decodeTy_parses t st v s₁ hs hv
    obtain ⟨hr', hc', hk'⟩ := decodeFields_parses name fields s₁ vs' st' (hs.of_consumed hc hk) hf
    refine ⟨by rw [hr, hr', encodeItems, List.append_assoc], ?_, hk'⟩
    rw [encodeItems, List.length_append]
    exact hc.trans hc'

end

/-! ### One value -/

/-- `DecodeBytes` accepts only the encoding of the value it returns. -/
theorem encodeItem_of_DecodeBytes {t : Ty} {b : Bytes} {v : Value}
    (h : DecodeBytes t b = .ok v) : encodeItem v = b := by
  unfold DecodeBytes at h
  split at h
  · rename_i v' st hd
    split_ifs at h with hrest
    cases h
    -- the handler of `Decode` only throws
    have hd : decodeTy t (NewStream b) = .ok v st := by
      rcases tryCatch_ok_inv hd with hd | ⟨e, s₁, -, hd⟩
      · exact hd
      · cases hd
    obtain ⟨hr, -, -⟩ := decodeTy_parses t _ v st ⟨⟨rfl, rfl⟩, rfl⟩ hd
    have hnil : st.r = [] := List.eq_nil_of_length_eq_zero (by omega)
    rw [hnil, List.append_nil] at hr
    exact hr.symm
  · cases h

/-- The RLP decoder inverts the encoder and accepts nothing else: a value of a type decodes
from its encoding, which fits a Go slice, and every input that decodes as one value is the
encoding of that value. -/
theorem decodeBytes_exactly_canonical (t : Ty) :
    (∀ v, HasTy t v → (encodeItem v).length < 2 ^ 64 → DecodeBytes t (encodeItem v) = .ok v) ∧
      ∀ b v, DecodeBytes t b = .ok v → encodeItem v = b :=
  ⟨fun _ ht hlen => DecodeBytes_encodeItem ht hlen, fun _ _ h => encodeItem_of_DecodeBytes h⟩

theorem decodeBytes_exactly_canonical_bytes :
    HasTy (.slice .bytes) (.list [.bytes [1, 2]]) ∧
      (encodeItem (.list [.bytes [1, 2]])).length < 2 ^ 64 ∧
      DecodeBytes (.slice .bytes) (encodeItem (.list [.bytes [1, 2]])) = .ok (.list [.bytes [1, 2]]) ∧
      encodeItem (.list [.bytes [1, 2]]) = [0xC3, 0x82, 1, 2] := by
  have hty : HasTy (.slice .bytes) (.list [.bytes [1, 2]]) := by simp [HasTy]
  have hlen : (encodeItem (.list [.bytes [1, 2]])).length < 2 ^ 64 := by decide
  have hdec := (decodeBytes_exactly_canonical (.slice .bytes)).1 _ hty hlen
  exact ⟨hty, hlen, hdec, (decodeBytes_exactly_canonical (.slice .bytes)).2 _ _ hdec⟩

/- A zero byte is not an integer, and a byte below `0x80` is not a string of one byte. -/
example : DecodeBytes .uint64 [0x00] =
    .error (.decodeError "non-canonical integer (leading zero bytes)" "uint64" []) := rfl
example : DecodeBytes .bytes [0x81, 0x05] =
    .error (.decodeError "non-canonical size information" "[]uint8" []) := rfl

end Wanchain.Rlp
