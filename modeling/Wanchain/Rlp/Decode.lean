import Wanchain.Rlp.Encode
import Wanchain.Lib.Machine

/-!
# The RLP decoder

The package rlp decodes through a `Stream`: a byte reader with an input limit, the kind and size
of the value ahead (read once by `Kind` and cached until the value is consumed), and a stack of
the lists being read with the position reached in each. Every read goes through `willRead`,
which checks the read against the innermost list and the input limit. The typed decoders are
built on `Kind`, `Bytes`, `uint`, `List` and `ListEnd`; a struct or a slice is a list of its
fields or elements.

The decoder inverts the encoder (`DecodeBytes_encodeItem`): a value of a type decodes from its
encoding back to itself. The proof follows what each decoder does to a stream positioned at an
encoding (`Reads`): it returns the value, consumes the encoding and counts it in the innermost
list. Inside a list, the decoders meet the end of the list with `EOL` (`decodeTy_eol`), which
ends the loop over a slice's elements.
-/

namespace Wanchain.Rlp

open Machine

/-- The errors of the decoder. -/
inductive RlpError where
  | EOL
  | ErrExpectedString
  | ErrExpectedList
  | ErrCanonInt
  | ErrCanonSize
  | ErrElemTooLarge
  | ErrValueTooLarge
  | ErrMoreThanOneValue
  | errNotInList
  | errNotAtEOL
  | errUintOverflow
  | EOF
  | ErrUnexpectedEOF
  /-- `decodeError`: a message, the Go type decoded into, and the path to the failing field,
  innermost first. -/
  | decodeError (msg typ : String) (ctx : List String)
  deriving DecidableEq, Repr

/-- `Error()`. -/
def RlpError.Error : RlpError → String
  | .EOL => "rlp: end of list"
  | .ErrExpectedString => "rlp: expected String or Byte"
  | .ErrExpectedList => "rlp: expected List"
  | .ErrCanonInt => "rlp: non-canonical integer format"
  | .ErrCanonSize => "rlp: non-canonical size information"
  | .ErrElemTooLarge => "rlp: element is larger than containing list"
  | .ErrValueTooLarge => "rlp: value size exceeds available input length"
  | .ErrMoreThanOneValue => "rlp: input contains more than one value"
  | .errNotInList => "rlp: call of ListEnd outside of any list"
  | .errNotAtEOL => "rlp: call of ListEnd not positioned at EOL"
  | .errUintOverflow => "rlp: uint overflow"
  | .EOF => "EOF"
  | .ErrUnexpectedEOF => "unexpected EOF"
  | .decodeError msg typ ctx =>
    "rlp: " ++ msg ++ " for " ++ typ ++
      (if ctx = [] then "" else ", decoding into " ++ String.join ctx.reverse)

/-- `Kind`: the kind of the value ahead. -/
inductive Kind where
  | Byte
  | String
  | List
  deriving DecidableEq, Repr

/-- `listpos`: the bytes of a list read so far, and its size. -/
structure ListPos where
  pos : ℕ
  size : ℕ
  deriving DecidableEq, Repr

/-- `Stream`, reading from a byte slice. `kind` is `none` where the source has `-1`. -/
structure Stream where
  r : Bytes
  remaining : ℕ
  limited : Bool
  kind : Option Kind
  size : ℕ
  byteval : UInt8
  kinderr : Option RlpError
  stack : List ListPos

/-- The decoder's monad: a computation on the stream that can fail. -/
abbrev StreamM := EStateM RlpError Stream

/-- The stack after `n` more bytes of the innermost list are read. -/
def bump : List ListPos → ℕ → List ListPos
  | [], _ => []
  | tos :: rest, n => ⟨tos.pos + n, tos.size⟩ :: rest

/-- `NewStream` on a `bytes.Reader` of `b` with the input limit `len(b)`. -/
def NewStream (b : Bytes) : Stream :=
  ⟨b, b.length, true, none, 0, 0, none, []⟩

/-- `willRead`: re-arm `Kind`, count `n` bytes in the innermost list and against the limit. -/
def Stream.willRead (n : ℕ) : StreamM Unit := do
  modify fun s => { s with kind := none }
  let s ← get
  match s.stack with
  | tos :: _ =>
    if n > tos.size - tos.pos then throw .ErrElemTooLarge
    set { s with stack := bump s.stack n }
  | [] => pure ()
  let s ← get
  if s.limited then
    if n > s.remaining then throw .ErrValueTooLarge
    set { s with remaining := s.remaining - n }

/-- `readByte`. -/
def Stream.readByte : StreamM UInt8 := do
  Stream.willRead 1
  let s ← get
  match s.r with
  | b :: r =>
    set { s with r := r }
    pure b
  | [] => throw .ErrUnexpectedEOF

/-- `readFull` of `n` bytes; a short reader is drained before the error. -/
def Stream.readFull (n : ℕ) : StreamM Bytes := do
  Stream.willRead n
  let s ← get
  set { s with r := s.r.drop n }
  if s.r.length < n then throw .ErrUnexpectedEOF
  pure (s.r.take n)

/-- `readUint`: a big-endian integer of `size` bytes with no leading zero byte. -/
def Stream.readUint (size : ℕ) : StreamM ℕ := do
  if size = 0 then
    modify fun s => { s with kind := none }
    pure 0
  else if size = 1 then
    let b ← Stream.readByte
    pure b.toNat
  else
    let b ← Stream.readFull size
    if b.headD 0 = 0 then throw .ErrCanonSize
    pure (setBytes b)

/-- The size of a long string or list: `readUint` of the length of the size, which must be at
least `56`. -/
def Stream.readLongSize (kind : Rlp.Kind) (lenOfSize : ℕ) :
    StreamM (Rlp.Kind × ℕ × Option RlpError) := do
  match ← attempt (Stream.readUint lenOfSize) with
  | .error err => pure (kind, 0, some err)
  | .ok size => pure (kind, size, if size < 56 then some .ErrCanonSize else none)

/-- `readKind`: the type tag of the value ahead, as the kind, the size and the error that the
source returns together. -/
def Stream.readKind : StreamM (Rlp.Kind × ℕ × Option RlpError) := do
  match ← attempt Stream.readByte with
  | .error err =>
    let s ← get
    -- at the top level the end of the input is `io.EOF`
    let err := if s.stack = [] ∧ (err = .ErrUnexpectedEOF ∨ err = .ErrValueTooLarge) then .EOF
      else err
    pure (.Byte, 0, some err)
  | .ok b =>
    modify fun s => { s with byteval := 0 }
    if b < 0x80 then
      modify fun s => { s with byteval := b }
      pure (.Byte, 0, none)
    else if b < 0xB8 then pure (.String, (b - 0x80).toNat, none)
    else if b < 0xC0 then Stream.readLongSize .String (b - 0xB7).toNat
    else if b < 0xF8 then pure (.List, (b - 0xC0).toNat, none)
    else Stream.readLongSize .List (b - 0xF7).toNat

/-- The innermost list is read to its end. -/
def atEOL : List ListPos → Bool
  | tos :: _ => tos.pos = tos.size
  | [] => false

/-- The kind, size and error cached in the stream. -/
def Stream.cached : StreamM (Rlp.Kind × ℕ × Option RlpError) := do
  let s ← get
  pure (s.kind.getD .Byte, s.size, s.kinderr)

/-- The read of a new type tag in `Kind`: `readKind`, cached, with the size checked against the
innermost list or, at the top level, against the input limit. -/
def Stream.readKindChecked : StreamM Unit := do
  let (kind, size, err) ← Stream.readKind
  modify fun s => { s with kind := some kind, size := size, kinderr := err }
  if err = none then
    let s ← get
    match s.stack with
    | [] => if s.limited ∧ size > s.remaining then set { s with kinderr := some .ErrValueTooLarge }
    | tos :: _ => if size > tos.size - tos.pos then set { s with kinderr := some .ErrElemTooLarge }

/-- `Kind`: the kind and size of the value ahead, read once and cached, with the error of that
read, which stays until the value is consumed. At the end of the innermost list it is `EOL`. -/
def Stream.Kind : StreamM (Rlp.Kind × ℕ × Option RlpError) := do
  let s ← get
  if s.kind = none then
    set { s with kinderr := none }
    if atEOL s.stack then pure (.Byte, 0, some .EOL)
    else
      Stream.readKindChecked
      Stream.cached
  else Stream.cached

/-- `kind, size, err := s.Kind(); if err != nil { return err }`. -/
def Stream.KindE : StreamM (Rlp.Kind × ℕ) := do
  let (kind, size, err) ← Stream.Kind
  match err with
  | some err => throw err
  | none => pure (kind, size)

/-- `Bytes`: an RLP string. -/
def Stream.Bytes : StreamM Wanchain.Bytes := do
  let (kind, size) ← Stream.KindE
  match kind with
  | .Byte =>
    modify fun s => { s with kind := none }
    let s ← get
    pure [s.byteval]
  | .String =>
    let b ← Stream.readFull size
    if size = 1 ∧ b.headD 0 < 128 then throw .ErrCanonSize
    pure b
  | .List => throw .ErrExpectedString

/-- `uint`: an RLP string of at most `maxbits / 8` bytes read as an integer. -/
def Stream.uint (maxbits : ℕ) : StreamM ℕ := do
  let (kind, size) ← Stream.KindE
  match kind with
  | .Byte =>
    let s ← get
    if s.byteval = 0 then throw .ErrCanonInt
    set { s with kind := none }
    pure s.byteval.toNat
  | .String =>
    if size > maxbits / 8 then throw .errUintOverflow
    match ← attempt (Stream.readUint size) with
    | .error .ErrCanonSize => throw .ErrCanonInt
    | .error err => throw err
    | .ok v => if size > 0 ∧ v < 128 then throw .ErrCanonSize else pure v
  | .List => throw .ErrExpectedString

/-- `List`: enter a list; returns its size. -/
def Stream.List : StreamM ℕ := do
  let (kind, size) ← Stream.KindE
  if kind ≠ .List then throw .ErrExpectedList
  modify fun s => { s with stack := ⟨0, size⟩ :: s.stack, kind := none, size := 0 }
  pure size

/-- `ListEnd`: leave a list read to its end, counting it in the enclosing list. -/
def Stream.ListEnd : StreamM Unit := do
  let s ← get
  match s.stack with
  | [] => throw .errNotInList
  | tos :: rest =>
    if tos.pos ≠ tos.size then throw .errNotAtEOL
    set { s with stack := bump rest tos.size, kind := none, size := 0 }

/-! ### Typed decoders -/

/-- The Go types the node decodes RLP into. -/
inductive Ty where
  | uint64
  | bytes
  | bigInt
  | slice (elem : Ty)
  | struct (name : String) (fields : List (String × Ty))
  | ptr (elem : Ty)

/-- The name of a type in an error message. -/
def Ty.name : Ty → String
  | .uint64 => "uint64"
  | .bytes => "[]uint8"
  | .bigInt => "*big.Int"
  | .slice t => "[]" ++ t.name
  | .struct name _ => name
  | .ptr t => "*" ++ t.name

/-- `wrapStreamError`: the stream's errors about the input's shape, as errors about the type. -/
def wrapStreamError (err : RlpError) (typ : String) : RlpError :=
  match err with
  | .ErrCanonInt => .decodeError "non-canonical integer (leading zero bytes)" typ []
  | .ErrCanonSize => .decodeError "non-canonical size information" typ []
  | .ErrExpectedList => .decodeError "expected input list" typ []
  | .ErrExpectedString => .decodeError "expected input string or byte" typ []
  | .errUintOverflow => .decodeError "input string too long" typ []
  | .errNotAtEOL => .decodeError "input list has too many elements" typ []
  | err => err

/-- `addErrorContext`: the field or index a decode error happened in. -/
def addErrorContext (err : RlpError) (ctx : String) : RlpError :=
  match err with
  | .decodeError msg typ c => .decodeError msg typ (c ++ [ctx])
  | err => err

/-- A stream operation whose error is passed through `wrapStreamError`. -/
def wrapErr {α : Type} (typ : String) (x : StreamM α) : StreamM α :=
  tryCatch x fun err => throw (wrapStreamError err typ)

/-- `decodeUint` into a `uint64`. -/
def decodeUint : StreamM Value := do
  let num ← wrapErr "uint64" (Stream.uint 64)
  pure (.uint (UInt64.ofNat num))

/-- `decodeByteSlice`. -/
def decodeByteSlice : StreamM Value := do
  let b ← wrapErr "[]uint8" Stream.Bytes
  pure (.bytes b)

/-- `decodeBigInt`: a string with no leading zero byte. -/
def decodeBigInt : StreamM Value := do
  let b ← wrapErr "*big.Int" Stream.Bytes
  if b ≠ [] ∧ b.headD 0 = 0 then throw (wrapStreamError .ErrCanonInt "*big.Int")
  pure (.bigInt (setBytes b))

/-- The loop of `decodeSliceElems`: elements until `EOL`. Each element read consumes a byte, so
`fuel` above the input's length never runs out. -/
def decodeSliceElemsLoop (elemdec : StreamM Value) : ℕ → List Value → StreamM (List Value)
  | 0, acc => pure acc.reverse
  | fuel + 1, acc => do
    match ← attempt elemdec with
    | .error .EOL => pure acc.reverse
    | .error err => throw (addErrorContext err ("[" ++ toString acc.length ++ "]"))
    | .ok v => decodeSliceElemsLoop elemdec fuel (v :: acc)

/-- `decodeSliceElems`. -/
def decodeSliceElems (elemdec : StreamM Value) : StreamM (List Value) := do
  let s ← get
  decodeSliceElemsLoop elemdec (s.r.length + 1) []

/-- `decodeListSlice`. -/
def decodeListSlice (typ : String) (elemdec : StreamM Value) : StreamM (List Value) := do
  let size ← wrapErr typ Stream.List
  if size = 0 then
    Stream.ListEnd
    pure []
  else
    let vs ← decodeSliceElems elemdec
    Stream.ListEnd
    pure vs

mutual

/-- The decoder `makeDecoder` makes for a type. -/
def decodeTy : Ty → StreamM Value
  | .uint64 => decodeUint
  | .bytes => decodeByteSlice
  | .bigInt => decodeBigInt
  | .slice t => Value.list <$> decodeListSlice (Ty.slice t).name (decodeTy t)
  | .struct name fields => do
    let _ ← wrapErr name Stream.List
    let vs ← decodeFields name fields
    wrapErr name Stream.ListEnd
    pure (.list vs)
  | .ptr t => decodeTy t

/-- The fields of a struct, in order; the end of the list before the last field is an error. -/
def decodeFields (name : String) : List (String × Ty) → StreamM (List Value)
  | [] => pure []
  | (f, t) :: fields => do
    let v ← tryCatch (decodeTy t) fun err =>
      throw (if err = .EOL then .decodeError "too few elements" name []
        else addErrorContext err ("." ++ f))
    let vs ← decodeFields name fields
    pure (v :: vs)

end

/-- `Stream.Decode` into a value of type `t`: a decode error with a path also names `t`. -/
def Decode (t : Ty) : StreamM Value :=
  tryCatch (decodeTy t) fun err =>
    throw (match err with
      | .decodeError msg typ ctx =>
        if ctx = [] then err else .decodeError msg typ (ctx ++ ["(" ++ t.name ++ ")"])
      | err => err)

/-- `DecodeBytes`: exactly one value, with no data after it. -/
def DecodeBytes (t : Ty) (b : Bytes) : Except RlpError Value :=
  match Decode t (NewStream b) with
  | .ok v s => if s.r.length > 0 then .error .ErrMoreThanOneValue else .ok v
  | .error err _ => .error err

/-! ### The decoder on an encoding -/

/-- The innermost list has room for `n` more bytes. -/
def Room : List ListPos → ℕ → Prop
  | [], _ => True
  | tos :: _, n => n ≤ tos.size - tos.pos

/-- The stream after `n` bytes are read. -/
def advance (s : Stream) (n : ℕ) : Stream :=
  { s with r := s.r.drop n, remaining := s.remaining - n, stack := bump s.stack n, kind := none }

/-- The stream reads a byte slice to its end: its input limit is what is left of the slice. -/
structure SliceReader (s : Stream) : Prop where
  limited : s.limited = true
  remaining : s.remaining = s.r.length

/-- A stream at the start of a value: a slice reader with nothing cached. -/
structure Ready (s : Stream) : Prop extends SliceReader s where
  kind : s.kind = none

section Stack

lemma bump_bump (st : List ListPos) (m n : ℕ) : bump (bump st m) n = bump st (m + n) := by
  cases st with
  | nil => rfl
  | cons tos rest => simp [bump, Nat.add_assoc]

lemma Room.bump {st : List ListPos} {m n : ℕ} (h : Room st (m + n)) : Room (bump st m) n := by
  cases st with
  | nil => trivial
  | cons tos rest =>
    simp only [Room, Rlp.bump] at h ⊢
    omega

lemma Room.mono {st : List ListPos} {m n : ℕ} (h : Room st n) (hle : m ≤ n) : Room st m := by
  cases st with
  | nil => trivial
  | cons tos rest =>
    simp only [Room] at h ⊢
    omega

end Stack

@[simp] lemma advance_r (s : Stream) (n : ℕ) : (advance s n).r = s.r.drop n := rfl
@[simp] lemma advance_stack (s : Stream) (n : ℕ) : (advance s n).stack = bump s.stack n := rfl
@[simp] lemma advance_kind (s : Stream) (n : ℕ) : (advance s n).kind = none := rfl

lemma advance_advance (s : Stream) (m n : ℕ) : advance (advance s m) n = advance s (m + n) := by
  simp only [advance, List.drop_drop, Nat.sub_sub, bump_bump]

lemma SliceReader.advance {s : Stream} (hs : SliceReader s) (n : ℕ) :
    SliceReader (advance s n) :=
  ⟨hs.limited, by simp [Rlp.advance, hs.remaining]⟩

lemma Ready.advance {s : Stream} (hs : SliceReader s) (n : ℕ) : Ready (advance s n) :=
  ⟨hs.advance n, rfl⟩

theorem willRead_ok {s : Stream} {n : ℕ} (hs : SliceReader s) (hn : n ≤ s.r.length)
    (hroom : Room s.stack n) :
    Stream.willRead n s =
      .ok () { s with kind := none, stack := bump s.stack n, remaining := s.remaining - n } := by
  have hrem : ¬ n > s.remaining := by rw [hs.remaining]; omega
  cases hst : s.stack with
  | nil => simp [Stream.willRead, ebind_apply, hst, hs.limited, hrem, bump]
  | cons tos rest =>
    rw [hst] at hroom
    have hfit : ¬ n > tos.size - tos.pos := Nat.not_lt.mpr hroom
    simp [Stream.willRead, ebind_apply, hst, hs.limited, hrem, hfit, bump]

theorem readByte_ok {s : Stream} {b : UInt8} {rest : Bytes} (hs : SliceReader s)
    (hr : s.r = b :: rest) (hroom : Room s.stack 1) :
    Stream.readByte s = .ok b (advance s 1) := by
  have hw := willRead_ok hs (by simp [hr]) hroom
  simp [Stream.readByte, ebind_apply, emap_apply, hw, hr, advance]

theorem readFull_ok {s : Stream} {n : ℕ} (hs : SliceReader s) (hn : n ≤ s.r.length)
    (hroom : Room s.stack n) :
    Stream.readFull n s = .ok (s.r.take n) (advance s n) := by
  have hw := willRead_ok hs hn hroom
  have hlen : ¬ s.r.length < n := Nat.not_lt.mpr hn
  simp [Stream.readFull, ebind_apply, hw, hlen, advance]


lemma bigBytes_headD_ne_zero {n : ℕ} (hn : n ≠ 0) : (bigBytes n).headD 0 ≠ 0 := by
  have hne : Nat.digits 256 n ≠ [] := Nat.digits_ne_nil_iff_ne_zero.mpr hn
  have hlast := Nat.getLast_digit_ne_zero 256 hn
  have hlt : (Nat.digits 256 n).getLast hne < 256 :=
    Nat.digits_lt_base (by norm_num) (List.getLast_mem hne)
  -- the first byte is the last digit, which is not zero
  rw [bigBytes, ← List.dropLast_append_getLast hne, List.map_append, List.reverse_append]
  simp only [List.map_cons, List.map_nil, List.reverse_cons, List.reverse_nil, List.nil_append,
    List.cons_append, List.headD_cons]
  intro h
  have := congrArg UInt8.toNat h
  rw [UInt8.toNat_ofNat', Nat.mod_eq_of_lt (by simpa using hlt)] at this
  exact hlast (by simpa using this)

lemma toNat_tag_add {t : UInt8} {n : ℕ} (h : t.toNat + n < 256) :
    (t + UInt8.ofNat n).toNat = t.toNat + n := by
  rw [UInt8.toNat_add, UInt8.toNat_ofNat', Nat.mod_eq_of_lt (by omega : n < 2 ^ 8)]
  exact Nat.mod_eq_of_lt h

theorem readUint_bigBytes {s : Stream} {n : ℕ} {rest : Bytes} (hs : SliceReader s) (hn : n ≠ 0)
    (hr : s.r = bigBytes n ++ rest) (hroom : Room s.stack (bigBytes n).length) :
    Stream.readUint (bigBytes n).length s = .ok n (advance s (bigBytes n).length) := by
  have hpos : (bigBytes n).length ≠ 0 := by simpa using bigBytes_ne_nil hn
  by_cases h1 : (bigBytes n).length = 1
  · -- one byte is read with readByte
    have hn256 : n < 256 := by simpa using length_bigBytes_le_iff.mp h1.le
    have hx : bigBytes n = [UInt8.ofNat n] := bigBytes_of_lt hn hn256
    rw [hx] at hr
    rw [h1] at hroom ⊢
    have hval : (UInt8.ofNat n).toNat = n := by rw [UInt8.toNat_ofNat']; omega
    simp [Stream.readUint, ebind_apply, readByte_ok hs hr hroom, hval]
  · -- more bytes are read with readFull, and the first is not zero
    have hfull := readFull_ok hs (n := (bigBytes n).length) (by simp [hr]) hroom
    have htake : s.r.take (bigBytes n).length = bigBytes n := by simp [hr]
    have hhead : ¬ (bigBytes n).head?.getD 0 = 0 := by simpa using bigBytes_headD_ne_zero hn
    simp [Stream.readUint, hpos, h1, ebind_apply, hfull, htake, hhead]

theorem readLongSize_ok {s : Stream} {n : ℕ} {rest : Bytes} (kind : Rlp.Kind)
    (hs : SliceReader s) (hn : 56 ≤ n) (hr : s.r = bigBytes n ++ rest)
    (hroom : Room s.stack (bigBytes n).length) :
    Stream.readLongSize kind (bigBytes n).length s =
      .ok (kind, n, none) (advance s (bigBytes n).length) := by
  have hsize : ¬ n < 56 := by omega
  simp [Stream.readLongSize, ebind_apply, attempt_ok (readUint_bigBytes hs (by omega) hr hroom),
    hsize]


lemma toNat_tag_sub {t : UInt8} {n : ℕ} (h : t.toNat + n < 256) :
    (t + UInt8.ofNat n - t).toNat = n := by
  have ht := toNat_tag_add h
  rw [UInt8.toNat_sub_of_le _ _ (UInt8.le_iff_toNat_le.mpr (by omega)), ht]
  omega

lemma advance_byteval (s : Stream) (b : UInt8) (n : ℕ) :
    advance { s with byteval := b } n = { advance s n with byteval := b } := rfl

/-- The length of a long size fits the type tag. -/
lemma length_bigBytes_of_long {n : ℕ} (hn : 56 ≤ n) (hn64 : n < 2 ^ 64) :
    1 ≤ (bigBytes n).length ∧ (bigBytes n).length ≤ 8 := by
  refine ⟨List.length_pos_of_ne_nil (bigBytes_ne_nil (by omega)), ?_⟩
  rw [length_bigBytes_le_iff]
  simpa using hn64

lemma intsize_of_ne {n : ℕ} (hn : n ≠ 0) : intsize n = (bigBytes n).length := by
  rw [intsize, putint_of_ne hn]

theorem readKind_byte {s : Stream} {b : UInt8} {rest : Bytes} (hs : SliceReader s)
    (hr : s.r = b :: rest) (hb : b ≤ 0x7F) (hroom : Room s.stack 1) :
    Stream.readKind s = .ok (.Byte, 0, none) { advance s 1 with byteval := b } := by
  have hlt : b < 0x80 := by
    rw [UInt8.le_iff_toNat_le] at hb
    rw [UInt8.lt_iff_toNat_lt]
    simp only [UInt8.reduceToNat] at hb ⊢
    omega
  simp [Stream.readKind, ebind_apply, emap_apply, attempt_ok (readByte_ok hs hr hroom), hlt]

theorem readKind_string {s : Stream} {n : ℕ} {rest : Bytes} (hs : SliceReader s)
    (hn : n < 2 ^ 64) (hr : s.r = encodeStringHeader n ++ rest)
    (hroom : Room s.stack (headsize n)) :
    Stream.readKind s = .ok (.String, n, none) { advance s (headsize n) with byteval := 0 } := by
  unfold encodeStringHeader puthead at hr
  by_cases hsmall : n < 56
  · -- a short string: one tag byte holds the size
    rw [if_pos hsmall] at hr
    rw [headsize, if_pos hsmall] at hroom ⊢
    have ht := toNat_tag_add (t := 0x80) (n := n) (by simp; omega)
    have h1 : ¬ (0x80 : UInt8) + UInt8.ofNat n < 0x80 := by simp [UInt8.lt_iff_toNat_lt, ht]
    have h2 : (0x80 : UInt8) + UInt8.ofNat n < 0xB8 := by
      simp only [UInt8.lt_iff_toNat_lt, ht]; simp; omega
    have h3 := toNat_tag_sub (t := 0x80) (n := n) (by simp; omega)
    have h256 : n < 256 := by omega
    simp [Stream.readKind, ebind_apply, attempt_ok (readByte_ok hs hr hroom), h1, h2, h3, h256]
  · -- a long string: the tag byte holds the length of the size
    obtain ⟨hk1, hk8⟩ := length_bigBytes_of_long (by omega) hn
    rw [if_neg hsmall, putint_of_ne (by omega), intsize_of_ne (by omega)] at hr
    rw [headsize, if_neg hsmall, intsize_of_ne (by omega)] at hroom ⊢
    have ht := toNat_tag_add (t := 0xB7) (n := (bigBytes n).length) (by simp; omega)
    have h1 : ¬ (0xB7 : UInt8) + UInt8.ofNat (bigBytes n).length < 0x80 := by
      simp only [UInt8.lt_iff_toNat_lt, ht]; simp; omega
    have h2 : ¬ (0xB7 : UInt8) + UInt8.ofNat (bigBytes n).length < 0xB8 := by
      simp only [UInt8.lt_iff_toNat_lt, ht]; simp; omega
    have h3 : (0xB7 : UInt8) + UInt8.ofNat (bigBytes n).length < 0xC0 := by
      simp only [UInt8.lt_iff_toNat_lt, ht]; simp; omega
    have h4 := toNat_tag_sub (t := 0xB7) (n := (bigBytes n).length) (by simp; omega)
    have hr1 : (advance s 1).r = bigBytes n ++ rest := by simp [hr]
    have hsize := readLongSize_ok .String (s := { advance s 1 with byteval := 0 })
      ⟨(hs.advance 1).limited, (hs.advance 1).remaining⟩ (by omega) hr1 (Room.bump hroom)
    rw [Stream.readKind, ebind_ok (attempt_ok (readByte_ok hs hr (hroom.mono (by omega))))]
    dsimp only
    rw [ebind_ok (emodify_apply _ _)]
    rw [if_neg h1, if_neg h2, if_pos h3, h4]
    refine hsize.trans ?_
    rw [advance_byteval, advance_advance]

theorem readKind_list {s : Stream} {n : ℕ} {rest : Bytes} (hs : SliceReader s)
    (hn : n < 2 ^ 64) (hr : s.r = puthead 0xC0 0xF7 n ++ rest)
    (hroom : Room s.stack (headsize n)) :
    Stream.readKind s = .ok (.List, n, none) { advance s (headsize n) with byteval := 0 } := by
  unfold puthead at hr
  by_cases hsmall : n < 56
  · -- a short list: one tag byte holds the size
    rw [if_pos hsmall] at hr
    rw [headsize, if_pos hsmall] at hroom ⊢
    have ht := toNat_tag_add (t := 0xC0) (n := n) (by simp; omega)
    have h1 : ¬ (0xC0 : UInt8) + UInt8.ofNat n < 0x80 := by
      simp only [UInt8.lt_iff_toNat_lt, ht]; simp; omega
    have h2 : ¬ (0xC0 : UInt8) + UInt8.ofNat n < 0xB8 := by
      simp only [UInt8.lt_iff_toNat_lt, ht]; simp; omega
    have h3 : ¬ (0xC0 : UInt8) + UInt8.ofNat n < 0xC0 := by
      simp only [UInt8.lt_iff_toNat_lt, ht]; simp
    have h4 : (0xC0 : UInt8) + UInt8.ofNat n < 0xF8 := by
      simp only [UInt8.lt_iff_toNat_lt, ht]; simp; omega
    have h5 := toNat_tag_sub (t := 0xC0) (n := n) (by simp; omega)
    have h256 : n < 256 := by omega
    simp [Stream.readKind, ebind_apply, attempt_ok (readByte_ok hs hr hroom), h1, h2, h3, h4, h5,
      h256]
  · -- a long list: the tag byte holds the length of the size
    obtain ⟨hk1, hk8⟩ := length_bigBytes_of_long (by omega) hn
    rw [if_neg hsmall, putint_of_ne (by omega), intsize_of_ne (by omega)] at hr
    rw [headsize, if_neg hsmall, intsize_of_ne (by omega)] at hroom ⊢
    have ht := toNat_tag_add (t := 0xF7) (n := (bigBytes n).length) (by simp; omega)
    have h1 : ¬ (0xF7 : UInt8) + UInt8.ofNat (bigBytes n).length < 0x80 := by
      simp only [UInt8.lt_iff_toNat_lt, ht]; simp; omega
    have h2 : ¬ (0xF7 : UInt8) + UInt8.ofNat (bigBytes n).length < 0xB8 := by
      simp only [UInt8.lt_iff_toNat_lt, ht]; simp; omega
    have h3 : ¬ (0xF7 : UInt8) + UInt8.ofNat (bigBytes n).length < 0xC0 := by
      simp only [UInt8.lt_iff_toNat_lt, ht]; simp; omega
    have h4 : ¬ (0xF7 : UInt8) + UInt8.ofNat (bigBytes n).length < 0xF8 := by
      simp only [UInt8.lt_iff_toNat_lt, ht]; simp; omega
    have h5 := toNat_tag_sub (t := 0xF7) (n := (bigBytes n).length) (by simp; omega)
    have hr1 : (advance s 1).r = bigBytes n ++ rest := by simp [hr]
    have hsize := readLongSize_ok .List (s := { advance s 1 with byteval := 0 })
      ⟨(hs.advance 1).limited, (hs.advance 1).remaining⟩ (by omega) hr1 (Room.bump hroom)
    rw [Stream.readKind, ebind_ok (attempt_ok (readByte_ok hs hr (hroom.mono (by omega))))]
    dsimp only
    rw [ebind_ok (emodify_apply _ _)]
    rw [if_neg h1, if_neg h2, if_neg h3, if_neg h4, h5]
    refine hsize.trans ?_
    rw [advance_byteval, advance_advance]

/-- `s'` is `s` with `n` more bytes read, whatever it caches. -/
structure Consumed (s s' : Stream) (n : ℕ) : Prop where
  r : s'.r = s.r.drop n
  remaining : s'.remaining = s.remaining - n
  limited : s'.limited = s.limited
  stack : s'.stack = bump s.stack n

lemma Consumed.trans {s s₁ s₂ : Stream} {m n : ℕ} (h₁ : Consumed s s₁ m) (h₂ : Consumed s₁ s₂ n) :
    Consumed s s₂ (m + n) :=
  ⟨by rw [h₂.r, h₁.r, List.drop_drop], by rw [h₂.remaining, h₁.remaining, Nat.sub_sub],
    h₂.limited.trans h₁.limited, by rw [h₂.stack, h₁.stack, bump_bump]⟩

lemma SliceReader.of_consumed {s s' : Stream} {n : ℕ} (hs : SliceReader s) (h : Consumed s s' n) :
    SliceReader s' :=
  ⟨h.limited.trans hs.limited, by rw [h.remaining, h.r, hs.remaining, List.length_drop]⟩

theorem readKindChecked_ok {s s₁ : Stream} {kind : Rlp.Kind} {size : ℕ}
    (hread : Stream.readKind s = .ok (kind, size, none) s₁) (hroom : Room s₁.stack size)
    (hlim : size ≤ s₁.remaining) :
    Stream.readKindChecked s =
      .ok () { s₁ with kind := some kind, size := size, kinderr := none } := by
  have hlim' : ¬ (s₁.limited = true ∧ size > s₁.remaining) := fun h => by omega
  cases hst : s₁.stack with
  | nil => simp [Stream.readKindChecked, ebind_apply, hread, hst, hlim']
  | cons tos rest =>
    rw [hst] at hroom
    have hfit : ¬ size > tos.size - tos.pos := Nat.not_lt.mpr hroom
    simp [Stream.readKindChecked, ebind_apply, hread, hst, hfit]

/-- `Kind` on a new value: the tag that `readKind` reads, checked and cached. -/
theorem KindE_ok {s s₁ : Stream} {kind : Rlp.Kind} {size : ℕ} (hk : s.kind = none)
    (hopen : Room s.stack 1)
    (hread : Stream.readKind { s with kinderr := none } = .ok (kind, size, none) s₁)
    (hroom : Room s₁.stack size) (hlim : size ≤ s₁.remaining) :
    Stream.KindE s = .ok (kind, size) { s₁ with kind := some kind, size := size, kinderr := none } := by
  have heol : atEOL s.stack = false := by
    cases hst : s.stack with
    | nil => rfl
    | cons tos rest =>
      rw [hst] at hopen
      simp only [Room] at hopen
      simp [atEOL]
      omega
  have hkind : Stream.Kind s =
      .ok (kind, size, none) { s₁ with kind := some kind, size := size, kinderr := none } := by
    rw [Stream.Kind, ebind_ok (eget_apply s)]
    rw [if_pos hk, ebind_ok (eset_apply _ _), heol, if_neg Bool.false_ne_true,
      ebind_ok (readKindChecked_ok hread hroom hlim)]
    rfl
  simp [Stream.KindE, ebind_apply, hkind]

/-- At the end of the innermost list `Kind` is `EOL`, and reads nothing. -/
theorem KindE_eol {s : Stream} (hk : s.kind = none) (heol : atEOL s.stack = true) :
    Stream.KindE s = .error .EOL { s with kinderr := none } := by
  have hkind : Stream.Kind s = .ok (.Byte, 0, some .EOL) { s with kinderr := none } := by
    rw [Stream.Kind, ebind_ok (eget_apply s), if_pos hk, ebind_ok (eset_apply _ _), if_pos heol]
    rfl
  simp [Stream.KindE, ebind_apply, hkind]

lemma Room.zero (st : List ListPos) : Room st 0 := by
  cases st with
  | nil => trivial
  | cons tos rest => exact Nat.zero_le _

lemma headsize_pos (n : ℕ) : 1 ≤ headsize n := by
  unfold headsize
  split_ifs <;> omega

lemma SliceReader.of_kinderr {s : Stream} (hs : SliceReader s) :
    SliceReader { s with kinderr := none } := ⟨hs.limited, hs.remaining⟩

theorem KindE_byte {s : Stream} {b : UInt8} {rest : Bytes} (hs : Ready s) (hr : s.r = b :: rest)
    (hb : b ≤ 0x7F) (hroom : Room s.stack 1) :
    ∃ s₁, Stream.KindE s = .ok (.Byte, 0) s₁ ∧ Consumed s s₁ 1 ∧ s₁.byteval = b :=
  ⟨_, KindE_ok hs.kind hroom (readKind_byte hs.toSliceReader.of_kinderr hr hb hroom)
    (Room.zero _) (Nat.zero_le _), ⟨rfl, rfl, rfl, rfl⟩, rfl⟩

/-- The header of a string or list of `n` bytes, followed by at least `n` bytes: `KindE` reads
its kind and size. -/
theorem KindE_header {s : Stream} {kind : Rlp.Kind} {n : ℕ} {rest : Bytes} (hs : Ready s)
    (hread : Stream.readKind { s with kinderr := none } =
      .ok (kind, n, none) { advance { s with kinderr := none } (headsize n) with byteval := 0 })
    (hr : s.r.length = headsize n + rest.length) (hlen : n ≤ rest.length)
    (hroom : Room s.stack (headsize n + n)) :
    ∃ s₁, Stream.KindE s = .ok (kind, n) s₁ ∧ Consumed s s₁ (headsize n) := by
  have hrem : n ≤ s.remaining - headsize n := by rw [hs.remaining]; omega
  exact ⟨_, KindE_ok hs.kind (hroom.mono (by have := headsize_pos n; omega)) hread
    (Room.bump hroom) hrem, ⟨rfl, rfl, rfl, rfl⟩⟩

theorem KindE_string {s : Stream} {n : ℕ} {rest : Bytes} (hs : Ready s) (hn : n < 2 ^ 64)
    (hr : s.r = encodeStringHeader n ++ rest) (hlen : n ≤ rest.length)
    (hroom : Room s.stack (headsize n + n)) :
    ∃ s₁, Stream.KindE s = .ok (.String, n) s₁ ∧ Consumed s s₁ (headsize n) :=
  KindE_header hs (readKind_string hs.toSliceReader.of_kinderr hn hr (hroom.mono (by omega)))
    (by rw [hr, List.length_append, encodeStringHeader, length_puthead]) hlen hroom

theorem KindE_list {s : Stream} {n : ℕ} {rest : Bytes} (hs : Ready s) (hn : n < 2 ^ 64)
    (hr : s.r = puthead 0xC0 0xF7 n ++ rest) (hlen : n ≤ rest.length)
    (hroom : Room s.stack (headsize n + n)) :
    ∃ s₁, Stream.KindE s = .ok (.List, n) s₁ ∧ Consumed s s₁ (headsize n) :=
  KindE_header hs (readKind_list hs.toSliceReader.of_kinderr hn hr (hroom.mono (by omega)))
    (by rw [hr, List.length_append, length_puthead]) hlen hroom

/-! ### Reading an encoding -/

/-- `d` reads `a` from its encoding `enc`: from a ready stream whose input starts with `enc` and
whose innermost list has room for it, `d` returns `a`, reads exactly `enc` and caches nothing. -/
def Reads {α : Type} (d : StreamM α) (a : α) (enc : Bytes) : Prop :=
  ∀ s rest, Ready s → s.r = enc ++ rest → Room s.stack enc.length →
    ∃ s', d s = .ok a s' ∧ s'.kind = none ∧ Consumed s s' enc.length

lemma Ready.of_consumed {s s' : Stream} {n : ℕ} (hs : Ready s) (h : Consumed s s' n)
    (hk : s'.kind = none) : Ready s' :=
  { toSliceReader := hs.toSliceReader.of_consumed h, kind := hk }

lemma Consumed.r_eq {s s' : Stream} {enc rest : Bytes} (h : Consumed s s' enc.length)
    (hr : s.r = enc ++ rest) : s'.r = rest := by
  rw [h.r, hr, List.drop_left]

lemma Consumed.refl (s : Stream) : Consumed s s 0 :=
  ⟨by simp, by simp, rfl, by cases h : s.stack <;> simp [bump]⟩

section Reads

variable {α β : Type}

theorem Reads.bind {d : StreamM α} {f : α → StreamM β} {a : α} {b : β} {enc₁ enc₂ : Bytes}
    (h₁ : Reads d a enc₁) (h₂ : Reads (f a) b enc₂) : Reads (d >>= f) b (enc₁ ++ enc₂) := by
  intro s rest hs hr hroom
  rw [List.length_append] at hroom
  obtain ⟨s₁, hd, hk₁, hc₁⟩ :=
    h₁ s (enc₂ ++ rest) hs (by rw [hr, List.append_assoc]) (hroom.mono (by omega))
  have hr₁ : s₁.r = enc₂ ++ rest := hc₁.r_eq (by rw [hr, List.append_assoc])
  obtain ⟨s₂, hf, hk₂, hc₂⟩ :=
    h₂ s₁ rest (hs.of_consumed hc₁ hk₁) hr₁ (by rw [hc₁.stack]; exact Room.bump hroom)
  refine ⟨s₂, by rw [ebind_ok hd, hf], hk₂, ?_⟩
  rw [List.length_append]
  exact hc₁.trans hc₂

theorem Reads.pure (a : α) : Reads (Pure.pure a : StreamM α) a [] :=
  fun s _ hs _ _ => ⟨s, rfl, hs.kind, Consumed.refl s⟩

theorem Reads.map {d : StreamM α} {a : α} {enc : Bytes} (g : α → β) (h : Reads d a enc) :
    Reads (g <$> d) (g a) enc := by
  intro s rest hs hr hroom
  obtain ⟨s', hd, hk, hc⟩ := h s rest hs hr hroom
  exact ⟨s', emap_ok hd, hk, hc⟩

theorem Reads.tryCatch {d : StreamM α} {a : α} {enc : Bytes} (handle : RlpError → StreamM α)
    (h : Reads d a enc) : Reads (tryCatch d handle) a enc := by
  intro s rest hs hr hroom
  obtain ⟨s', hd, hk, hc⟩ := h s rest hs hr hroom
  exact ⟨s', tryCatch_ok hd, hk, hc⟩

theorem Reads.wrapErr {d : StreamM α} {a : α} {enc : Bytes} (typ : String) (h : Reads d a enc) :
    Reads (wrapErr typ d) a enc :=
  h.tryCatch _

lemma wrapErr_ok {d : StreamM α} {a : α} {s s' : Stream} (typ : String) (h : d s = .ok a s') :
    wrapErr typ d s = .ok a s' :=
  tryCatch_ok h

theorem Reads.bind_nil {d : StreamM α} {f : α → StreamM β} {a : α} {b : β} {enc : Bytes}
    (h₁ : Reads d a enc) (h₂ : Reads (f a) b []) : Reads (d >>= f) b enc := by
  simpa using h₁.bind h₂

end Reads

theorem Bytes_reads (b : Bytes) (hb : b.length < 2 ^ 64) : Reads Stream.Bytes b (encodeStr b) := by
  intro s rest hs hr hroom
  unfold encodeStr at hr hroom ⊢
  simp only [List.headD_eq_head?_getD] at hr hroom ⊢
  split_ifs at hr hroom ⊢ with hsingle
  · -- a single byte below `0x80` is its own encoding
    obtain ⟨x, rfl⟩ := List.length_eq_one_iff.mp hsingle.1
    obtain ⟨s₁, hkind, hc, hbv⟩ := KindE_byte hs hr (by simpa using hsingle.2) hroom
    refine ⟨{ s₁ with kind := none }, ?_, rfl, ⟨hc.r, hc.remaining, hc.limited, hc.stack⟩⟩
    simp [Stream.Bytes, ebind_apply, emap_apply, hkind, hbv]
  · -- a header, then the bytes
    have hh : (encodeStringHeader b.length).length = headsize b.length := length_puthead _ _ _
    rw [List.append_assoc] at hr
    rw [List.length_append, hh] at hroom ⊢
    obtain ⟨s₁, hkind, hc⟩ := KindE_string hs hb hr (by simp) hroom
    have hr₁ : s₁.r = b ++ rest := by rw [hc.r, hr, ← hh, List.drop_left]
    have hfull := readFull_ok (hs.toSliceReader.of_consumed hc) (n := b.length) (by simp [hr₁])
      (by rw [hc.stack]; exact Room.bump hroom)
    have htake : s₁.r.take b.length = b := by simp [hr₁]
    have hcanon : ¬ (b.length = 1 ∧ b.head?.getD 0 < 128) := by
      rintro ⟨h1, h128⟩
      refine hsingle ⟨h1, ?_⟩
      rw [UInt8.le_iff_toNat_le]
      rw [UInt8.lt_iff_toNat_lt] at h128
      simp only [UInt8.reduceToNat] at h128 ⊢
      omega
    refine ⟨advance s₁ b.length, ?_, rfl, hc.trans ⟨rfl, rfl, rfl, rfl⟩⟩
    simp [Stream.Bytes, ebind_apply, hkind, hfull, htake, hcanon]
theorem readUint_zero (s : Stream) : Stream.readUint 0 s = .ok 0 { s with kind := none } := by
  simp [Stream.readUint, emap_apply]

theorem uint_reads (i : UInt64) :
    Reads (Stream.uint 64) i.toNat (encodeStr (bigBytes i.toNat)) := by
  intro s rest hs hr hroom
  have hk8 : (bigBytes i.toNat).length ≤ 8 :=
    length_bigBytes_le_iff.mpr (by simpa using i.toNat_lt)
  unfold encodeStr at hr hroom ⊢
  simp only [List.headD_eq_head?_getD] at hr hroom ⊢
  split_ifs at hr hroom ⊢ with hsingle
  · -- below `0x80` the integer is its own byte, which is not zero
    obtain ⟨x, hx⟩ := List.length_eq_one_iff.mp hsingle.1
    rw [hx] at hr hroom hsingle ⊢
    have hi : i.toNat = x.toNat := by
      rw [← setBytes_bigBytes i.toNat, hx]
      simp [setBytes]
    have hx0 : x ≠ 0 := by
      rintro rfl
      rw [show i.toNat = 0 by simpa using hi, bigBytes_zero] at hx
      cases hx
    obtain ⟨s₁, hkind, hc, hbv⟩ := KindE_byte hs hr (by simpa using hsingle.2) hroom
    refine ⟨{ s₁ with kind := none }, ?_, rfl, ⟨hc.r, hc.remaining, hc.limited, hc.stack⟩⟩
    simp [Stream.uint, ebind_apply, emap_apply, hkind, hbv, hx0, hi]
  · have hh := length_puthead 0x80 0xB7 (bigBytes i.toNat).length
    rw [List.append_assoc] at hr
    rw [List.length_append] at hroom ⊢
    rw [show (encodeStringHeader (bigBytes i.toNat).length).length =
      headsize (bigBytes i.toNat).length from hh] at hroom ⊢
    obtain ⟨s₁, hkind, hc⟩ := KindE_string hs (by omega) hr (by simp) hroom
    have hr₁ : s₁.r = bigBytes i.toNat ++ rest := by
      rw [hc.r, hr, ← show (encodeStringHeader (bigBytes i.toNat).length).length =
        headsize (bigBytes i.toNat).length from hh, List.drop_left]
    have hsize : ¬ (bigBytes i.toNat).length > 64 / 8 := by omega
    by_cases h0 : i.toNat = 0
    · -- zero is the empty string
      have hz : (bigBytes i.toNat).length = 0 := by simp [h0]
      rw [hz] at hkind hsize hc ⊢
      refine ⟨{ s₁ with kind := none }, ?_, rfl, ⟨hc.r, hc.remaining, hc.limited, hc.stack⟩⟩
      simp [Stream.uint, ebind_apply, hkind, hsize, attempt_ok (readUint_zero s₁), h0]
    · -- a header, then the big-endian bytes, which stand for at least `128`
      have h128 : ¬ i.toNat < 128 := by
        intro hlt
        refine hsingle ⟨?_, ?_⟩ <;> rw [bigBytes_of_lt h0 (by omega)]
        · rfl
        · simp only [List.head?_cons, Option.getD_some, UInt8.le_iff_toNat_le, UInt8.toNat_ofNat',
            UInt8.reduceToNat]
          omega
      have hpos : 0 < (bigBytes i.toNat).length := List.length_pos_of_ne_nil (bigBytes_ne_nil h0)
      have hread := readUint_bigBytes (hs.toSliceReader.of_consumed hc) h0 hr₁
        (by rw [hc.stack]; exact Room.bump hroom)
      refine ⟨advance s₁ (bigBytes i.toNat).length, ?_, rfl, hc.trans ⟨rfl, rfl, rfl, rfl⟩⟩
      simp [Stream.uint, ebind_apply, hkind, hsize, attempt_ok hread, h128]

theorem decodeUint_reads (i : UInt64) : Reads decodeUint (.uint i) (encodeItem (.uint i)) := by
  unfold decodeUint
  refine ((uint_reads i).wrapErr _).bind_nil ?_
  rw [UInt64.ofNat_toNat]
  exact Reads.pure _

theorem decodeByteSlice_reads (b : Bytes) (hb : b.length < 2 ^ 64) :
    Reads decodeByteSlice (.bytes b) (encodeItem (.bytes b)) := by
  unfold decodeByteSlice
  exact ((Bytes_reads b hb).wrapErr _).bind_nil (Reads.pure _)

theorem decodeBigInt_reads (n : ℕ) (hn : (bigBytes n).length < 2 ^ 64) :
    Reads decodeBigInt (.bigInt n) (encodeItem (.bigInt n)) := by
  -- the bytes of a big integer have no leading zero
  have hcanon : ¬ (bigBytes n ≠ [] ∧ (bigBytes n).headD 0 = 0) := by
    rintro ⟨hne, h0⟩
    exact bigBytes_headD_ne_zero (fun h => hne (by rw [h, bigBytes_zero])) h0
  unfold decodeBigInt
  refine ((Bytes_reads _ hn).wrapErr _).bind_nil ?_
  rw [if_neg hcanon, setBytes_bigBytes]
  exact Reads.pure _

/-! ### Lists -/

/-- `body` reads `b` from the whole rest of the innermost list, `payload`. -/
def ReadsList {β : Type} (body : StreamM β) (b : β) (payload : Bytes) : Prop :=
  ∀ s rest p st, Ready s → s.r = payload ++ rest → s.stack = ⟨p, p + payload.length⟩ :: st →
    ∃ s', body s = .ok b s' ∧ s'.kind = none ∧ Consumed s s' payload.length

theorem Reads.readsList {β : Type} {body : StreamM β} {b : β} {payload : Bytes}
    (h : Reads body b payload) : ReadsList body b payload := by
  intro s rest p st hs hr hst
  refine h s rest hs hr ?_
  rw [hst]
  simp [Room]

theorem List_ok {s : Stream} {n : ℕ} {rest : Bytes} (hs : Ready s) (hn : n < 2 ^ 64)
    (hr : s.r = puthead 0xC0 0xF7 n ++ rest) (hlen : n ≤ rest.length)
    (hroom : Room s.stack (headsize n + n)) :
    ∃ s₁, Stream.List s = .ok n { s₁ with stack := ⟨0, n⟩ :: s₁.stack, kind := none, size := 0 } ∧
      Consumed s s₁ (headsize n) := by
  obtain ⟨s₁, hkind, hc⟩ := KindE_list hs hn hr hlen hroom
  refine ⟨s₁, ?_, hc⟩
  simp [Stream.List, ebind_apply, emap_apply, hkind]

theorem ListEnd_ok {s : Stream} {tos : ListPos} {st : List ListPos} (hst : s.stack = tos :: st)
    (heq : tos.pos = tos.size) :
    Stream.ListEnd s = .ok () { s with stack := bump st tos.size, kind := none, size := 0 } := by
  simp [Stream.ListEnd, ebind_apply, hst, heq]

/-- A list whose payload `body` reads: `List` enters it, `body` reads the payload, and
`ListEnd` leaves it, counting the whole list in the enclosing one. -/
theorem list_frame {β : Type} {body : StreamM β} {b : β} {payload rest : Bytes} {s : Stream}
    (hbody : ReadsList body b payload) (hs : Ready s) (hn : payload.length < 2 ^ 64)
    (hr : s.r = puthead 0xC0 0xF7 payload.length ++ payload ++ rest)
    (hroom : Room s.stack (headsize payload.length + payload.length)) :
    ∃ s₁ s₂ s₃, Stream.List s = .ok payload.length s₁ ∧ body s₁ = .ok b s₂ ∧
      Stream.ListEnd s₂ = .ok () s₃ ∧ s₃.kind = none ∧
      Consumed s s₃ (headsize payload.length + payload.length) := by
  have hh := length_puthead 0xC0 0xF7 payload.length
  rw [List.append_assoc] at hr
  obtain ⟨s₀, hlist, hc₀⟩ := List_ok hs hn hr (by simp) hroom
  have hr₀ : s₀.r = payload ++ rest := by rw [hc₀.r, hr, ← hh, List.drop_left]
  -- inside the list: the same stream with the new list on top of the stack
  have hsr := hs.toSliceReader.of_consumed hc₀
  have hs₁ : Ready { s₀ with stack := ⟨0, payload.length⟩ :: s₀.stack, kind := none, size := 0 } :=
    { limited := hsr.limited, remaining := hsr.remaining, kind := rfl }
  obtain ⟨s₂, hb, hk₂, hc₂⟩ := hbody _ rest 0 s₀.stack hs₁ hr₀ (by simp)
  have hst₂ : s₂.stack = ⟨0 + payload.length, payload.length⟩ :: s₀.stack := by
    rw [hc₂.stack]
    rfl
  exact ⟨_, s₂, _, hlist, hb, ListEnd_ok hst₂ (Nat.zero_add _), rfl,
    hc₀.trans ⟨hc₂.r, hc₂.remaining, hc₂.limited, rfl⟩⟩

/-! ### The end of a list -/

section EOL

variable {s : Stream}

lemma wrapErr_eol {α : Type} {d : StreamM α} {s' : Stream} (typ : String)
    (h : d s = .error .EOL s') : wrapErr typ d s = .error .EOL s' := by
  rw [wrapErr, tryCatch_error h]
  rfl

theorem Bytes_eol (hk : s.kind = none) (heol : atEOL s.stack = true) :
    Stream.Bytes s = .error .EOL { s with kinderr := none } := by
  rw [Stream.Bytes, ebind_error (KindE_eol hk heol)]

theorem uint_eol (maxbits : ℕ) (hk : s.kind = none) (heol : atEOL s.stack = true) :
    Stream.uint maxbits s = .error .EOL { s with kinderr := none } := by
  rw [Stream.uint, ebind_error (KindE_eol hk heol)]

theorem List_eol (hk : s.kind = none) (heol : atEOL s.stack = true) :
    Stream.List s = .error .EOL { s with kinderr := none } := by
  rw [Stream.List, ebind_error (KindE_eol hk heol)]

/-- Every decoder meets the end of the innermost list with `EOL`, reading nothing. -/
theorem decodeTy_eol (hk : s.kind = none) (heol : atEOL s.stack = true) :
    ∀ t : Ty, decodeTy t s = .error .EOL { s with kinderr := none }
  | .uint64 => by
    rw [decodeTy, decodeUint, ebind_error (wrapErr_eol _ (uint_eol 64 hk heol))]
  | .bytes => by
    rw [decodeTy, decodeByteSlice, ebind_error (wrapErr_eol _ (Bytes_eol hk heol))]
  | .bigInt => by
    rw [decodeTy, decodeBigInt, ebind_error (wrapErr_eol _ (Bytes_eol hk heol))]
  | .slice t => by
    rw [decodeTy, decodeListSlice, emap_error (ebind_error (wrapErr_eol _ (List_eol hk heol)))]
  | .struct name fields => by
    rw [decodeTy, ebind_error (wrapErr_eol _ (List_eol hk heol))]
  | .ptr t => by
    rw [decodeTy]
    exact decodeTy_eol hk heol t

end EOL

/-! ### Slices -/

lemma puthead_ne_nil (smalltag largetag : UInt8) (size : ℕ) : puthead smalltag largetag size ≠ [] := by
  unfold puthead
  split_ifs <;> simp

lemma encodeStr_ne_nil (b : Bytes) : encodeStr b ≠ [] := by
  unfold encodeStr
  split_ifs with h
  · exact List.ne_nil_of_length_pos (by omega)
  · simp [encodeStringHeader, puthead_ne_nil]

lemma encodeItem_ne_nil (v : Value) : encodeItem v ≠ [] := by
  cases v with
  | uint _ => exact encodeStr_ne_nil _
  | bytes _ => exact encodeStr_ne_nil _
  | bigInt _ => exact encodeStr_ne_nil _
  | list _ => simp [encodeItem, puthead_ne_nil]

lemma length_le_length_encodeItems (vs : List Value) : vs.length ≤ (encodeItems vs).length := by
  induction vs with
  | nil => exact le_refl _
  | cons v vs ih =>
    have h₁ := List.length_pos_of_ne_nil (encodeItem_ne_nil v)
    simp only [encodeItems, List.length_append, List.length_cons]
    omega

lemma length_encodeItem_le_of_mem {v : Value} {vs : List Value} (hv : v ∈ vs) :
    (encodeItem v).length ≤ (encodeItems vs).length := by
  induction vs with
  | nil => cases hv
  | cons w vs ih =>
    rw [encodeItems, List.length_append]
    rcases List.mem_cons.mp hv with rfl | hv
    · omega
    · have := ih hv
      omega

lemma encodeItem_list (vs : List Value) :
    encodeItem (.list vs) = puthead 0xC0 0xF7 (encodeItems vs).length ++ encodeItems vs := by
  rw [encodeItem]

section Slice

variable {elemdec : StreamM Value}
  (heol : ∀ s : Stream, s.kind = none → atEOL s.stack = true →
    elemdec s = .error .EOL { s with kinderr := none })
include heol

/-- The loop over a slice's elements reads them all and stops at the end of the list, given
more fuel than elements. -/
theorem decodeSliceElemsLoop_reads {vs : List Value}
    (hdec : ∀ v ∈ vs, Reads elemdec v (encodeItem v)) (fuel : ℕ) (acc : List Value)
    (hfuel : vs.length < fuel) :
    ReadsList (decodeSliceElemsLoop elemdec fuel acc) (acc.reverse ++ vs) (encodeItems vs) := by
  obtain ⟨f, rfl⟩ : ∃ f, fuel = f + 1 := ⟨fuel - 1, by omega⟩
  intro s rest p st hs hr hst
  induction vs generalizing f acc s p with
  | nil =>
    -- the list is read to its end: the element decoder says `EOL`
    have hat : atEOL s.stack = true := by simp [hst, atEOL, encodeItems]
    refine ⟨{ s with kinderr := none }, ?_, hs.kind, ?_⟩
    · simp [decodeSliceElemsLoop, ebind_apply, attempt_error (heol s hs.kind hat)]
    · exact ⟨(Consumed.refl s).r, (Consumed.refl s).remaining, rfl, (Consumed.refl s).stack⟩
  | cons v vs ih =>
    have hlen := List.length_pos_of_ne_nil (encodeItem_ne_nil v)
    rw [encodeItems, List.append_assoc] at hr
    obtain ⟨s₁, hd, hk₁, hc₁⟩ := hdec v List.mem_cons_self s (encodeItems vs ++ rest) hs hr
      (by rw [hst]; simp [Room, encodeItems])
    obtain ⟨f', rfl⟩ : ∃ f', f = f' + 1 := ⟨f - 1, by simp at hfuel; omega⟩
    have hst₁ : s₁.stack = ⟨p + (encodeItem v).length,
        p + (encodeItem v).length + (encodeItems vs).length⟩ :: st := by
      rw [hc₁.stack, hst]
      simp [bump, encodeItems, Nat.add_assoc]
    obtain ⟨s₂, hl, hk₂, hc₂⟩ := ih (fun w hw => hdec w (List.mem_cons_of_mem v hw)) (v :: acc) f'
      (by simp at hfuel ⊢; omega) s₁ _ (hs.of_consumed hc₁ hk₁) (hc₁.r_eq hr) hst₁
    refine ⟨s₂, ?_, hk₂, ?_⟩
    · rw [decodeSliceElemsLoop, ebind_ok (attempt_ok hd)]
      simpa using hl
    · rw [encodeItems, List.length_append]
      exact hc₁.trans hc₂

theorem decodeSliceElems_reads {vs : List Value} (hdec : ∀ v ∈ vs, Reads elemdec v (encodeItem v)) :
    ReadsList (decodeSliceElems elemdec) vs (encodeItems vs) := by
  intro s rest p st hs hr hst
  have hfuel : vs.length < s.r.length + 1 := by
    have := length_le_length_encodeItems vs
    rw [hr, List.length_append]
    omega
  have h := decodeSliceElemsLoop_reads heol hdec (s.r.length + 1) [] hfuel s rest p st hs hr hst
  simpa [decodeSliceElems, ebind_apply] using h

theorem decodeListSlice_reads (typ : String) {vs : List Value}
    (hdec : ∀ v ∈ vs, Reads elemdec v (encodeItem v)) (hn : (encodeItems vs).length < 2 ^ 64) :
    Reads (decodeListSlice typ elemdec) vs (encodeItem (.list vs)) := by
  intro s rest hs hr hroom
  rw [encodeItem_list] at hr hroom ⊢
  rw [List.length_append, length_puthead] at hroom ⊢
  by_cases hnil : vs = []
  · -- an empty list: `ListEnd` right after `List`
    subst hnil
    obtain ⟨s₁, s₂, s₃, hl, hb, he, hk, hc⟩ :=
      list_frame (Reads.pure ([] : List Value)).readsList hs hn hr hroom
    cases hb
    refine ⟨s₃, ?_, hk, hc⟩
    rw [decodeListSlice, ebind_ok (wrapErr_ok _ hl), if_pos List.length_nil, ebind_ok he]
    rfl
  · have hsize : (encodeItems vs).length ≠ 0 := by
      have := length_le_length_encodeItems vs
      have := List.length_pos_of_ne_nil hnil
      omega
    obtain ⟨s₁, s₂, s₃, hl, hb, he, hk, hc⟩ :=
      list_frame (decodeSliceElems_reads heol hdec) hs hn hr hroom
    refine ⟨s₃, ?_, hk, hc⟩
    rw [decodeListSlice, ebind_ok (wrapErr_ok _ hl), if_neg hsize, ebind_ok hb, ebind_ok he]
    rfl

end Slice

/-! ### Round trip -/

mutual

/-- A value has a type: the shape that the type's decoder builds. -/
def HasTy : Ty → Value → Prop
  | .uint64, .uint _ => True
  | .bytes, .bytes _ => True
  | .bigInt, .bigInt _ => True
  | .slice t, .list vs => ∀ v ∈ vs, HasTy t v
  | .struct _ fields, .list vs => FieldsHaveTy fields vs
  | .ptr t, v => HasTy t v
  | _, _ => False

/-- The values of a struct's fields: one for each field, of its type. -/
def FieldsHaveTy : List (String × Ty) → List Value → Prop
  | [], [] => True
  | (_, t) :: fields, v :: vs => HasTy t v ∧ FieldsHaveTy fields vs
  | _, _ => False

end

lemma length_le_encodeStr (b : Bytes) : b.length ≤ (encodeStr b).length := by
  unfold encodeStr
  split_ifs <;> simp

lemma length_encodeItems_lt {vs : List Value} (h : (encodeItem (.list vs)).length < 2 ^ 64) :
    (encodeItems vs).length < 2 ^ 64 := by
  rw [encodeItem_list, List.length_append] at h
  omega

mutual

/-- Every decoder reads back the encoding of a value of its type. -/
theorem decodeTy_reads : ∀ (t : Ty) (v : Value), HasTy t v → (encodeItem v).length < 2 ^ 64 →
    Reads (decodeTy t) v (encodeItem v)
  | .uint64, v, ht, _ => by
    cases v <;> simp only [HasTy] at ht
    exact decodeUint_reads _
  | .bytes, v, ht, hlen => by
    cases v <;> simp only [HasTy] at ht
    exact decodeByteSlice_reads _ (lt_of_le_of_lt (length_le_encodeStr _) hlen)
  | .bigInt, v, ht, hlen => by
    cases v <;> simp only [HasTy] at ht
    exact decodeBigInt_reads _ (lt_of_le_of_lt (length_le_encodeStr _) hlen)
  | .slice t, v, ht, hlen => by
    cases v <;> simp only [HasTy] at ht
    rename_i vs
    have hvs := length_encodeItems_lt hlen
    -- each element is read by the element type's decoder, which ends the loop at `EOL`
    have hdec : ∀ w ∈ vs, Reads (decodeTy t) w (encodeItem w) := fun w hw =>
      decodeTy_reads t w (ht w hw) (lt_of_le_of_lt (length_encodeItem_le_of_mem hw) hvs)
    rw [decodeTy]
    exact (decodeListSlice_reads (fun s hk heol => decodeTy_eol hk heol t) _ hdec hvs).map _
  | .struct name fields, v, ht, hlen => by
    cases v <;> simp only [HasTy] at ht
    rename_i vs
    have hvs := length_encodeItems_lt hlen
    intro s rest hs hr hroom
    rw [encodeItem_list] at hr hroom ⊢
    rw [List.length_append, length_puthead] at hroom ⊢
    obtain ⟨s₁, s₂, s₃, hl, hb, he, hk, hc⟩ :=
      list_frame (decodeFields_reads name fields vs ht hvs).readsList hs hvs hr hroom
    refine ⟨s₃, ?_, hk, hc⟩
    rw [decodeTy, ebind_ok (wrapErr_ok _ hl), ebind_ok hb, ebind_ok (wrapErr_ok _ he)]
    rfl
  | .ptr t, v, ht, hlen => by
    rw [decodeTy]
    exact decodeTy_reads t v ht hlen

/-- The fields of a struct are read one after another. -/
theorem decodeFields_reads (name : String) :
    ∀ (fields : List (String × Ty)) (vs : List Value), FieldsHaveTy fields vs →
      (encodeItems vs).length < 2 ^ 64 → Reads (decodeFields name fields) vs (encodeItems vs)
  | [], vs, ht, _ => by
    cases vs <;> simp only [FieldsHaveTy] at ht
    exact Reads.pure _
  | (f, t) :: fields, vs, ht, hlen => by
    cases vs <;> simp only [FieldsHaveTy] at ht
    rename_i v vs
    rw [encodeItems, List.length_append] at hlen
    rw [decodeFields, encodeItems]
    exact ((decodeTy_reads t v ht.1 (by omega)).tryCatch _).bind
      ((decodeFields_reads name fields vs ht.2 (by omega)).bind_nil (Reads.pure _))

end

/-- `DecodeBytes` inverts the encoding of a value of the type decoded into. -/
theorem DecodeBytes_encodeItem {t : Ty} {v : Value} (ht : HasTy t v)
    (hlen : (encodeItem v).length < 2 ^ 64) : DecodeBytes t (encodeItem v) = .ok v := by
  have hs : Ready (NewStream (encodeItem v)) := ⟨⟨rfl, rfl⟩, rfl⟩
  obtain ⟨s', hd, -, hc⟩ :=
    decodeTy_reads t v ht hlen (NewStream (encodeItem v)) [] hs (by simp [NewStream]) trivial
  have hr : s'.r = [] := hc.r_eq (by simp [NewStream])
  simp [DecodeBytes, Decode, tryCatch_ok hd, hr]

/-- `rlp.DecodeBytes` of `rlp.EncodeToBytes`: a value of a type comes back. -/
theorem DecodeBytes_EncodeToBytes {t : Ty} {v : Value} (ht : HasTy t v)
    (hlen : (EncodeToBytes v).length < 2 ^ 64) : DecodeBytes t (EncodeToBytes v) = .ok v := by
  rw [EncodeToBytes_eq] at hlen ⊢
  exact DecodeBytes_encodeItem ht hlen

end Wanchain.Rlp
