import Wanchain.Rlp.Decode

/-!
# Arrays of booleans

`rlp.EncodeToBytes` of a `[n]bool` writes a list of `n` items, `writeBool` giving `0x01` for
true and `0x80` for false. `rlp.DecodeBytes` into a `[n]bool` reads it back with
`decodeListArray`, which wants exactly `n` items, each read by `decodeBool`, which wants the
integer `0` or `1`. A larger number is an error of `fmt.Errorf`, which is not one of the
stream's errors: the decoders here return it as a value beside them.

The decoder reads back what the encoder writes (`DecodeBoolArray_encodeBools`). The proof is the
one of `Wanchain.Rlp.Decode`: each element reads its own encoding (`decodeBool_reads`), the
loop reads exactly `n` of them (`decodeListArrayLoop_reads`), and the list frame closes it.
-/

namespace Wanchain.Rlp

open Machine

/-! ### The encoder -/

/-- `writeBool`: the bytes it writes are those of the integers one and zero. -/
def boolValue (b : Bool) : Value := .uint (if b then 1 else 0)

/-- `rlp.EncodeToBytes` of a `[n]bool`. -/
def encodeBools (bs : List Bool) : Bytes := EncodeToBytes (.list (bs.map boolValue))

lemma encodeItem_boolValue (b : Bool) :
    encodeItem (boolValue b) = [if b then 0x01 else 0x80] := by
  cases b <;> simp [boolValue, encodeItem, encodeStr, bigBytes, encodeStringHeader, puthead]

lemma length_encodeItems_boolValue (bs : List Bool) :
    (encodeItems (bs.map boolValue)).length = bs.length := by
  induction bs with
  | nil => rfl
  | cons b bs ih => simp [encodeItems, encodeItem_boolValue, ih]

lemma length_encodeBools (bs : List Bool) :
    (encodeBools bs).length = headsize bs.length + bs.length := by
  rw [encodeBools, EncodeToBytes_eq, encodeItem_list, List.length_append, length_puthead,
    length_encodeItems_boolValue]

/-! ### The decoder -/

/-- `Stream.Bool`: a `uint8` that is zero or one. -/
def Stream.Bool : StreamM (Except String Bool) := do
  let num ← Stream.uint 8
  if num = 0 then pure (.ok false)
  else if num = 1 then pure (.ok true)
  else pure (.error ("rlp: invalid boolean value: " ++ toString num))

/-- `decodeBool`. -/
def decodeBool : StreamM (Except String Bool) := wrapErr "bool" Stream.Bool

/-- The loop of `decodeListArray`: `n` more elements. The end of the list before them is an
error; so is an element's error, with its index. -/
def decodeListArrayLoop {α : Type} (typ : String) (elemdec : StreamM (Except String α)) :
    ℕ → List α → StreamM (Except String (List α))
  | 0, acc => pure (.ok acc.reverse)
  | n + 1, acc => do
    match ← attempt elemdec with
    | .error .EOL => throw (.decodeError "input list has too few elements" typ [])
    | .error err => throw (addErrorContext err ("[" ++ toString acc.length ++ "]"))
    | .ok (.error msg) => pure (.error msg)
    | .ok (.ok v) => decodeListArrayLoop typ elemdec n (v :: acc)

/-- `decodeListArray` into an array of `n` elements: the list, its elements, and its end,
which must come right after them. -/
def decodeListArray {α : Type} (typ : String) (n : ℕ) (elemdec : StreamM (Except String α)) :
    StreamM (Except String (List α)) := do
  let _ ← wrapErr typ Stream.List
  match ← decodeListArrayLoop typ elemdec n [] with
  | .error msg => pure (.error msg)
  | .ok vs =>
    wrapErr typ Stream.ListEnd
    pure (.ok vs)

/-- What `Stream.Decode` adds to a decode error that has a path: the type decoded into. -/
def decodeTarget (typ : String) (err : RlpError) : RlpError :=
  match err with
  | .decodeError msg t ctx => if ctx = [] then err else .decodeError msg t (ctx ++ ["(" ++ typ ++ ")"])
  | err => err

/-- `rlp.DecodeBytes` into a `[n]bool`: the array, or the text of the error. -/
def DecodeBoolArray (n : ℕ) (b : Bytes) : Except String (List Bool) :=
  let typ := "[" ++ toString n ++ "]bool"
  match tryCatch (decodeListArray typ n decodeBool) (fun err => throw (decodeTarget typ err))
      (NewStream b) with
  | .ok (.ok v) s => if s.r.length > 0 then .error RlpError.ErrMoreThanOneValue.Error else .ok v
  | .ok (.error msg) _ => .error msg
  | .error err _ => .error err.Error

/-! ### Reading back an array -/

theorem Reads.attempt {α : Type} {d : StreamM α} {a : α} {enc : Bytes} (h : Reads d a enc) :
    Reads (attempt d) (.ok a) enc := by
  intro s rest hs hr hroom
  obtain ⟨s', hd, hk, hc⟩ := h s rest hs hr hroom
  exact ⟨s', attempt_ok hd, hk, hc⟩

lemma Stream.Bool_of_uint {s s' : Stream} {num : ℕ} (h : Stream.uint 8 s = .ok num s')
    (hnum : num = 0 ∨ num = 1) : Stream.Bool s = .ok (.ok (num = 1)) s' := by
  rw [Stream.Bool, ebind_ok h]
  rcases hnum with rfl | rfl <;> rfl

/-- Each boolean reads back its one byte: `0x01` is the byte one, `0x80` the empty string. -/
theorem decodeBool_reads (b : Bool) : Reads decodeBool (.ok b) (encodeItem (boolValue b)) := by
  intro s rest hs hr hroom
  cases b with
  | true =>
    rw [show encodeItem (boolValue true) = [0x01] from encodeItem_boolValue true] at hr hroom ⊢
    obtain ⟨s₁, hkind, hc, hbv⟩ := KindE_byte hs hr (by decide) hroom
    have huint : Stream.uint 8 s = .ok 1 { s₁ with kind := none } := by
      simp [Stream.uint, ebind_apply, emap_apply, hkind, hbv]
    refine ⟨{ s₁ with kind := none }, ?_, rfl, ⟨hc.r, hc.remaining, hc.limited, hc.stack⟩⟩
    exact wrapErr_ok _ (Stream.Bool_of_uint huint (.inr rfl))
  | false =>
    rw [show encodeItem (boolValue false) = encodeStringHeader 0 from encodeItem_boolValue false]
      at hr hroom ⊢
    obtain ⟨s₁, hkind, hc⟩ := KindE_string (n := 0) hs (by decide) hr (Nat.zero_le _) hroom
    have huint : Stream.uint 8 s = .ok 0 { s₁ with kind := none } := by
      simp [Stream.uint, ebind_apply, hkind, attempt_ok (readUint_zero s₁)]
    refine ⟨{ s₁ with kind := none }, ?_, rfl, ⟨hc.r, hc.remaining, hc.limited, hc.stack⟩⟩
    exact wrapErr_ok _ (Stream.Bool_of_uint huint (.inl rfl))

section Loop

variable {α : Type} {typ : String} {elemdec : StreamM (Except String α)} {f : α → Value}

/-- The loop reads exactly the elements it is asked for, each from its encoding. -/
theorem decodeListArrayLoop_reads {vs : List α}
    (hdec : ∀ v ∈ vs, Reads elemdec (.ok v) (encodeItem (f v))) (acc : List α) :
    Reads (decodeListArrayLoop typ elemdec vs.length acc) (.ok (acc.reverse ++ vs))
      (encodeItems (vs.map f)) := by
  induction vs generalizing acc with
  | nil =>
    simpa [decodeListArrayLoop, encodeItems] using
      Reads.pure (Except.ok acc.reverse : Except String (List α))
  | cons v vs ih =>
    have hrest := ih (fun w hw => hdec w (List.mem_cons_of_mem v hw)) (v :: acc)
    rw [List.reverse_cons, List.append_assoc, List.singleton_append] at hrest
    exact (hdec v List.mem_cons_self).attempt.bind hrest

theorem decodeListArray_reads {vs : List α}
    (hdec : ∀ v ∈ vs, Reads elemdec (.ok v) (encodeItem (f v)))
    (hn : (encodeItems (vs.map f)).length < 2 ^ 64) :
    Reads (decodeListArray typ vs.length elemdec) (.ok vs) (encodeItem (.list (vs.map f))) := by
  intro s rest hs hr hroom
  rw [encodeItem_list] at hr hroom ⊢
  rw [List.length_append, length_puthead] at hroom ⊢
  have hbody : ReadsList (decodeListArrayLoop typ elemdec vs.length []) (.ok vs)
      (encodeItems (vs.map f)) := by
    simpa using (decodeListArrayLoop_reads hdec []).readsList
  obtain ⟨s₁, s₂, s₃, hl, hb, he, hk, hc⟩ := list_frame hbody hs hn hr hroom
  refine ⟨s₃, ?_, hk, hc⟩
  rw [decodeListArray, ebind_ok (wrapErr_ok _ hl), ebind_ok hb]
  exact ebind_ok (wrapErr_ok _ he)

end Loop

/-- `rlp.DecodeBytes` into a `[n]bool` of `rlp.EncodeToBytes` of `n` booleans gives them
back. -/
theorem DecodeBoolArray_encodeBools {bs : List Bool} (hn : bs.length < 2 ^ 32) :
    DecodeBoolArray bs.length (encodeBools bs) = .ok bs := by
  have hlen := length_encodeBools bs
  have hitems : (encodeItems (bs.map boolValue)).length < 2 ^ 64 := by
    rw [length_encodeItems_boolValue]
    omega
  rw [encodeBools, EncodeToBytes_eq] at hlen ⊢
  have hs : Ready (NewStream (encodeItem (.list (bs.map boolValue)))) := ⟨⟨rfl, rfl⟩, rfl⟩
  obtain ⟨s', hd, -, hc⟩ := ((decodeListArray_reads (fun b _ => decodeBool_reads b)
    hitems).tryCatch _) _ [] hs (by simp [NewStream]) trivial
  have hr : s'.r = [] := hc.r_eq (by simp [NewStream])
  dsimp only [DecodeBoolArray]
  rw [hd]
  simp [hr]

end Wanchain.Rlp
