import Wanchain.Basic.Bytes
import Wanchain.Lib.KeyedList
import Mathlib.Algebra.Order.BigOperators.Group.List

/-!
# The PoS local store

`pos/posdb/database.go`. A `posdb.Db` is a leveldb in which a value is written under
`<epochID>_<index>_<key>` (`getUniqueKey`). The store keeps its own index of the keys of each
epoch in the same leveldb, through `putNoCount` at epoch 0, index 0: the `n`-th key of epoch `e`
under `key_<e>_<n>` and their number under `keyCount_<e>`. `PutWithIndex` records a key the
first time it is written; `GetStorageByteArray(e)` reads the recorded keys of `e`, in order, and
the value under each.

What the store is for is a list per epoch of the (index, key) pairs written, each once, in the
order they were first written, with the latest value of each (`specPut`). The leveldb refines it
(`PutWithIndex_refines`, `GetStorageByteArray_eq`) as long as no write lands on the store's own
entries: a write at epoch 0, index 0 under a key that begins with `key` can (`Reserved`), and
then the index of an epoch points elsewhere and its value is lost (`reserved_key_loses_value`).
The counter is a `uint64`: an epoch holds fewer than `2 ^ 64` keys.

Decimal numbers have no underscore, so the parts of a key are read back from it
(`getUniqueKey_inj`, `getKeyName_inj`).
-/

namespace Wanchain.Posdb

/-- The leveldb under a `posdb.Db`: a key reads a value, or nothing. -/
abbrev Db := Bytes → Option Bytes

/-- The empty leveldb. -/
def Db.empty : Db := fun _ => none

/-- `s.db.Put(key, value)`. -/
def write (s : Db) (key value : Bytes) : Db := fun k => if k = key then some value else s k

/-- `convert.Uint64ToString`: the decimal digits, in ASCII. -/
def Uint64ToString (input : UInt64) : Bytes :=
  (Nat.toDigits 10 input.toNat).map fun c => c.toNat.toUInt8

/-- `convert.BytesToUint64`: the low 64 bits of the big-endian number. -/
def BytesToUint64 (input : Bytes) : UInt64 := UInt64.ofNat (setBytes input)

/-- The byte of `_`. -/
def underscore : UInt8 := 95

/-- `getUniqueKey(epochID, index, key)`: `<epochID>_<index>_<key>`. -/
def getUniqueKey (epochID index : UInt64) (key : Bytes) : Bytes :=
  Uint64ToString epochID ++ underscore :: (Uint64ToString index ++ underscore :: key)

/-- `getKeyName(epochID, keyIndex)`: `key_<epochID>_<keyIndex>`. -/
def getKeyName (epochID keyIndex : UInt64) : Bytes :=
  "key_".toUTF8.toList ++ Uint64ToString epochID ++ underscore :: Uint64ToString keyIndex

/-- `getKeyCountName(epochID)`: `keyCount_<epochID>`. -/
def getKeyCountName (epochID : UInt64) : Bytes :=
  "keyCount_".toUTF8.toList ++ Uint64ToString epochID

/-- `putNoCount(epochID, key, value)`: `put` at index 0 with `saveKey` off, which is the write
alone. -/
def putNoCount (s : Db) (epochID : UInt64) (key value : Bytes) : Db :=
  write s (getUniqueKey epochID 0 key) value

/-- `GetWithIndex(epochID, index, key)`. -/
def GetWithIndex (s : Db) (epochID index : UInt64) (key : Bytes) : Option Bytes :=
  s (getUniqueKey epochID index key)

/-- `Get(epochID, key)`. -/
def Get (s : Db) (epochID : UInt64) (key : Bytes) : Option Bytes := GetWithIndex s epochID 0 key

/-- `getKeyCount(epochID)`; a missing counter reads as zero. -/
def getKeyCount (s : Db) (epochID : UInt64) : UInt64 :=
  match Get s 0 (getKeyCountName epochID) with
  | some ret => BytesToUint64 ret
  | none => 0

/-- `saveKey(key, epochID)`: the key goes to the next index entry of the epoch, and the counter
goes up. -/
def saveKey (s : Db) (key : Bytes) (epochID : UInt64) : Db :=
  let keyCount := getKeyCount s epochID
  let s := putNoCount s 0 (getKeyName epochID keyCount) key
  putNoCount s 0 (getKeyCountName epochID) (uint64ToBytes (keyCount + 1))

/-- `put(epochID, index, key, value, saveKey)`: a key the leveldb already holds is not recorded
again. -/
def put (s : Db) (epochID index : UInt64) (key value : Bytes) (save : Bool) : Db :=
  let newKey := getUniqueKey epochID index key
  let save := save && (s newKey).isNone
  let s := write s newKey value
  if save then saveKey s newKey epochID else s

/-- `PutWithIndex(epochID, index, key, value)`. -/
def PutWithIndex (s : Db) (epochID index : UInt64) (key value : Bytes) : Db :=
  put s epochID index key value true

/-- `Put(epochID, key, value)`. -/
def Put (s : Db) (epochID : UInt64) (key value : Bytes) : Db := PutWithIndex s epochID 0 key value

/-- `getAllKeys(epochID)`: the recorded keys, a missing entry read as the empty string. -/
def getAllKeys (s : Db) (epochID : UInt64) : List Bytes :=
  (List.range (getKeyCount s epochID).toNat).map fun i =>
    (Get s 0 (getKeyName epochID (UInt64.ofNat i))).getD []

/-- `GetStorageByteArray(epochID)`: the value under each recorded key, a missing one read as
`nil`. -/
def GetStorageByteArray (s : Db) (epochID : UInt64) : List Bytes :=
  (getAllKeys s epochID).map fun k => (s k).getD []

/-! ### Reading a key back -/

lemma digit_bounds {c : Char} {n : ℕ} (hc : c ∈ Nat.toDigits 10 n) :
    48 ≤ c.toNat ∧ c.toNat ≤ 57 := by
  have h := Nat.isDigit_of_mem_toDigits (by decide) le_rfl hc
  simp only [Char.isDigit, Bool.and_eq_true, decide_eq_true_eq] at h
  exact ⟨h.1, h.2⟩

/-- A decimal number has no underscore. -/
lemma underscore_not_mem (n : UInt64) : underscore ∉ Uint64ToString n := by
  intro h
  obtain ⟨c, hc, hcu⟩ := List.mem_map.mp h
  have hb := digit_bounds hc
  have : c.toNat % 256 = 95 := by simpa [underscore] using congrArg UInt8.toNat hcu
  omega

/-- The digits are read back from their bytes. -/
lemma map_ofNat_Uint64ToString (n : UInt64) :
    (Uint64ToString n).map (fun b => Char.ofNat b.toNat) = Nat.toDigits 10 n.toNat := by
  rw [Uint64ToString, List.map_map]
  conv_rhs => rw [← List.map_id (Nat.toDigits 10 n.toNat)]
  refine List.map_congr_left fun c hc => ?_
  have h256 : c.toNat % 256 = c.toNat := Nat.mod_eq_of_lt (by have := digit_bounds hc; omega)
  simp [h256]

lemma Uint64ToString_inj {a b : UInt64} (h : Uint64ToString a = Uint64ToString b) : a = b := by
  have hdigits : Nat.toDigits 10 a.toNat = Nat.toDigits 10 b.toNat := by
    rw [← map_ofNat_Uint64ToString, ← map_ofNat_Uint64ToString, h]
  apply UInt64.toNat_inj.mp
  calc a.toNat = Nat.ofDigitChars 10 (Nat.toDigits 10 a.toNat) 0 :=
        (Nat.ofDigitChars_toDigits (by decide) le_rfl).symm
    _ = Nat.ofDigitChars 10 (Nat.toDigits 10 b.toNat) 0 := by rw [hdigits]
    _ = b.toNat := Nat.ofDigitChars_toDigits (by decide) le_rfl

/-- Two strings without the separator `c`, each followed by `c`, start two equal lists only when
they are equal, and so are the rests. -/
lemma append_cons_inj {α : Type*} {c : α} {u v x y : List α} (hu : c ∉ u) (hv : c ∉ v)
    (h : u ++ c :: x = v ++ c :: y) : u = v ∧ x = y := by
  induction u generalizing v with
  | nil =>
    cases v with
    | nil => simpa using h
    | cons b v =>
      -- the first entry of the right side would be the separator
      simp only [List.nil_append, List.cons_append, List.cons.injEq] at h
      exact absurd (h.1 ▸ List.mem_cons_self) hv
  | cons a u ih =>
    cases v with
    | nil =>
      simp only [List.nil_append, List.cons_append, List.cons.injEq] at h
      exact absurd (h.1 ▸ List.mem_cons_self) hu
    | cons b v =>
      simp only [List.cons_append, List.cons.injEq] at h
      obtain ⟨rfl, h⟩ := h
      obtain ⟨huv, hxy⟩ := ih (fun hm => hu (List.mem_cons_of_mem a hm))
        (fun hm => hv (List.mem_cons_of_mem a hm)) h
      exact ⟨by rw [huv], hxy⟩

/-- A unique key is read back as its epoch, its index and the key. -/
theorem getUniqueKey_inj {e i e' i' : UInt64} {key key' : Bytes} :
    getUniqueKey e i key = getUniqueKey e' i' key' ↔ e = e' ∧ i = i' ∧ key = key' := by
  constructor
  · intro h
    obtain ⟨he, h⟩ := append_cons_inj (underscore_not_mem e) (underscore_not_mem e') h
    obtain ⟨hi, hk⟩ := append_cons_inj (underscore_not_mem i) (underscore_not_mem i') h
    exact ⟨Uint64ToString_inj he, Uint64ToString_inj hi, hk⟩
  · rintro ⟨rfl, rfl, rfl⟩
    rfl

theorem getKeyName_inj {e n e' n' : UInt64} :
    getKeyName e n = getKeyName e' n' ↔ e = e' ∧ n = n' := by
  constructor
  · intro h
    rw [getKeyName, getKeyName, List.append_assoc, List.append_assoc, List.append_cancel_left_eq]
      at h
    obtain ⟨he, hn⟩ := append_cons_inj (underscore_not_mem e) (underscore_not_mem e') h
    exact ⟨Uint64ToString_inj he, Uint64ToString_inj hn⟩
  · rintro ⟨rfl, rfl⟩
    rfl

theorem getKeyCountName_inj {e e' : UInt64} : getKeyCountName e = getKeyCountName e' ↔ e = e' := by
  constructor
  · intro h
    rw [getKeyCountName, getKeyCountName, List.append_cancel_left_eq] at h
    exact Uint64ToString_inj h
  · rintro rfl
    rfl

lemma key_bytes : "key_".toUTF8.toList = [107, 101, 121, 95] := by decide +kernel

lemma keyCount_bytes :
    "keyCount_".toUTF8.toList = [107, 101, 121, 67, 111, 117, 110, 116, 95] := by decide +kernel

/-- An index entry's name and a counter's name differ at their fourth byte. -/
lemma getKeyName_ne_getKeyCountName (e n e' : UInt64) : getKeyName e n ≠ getKeyCountName e' := by
  intro h
  rw [getKeyName, getKeyCountName, key_bytes, keyCount_bytes] at h
  have := congrArg (fun l => l[3]?) h
  simp [underscore] at this

/-! ### The store's own entries -/

/-- A write at epoch 0, index 0 under a key that begins with `key` may land on the store's own
index entries (`key_<e>_<n>`) or counters (`keyCount_<e>`). -/
def Reserved (epochID index : UInt64) (key : Bytes) : Prop :=
  epochID = 0 ∧ index = 0 ∧ "key".toUTF8.toList <+: key

instance (epochID index : UInt64) (key : Bytes) : Decidable (Reserved epochID index key) :=
  inferInstanceAs (Decidable (_ ∧ _ ∧ _))

lemma key_prefix_getKeyName (e n : UInt64) : "key".toUTF8.toList <+: getKeyName e n := by
  rw [getKeyName, key_bytes, show "key".toUTF8.toList = [107, 101, 121] by decide +kernel]
  exact ⟨95 :: (Uint64ToString e ++ underscore :: Uint64ToString n), by simp⟩

lemma key_prefix_getKeyCountName (e : UInt64) : "key".toUTF8.toList <+: getKeyCountName e := by
  rw [getKeyCountName, keyCount_bytes, show "key".toUTF8.toList = [107, 101, 121] by
    decide +kernel]
  exact ⟨[67, 111, 117, 110, 116, 95] ++ Uint64ToString e, by simp⟩

/-- A write that is not reserved misses every index entry. -/
lemma ne_indexKey {e i : UInt64} {key : Bytes} (h : ¬Reserved e i key) (e' n : UInt64) :
    getUniqueKey e i key ≠ getUniqueKey 0 0 (getKeyName e' n) := by
  intro heq
  obtain ⟨rfl, rfl, rfl⟩ := getUniqueKey_inj.mp heq
  exact h ⟨rfl, rfl, key_prefix_getKeyName e' n⟩

/-- A write that is not reserved misses every counter. -/
lemma ne_countKey {e i : UInt64} {key : Bytes} (h : ¬Reserved e i key) (e' : UInt64) :
    getUniqueKey e i key ≠ getUniqueKey 0 0 (getKeyCountName e') := by
  intro heq
  obtain ⟨rfl, rfl, rfl⟩ := getUniqueKey_inj.mp heq
  exact h ⟨rfl, rfl, key_prefix_getKeyCountName e'⟩

lemma indexKey_ne_countKey (e n e' : UInt64) :
    getUniqueKey 0 0 (getKeyName e n) ≠ getUniqueKey 0 0 (getKeyCountName e') := fun heq =>
  getKeyName_ne_getKeyCountName e n e' (getUniqueKey_inj.mp heq).2.2

@[simp] lemma write_apply (s : Db) (k v k' : Bytes) :
    write s k v k' = if k' = k then some v else s k' := rfl

/-- The counter is read back. -/
lemma BytesToUint64_uint64ToBytes (x : UInt64) : BytesToUint64 (uint64ToBytes x) = x := by
  rw [BytesToUint64, setBytes_uint64ToBytes, UInt64.ofNat_toNat]

lemma GetWithIndex_write (s : Db) (k v : Bytes) (e i : UInt64) (key : Bytes) :
    GetWithIndex (write s k v) e i key =
      if getUniqueKey e i key = k then some v else GetWithIndex s e i key := rfl

lemma getKeyCount_write_of_ne {s : Db} {k v : Bytes} {e : UInt64}
    (hk : getUniqueKey 0 0 (getKeyCountName e) ≠ k) :
    getKeyCount (write s k v) e = getKeyCount s e := by
  simp only [getKeyCount, Get, GetWithIndex_write, if_neg hk]

lemma getKeyCount_write_self (s : Db) (v : Bytes) (e : UInt64) :
    getKeyCount (write s (getUniqueKey 0 0 (getKeyCountName e)) v) e = BytesToUint64 v := by
  simp only [getKeyCount, Get, GetWithIndex_write, if_true]

/-- What `saveKey` does to the counters: the one of its epoch goes up. -/
lemma getKeyCount_saveKey (s : Db) (k : Bytes) (e e' : UInt64) :
    getKeyCount (saveKey s k e) e' = if e' = e then getKeyCount s e + 1 else getKeyCount s e' := by
  have hidx : getUniqueKey 0 0 (getKeyCountName e') ≠
      getUniqueKey 0 0 (getKeyName e (getKeyCount s e)) := (indexKey_ne_countKey _ _ _).symm
  split_ifs with he
  · subst he
    rw [saveKey, putNoCount, putNoCount, getKeyCount_write_self, BytesToUint64_uint64ToBytes]
  · have hcnt : getUniqueKey 0 0 (getKeyCountName e') ≠ getUniqueKey 0 0 (getKeyCountName e) :=
      fun h => he (getKeyCountName_inj.mp (getUniqueKey_inj.mp h).2.2)
    rw [saveKey, putNoCount, putNoCount, getKeyCount_write_of_ne hcnt,
      getKeyCount_write_of_ne hidx]

/-- What `saveKey` does to the index entries: the next one of its epoch is the key. -/
lemma Get_keyName_saveKey (s : Db) (k : Bytes) (e e' n : UInt64) :
    Get (saveKey s k e) 0 (getKeyName e' n) =
      if e' = e ∧ n = getKeyCount s e then some k else Get s 0 (getKeyName e' n) := by
  have hcnt : getUniqueKey 0 0 (getKeyName e' n) ≠ getUniqueKey 0 0 (getKeyCountName e) :=
    indexKey_ne_countKey _ _ _
  have hidx : getUniqueKey 0 0 (getKeyName e' n) =
      getUniqueKey 0 0 (getKeyName e (getKeyCount s e)) ↔ e' = e ∧ n = getKeyCount s e := by
    rw [getUniqueKey_inj, getKeyName_inj]
    simp
  simp only [saveKey, putNoCount, Get, GetWithIndex_write, if_neg hcnt, hidx]

/-- `saveKey` leaves every unique key that is not reserved alone. -/
lemma saveKey_of_not_reserved (s : Db) (k : Bytes) {e e' i' : UInt64} {key' : Bytes}
    (hres : ¬Reserved e' i' key') : saveKey s k e (getUniqueKey e' i' key') = s (getUniqueKey e' i' key') := by
  simp only [saveKey, putNoCount, write_apply, if_neg (ne_countKey hres _),
    if_neg (ne_indexKey hres _ _)]

/-! ### What the store is for -/

/-- Per epoch, the (index, key) pairs written, each once, in the order they were first written,
with the latest value of each. -/
abbrev Entries := List ((UInt64 × Bytes) × Bytes)

/-- A write of `value` under `(index, key)` of an epoch: it replaces the value of a pair the
epoch holds, in place, and is appended otherwise. -/
def specPut (A : UInt64 → Entries) (epochID index : UInt64) (key value : Bytes) :
    UInt64 → Entries :=
  Function.update A epochID (KeyedList.upsert Prod.fst (A epochID) ((index, key), value))

/-- The leveldb holds the entries `A`: each pair's value under its unique key, and the index of
each epoch listing the unique keys of its pairs in order, with their number in the counter. -/
structure Refines (s : Db) (A : UInt64 → Entries) : Prop where
  nodup : ∀ e, KeyedList.NodupKeys Prod.fst (A e)
  fresh : ∀ e, ∀ p ∈ A e, ¬Reserved e p.1.1 p.1.2
  user : ∀ e i key, ¬Reserved e i key →
    s (getUniqueKey e i key) = ((A e).find? (·.1 = (i, key))).map (·.2)
  count : ∀ e, (getKeyCount s e).toNat = (A e).length
  index : ∀ e n (hn : n < (A e).length),
    Get s 0 (getKeyName e (UInt64.ofNat n)) = some (getUniqueKey e (A e)[n].1.1 (A e)[n].1.2)

section Spec

variable {A : UInt64 → Entries} {e i : UInt64} {key value : Bytes}

lemma specPut_self (A : UInt64 → Entries) (e i : UInt64) (key value : Bytes) :
    specPut A e i key value e = KeyedList.upsert Prod.fst (A e) ((i, key), value) :=
  Function.update_self ..

lemma specPut_of_ne {e' : UInt64} (he : e' ≠ e) : specPut A e i key value e' = A e' :=
  Function.update_of_ne he ..

lemma specPut_length_le (e' : UInt64) : (specPut A e i key value e').length ≤ (A e').length + 1 := by
  by_cases he : e' = e
  · subst he
    rw [specPut_self, KeyedList.upsert]
    split_ifs <;> simp [KeyedList.modifyKey]
  · rw [specPut_of_ne he]
    omega

end Spec

theorem Refines.empty : Refines Db.empty fun _ => [] where
  nodup _ := KeyedList.nodupKeys_nil
  fresh _ _ h := nomatch h
  user _ _ _ _ := rfl
  count _ := rfl
  index _ _ hn := absurd hn (Nat.not_lt_zero _)

/-- The recorded keys of an epoch are the unique keys of its pairs. -/
lemma Refines.getAllKeys_eq {s : Db} {A : UInt64 → Entries} (hR : Refines s A) (e : UInt64) :
    getAllKeys s e = (A e).map fun p => getUniqueKey e p.1.1 p.1.2 := by
  apply List.ext_getElem (by simp [getAllKeys, hR.count e])
  intro n h1 h2
  rw [List.length_map] at h2
  simp only [getAllKeys, List.getElem_map, List.getElem_range, hR.index e n h2, Option.getD_some]

/-- `GetStorageByteArray` reads the latest value of each pair of the epoch, in order. -/
theorem Refines.GetStorageByteArray_eq {s : Db} {A : UInt64 → Entries} (hR : Refines s A)
    (e : UInt64) : GetStorageByteArray s e = (A e).map (·.2) := by
  rw [GetStorageByteArray, hR.getAllKeys_eq, List.map_map]
  refine List.map_congr_left fun p hp => ?_
  have hfind := KeyedList.find?_of_mem (hR.nodup e) hp
  simp only [Function.comp_apply, hR.user e p.1.1 p.1.2 (hR.fresh e p hp)]
  rw [show (fun q : (UInt64 × Bytes) × Bytes => decide (q.1 = (p.1.1, p.1.2))) =
    fun q => decide (q.1 = p.1) from rfl, hfind]
  rfl

section Step

variable {s : Db} {A : UInt64 → Entries} {e i : UInt64} {key value : Bytes}

lemma Refines.specPut_nodup (hR : Refines s A) (e' : UInt64) :
    KeyedList.NodupKeys Prod.fst (specPut A e i key value e') := by
  by_cases he : e' = e
  · subst he
    rw [specPut_self]
    exact (hR.nodup e').upsert _
  · rw [specPut_of_ne he]
    exact hR.nodup e'

lemma Refines.specPut_fresh (hR : Refines s A) (hres : ¬Reserved e i key) (e' : UInt64) :
    ∀ p ∈ specPut A e i key value e', ¬Reserved e' p.1.1 p.1.2 := by
  by_cases he : e' = e
  · subst he
    intro p hp
    rw [specPut_self] at hp
    rcases KeyedList.mem_upsert hp with hp | rfl
    · exact hR.fresh e' p hp
    · exact hres
  · rw [specPut_of_ne he]
    exact hR.fresh e'

/-- After the write, each unique key that is not reserved holds the value of its pair. -/
lemma Refines.user_write (hR : Refines s A) (e' i' : UInt64) (key' : Bytes)
    (hres' : ¬Reserved e' i' key') :
    write s (getUniqueKey e i key) value (getUniqueKey e' i' key') =
      ((specPut A e i key value e').find? (·.1 = (i', key'))).map (·.2) := by
  rw [write_apply]
  by_cases hk : getUniqueKey e' i' key' = getUniqueKey e i key
  · obtain ⟨rfl, rfl, rfl⟩ := getUniqueKey_inj.mp hk
    have hfind : (KeyedList.upsert Prod.fst (A e') ((i', key'), value)).find?
        (·.1 = (i', key')) = some ((i', key'), value) :=
      @KeyedList.find?_upsert_self _ _ Prod.fst _ (A e') ((i', key'), value)
    rw [if_pos rfl, specPut_self, hfind]
    rfl
  · rw [if_neg hk, hR.user e' i' key' hres']
    by_cases he : e' = e
    · subst he
      have hik : (i', key') ≠ (i, key) := fun h => hk (by simp_all)
      rw [specPut_self, @KeyedList.find?_upsert_of_ne _ _ Prod.fst _ _ _ _ hik]
    · rw [specPut_of_ne he]

/-- Writing a pair the epoch holds: the value changes in place, and the index stays. -/
lemma Refines.write_of_held (hR : Refines s A) (hres : ¬Reserved e i key) {v : Bytes}
    (hheld : s (getUniqueKey e i key) = some v) :
    Refines (write s (getUniqueKey e i key) value) (specPut A e i key value) := by
  obtain ⟨p, hfind, -⟩ := Option.map_eq_some_iff.mp ((hR.user e i key hres).symm.trans hheld)
  have hp : p ∈ A e := List.mem_of_find?_eq_some hfind
  have hpk : p.1 = (i, key) := by simpa using List.find?_some hfind
  -- the pair keeps its place, so every epoch keeps its keys
  have hkeys : ∀ e', (specPut A e i key value e').map Prod.fst = (A e').map Prod.fst := by
    intro e'
    by_cases he : e' = e
    · subst he
      rw [specPut_self]
      exact KeyedList.map_key_upsert_of_mem hp hpk
    · rw [specPut_of_ne he]
  have hlen : ∀ e', (specPut A e i key value e').length = (A e').length := fun e' => by
    simpa using congrArg List.length (hkeys e')
  refine ⟨hR.specPut_nodup, hR.specPut_fresh hres, hR.user_write, fun e' => ?_, fun e' n hn => ?_⟩
  · rw [getKeyCount_write_of_ne (ne_countKey hres e').symm, hR.count, hlen]
  · have hk := KeyedList.key_getElem_of_map_key_eq (hkeys e') hn (hlen e' ▸ hn)
    rw [Get, GetWithIndex_write, if_neg (ne_indexKey hres e' _).symm, ← Get,
      hR.index e' n (hlen e' ▸ hn)]
    simp only [hk]

/-- Writing a new pair: the spec appends it, and `saveKey` writes its index entry and counter. -/
lemma Refines.saveKey_of_new (hR : Refines s A) (hres : ¬Reserved e i key)
    (hnew : s (getUniqueKey e i key) = none) (hroom : (A e).length + 1 < 2 ^ 64) :
    Refines (saveKey (write s (getUniqueKey e i key) value) (getUniqueKey e i key) e)
      (specPut A e i key value) := by
  have hnone : ∀ p ∈ A e, p.1 ≠ (i, key) := by
    have hfind := (hR.user e i key hres).symm.trans hnew
    simpa using hfind
  have happ : specPut A e i key value e = A e ++ [((i, key), value)] := by
    rw [specPut_self]
    exact KeyedList.upsert_of_forall_ne hnone
  have hcount : getKeyCount (write s (getUniqueKey e i key) value) e = getKeyCount s e :=
    getKeyCount_write_of_ne (ne_countKey hres e).symm
  refine ⟨hR.specPut_nodup, hR.specPut_fresh hres, fun e' i' key' hres' => ?_, fun e' => ?_,
    fun e' n hn => ?_⟩
  · rw [saveKey_of_not_reserved _ _ hres', hR.user_write e' i' key' hres']
  · rw [getKeyCount_saveKey, hcount]
    split_ifs with he
    · -- the counter of the epoch goes from the old number of pairs to the new one
      subst he
      rw [happ, List.length_append, List.length_singleton, UInt64.toNat_add, hR.count,
        UInt64.toNat_one, Nat.mod_eq_of_lt hroom]
    · rw [getKeyCount_write_of_ne (ne_countKey hres e').symm, hR.count, specPut_of_ne he]
  · rw [Get_keyName_saveKey, hcount]
    by_cases he : e' = e
    · subst he
      have hlt : n < (A e').length + 1 := by simpa [happ] using hn
      rcases Nat.lt_succ_iff_lt_or_eq.mp hlt with hlt | rfl
      · -- an entry already there: the index entry written is another one
        have hne : UInt64.ofNat n ≠ getKeyCount s e' := fun h => by
          have hn' := congrArg UInt64.toNat h
          rw [hR.count, UInt64.toNat_ofNat_of_lt' (by show _ < 2 ^ 64; omega)] at hn'
          omega
        rw [if_neg (fun h => hne h.2), Get, GetWithIndex_write, if_neg (ne_indexKey hres _ _).symm,
          ← Get, hR.index e' n hlt]
        simp only [happ, List.getElem_append_left hlt]
      · -- the new pair's entry
        have hcnt : UInt64.ofNat (A e').length = getKeyCount s e' := by
          apply UInt64.toNat_inj.mp
          rw [hR.count, UInt64.toNat_ofNat_of_lt' (by show _ < 2 ^ 64; omega)]
        rw [if_pos ⟨rfl, hcnt⟩]
        simp only [happ, List.getElem_concat_length rfl]
    · rw [if_neg (fun h => he h.1), Get, GetWithIndex_write, if_neg (ne_indexKey hres _ _).symm,
        ← Get, hR.index e' n (by rwa [specPut_of_ne he] at hn)]
      simp only [specPut_of_ne he]

/-- `PutWithIndex` refines `specPut`, for a write that is not reserved, in an epoch with room. -/
theorem PutWithIndex_refines (hR : Refines s A) (hres : ¬Reserved e i key)
    (hroom : (A e).length + 1 < 2 ^ 64) :
    Refines (PutWithIndex s e i key value) (specPut A e i key value) := by
  cases hheld : s (getUniqueKey e i key) with
  | none =>
    -- a new pair: `put` records it
    have hput : PutWithIndex s e i key value =
        saveKey (write s (getUniqueKey e i key) value) (getUniqueKey e i key) e := by
      simp [PutWithIndex, put, hheld]
    rw [hput]
    exact hR.saveKey_of_new hres hheld hroom
  | some v =>
    have hput : PutWithIndex s e i key value = write s (getUniqueKey e i key) value := by
      simp [PutWithIndex, put, hheld]
    rw [hput]
    exact hR.write_of_held hres hheld

end Step

/-! ### Runs of writes -/

/-- A call of `PutWithIndex`; `Put` is the one at index 0. -/
structure PutCall where
  epochID : UInt64
  index : UInt64
  key : Bytes
  value : Bytes
  deriving DecidableEq, Repr

/-- The calls, one after the other. -/
def runPuts (s : Db) (calls : List PutCall) : Db :=
  calls.foldl (fun s c => PutWithIndex s c.epochID c.index c.key c.value) s

/-- The calls, one after the other, on the entries. -/
def specRun (A : UInt64 → Entries) (calls : List PutCall) : UInt64 → Entries :=
  calls.foldl (fun A c => specPut A c.epochID c.index c.key c.value) A

/-- The writes of the calls to one epoch, as records of (index, key) and value. -/
def epochWrites (calls : List PutCall) (e : UInt64) : Entries :=
  (calls.filter (·.epochID = e)).map fun c => ((c.index, c.key), c.value)

/-- The (index, key) pairs written to an epoch, each once, in the order of their first write. -/
def writtenPairs (calls : List PutCall) (e : UInt64) : List (UInt64 × Bytes) :=
  KeyedList.firstKeys Prod.fst (epochWrites calls e)

/-- The value of the last write of a pair to an epoch. -/
def latestValue (calls : List PutCall) (e : UInt64) (p : UInt64 × Bytes) : Option Bytes :=
  (KeyedList.lastRecord Prod.fst (epochWrites calls e) p).map (·.2)

/-- A run of calls none of which is reserved keeps the refinement, while no epoch fills up. -/
theorem runPuts_refines {s : Db} {A : UInt64 → Entries} {calls : List PutCall}
    (hR : Refines s A) (hres : ∀ c ∈ calls, ¬Reserved c.epochID c.index c.key)
    (hroom : ∀ e, (A e).length + calls.length < 2 ^ 64) :
    Refines (runPuts s calls) (specRun A calls) := by
  induction calls generalizing s A with
  | nil => exact hR
  | cons c calls ih =>
    have hc : (A c.epochID).length + 1 < 2 ^ 64 := by
      have := hroom c.epochID
      simp only [List.length_cons] at this
      omega
    have hR' : Refines (PutWithIndex s c.epochID c.index c.key c.value)
        (specPut A c.epochID c.index c.key c.value) :=
      PutWithIndex_refines hR (hres c List.mem_cons_self) hc
    refine ih hR' (fun c' hc' => hres c' (List.mem_cons_of_mem c hc')) fun e => ?_
    -- one call adds at most one pair to an epoch
    show (specPut A c.epochID c.index c.key c.value e).length + calls.length < 2 ^ 64
    have hle : (specPut A c.epochID c.index c.key c.value e).length ≤ (A e).length + 1 :=
      specPut_length_le e
    have := hroom e
    simp only [List.length_cons] at this
    omega

/-- Per epoch, the entries are the writes to it, one after the other. -/
lemma specRun_apply (A : UInt64 → Entries) (calls : List PutCall) (e : UInt64) :
    specRun A calls e = (epochWrites calls e).foldl (KeyedList.upsert Prod.fst) (A e) := by
  induction calls generalizing A with
  | nil => rfl
  | cons c calls ih =>
    rw [specRun, List.foldl_cons, ← specRun, ih]
    by_cases he : c.epochID = e
    · subst he
      simp [epochWrites, specPut_self]
    · simp [epochWrites, he, specPut_of_ne (Ne.symm he)]

/-- From the empty store, `GetStorageByteArray` reads the latest value of each pair written to
the epoch, in the order of their first write. -/
theorem GetStorageByteArray_runPuts (calls : List PutCall)
    (hres : ∀ c ∈ calls, ¬Reserved c.epochID c.index c.key) (hlen : calls.length < 2 ^ 64)
    (e : UInt64) :
    GetStorageByteArray (runPuts Db.empty calls) e =
      (writtenPairs calls e).filterMap (latestValue calls e) := by
  have hR := runPuts_refines Refines.empty hres fun _ => by simpa using hlen
  rw [hR.GetStorageByteArray_eq, specRun_apply, KeyedList.foldl_upsert, writtenPairs,
    List.map_filterMap]
  rfl

/-- A write at epoch 0, index 0 under the name of the first index entry of epoch 1 lands on that
entry: epoch 1 then reads the empty string as its one key, and the value written to it is lost. -/
theorem reserved_key_loses_value :
    (writtenPairs [⟨1, 0, [97], [1]⟩, ⟨0, 0, getKeyName 1 0, [2]⟩] 1).filterMap
        (latestValue [⟨1, 0, [97], [1]⟩, ⟨0, 0, getKeyName 1 0, [2]⟩] 1) = [[1]] ∧
      GetStorageByteArray (runPuts Db.empty [⟨1, 0, [97], [1]⟩, ⟨0, 0, getKeyName 1 0, [2]⟩]) 1 =
        [[]] := by
  decide +kernel

/-! ### Re-running the epoch leader selection

`epochLeaderSelection` writes its `i`-th leader with `PutWithIndex(epochId, i, "", val)`, and
`GetEpochLeaderGroup` reads them back with `GetStorageByteArray(epochId)`. -/

/-- The writes of one run of `epochLeaderSelection`. -/
def leaderCalls (epochId : UInt64) (leaders : List Bytes) : List PutCall :=
  leaders.mapIdx fun i v => ⟨epochId, UInt64.ofNat i, [], v⟩

/-- The entries of one run: the `i`-th leader under `(i, "")`. -/
def leaderEntries (leaders : List Bytes) : Entries :=
  leaders.mapIdx fun i v => ((UInt64.ofNat i, []), v)

/-- A later run's leaders over an earlier run's: the later ones first, then those of the earlier
run beyond them. -/
def overlay (earlier later : List Bytes) : List Bytes := later ++ earlier.drop later.length

lemma ofNat_inj_of_lt {j k : ℕ} (hj : j < 2 ^ 64) (hk : k < 2 ^ 64)
    (h : UInt64.ofNat j = UInt64.ofNat k) : j = k := by
  have hjk := congrArg UInt64.toNat h
  rwa [UInt64.toNat_ofNat_of_lt' hj, UInt64.toNat_ofNat_of_lt' hk] at hjk

lemma length_leaderEntries (l : List Bytes) : (leaderEntries l).length = l.length :=
  List.length_mapIdx

lemma map_snd_leaderEntries (l : List Bytes) : (leaderEntries l).map (·.2) = l := by
  apply List.ext_getElem (by simp [leaderEntries])
  intro n _ _
  simp [leaderEntries]

lemma nodupKeys_leaderEntries {l : List Bytes} (hl : l.length ≤ 2 ^ 64) :
    KeyedList.NodupKeys Prod.fst (leaderEntries l) := by
  have hkeys : (leaderEntries l).map Prod.fst =
      (List.range l.length).map fun i => (UInt64.ofNat i, ([] : Bytes)) := by
    apply List.ext_getElem (by simp [leaderEntries])
    intro n _ _
    simp [leaderEntries]
  rw [KeyedList.NodupKeys, hkeys]
  refine List.Nodup.map_on (fun j hj k hk hjk => ?_) List.nodup_range
  rw [List.mem_range] at hj hk
  exact ofNat_inj_of_lt (by omega) (by omega) (Prod.ext_iff.mp hjk).1

lemma leaderEntries_middle (ws rest : List Bytes) (v : Bytes) :
    leaderEntries (ws ++ v :: rest) = leaderEntries ws ++ ((UInt64.ofNat ws.length, []), v) ::
      rest.mapIdx fun i v => ((UInt64.ofNat (i + 1 + ws.length), []), v) := by
  simp [leaderEntries, List.mapIdx_append, List.mapIdx_cons]

/-- A run written over the entries of an earlier one. -/
lemma foldl_upsert_leaderEntries (vs ws : List Bytes) (hvs : vs.length < 2 ^ 64)
    (hws : ws.length < 2 ^ 64) :
    (leaderEntries ws).foldl (KeyedList.upsert Prod.fst) (leaderEntries vs) =
      leaderEntries (overlay vs ws) := by
  induction ws using List.reverseRecOn with
  | nil => simp [overlay, leaderEntries]
  | append_singleton ws w ih =>
    rw [List.length_append, List.length_singleton] at hws
    have hsnoc : leaderEntries (ws ++ [w]) = leaderEntries ws ++ [((UInt64.ofNat ws.length, []), w)] :=
      List.mapIdx_concat
    rw [hsnoc, List.foldl_append, ih (by omega), List.foldl_cons, List.foldl_nil]
    by_cases hlt : ws.length < vs.length
    · -- the earlier leader of that index is written over
      have hdrop := List.drop_eq_getElem_cons hlt
      have hnd : KeyedList.NodupKeys Prod.fst (leaderEntries (overlay vs ws)) :=
        nodupKeys_leaderEntries (by simp only [overlay, List.length_append, List.length_drop]; omega)
      rw [overlay, hdrop, leaderEntries_middle] at hnd ⊢
      rw [KeyedList.upsert_middle (y := ((UInt64.ofNat ws.length, []), w)) hnd rfl, overlay, List.length_append, List.length_singleton,
        List.append_assoc, List.singleton_append, leaderEntries_middle]
    · -- a leader of a new index is appended
      have hnew : ∀ y ∈ leaderEntries ws, y.1 ≠ (UInt64.ofNat ws.length, []) := by
        intro y hy hy'
        obtain ⟨j, hj, rfl⟩ := List.mem_mapIdx.mp hy
        have hjk := ofNat_inj_of_lt (by omega) (by omega) (Prod.ext_iff.mp hy').1
        omega
      rw [overlay, List.drop_eq_nil_of_le (by omega), List.append_nil,
        KeyedList.upsert_of_forall_ne hnew, overlay,
        List.drop_eq_nil_of_le (by simp only [List.length_append, List.length_singleton]; omega),
        List.append_nil, hsnoc]

lemma length_overlay (earlier later : List Bytes) :
    (overlay earlier later).length = max earlier.length later.length := by
  simp only [overlay, List.length_append, List.length_drop]
  omega

/-- Runs of at most `n` leaders leave at most `n`. -/
lemma length_foldl_overlay_le {runs : List (List Bytes)} {n : ℕ} (hn : ∀ r ∈ runs, r.length ≤ n)
    {acc : List Bytes} (hacc : acc.length ≤ n) : (runs.foldl overlay acc).length ≤ n := by
  induction runs generalizing acc with
  | nil => exact hacc
  | cons r runs ih =>
    refine ih (fun r' hr' => hn r' (List.mem_cons_of_mem r hr')) ?_
    rw [length_overlay]
    exact max_le hacc (hn r List.mem_cons_self)

/-- Runs of the selection, one after the other, leave the overlay of their leaders. -/
lemma foldl_upsert_leaderRuns (runs : List (List Bytes))
    (hlen : (runs.map List.length).sum < 2 ^ 64) :
    (runs.flatMap leaderEntries).foldl (KeyedList.upsert Prod.fst) [] =
      leaderEntries (runs.foldl overlay []) := by
  induction runs using List.reverseRecOn with
  | nil => rfl
  | append_singleton runs r ih =>
    rw [List.map_append, List.sum_append, List.map_singleton, List.sum_singleton] at hlen
    have hacc : (runs.foldl overlay []).length ≤ (runs.map List.length).sum :=
      length_foldl_overlay_le (fun r' hr' => List.le_sum_of_mem (List.mem_map_of_mem hr'))
        (Nat.zero_le _)
    rw [List.flatMap_append, List.flatMap_singleton, List.foldl_append, ih (by omega),
      foldl_upsert_leaderEntries _ _ (by omega) (by omega), List.foldl_append,
      List.foldl_cons, List.foldl_nil]

/-- The writes to the epoch are those of the runs. -/
lemma epochWrites_of_leaderRuns {calls : List PutCall} {e : UInt64} {runs : List (List Bytes)}
    (h : calls.filter (·.epochID = e) = runs.flatMap (leaderCalls e)) :
    epochWrites calls e = runs.flatMap leaderEntries := by
  rw [epochWrites, h, List.map_flatMap]
  refine List.flatMap_congr fun r _ => ?_
  apply List.ext_getElem (by simp [leaderCalls, leaderEntries])
  intro n _ _
  simp [leaderCalls, leaderEntries]

/-- `GetEpochLeaderGroup` after runs of the selection of the epoch, among any writes to other
epochs: the leaders of the last run in index order, then those of longer earlier runs. -/
theorem GetStorageByteArray_leaderRuns (calls : List PutCall)
    (hres : ∀ c ∈ calls, ¬Reserved c.epochID c.index c.key) (hlen : calls.length < 2 ^ 64)
    (e : UInt64) (runs : List (List Bytes))
    (hruns : calls.filter (·.epochID = e) = runs.flatMap (leaderCalls e)) :
    GetStorageByteArray (runPuts Db.empty calls) e = runs.foldl overlay [] := by
  have hR := runPuts_refines Refines.empty hres fun _ => by simpa using hlen
  have hflat : (runs.map List.length).sum < 2 ^ 64 := by
    have hle := List.length_filter_le (·.epochID = e) calls
    rw [hruns, List.length_flatMap] at hle
    simpa [leaderCalls] using lt_of_le_of_lt hle hlen
  rw [hR.GetStorageByteArray_eq, specRun_apply, epochWrites_of_leaderRuns hruns,
    foldl_upsert_leaderRuns runs hflat, map_snd_leaderEntries]

/-- Runs of the same length leave the last one. -/
lemma foldl_overlay_of_length_eq {runs : List (List Bytes)} {n : ℕ} (hne : runs ≠ [])
    (hn : ∀ r ∈ runs, r.length = n) : runs.foldl overlay [] = runs.getLast hne := by
  have hacc : (runs.dropLast.foldl overlay []).length ≤ n :=
    length_foldl_overlay_le (fun r hr => (hn r (List.mem_of_mem_dropLast hr)).le) (Nat.zero_le _)
  conv_lhs => rw [← List.dropLast_append_getLast hne]
  rw [List.foldl_append, List.foldl_cons, List.foldl_nil, overlay,
    List.drop_eq_nil_of_le (by rw [hn _ (List.getLast_mem hne)]; exact hacc), List.append_nil]

/-- The store keeps, per epoch, the pairs written, each once, in the order of their first write,
each with its latest value, as long as no write is reserved and fewer than `2 ^ 64` are made;
re-running the leader selection of an epoch with as many leaders reads back the last run's. -/
theorem posdb_keeps_ordered_keys (calls : List PutCall)
    (hres : ∀ c ∈ calls, ¬Reserved c.epochID c.index c.key) (hlen : calls.length < 2 ^ 64)
    (e : UInt64) :
    (writtenPairs calls e).Nodup ∧
    (∀ p ∈ writtenPairs calls e, (latestValue calls e p).isSome) ∧
    GetStorageByteArray (runPuts Db.empty calls) e =
      (writtenPairs calls e).filterMap (latestValue calls e) ∧
    ∀ (runs : List (List Bytes)) (n : ℕ) (hne : runs ≠ []), (∀ r ∈ runs, r.length = n) →
      calls.filter (·.epochID = e) = runs.flatMap (leaderCalls e) →
      GetStorageByteArray (runPuts Db.empty calls) e = runs.getLast hne := by
  refine ⟨KeyedList.nodup_firstKeys _, fun p hp => ?_, GetStorageByteArray_runPuts calls hres hlen e,
    fun runs n hne hn hruns => ?_⟩
  · rw [latestValue, Option.isSome_map]
    exact KeyedList.isSome_lastRecord hp
  · rw [GetStorageByteArray_leaderRuns calls hres hlen e runs hruns, foldl_overlay_of_length_eq hne hn]

/-- Two runs of two epoch leaders each into epoch 1, around three writes into epoch 2 of two
keys, the first of them written twice. -/
def posdbCalls : List PutCall :=
  leaderCalls 1 [[10], [11]] ++ [⟨2, 0, [97], [1]⟩, ⟨2, 0, [98], [2]⟩, ⟨2, 0, [97], [3]⟩] ++
    leaderCalls 1 [[20], [21]]

/-- Epoch 2 reads back its two keys in the order of their first writes, each with its last
value; epoch 1 reads back the second run of leaders. -/
theorem posdb_keeps_ordered_keys_one :
    (∀ c ∈ posdbCalls, ¬Reserved c.epochID c.index c.key) ∧ posdbCalls.length < 2 ^ 64 ∧
    ((writtenPairs posdbCalls 2).Nodup ∧
      (∀ p ∈ writtenPairs posdbCalls 2, (latestValue posdbCalls 2 p).isSome) ∧
      GetStorageByteArray (runPuts Db.empty posdbCalls) 2 =
        (writtenPairs posdbCalls 2).filterMap (latestValue posdbCalls 2) ∧
      ∀ (runs : List (List Bytes)) (n : ℕ) (hne : runs ≠ []), (∀ r ∈ runs, r.length = n) →
        posdbCalls.filter (·.epochID = 2) = runs.flatMap (leaderCalls 2) →
        GetStorageByteArray (runPuts Db.empty posdbCalls) 2 = runs.getLast hne) ∧
    GetStorageByteArray (runPuts Db.empty posdbCalls) 2 = [[3], [2]] ∧
    ((writtenPairs posdbCalls 1).Nodup ∧
      (∀ p ∈ writtenPairs posdbCalls 1, (latestValue posdbCalls 1 p).isSome) ∧
      GetStorageByteArray (runPuts Db.empty posdbCalls) 1 =
        (writtenPairs posdbCalls 1).filterMap (latestValue posdbCalls 1) ∧
      ∀ (runs : List (List Bytes)) (n : ℕ) (hne : runs ≠ []), (∀ r ∈ runs, r.length = n) →
        posdbCalls.filter (·.epochID = 1) = runs.flatMap (leaderCalls 1) →
        GetStorageByteArray (runPuts Db.empty posdbCalls) 1 = runs.getLast hne) ∧
    posdbCalls.filter (·.epochID = 1) = [[[10], [11]], [[20], [21]]].flatMap (leaderCalls 1) ∧
    GetStorageByteArray (runPuts Db.empty posdbCalls) 1 = [[20], [21]] := by
  have hres : ∀ c ∈ posdbCalls, ¬Reserved c.epochID c.index c.key := by
    decide +kernel
  have hlen : posdbCalls.length < 2 ^ 64 := by decide
  have h2 := posdb_keeps_ordered_keys _ hres hlen 2
  have h1 := posdb_keeps_ordered_keys _ hres hlen 1
  have hruns : posdbCalls.filter (·.epochID = 1) =
      [[[10], [11]], [[20], [21]]].flatMap (leaderCalls 1) := by decide +kernel
  exact ⟨hres, hlen, h2, h2.2.2.1.trans (by decide +kernel), h1, hruns,
    h1.2.2.2 _ 2 (by simp) (by decide) hruns⟩

end Wanchain.Posdb
