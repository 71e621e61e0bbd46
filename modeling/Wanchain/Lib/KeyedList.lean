import Mathlib.Data.List.Nodup
import Mathlib.Data.List.Induction
import Mathlib.Algebra.BigOperators.Group.List.Basic
import Mathlib.Tactic.Abel

/-!
# Lists with distinct keys

A list of records read through a key function, in which no key occurs twice: the shape of a
table stored as an array and searched by a field. The operations are the ones such tables are
updated with (change the records of one key, append a record for a new key, write a record over
the one of its key, drop records), and the lemmas say that they keep the keys distinct and how
they move the sum of a weight over the records.
-/

namespace KeyedList

variable {α κ M : Type*} (key : α → κ)

/-- No two records share a key. -/
def NodupKeys (l : List α) : Prop := (l.map key).Nodup

variable {key}

@[simp] lemma nodupKeys_nil : NodupKeys key ([] : List α) := List.nodup_nil

lemma NodupKeys.sublist {l l' : List α} (h : l'.Sublist l) (hl : NodupKeys key l) :
    NodupKeys key l' :=
  (h.map key).nodup hl

lemma NodupKeys.filter (p : α → Bool) {l : List α} (hl : NodupKeys key l) :
    NodupKeys key (l.filter p) :=
  hl.sublist (List.filter_sublist)

/-- A map that keeps every key keeps the list of keys. -/
lemma map_key_map {f : α → α} (hf : ∀ x, key (f x) = key x) (l : List α) :
    (l.map f).map key = l.map key := by
  rw [List.map_map]
  exact List.map_congr_left fun x _ => hf x

/-- Two lists with the same keys have the same key at each position. -/
lemma key_getElem_of_map_key_eq {l l' : List α} (h : l'.map key = l.map key) {n : ℕ}
    (hn : n < l'.length) (hn' : n < l.length) : key l'[n] = key l[n] := by
  have hget := List.getElem_of_eq h (by simpa using hn : n < (l'.map key).length)
  simpa using hget

lemma NodupKeys.map {f : α → α} (hf : ∀ x, key (f x) = key x) {l : List α}
    (hl : NodupKeys key l) : NodupKeys key (l.map f) := by
  unfold NodupKeys
  rwa [map_key_map hf]

lemma NodupKeys.append_singleton {l : List α} {x : α} (hl : NodupKeys key l)
    (hx : ∀ y ∈ l, key y ≠ key x) : NodupKeys key (l ++ [x]) := by
  unfold NodupKeys
  rw [List.map_append, List.nodup_append]
  refine ⟨hl, List.nodup_singleton _, ?_⟩
  rintro _ hky _ hz rfl
  obtain ⟨y, hy, rfl⟩ := List.mem_map.mp hky
  rw [List.map_singleton, List.mem_singleton] at hz
  exact hx y hy hz

/-- Replacing records by `f`, which keeps the key of what it keeps, drops keys from the list of
keys and keeps the order of the others. -/
lemma map_key_filterMap_sublist {f : α → Option α} (hf : ∀ x y, f x = some y → key y = key x)
    (l : List α) : ((l.filterMap f).map key).Sublist (l.map key) := by
  induction l with
  | nil => exact List.Sublist.slnil
  | cons x l ih =>
    cases hfx : f x with
    | none =>
      rw [List.filterMap_cons_none hfx]
      exact ih.cons _
    | some y =>
      rw [List.filterMap_cons_some hfx, List.map_cons, List.map_cons, hf x y hfx]
      exact ih.cons_cons _

lemma NodupKeys.filterMap_append {f : α → Option α} (hf : ∀ x y, f x = some y → key y = key x)
    {p s : List α} (hl : NodupKeys key (p ++ s)) : NodupKeys key (p.filterMap f ++ s) := by
  unfold NodupKeys at hl ⊢
  rw [List.map_append] at hl ⊢
  exact ((map_key_filterMap_sublist hf p).append (List.Sublist.refl _)).nodup hl

/-- A pass over the records of a list with distinct keys in which the step at record `x`
writes only the slot of `x`, replacing `x` by the records of `f x`, replaces every record `x`
by `f x`. -/
theorem foldl_eq_filterMap {g : List α → α → List α} {f : α → Option α} {l : List α}
    (hf : ∀ x y, f x = some y → key y = key x)
    (hg : ∀ P s x, x ∈ l → NodupKeys key (P ++ x :: s) →
      g (P ++ x :: s) x = P ++ (f x).toList ++ s)
    (hl : NodupKeys key l) : l.foldl g l = l.filterMap f := by
  -- the pass has replaced the records of a prefix `p` and not yet touched the rest `s`
  have key_pass : ∀ s p, (∀ x ∈ s, x ∈ l) → NodupKeys key (p ++ s) →
      s.foldl g (p.filterMap f ++ s) = (p ++ s).filterMap f := by
    intro s
    induction s with
    | nil => intro p _ _; simp
    | cons x s ih =>
      intro p hsl hps
      have hstep : g (p.filterMap f ++ x :: s) x = (p ++ [x]).filterMap f ++ s := by
        rw [hg _ _ _ (hsl x List.mem_cons_self) (hps.filterMap_append hf), List.filterMap_append]
        cases hfx : f x <;> simp [hfx]
      rw [List.foldl_cons, hstep,
        ih (p ++ [x]) (fun y hy => hsl y (List.mem_cons_of_mem x hy)) (by simpa using hps)]
      simp
  simpa using key_pass l [] (fun _ hx => hx) (by simpa using hl)

variable [DecidableEq κ] (key)

/-- Applies `f` to every record of key `k`. -/
def modifyKey (k : κ) (f : α → α) (l : List α) : List α :=
  l.map fun y => if key y = k then f y else y

/-- Writes `x` over the records of its key, or appends it when its key is new. -/
def upsert (l : List α) (x : α) : List α :=
  if l.any (fun y => key y = key x) then modifyKey key (key x) (fun _ => x) l else l ++ [x]

/-- The keys of the records of `l`, each once, in the order of their first record. -/
def firstKeys (l : List α) : List κ :=
  l.foldl (fun ks x => if key x ∈ ks then ks else ks ++ [key x]) []

/-- The last record of `l` of the key `k`. -/
def lastRecord (l : List α) (k : κ) : Option α := (l.filter (key · = k)).getLast?

variable {key}

lemma modifyKey_key (k : κ) {f : α → α} (hf : ∀ y, key y = k → key (f y) = k) (x : α) :
    key (if key x = k then f x else x) = key x := by
  split_ifs with hx
  · rw [hf x hx, hx]
  · rfl

/-- `modifyKey` keeps the keys distinct when `f` keeps the key `k`. -/
lemma NodupKeys.modifyKey (k : κ) (f : α → α) (hf : ∀ y, key y = k → key (f y) = k)
    {l : List α} (hl : NodupKeys key l) : NodupKeys key (KeyedList.modifyKey key k f l) :=
  hl.map (modifyKey_key k hf)

/-- Without a record of key `k`, `modifyKey` changes nothing. -/
lemma modifyKey_of_forall_ne {k : κ} {f : α → α} {l : List α} (h : ∀ y ∈ l, key y ≠ k) :
    modifyKey key k f l = l := by
  conv_rhs => rw [← List.map_id l]
  exact List.map_congr_left fun y hy => if_neg (h y hy)

lemma NodupKeys.upsert {l : List α} (hl : NodupKeys key l) (x : α) :
    NodupKeys key (KeyedList.upsert key l x) := by
  unfold KeyedList.upsert
  split_ifs with h
  · exact hl.modifyKey _ _ fun _ _ => rfl
  · simp only [List.any_eq_true, decide_eq_true_eq, not_exists, not_and] at h
    exact hl.append_singleton h

/-- A record of `upsert key l x` is `x` or a record of `l`. -/
lemma mem_upsert {l : List α} {x y : α} (h : y ∈ KeyedList.upsert key l x) : y ∈ l ∨ y = x := by
  unfold KeyedList.upsert KeyedList.modifyKey at h
  split_ifs at h
  · obtain ⟨z, hz, rfl⟩ := List.mem_map.mp h
    split_ifs
    · exact .inr rfl
    · exact .inl hz
  · simpa using h

lemma mem_upsert_self (l : List α) (x : α) : x ∈ KeyedList.upsert key l x := by
  unfold KeyedList.upsert KeyedList.modifyKey
  split_ifs with h
  · obtain ⟨z, hz, hzx⟩ := List.any_eq_true.mp h
    exact List.mem_map.mpr ⟨z, hz, if_pos (of_decide_eq_true hzx)⟩
  · exact List.mem_append_right l (List.mem_singleton_self x)

/-- The one record of key `key x` in `upsert key l x` is `x`. -/
lemma eq_of_mem_upsert {l : List α} {x y : α} (h : y ∈ KeyedList.upsert key l x)
    (hy : key y = key x) : y = x := by
  unfold KeyedList.upsert KeyedList.modifyKey at h
  split_ifs at h with hany
  · obtain ⟨z, -, rfl⟩ := List.mem_map.mp h
    split_ifs at hy ⊢ with hz
    · rfl
    · exact absurd hy hz
  · -- no record of `l` has the key of `x`, so `y` is the appended one
    rcases List.mem_append.mp h with hl | hx
    · exact absurd (List.any_eq_true.mpr ⟨y, hl, decide_eq_true hy⟩) hany
    · exact List.mem_singleton.mp hx

/-- Writing a record of key `key x` over a list with distinct keys replaces `x` in place. -/
lemma upsert_middle {P s : List α} {x y : α} (hl : NodupKeys key (P ++ x :: s))
    (hy : key y = key x) : upsert key (P ++ x :: s) y = P ++ y :: s := by
  have hnd := List.nodup_middle.mp (by simpa [NodupKeys] using hl)
  rw [List.nodup_cons, List.mem_append, not_or] at hnd
  have hP : ∀ z ∈ P, key z ≠ key y := fun z hz hzy =>
    hnd.1.1 (List.mem_map.mpr ⟨z, hz, hzy.trans hy⟩)
  have hs : ∀ z ∈ s, key z ≠ key y := fun z hz hzy =>
    hnd.1.2 (List.mem_map.mpr ⟨z, hz, hzy.trans hy⟩)
  have hany : (P ++ x :: s).any (fun z => key z = key y) = true :=
    List.any_eq_true.mpr ⟨x, by simp, by simp [hy]⟩
  rw [upsert, if_pos hany, modifyKey, List.map_append, List.map_cons, if_pos hy.symm]
  rw [← modifyKey, ← modifyKey, modifyKey_of_forall_ne hP, modifyKey_of_forall_ne hs]

/-- Dropping the records of key `key x` from a list with distinct keys drops `x` alone. -/
lemma filter_middle {P s : List α} {x : α} (hl : NodupKeys key (P ++ x :: s)) :
    (P ++ x :: s).filter (fun z => key z ≠ key x) = P ++ s := by
  have hnd := List.nodup_middle.mp (by simpa [NodupKeys] using hl)
  rw [List.nodup_cons, List.mem_append, not_or] at hnd
  have hP : ∀ z ∈ P, key z ≠ key x := fun z hz hzx =>
    hnd.1.1 (List.mem_map.mpr ⟨z, hz, hzx⟩)
  have hs : ∀ z ∈ s, key z ≠ key x := fun z hz hzx =>
    hnd.1.2 (List.mem_map.mpr ⟨z, hz, hzx⟩)
  rw [List.filter_append, List.filter_cons_of_neg (by simp), List.filter_eq_self.mpr
    (by simpa using hP), List.filter_eq_self.mpr (by simpa using hs)]

/-! ### Looking a key up -/

/-- In a list with distinct keys, a record is the one found under its key. -/
lemma find?_of_mem {l : List α} {x : α} (hl : NodupKeys key l) (hx : x ∈ l) :
    l.find? (fun y => key y = key x) = some x := by
  induction l with
  | nil => cases hx
  | cons y l ih =>
    have hnd := List.nodup_cons.mp hl
    rcases List.mem_cons.mp hx with rfl | hxl
    · simp
    · have hy : key y ≠ key x := fun hyx => hnd.1 (List.mem_map.mpr ⟨x, hxl, hyx.symm⟩)
      rw [List.find?_cons_of_neg (by simpa using hy)]
      exact ih hnd.2 hxl

/-- Without a record of the key of `x`, `upsert` appends `x`. -/
lemma upsert_of_forall_ne {l : List α} {x : α} (h : ∀ y ∈ l, key y ≠ key x) :
    upsert key l x = l ++ [x] := by
  unfold upsert
  rw [if_neg]
  simpa using h

/-- With a record of the key of `x`, `upsert` keeps every key in its place. -/
lemma map_key_upsert_of_mem {l : List α} {x y : α} (hy : y ∈ l) (hyx : key y = key x) :
    (upsert key l x).map key = l.map key := by
  unfold upsert
  rw [if_pos (List.any_eq_true.mpr ⟨y, hy, decide_eq_true hyx⟩)]
  exact map_key_map (modifyKey_key (key x) fun _ _ => rfl) l

/-- The record found under the key of `x` after `upsert` is `x`. -/
lemma find?_upsert_self (l : List α) (x : α) :
    (upsert key l x).find? (fun y => key y = key x) = some x := by
  unfold upsert modifyKey
  split_ifs with h
  · -- the first record of that key is overwritten by `x`
    obtain ⟨z, hz, hzx⟩ := List.any_eq_true.mp h
    rw [List.find?_map]
    have hfind : l.find? ((fun y => decide (key y = key x)) ∘
        fun y => if key y = key x then x else y) = l.find? (fun y => key y = key x) := by
      congr 1
      funext y
      by_cases hy : key y = key x <;> simp [hy]
    rw [hfind]
    cases hf : l.find? (fun y => key y = key x) with
    | none => exact absurd hzx (by simpa using List.find?_eq_none.mp hf z hz)
    | some w =>
      have hw : key w = key x := by simpa using List.find?_some hf
      simp [hw]
  · have hnone : l.find? (fun y => key y = key x) = none := by
      refine List.find?_eq_none.mpr fun y hy => ?_
      simpa using fun hyx => h (List.any_eq_true.mpr ⟨y, hy, decide_eq_true hyx⟩)
    rw [List.find?_append, hnone]
    simp

/-- The record found under another key is the one found before `upsert`. -/
lemma find?_upsert_of_ne {l : List α} {x : α} {k : κ} (hk : k ≠ key x) :
    (upsert key l x).find? (fun y => key y = k) = l.find? (fun y => key y = k) := by
  unfold upsert modifyKey
  split_ifs
  · rw [List.find?_map]
    have hfind : l.find? ((fun y => decide (key y = k)) ∘
        fun y => if key y = key x then x else y) = l.find? (fun y => key y = k) := by
      congr 1
      funext y
      by_cases hy : key y = key x
      · simp [hy, Ne.symm hk]
      · simp [hy]
    rw [hfind]
    cases hf : l.find? (fun y => key y = k) with
    | none => rfl
    | some w =>
      have hw : key w = k := by simpa using List.find?_some hf
      simp [hw ▸ hk]
  · rw [List.find?_append]
    cases hf : l.find? (fun y => key y = k) with
    | some w => rfl
    | none => simp [Ne.symm hk]
/-! ### Sequences of writes

Writing the records of `l` one after the other into an empty table leaves the table of an
insertion-ordered map: one record per key, in the order the keys first occur, each the last
record of its key (`foldl_upsert`). -/

section Writes

variable {l : List α} {k : κ}

lemma firstKeys_append_singleton (l : List α) (x : α) :
    firstKeys key (l ++ [x]) =
      if key x ∈ firstKeys key l then firstKeys key l else firstKeys key l ++ [key x] := by
  simp only [firstKeys, List.foldl_append, List.foldl_cons, List.foldl_nil]
  rfl

lemma lastRecord_append_singleton (l : List α) (x : α) (k : κ) :
    lastRecord key (l ++ [x]) k = if key x = k then some x else lastRecord key l k := by
  by_cases hx : key x = k <;> simp [lastRecord, List.filter_append, hx]

lemma mem_firstKeys : k ∈ firstKeys key l ↔ ∃ x ∈ l, key x = k := by
  induction l using List.reverseRecOn with
  | nil => simp [firstKeys]
  | append_singleton l x ih =>
    rw [firstKeys_append_singleton]
    split_ifs with hx
    · -- the key of `x` was already there
      simp only [ih, List.mem_append, List.mem_singleton]
      constructor
      · rintro ⟨y, hy, hyk⟩
        exact ⟨y, .inl hy, hyk⟩
      · rintro ⟨y, hy | rfl, hyk⟩
        · exact ⟨y, hy, hyk⟩
        · exact ih.mp (hyk ▸ hx)
    · simp only [List.mem_append, List.mem_singleton, ih]
      constructor
      · rintro (⟨y, hy, hyk⟩ | rfl)
        · exact ⟨y, .inl hy, hyk⟩
        · exact ⟨x, .inr rfl, rfl⟩
      · rintro ⟨y, hy | rfl, hyk⟩
        · exact .inl ⟨y, hy, hyk⟩
        · exact .inr hyk.symm

lemma nodup_firstKeys (l : List α) : (firstKeys key l).Nodup := by
  induction l using List.reverseRecOn with
  | nil => simp [firstKeys]
  | append_singleton l x ih =>
    rw [firstKeys_append_singleton]
    split_ifs with hx
    · exact ih
    · rw [← List.concat_eq_append]
      exact ih.concat hx

lemma key_of_lastRecord {y : α} (h : lastRecord key l k = some y) : key y = k := by
  have hy := List.mem_of_getLast? h
  simpa using (List.mem_filter.mp hy).2

lemma isSome_lastRecord (h : k ∈ firstKeys key l) : (lastRecord key l k).isSome := by
  obtain ⟨x, hx, hxk⟩ := mem_firstKeys.mp h
  rw [lastRecord, List.getLast?_isSome, ne_eq, List.filter_eq_nil_iff, not_forall]
  exact ⟨x, fun h => h hx (by simpa using hxk)⟩

/-- The writes of `l`, one after the other from the empty table, leave the last record of each
key, in the order the keys first occur. -/
theorem foldl_upsert (l : List α) :
    l.foldl (upsert key) [] = (firstKeys key l).filterMap (lastRecord key l) := by
  induction l using List.reverseRecOn with
  | nil => rfl
  | append_singleton l x ih =>
    rw [List.foldl_append, List.foldl_cons, List.foldl_nil, ih, firstKeys_append_singleton]
    split_ifs with hx
    · -- an old key: its last record becomes `x`, in its place
      have hmem : (firstKeys key l).filterMap (lastRecord key l) |>.any (fun y => key y = key x) :=
        List.any_eq_true.mpr (by
          obtain ⟨y, hy⟩ := Option.isSome_iff_exists.mp (isSome_lastRecord hx)
          exact ⟨y, List.mem_filterMap.mpr ⟨key x, hx, hy⟩, by simpa using key_of_lastRecord hy⟩)
      rw [upsert, if_pos hmem, modifyKey, List.map_filterMap]
      refine List.filterMap_congr fun k hk => ?_
      rw [lastRecord_append_singleton]
      by_cases hk' : key x = k
      · subst hk'
        obtain ⟨y, hy⟩ := Option.isSome_iff_exists.mp (isSome_lastRecord hk)
        simp [hy, key_of_lastRecord hy]
      · cases hy : lastRecord key l k with
        | none => simp [hk']
        | some y => simp [key_of_lastRecord hy, Ne.symm hk', hk']
    · -- a new key: `x` is appended
      have hnew : ∀ y ∈ (firstKeys key l).filterMap (lastRecord key l), key y ≠ key x :=
        fun y hy hyx => by
          obtain ⟨k, hk, hky⟩ := List.mem_filterMap.mp hy
          rw [← hyx, key_of_lastRecord hky] at hx
          exact hx hk
      rw [upsert_of_forall_ne hnew, List.filterMap_append]
      congr 1
      · refine List.filterMap_congr fun k hk => ?_
        rw [lastRecord_append_singleton, if_neg (fun h => hx (by rw [h]; exact hk))]
      · simp [lastRecord_append_singleton]

end Writes

/-! ### Sums of a weight -/

section Sum

variable [AddCommMonoid M] (g : α → M)

/-- In a list with distinct keys, changing the record `x` of key `k` changes the sum by the
difference of the two weights. -/
theorem sum_modifyKey (f : α → α) {k : κ} {l : List α} (hl : NodupKeys key l) {x : α}
    (hx : x ∈ l) (hk : key x = k) :
    ((modifyKey key k f l).map g).sum + g x = (l.map g).sum + g (f x) := by
  induction l with
  | nil => cases hx
  | cons y l ih =>
    have hnd := List.nodup_cons.mp hl
    simp only [modifyKey, List.map_cons, List.sum_cons] at ih ⊢
    rcases List.mem_cons.mp hx with rfl | hxl
    · -- the head is the record of key `k`; no other record has that key
      have hrest : ∀ z ∈ l, key z ≠ k := fun z hz hzk =>
        hnd.1 (List.mem_map.mpr ⟨z, hz, hzk.trans hk.symm⟩)
      rw [if_pos hk, show (l.map fun y => if key y = k then f y else y) = l from
        modifyKey_of_forall_ne hrest]
      abel
    · have hy : key y ≠ k := fun hyk =>
        hnd.1 (List.mem_map.mpr ⟨x, hxl, hk.trans hyk.symm⟩)
      rw [if_neg hy, add_assoc, ih hnd.2 hxl]
      abel

end Sum

end KeyedList
