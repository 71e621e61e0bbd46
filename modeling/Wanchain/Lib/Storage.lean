import Wanchain.Lib.KeyedList

/-!
# Key-value storage

The storage of a contract as the entries of its trie: at most one value under each key. A read
of an absent key finds nothing; a write replaces the value of its key, or adds the key. A loop
over the entries that adds up a weight of the values (`total`) moves by a write exactly by the
weight of the new value less that of the value it replaces.
-/

namespace KeyedList

/-- A key-value storage: its entries, no two under one key. -/
structure Storage (κ ν : Type*) where
  entries : List (κ × ν)
  nodup : NodupKeys Prod.fst entries

namespace Storage

variable {κ ν M : Type*} [DecidableEq κ]

/-- The storage with no entry. -/
def empty : Storage κ ν := ⟨[], nodupKeys_nil⟩

/-- The value stored under `k`. -/
def get (s : Storage κ ν) (k : κ) : Option ν :=
  (s.entries.find? (·.1 = k)).map (·.2)

/-- Writes `v` under `k`. -/
def set (s : Storage κ ν) (k : κ) (v : ν) : Storage κ ν :=
  ⟨upsert Prod.fst s.entries (k, v), s.nodup.upsert _⟩

/-- The sum of a weight over the stored values. -/
def total [AddCommMonoid M] (g : ν → M) (s : Storage κ ν) : M :=
  (s.entries.map fun e => g e.2).sum

@[simp] lemma get_empty (k : κ) : (empty : Storage κ ν).get k = none := rfl

/-- A read finds exactly the entries of the storage. -/
lemma get_eq_some_iff {s : Storage κ ν} {k : κ} {v : ν} :
    s.get k = some v ↔ (k, v) ∈ s.entries := by
  constructor
  · intro h
    obtain ⟨e, he, rfl⟩ := Option.map_eq_some_iff.mp h
    have hk : e.1 = k := by simpa using List.find?_some he
    rw [← hk]
    exact List.mem_of_find?_eq_some he
  · intro h
    -- the first entry with key `k` is the member, since keys are distinct
    obtain ⟨e, he⟩ := Option.isSome_iff_exists.mp
      (List.find?_isSome.mpr ⟨(k, v), h, by simp⟩ : (s.entries.find? (·.1 = k)).isSome)
    have hmem := List.mem_of_find?_eq_some he
    have hk : e.1 = k := by simpa using List.find?_some he
    have heq : e = (k, v) := List.inj_on_of_nodup_map s.nodup hmem h hk
    simp [get, he, heq]

@[simp] lemma get_set_self (s : Storage κ ν) (k : κ) (v : ν) : (s.set k v).get k = some v := by
  rw [get_eq_some_iff]
  unfold set upsert modifyKey
  split_ifs with hany
  · -- the entry of key `k` is overwritten in place
    obtain ⟨y, hy, hyk⟩ := List.any_eq_true.mp hany
    exact List.mem_map.mpr ⟨y, hy, if_pos (of_decide_eq_true hyk)⟩
  · simp

lemma mem_set_of_ne {s : Storage κ ν} {k k' : κ} {v v' : ν} (h : k' ≠ k) :
    (k', v') ∈ (s.set k v).entries ↔ (k', v') ∈ s.entries := by
  unfold set upsert modifyKey
  split_ifs
  · constructor
    · intro hm
      obtain ⟨y, hy, hyv⟩ := List.mem_map.mp hm
      split_ifs at hyv with hyk
      · have hkk : k = k' := congrArg Prod.fst hyv
        exact absurd hkk.symm h
      · rwa [← hyv]
    · intro hm
      exact List.mem_map.mpr ⟨(k', v'), hm, if_neg h⟩
  · simp [h]

@[simp] lemma get_set_of_ne (s : Storage κ ν) {k k' : κ} (v : ν) (h : k' ≠ k) :
    (s.set k v).get k' = s.get k' := by
  cases hg : s.get k' with
  | none =>
    cases hg' : (s.set k v).get k' with
    | none => rfl
    | some v' => exact absurd (get_eq_some_iff.mpr ((mem_set_of_ne h).mp
        (get_eq_some_iff.mp hg'))) (by simp [hg])
  | some v' => exact get_eq_some_iff.mpr ((mem_set_of_ne h).mpr (get_eq_some_iff.mp hg))

/-- A write moves the total by the weight of the new value less that of the old one. -/
theorem total_set [AddCommMonoid M] (g : ν → M) (s : Storage κ ν) (k : κ) (v : ν) :
    total g (s.set k v) + (s.get k).elim 0 g = total g s + g v := by
  cases hk : s.get k with
  | none =>
    -- a new key: the entry is appended
    have hnot : ¬ s.entries.any (fun y => y.1 = k) := by
      intro hany
      obtain ⟨y, hy, hyk⟩ := List.any_eq_true.mp hany
      have : s.get k = some y.2 := get_eq_some_iff.mpr (by simp at hyk; simpa [← hyk] using hy)
      simp [hk] at this
    simp [total, set, upsert, hnot]
  | some w =>
    have hmem := get_eq_some_iff.mp hk
    have hany : s.entries.any (fun y => y.1 = k) := List.any_eq_true.mpr ⟨(k, w), hmem, by simp⟩
    simp only [total, set, upsert, hany, if_true, Option.elim]
    exact sum_modifyKey (fun e : κ × ν => g e.2) (fun _ => (k, v)) s.nodup hmem rfl

end Storage

end KeyedList
