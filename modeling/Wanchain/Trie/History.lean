import Wanchain.Trie.Map

/-!
# Runs of Update and Delete

A trie with no database, written by `TryUpdate` and `TryDelete` from the empty trie, refines a
map from keys to values (`Holds`): every call succeeds, so none of the panics of `insert` and
`delete` is ever reached; after the calls the trie holds exactly the map they wrote
(`lastWritten`), which `TryGet` reads back; and as its nodes stay canonical and a canonical node
is the only one of its map (`Node.WfOpt.eq_of_get`), the trie, and so its hash, is a function of
that map alone.
-/

namespace Wanchain.Trie

open WordMap Machine

/-! ### The calls and the map they write -/

/-- A call of the trie's API that writes. -/
inductive Op where
  | update (key value : Bytes)
  | delete (key : Bytes)

/-- The key a call writes at. -/
def Op.key : Op → Bytes
  | .update k _ => k
  | .delete k => k

/-- What a call leaves at its key: the value of an `Update`, which deletes when it is empty, and
the empty value for a `Delete`, which `Get` returns as nil. -/
def Op.value : Op → Bytes
  | .update _ v => v
  | .delete _ => []

/-- The call made on a trie: `TryUpdate` or `TryDelete`. -/
def Op.apply (t : Trie) : Op → Except String Trie
  | .update k v => t.TryUpdate k v
  | .delete k => t.TryDelete k

/-- The calls made one after another on the empty trie; the first error stops them. -/
def runOps (ops : List Op) : Except String Trie := ops.foldlM Op.apply Trie.empty

/-- What a call does to the map from keys to values. -/
def Op.write (m : Bytes → Bytes) (op : Op) : Bytes → Bytes := Function.update m op.key op.value

/-- The map the calls write: each key to the value of the last call at it, empty if none. -/
def lastWritten (ops : List Op) : Bytes → Bytes := run Op.write (fun _ => []) ops

/-! ### The trie holds a map -/

/-- The entry of a value in the trie: none for the empty value. -/
def entry (v : Bytes) : Option Bytes := if v = [] then none else some v

@[simp] lemma entry_getD (v : Bytes) : (entry v).getD [] = v := by
  by_cases hv : v = [] <;> simp [entry, hv]

/-- The trie holds the map `m`: its root is canonical or nil, it gives the hex form of every key
the key's entry, and it has no other entry. -/
structure Holds (t : Trie) (m : Bytes → Bytes) : Prop where
  wf : t.root.WfOpt
  get_hex : ∀ k, t.root.get (keybytesToHex k) = entry (m k)
  hex_of_get : ∀ w, t.root.get w ≠ none → ∃ k, w = keybytesToHex k

lemma holds_empty : Holds Trie.empty fun _ => [] :=
  ⟨.inl rfl, fun _ => rfl, fun _ h => absurd rfl h⟩

/-- A root written at the hex form of one key, and canonical, holds the map written there. -/
lemma Holds.write {t : Trie} {m : Bytes → Bytes} (h : Holds t m) {n : Node} (hn : n.WfOpt)
    {k v : Bytes} (hget : n.get = Function.update t.root.get (keybytesToHex k) (entry v)) :
    Holds ⟨n⟩ (Function.update m k v) where
  wf := hn
  get_hex k' := by
    show n.get _ = _
    by_cases hk : k' = k
    · rw [hk, hget, Function.update_self, Function.update_self]
    · rw [hget, Function.update_of_ne (fun h => hk (keybytesToHex_injective h)),
        Function.update_of_ne hk, h.get_hex]
  hex_of_get w hw := by
    change n.get w ≠ none at hw
    by_cases hwk : w = keybytesToHex k
    · exact ⟨k, hwk⟩
    · rw [hget, Function.update_of_ne hwk] at hw
      exact h.hex_of_get w hw

lemma Holds.tryDelete {t : Trie} {m : Bytes → Bytes} (h : Holds t m) (k : Bytes) :
    ∃ t', t.TryDelete k = .ok t' ∧ Holds t' (Function.update m k []) := by
  obtain ⟨d, n, hdel, hn, hget, -⟩ := delete_spec h.wf (hexWord_keybytesToHex k)
  refine ⟨⟨n⟩, ?_, h.write hn hget⟩
  rw [Trie.TryDelete, hdel]
  rfl

lemma Holds.tryUpdate {t : Trie} {m : Bytes → Bytes} (h : Holds t m) (k v : Bytes) :
    ∃ t', t.TryUpdate k v = .ok t' ∧ Holds t' (Function.update m k v) := by
  by_cases hv : v = []
  · -- an empty value is a deletion
    subst hv
    obtain ⟨t', hdel, ht'⟩ := h.tryDelete k
    refine ⟨t', ?_, ht'⟩
    rw [← hdel]
    rfl
  · obtain ⟨d, n, hins, hn, hget, -⟩ := insert_spec h.wf (hexWord_keybytesToHex k) hv
    refine ⟨⟨n⟩, ?_, h.write (.inr hn) (by rw [hget, entry, if_neg hv])⟩
    rw [Trie.TryUpdate, if_pos (by simpa using hv)]
    simp only [hins]
    rfl

/-- One call on a trie that holds a map succeeds, and the trie then holds the map the call
writes. -/
lemma Holds.applyOp {t : Trie} {m : Bytes → Bytes} (h : Holds t m) (op : Op) :
    ∃ t', Op.apply t op = .ok t' ∧ Holds t' (Op.write m op) := by
  cases op with
  | update k v => exact h.tryUpdate k v
  | delete k => exact h.tryDelete k

lemma holds_runOps (ops : List Op) : ∃ t, runOps ops = .ok t ∧ Holds t (lastWritten ops) :=
  foldlM_simulation (fun _ _ op h => h.applyOp op) ops holds_empty

/-- `TryGet` reads the map the trie holds. -/
lemma Holds.tryGet {t : Trie} {m : Bytes → Bytes} (h : Holds t m) (k : Bytes) :
    t.TryGet k = .ok (m k) := by
  rw [Trie.TryGet, tryGet_eq h.wf (hexWord_keybytesToHex k), h.get_hex, entry_getD]

/-- Two tries that hold one map are one trie. -/
lemma Holds.eq {t t' : Trie} {m : Bytes → Bytes} (h : Holds t m) (h' : Holds t' m) : t = t' := by
  have hget : t.root.get = t'.root.get := by
    funext w
    by_cases hw : ∃ k, w = keybytesToHex k
    · obtain ⟨k, rfl⟩ := hw
      rw [h.get_hex, h'.get_hex]
    · -- neither has an entry off the hex keys
      have h₁ : t.root.get w = none := by
        by_contra hne
        exact hw (h.hex_of_get w hne)
      have h₂ : t'.root.get w = none := by
        by_contra hne
        exact hw (h'.hex_of_get w hne)
      rw [h₁, h₂]
  cases t
  cases t'
  congr 1
  exact h.wf.eq_of_get h'.wf hget

/-- A trie written by `TryUpdate` and `TryDelete` from the empty trie: every call succeeds; the
root is canonical or nil; `TryGet` returns the value of the last call at the key, nil if there is
none or it was a deletion; and any other sequence of calls that writes the same map leaves the
same trie, with the same hash for any hash function. -/
theorem runOps_history_independent (ops : List Op) :
    ∃ t, runOps ops = .ok t ∧ t.root.WfOpt ∧ (∀ k, t.TryGet k = .ok (lastWritten ops k)) ∧
      ∀ ops' t', runOps ops' = .ok t' → lastWritten ops' = lastWritten ops →
        t' = t ∧ ∀ Keccak256 : Bytes → Bytes, t'.Hash Keccak256 = t.Hash Keccak256 := by
  obtain ⟨t, hrun, ht⟩ := holds_runOps ops
  refine ⟨t, hrun, ht.wf, ht.tryGet, fun ops' t' hrun' hsame => ?_⟩
  obtain ⟨t'', hrun'', ht''⟩ := holds_runOps ops'
  rw [hrun'] at hrun''
  cases hrun''
  have heq : t' = t := (hsame ▸ ht'').eq ht
  exact ⟨heq, fun _ => by rw [heq]⟩

end Wanchain.Trie
