import Wanchain.Trie.Node
import Wanchain.Lib.WordMap
import Wanchain.Lib.Machine

/-!
# The trie is a finite map, and a canonical one

What a node means is a map of words (`Node.get`, built with `WordMap`): a value the entry of the
empty word, a short node its child's map behind its key, a full node the map that reads a nibble
and goes on in that child. The trie of a sequence of `Update` and `Delete` calls holds exactly
the last value written at each key; its nodes stay canonical (`Node.Wf`: no short node below a
short node, no full node with fewer than two children, no extension with an empty key, every
path to a value a hex key); and a canonical trie is the only one of its map, so two sequences
that leave the same map leave the same trie and the same hash.

The keys below a node are the ends of hex keys (`HexWord`): nibbles, then the terminator. No
such word is a prefix of another, which is what keeps `insert` from reaching a value with key
left and `tryGet` from reading past the end of the key.
-/

namespace Wanchain.Trie

open WordMap

/-! ### The ends of hex keys -/

/-- Nibbles below `16`, then the terminator `16`. -/
inductive HexWord : Bytes → Prop
  | term : HexWord [16]
  | cons {x : UInt8} {w : Bytes} : x < 16 → HexWord w → HexWord (x :: w)

namespace HexWord

lemma ne_nil {w : Bytes} (h : HexWord w) : w ≠ [] := by
  cases h <;> simp

lemma cons_iff {x : UInt8} {w : Bytes} : HexWord (x :: w) ↔ (x = 16 ∧ w = []) ∨ (x < 16 ∧ HexWord w) := by
  constructor
  · intro h
    cases h with
    | term => exact .inl ⟨rfl, rfl⟩
    | cons hx hw => exact .inr ⟨hx, hw⟩
  · rintro (⟨rfl, rfl⟩ | ⟨hx, hw⟩)
    · exact .term
    · exact .cons hx hw

lemma of_nibbles {ns : Bytes} (h : ∀ x ∈ ns, x < 16) : HexWord (ns ++ [16]) := by
  induction ns with
  | nil => exact .term
  | cons x ns ih =>
    exact .cons (h x List.mem_cons_self) (ih fun y hy => h y (List.mem_cons_of_mem x hy))

/-- Nibbles in front of a hex word leave a hex word. -/
lemma append_iff {a b : Bytes} (ha : ∀ x ∈ a, x < 16) : HexWord (a ++ b) ↔ HexWord b := by
  induction a with
  | nil => rfl
  | cons x a ih =>
    have hx : x < 16 := ha x List.mem_cons_self
    rw [List.cons_append, cons_iff, ih fun y hy => ha y (List.mem_cons_of_mem x hy)]
    constructor
    · rintro (⟨rfl, -⟩ | ⟨-, hw⟩)
      · exact absurd hx (by decide)
      · exact hw
    · exact fun hw => .inr ⟨hx, hw⟩

/-- What comes before the end of a hex word is nibbles. -/
lemma lt_of_append {a b : Bytes} (h : HexWord (a ++ b)) (hb : b ≠ []) : ∀ x ∈ a, x < 16 := by
  induction a with
  | nil => simp
  | cons y a ih =>
    rcases cons_iff.mp h with ⟨-, hnil⟩ | ⟨hy, hw⟩
    · exact absurd (List.append_eq_nil_iff.mp hnil).2 hb
    · intro x hx
      rcases List.mem_cons.mp hx with rfl | hx
      · exact hy
      · exact ih hw x hx

/-- A hex word ends in the terminator, which is no nibble. -/
lemma not_forall_lt {w : Bytes} (h : HexWord w) : ¬ ∀ x ∈ w, x < 16 := by
  induction h with
  | term => simp
  | cons _ _ ih => exact fun hall => ih fun y hy => hall y (List.mem_cons_of_mem _ hy)

/-- No hex word is a proper prefix of another. -/
lemma eq_of_isPrefix {w w' : Bytes} (h : HexWord w) (h' : HexWord w') (hp : w <+: w') : w = w' := by
  obtain ⟨r, rfl⟩ := hp
  by_cases hr : r = []
  · rw [hr, List.append_nil]
  · exact absurd (lt_of_append h' hr) h.not_forall_lt

lemma head_lt {x : UInt8} {w : Bytes} (h : HexWord (x :: w)) : x.toNat < 17 := by
  rcases cons_iff.mp h with ⟨rfl, -⟩ | ⟨hx, -⟩
  · decide
  · have : x.toNat < 16 := hx
    omega

end HexWord

lemma lt_of_mem_flatMap_nibbles {k : Bytes} : ∀ x ∈ k.flatMap nibbles, x < 16 := by
  intro x hx
  obtain ⟨b, -, hb⟩ := List.mem_flatMap.mp hx
  simp only [nibbles, List.mem_cons, List.not_mem_nil, or_false] at hb
  have hb256 := b.toNat_lt
  rcases hb with rfl | rfl
  · exact UInt8.lt_iff_toNat_lt.mpr (by simp [UInt8.toNat_div]; omega)
  · exact UInt8.lt_iff_toNat_lt.mpr (by simp [UInt8.toNat_mod]; omega)

lemma hexWord_keybytesToHex (k : Bytes) : HexWord (keybytesToHex k) :=
  HexWord.of_nibbles lt_of_mem_flatMap_nibbles

lemma keybytesToHex_injective {k k' : Bytes} (h : keybytesToHex k = keybytesToHex k') : k = k' := by
  have := hexToKeybytes_keybytesToHex k
  rw [h, hexToKeybytes_keybytesToHex] at this
  exact (Except.ok.inj this).symm

/-! ### What a node means -/

/-- The child a nibble leads to in a full node; there is none past the seventeenth. -/
def childOf (cs : Fin 17 → Node) (i : UInt8) : Node :=
  if h : i.toNat < 17 then cs ⟨i.toNat, h⟩ else .nil

/-- The map a node holds, from the rest of a key to its value. -/
def Node.get : Node → Bytes → Option Bytes
  | .nil => empty
  | .value v => single [] v
  | .short k c => prefixed k c.get
  | .full cs => branch fun i => if h : i.toNat < 17 then (cs ⟨i.toNat, h⟩).get else empty

@[simp] lemma get_nil : Node.nil.get = empty := rfl

@[simp] lemma get_value (v : Bytes) : (Node.value v).get = single [] v := rfl

@[simp] lemma get_short (k : Bytes) (c : Node) : (Node.short k c).get = prefixed k c.get := rfl

lemma get_full (cs : Fin 17 → Node) : (Node.full cs).get = branch fun i => (childOf cs i).get := by
  rw [Node.get]
  congr 1
  funext i
  unfold childOf
  split <;> rfl

lemma get_insertNil (key : Bytes) (n : Node) : (insertNil key n).get = prefixed key n.get := by
  unfold insertNil
  split_ifs with h
  · rw [h, prefixed_nil]
  · rfl

lemma get_mergeShort (k : Bytes) (n : Node) : (mergeShort k n).get = prefixed k n.get := by
  cases n with
  | short ck cv => rw [mergeShort, get_short, get_short, prefixed_append]
  | _ => rfl

/-- The nibble of an index. -/
lemma childOf_ofNat (cs : Fin 17 → Node) (j : Fin 17) : childOf cs (UInt8.ofNat j) = cs j := by
  have hj : (UInt8.ofNat j).toNat = j := by
    rw [UInt8.toNat_ofNat', Nat.mod_eq_of_lt (by omega)]
  simp only [childOf, hj, j.isLt, dite_true]

/-- Writing a child is writing at its nibble. -/
lemma childOf_update (cs : Fin 17 → Node) {x : UInt8} {j : Fin 17} (hx : x.toNat = j) (n : Node) :
    childOf (Function.update cs j n) = Function.update (childOf cs) x n := by
  funext y
  by_cases hy : y = x
  · subst hy
    have hlt : y.toNat < 17 := hx ▸ j.isLt
    have hj : (⟨y.toNat, hlt⟩ : Fin 17) = j := Fin.ext hx
    rw [Function.update_self, childOf, dif_pos hlt, hj, Function.update_self]
  · rw [Function.update_of_ne hy]
    unfold childOf
    split_ifs with h
    · rw [Function.update_of_ne]
      intro hj
      exact hy (UInt8.toNat_inj.mp (by rw [hx, ← hj]))
    · rfl

/-! ### Canonical nodes -/

/-- The seventeenth child of a full node: a value, or nothing. -/
def ValueSlot (n : Node) : Prop := n = .nil ∨ ∃ v, v ≠ [] ∧ n = .value v

/-- A canonical node of a trie of hex keys, with a value below it: a leaf is a short node whose
key is the end of a hex key, with a non-empty value; an extension a short node with a non-empty
key of nibbles, above a full node; a full node has a value or nothing at `16`, nothing or a
canonical node at each nibble, and two children at least. -/
def Node.Wf : Node → Prop
  | .nil => False
  | .value _ => False
  | .short k (.value v) => HexWord k ∧ v ≠ []
  | .short k (.full cs) => k ≠ [] ∧ (∀ x ∈ k, x < 16) ∧ Node.Wf (.full cs)
  | .short _ _ => False
  | .full cs => ValueSlot (cs 16) ∧ (∀ i : Fin 17, i ≠ 16 → cs i = .nil ∨ (cs i).Wf) ∧
      ∃ i j, i ≠ j ∧ cs i ≠ .nil ∧ cs j ≠ .nil

/-- The root of a trie: empty, or canonical. -/
def Node.WfOpt (n : Node) : Prop := n = .nil ∨ n.Wf

lemma Node.Wf.ne_nil {n : Node} (h : n.Wf) : n ≠ .nil := by
  rintro rfl
  exact h

lemma wf_leaf {k v : Bytes} : (Node.short k (.value v)).Wf ↔ HexWord k ∧ v ≠ [] := Iff.rfl

lemma wf_extension {k : Bytes} {cs : Fin 17 → Node} :
    (Node.short k (.full cs)).Wf ↔ k ≠ [] ∧ (∀ x ∈ k, x < 16) ∧ (Node.full cs).Wf := Iff.rfl

lemma wf_full {cs : Fin 17 → Node} :
    (Node.full cs).Wf ↔ ValueSlot (cs 16) ∧ (∀ i : Fin 17, i ≠ 16 → cs i = .nil ∨ (cs i).Wf) ∧
      ∃ i j, i ≠ j ∧ cs i ≠ .nil ∧ cs j ≠ .nil := Iff.rfl

/-- A canonical short node is a leaf or an extension. -/
lemma Node.Wf.short_cases {k : Bytes} {c : Node} (h : (Node.short k c).Wf) :
    (∃ v, c = .value v ∧ HexWord k ∧ v ≠ []) ∨
      ∃ cs, c = .full cs ∧ k ≠ [] ∧ (∀ x ∈ k, x < 16) ∧ (Node.full cs).Wf := by
  cases c with
  | value v => exact .inl ⟨v, rfl, h⟩
  | full cs => exact .inr ⟨cs, rfl, h⟩
  | nil => exact absurd h id
  | short _ _ => exact absurd h id

lemma get_value_ne_empty {v : Bytes} : (Node.value v).get ≠ empty := single_ne_empty [] v

/-- A canonical node holds a value. -/
theorem Node.Wf.get_ne_empty {n : Node} (h : n.Wf) : n.get ≠ empty := by
  induction n with
  | nil => exact absurd h id
  | value v => exact absurd h id
  | short k c ih =>
    intro he
    rcases h.short_cases with ⟨v, rfl, -⟩ | ⟨cs, rfl, -, -, hf⟩
    · rw [get_short, get_value, prefixed_single] at he
      exact single_ne_empty _ _ he
    · exact ih hf (prefixed_injective (he.trans (prefixed_empty k).symm))
  | full cs ih =>
    obtain ⟨hslot, hcs, i, -, -, hi, -⟩ := wf_full.mp h
    intro he
    have hget : (cs i).get = empty := by
      have := congrArg (fun f => fun u => f (UInt8.ofNat i :: u)) (he.trans branch_empty.symm)
      simp only [get_full, branch_cons, childOf_ofNat] at this
      exact this
    by_cases h16 : i = 16
    · subst h16
      rcases hslot with hnil | ⟨v, -, hv⟩
      · exact hi hnil
      · rw [hv] at hget
        exact get_value_ne_empty hget
    · rcases hcs i h16 with hnil | hwf
      · exact hi hnil
      · exact ih i hwf hget

/-- A non-empty child of a canonical full node holds a value. -/
lemma get_child_ne_empty {cs : Fin 17 → Node} (h : (Node.full cs).Wf) {i : Fin 17}
    (hi : cs i ≠ .nil) : (cs i).get ≠ empty := by
  obtain ⟨hslot, hcs, -⟩ := wf_full.mp h
  by_cases h16 : i = 16
  · subst h16
    rcases hslot with hnil | ⟨v, -, hv⟩
    · exact absurd hnil hi
    · rw [hv]
      exact get_value_ne_empty
  · rcases hcs i h16 with hnil | hwf
    · exact absurd hnil hi
    · exact hwf.get_ne_empty

/-- A canonical full node branches: two of its nibbles lead to values. -/
lemma Node.Wf.branching {cs : Fin 17 → Node} (h : (Node.full cs).Wf) :
    Branching fun i => (childOf cs i).get := by
  obtain ⟨-, -, i, j, hij, hi, hj⟩ := wf_full.mp h
  have hne : ∀ {k : Fin 17}, cs k ≠ .nil → ∃ u, (childOf cs (UInt8.ofNat k)).get u ≠ none := by
    intro k hk
    by_contra hall
    apply get_child_ne_empty h hk
    rw [← childOf_ofNat cs k]
    funext u
    by_contra hu
    exact hall ⟨u, hu⟩
  refine ⟨UInt8.ofNat i, UInt8.ofNat j, fun heq => hij ?_, hne hi, hne hj⟩
  have := congrArg UInt8.toNat heq
  rw [UInt8.toNat_ofNat', UInt8.toNat_ofNat', Nat.mod_eq_of_lt (by omega),
    Nat.mod_eq_of_lt (by omega)] at this
  exact Fin.ext this

/-! ### Lookup -/

lemma byteAt_cons (x : UInt8) (w : Bytes) : byteAt (x :: w) 0 = .ok x := rfl

/-- The index of a nibble. -/
def nibbleIndex (x : UInt8) (hx : x.toNat < 17) : Fin 17 := ⟨x.toNat, hx⟩

lemma childIndex_of_lt {x : UInt8} (hx : x.toNat < 17) : childIndex x = .ok (nibbleIndex x hx) :=
  dif_pos hx

lemma index_ne_16 {x : UInt8} (hx : x < 16) :
    nibbleIndex x (by have : x.toNat < 16 := hx; omega) ≠ 16 := by
  intro h
  have h' := congrArg Fin.val h
  have : x.toNat < 16 := hx
  simp [nibbleIndex] at h'
  omega

/-- The key reads on below a short node exactly when it starts with the node's key. -/
lemma short_mismatch_iff (k w : Bytes) :
    (w.length < k.length ∨ k ≠ w.take k.length) ↔ ¬ k <+: w := by
  rw [List.prefix_iff_eq_take]
  constructor
  · rintro (hlt | hne) heq
    · have := congrArg List.length heq
      rw [List.length_take] at this
      omega
    · exact hne heq
  · intro h
    by_cases hlt : w.length < k.length
    · exact .inl hlt
    · exact .inr h

/-- On a canonical node and the end of a hex key, `tryGet` reads the node's map, `nil` where it
has no entry. -/
theorem tryGet_eq {n : Node} (hn : n.WfOpt) {w : Bytes} (hw : HexWord w) :
    tryGet n w = .ok ((n.get w).getD []) := by
  induction n generalizing w with
  | nil => rfl
  | value v => exact absurd (hn.resolve_left (by simp)) id
  | short k c ih =>
    have hwf : (Node.short k c).Wf := hn.resolve_left (by simp)
    rw [tryGet, get_short]
    by_cases hkw : k <+: w
    · obtain ⟨r, rfl⟩ := hkw
      rw [if_neg ((short_mismatch_iff k _).not.mpr (not_not.mpr (List.prefix_append k r))),
        List.drop_left, prefixed_append_apply]
      rcases hwf.short_cases with ⟨v, rfl, hk, -⟩ | ⟨cs, rfl, -, hk, hf⟩
      · -- a leaf: the word is its key
        have hr : r = [] := by
          have := HexWord.eq_of_isPrefix hk hw (List.prefix_append k r)
          simpa using this
        subst hr
        rfl
      · exact ih (.inr hf) ((HexWord.append_iff hk).mp hw)
    · rw [if_pos ((short_mismatch_iff k w).mpr hkw), prefixed_apply_eq_none hkw]
      rfl
  | full cs ih =>
    have hwf : (Node.full cs).Wf := hn.resolve_left (by simp)
    obtain ⟨hslot, hcs, -⟩ := wf_full.mp hwf
    obtain ⟨x, r, rfl⟩ := List.exists_cons_of_ne_nil hw.ne_nil
    have hx := hw.head_lt
    simp only [tryGet, byteAt_cons, childIndex_of_lt hx, Machine.ok_bind, List.drop_succ_cons,
      List.drop_zero, get_full, branch_cons, childOf, dif_pos hx]
    rcases HexWord.cons_iff.mp hw with ⟨rfl, rfl⟩ | ⟨hx16, hr⟩
    · -- the terminator: the value slot
      rcases hslot with hnil | ⟨v, -, hv⟩
      · rw [show nibbleIndex 16 hx = 16 from rfl, show (⟨(16 : UInt8).toNat, hx⟩ : Fin 17) = 16
          from rfl, hnil]
        rfl
      · rw [show nibbleIndex 16 hx = 16 from rfl, show (⟨(16 : UInt8).toNat, hx⟩ : Fin 17) = 16
          from rfl, hv]
        rfl
    · exact ih _ ((hcs _ (index_ne_16 hx16)).imp_right id) hr

/-! ### Where two keys part -/

/-- `prefixLen a b` reaches the end of `b` exactly when `b` is a prefix of `a`. -/
lemma prefixLen_eq_length_iff {a b : Bytes} : prefixLen a b = b.length ↔ b <+: a := by
  obtain ⟨-, hb, htake, hmax⟩ := prefixLen_spec a b
  constructor
  · intro h
    rw [h, List.take_length] at htake
    exact List.prefix_iff_eq_take.mpr htake.symm
  · intro h
    refine Nat.le_antisymm hb (hmax _ h.length_le le_rfl ?_)
    rw [List.take_length]
    exact (List.prefix_iff_eq_take.mp h).symm

lemma prefix_of_prefixLen_eq_left {a b : Bytes} (h : prefixLen a b = a.length) : a <+: b := by
  obtain ⟨-, -, htake, -⟩ := prefixLen_spec a b
  rw [h, List.take_length] at htake
  exact List.prefix_iff_eq_take.mpr htake

/-- Two keys that part before either ends: their common prefix, then two different bytes. -/
lemma parts_of_prefixLen {a b : Bytes} (ha : prefixLen a b < a.length)
    (hb : prefixLen a b < b.length) :
    a = a.take (prefixLen a b) ++ a[prefixLen a b] :: a.drop (prefixLen a b + 1) ∧
      b = a.take (prefixLen a b) ++ b[prefixLen a b] :: b.drop (prefixLen a b + 1) ∧
      a[prefixLen a b] ≠ b[prefixLen a b] := by
  obtain ⟨-, -, htake, hmax⟩ := prefixLen_spec a b
  refine ⟨?_, ?_, fun heq => ?_⟩
  · rw [← List.drop_eq_getElem_cons ha, List.take_append_drop]
  · rw [htake, ← List.drop_eq_getElem_cons hb, List.take_append_drop]
  · -- a longer common prefix would exist
    have := hmax (prefixLen a b + 1) ha hb (by
      rw [List.take_succ_eq_append_getElem ha, List.take_succ_eq_append_getElem hb, htake, heq])
    omega

/-! ### Insertion -/

/-- What a child of a full node holds at an index: a value at `16`, a canonical node at a
nibble. -/
structure ChildFits (i : Fin 17) (n : Node) : Prop where
  ne_nil : n ≠ .nil
  slot : i = 16 → ValueSlot n
  wf : i ≠ 16 → n.Wf

lemma nibbleIndex_eq_16 {x : UInt8} (hx : x.toNat < 17) : nibbleIndex x hx = 16 ↔ x = 16 := by
  constructor
  · intro h
    have h' : (nibbleIndex x hx).val = (16 : Fin 17).val := congrArg Fin.val h
    exact UInt8.toNat_inj.mp h'
  · rintro rfl
    rfl

lemma nibbleIndex_injective {x y : UInt8} {hx : x.toNat < 17} {hy : y.toNat < 17}
    (h : nibbleIndex x hx = nibbleIndex y hy) : x = y := by
  have h' : (nibbleIndex x hx).val = (nibbleIndex y hy).val := congrArg Fin.val h
  exact UInt8.toNat_inj.mp h'

/-- A value behind the rest of a hex key fits under the first nibble of the rest. -/
lemma childFits_leaf {y : UInt8} {r v : Bytes} (h : HexWord (y :: r)) (hv : v ≠ []) :
    ChildFits (nibbleIndex y h.head_lt) (insertNil r (.value v)) := by
  rcases HexWord.cons_iff.mp h with ⟨rfl, rfl⟩ | ⟨hy, hr⟩
  · exact ⟨nofun, fun _ => .inr ⟨v, hv, rfl⟩, fun h16 => absurd rfl h16⟩
  · have hne : (nibbleIndex y h.head_lt) ≠ 16 := fun h16 =>
      absurd ((nibbleIndex_eq_16 _).mp h16 ▸ hy) (by decide)
    rw [insertNil, if_neg hr.ne_nil]
    exact ⟨nofun, fun h16 => absurd h16 hne, fun _ => ⟨hr, hv⟩⟩

/-- A full node behind the rest of a key of nibbles fits under its first nibble. -/
lemma childFits_extension {y : UInt8} {r : Bytes} (h : ∀ x ∈ y :: r, x < 16)
    {cs : Fin 17 → Node} (hf : (Node.full cs).Wf) (hy : y.toNat < 17) :
    ChildFits (nibbleIndex y hy) (insertNil r (.full cs)) := by
  have hne : nibbleIndex y hy ≠ 16 := fun h16 =>
    absurd ((nibbleIndex_eq_16 _).mp h16 ▸ h y List.mem_cons_self) (by decide)
  refine ⟨?_, fun h16 => absurd h16 hne, fun _ => ?_⟩
  · unfold insertNil
    split_ifs <;> exact nofun
  · unfold insertNil
    split_ifs with hr
    · exact hf
    · exact ⟨hr, fun x hx => h x (List.mem_cons_of_mem y hx), hf⟩

/-- A full node of two children that fit at two indices is canonical. -/
lemma wf_full_two {i₁ i₂ : Fin 17} (hi : i₁ ≠ i₂) {A B : Node} (hA : ChildFits i₁ A)
    (hB : ChildFits i₂ B) :
    (Node.full (Function.update (Function.update (fun _ => .nil) i₁ A) i₂ B)).Wf := by
  -- each index holds `B`, `A`, or nothing
  have hat : ∀ i, (i = i₂ ∧ Function.update (Function.update (fun _ => Node.nil) i₁ A) i₂ B i = B) ∨
      (i = i₁ ∧ Function.update (Function.update (fun _ => Node.nil) i₁ A) i₂ B i = A) ∨
      Function.update (Function.update (fun _ => Node.nil) i₁ A) i₂ B i = .nil := by
    intro i
    by_cases h₂ : i = i₂
    · exact .inl ⟨h₂, by rw [h₂, Function.update_self]⟩
    · by_cases h₁ : i = i₁
      · exact .inr (.inl ⟨h₁, by rw [Function.update_of_ne h₂, h₁, Function.update_self]⟩)
      · exact .inr (.inr (by rw [Function.update_of_ne h₂, Function.update_of_ne h₁]))
  refine ⟨?_, fun i h16 => ?_, i₁, i₂, hi, ?_, ?_⟩
  · rcases hat 16 with ⟨h, hb⟩ | ⟨h, ha⟩ | hnil
    · rw [hb]
      exact hB.slot h.symm
    · rw [ha]
      exact hA.slot h.symm
    · exact .inl hnil
  · rcases hat i with ⟨h, hb⟩ | ⟨h, ha⟩ | hnil
    · rw [hb]
      exact .inr (hB.wf (h ▸ h16))
    · rw [ha]
      exact .inr (hA.wf (h ▸ h16))
    · exact .inl hnil
  · rw [Function.update_of_ne hi, Function.update_self]
    exact hA.ne_nil
  · rw [Function.update_self]
    exact hB.ne_nil

/-- The map of a node read through a write of a child. -/
lemma get_comp_update (F : UInt8 → Node) (x : UInt8) (n : Node) :
    (fun y => (Function.update F x n y).get) = Function.update (fun y => (F y).get) x n.get := by
  funext y
  by_cases hy : y = x
  · subst hy
    simp
  · simp [Function.update_of_ne hy]

lemma childOf_const_nil : childOf (fun _ => Node.nil) = fun _ => Node.nil := by
  funext y
  unfold childOf
  split <;> rfl

/-- Go's `if !dirty` around a rebuilt node: when nothing changed, the rebuilt node is the old
one. -/
lemma dirty_ite {d : Bool} {old new : Node} (h : d = false → new = old) :
    (if !d then (pure (false, old) : Except String (Bool × Node)) else pure (true, new)) =
      .ok (d, new) := by
  cases d with
  | false => rw [h rfl]; rfl
  | true => rfl

lemma byteAt_of_lt {b : Bytes} {i : ℕ} (h : i < b.length) : byteAt b i = .ok b[i] := by
  simp [byteAt, List.getElem?_eq_getElem h]

/-- A key that leaves a canonical short node before the end of the node's key splits it: a full
node holds the old entries under one nibble and the new value under another, behind the common
prefix if there is one. -/
lemma insert_split {k : Bytes} {c : Node} (hwf : (Node.short k c).Wf) {z : UInt8} {zs : Bytes}
    (hkey : HexWord (z :: zs)) {v : Bytes} (hv : v ≠ []) (hm : prefixLen (z :: zs) k ≠ k.length) :
    ∃ n', insert (.short k c) (z :: zs) (.value v) = .ok (true, n') ∧ n'.Wf ∧
      n'.get = Function.update (Node.short k c).get (z :: zs) (some v) := by
  obtain ⟨hmkey₀, hmk₀, -, -⟩ := prefixLen_spec (z :: zs) k
  have hmk : prefixLen (z :: zs) k < k.length := lt_of_le_of_ne hmk₀ hm
  -- the key does not end inside the node's key: no hex key is a prefix of another
  have hmkey : prefixLen (z :: zs) k < (z :: zs).length := by
    refine lt_of_le_of_ne hmkey₀ fun heq => ?_
    have hpre := prefix_of_prefixLen_eq_left heq
    rcases hwf.short_cases with ⟨v₀, rfl, hk, -⟩ | ⟨cs, rfl, -, hk, -⟩
    · exact hm (prefixLen_eq_length_iff.mpr (HexWord.eq_of_isPrefix hkey hk hpre ▸ List.prefix_rfl))
    · exact hkey.not_forall_lt fun x hx => hk x (hpre.subset hx)
  simp only [insert, if_neg hm, byteAt_of_lt hmk, byteAt_of_lt hmkey, Machine.ok_bind]
  obtain ⟨hsplitkey, hsplitk, hyx⟩ := parts_of_prefixLen hmkey hmk
  set m := prefixLen (z :: zs) k
  set T := (z :: zs).take m
  set y := (z :: zs)[m]
  set x := k[m]
  set key' := (z :: zs).drop (m + 1)
  set k' := k.drop (m + 1)
  -- the prefix is nibbles, and so are both parting bytes
  have hT : ∀ b ∈ T, b < 16 := HexWord.lt_of_append (hsplitkey ▸ hkey) (List.cons_ne_nil _ _)
  have hykey : HexWord (y :: key') := (HexWord.append_iff hT).mp (hsplitkey ▸ hkey)
  have hy := hykey.head_lt
  -- the old entries: a leaf's value, or the full node of an extension
  have hold : ∃ hx : x.toNat < 17, ChildFits (nibbleIndex x hx) (insertNil k' c) := by
    rcases hwf.short_cases with ⟨v₀, rfl, hk, hv₀⟩ | ⟨cs, rfl, -, hk, hf⟩
    · have hxk : HexWord (x :: k') := (HexWord.append_iff hT).mp (hsplitk ▸ hk)
      exact ⟨hxk.head_lt, childFits_leaf hxk hv₀⟩
    · have hxk : ∀ b ∈ x :: k', b < 16 := fun b hb =>
        hk b (hsplitk ▸ List.mem_append_right T hb)
      have hx : x.toNat < 17 := by
        have : x.toNat < 16 := hxk x List.mem_cons_self
        omega
      exact ⟨hx, childFits_extension hxk hf hx⟩
  obtain ⟨hx, hA⟩ := hold
  have hB := childFits_leaf hykey hv
  have hi : nibbleIndex x hx ≠ nibbleIndex y hy := fun h => hyx (nibbleIndex_injective h).symm
  set br := Function.update (Function.update (fun _ => Node.nil) (nibbleIndex x hx)
    (insertNil k' c)) (nibbleIndex y hy) (insertNil key' (.value v))
  have hbr : (Node.full br).Wf := wf_full_two hi hA hB
  -- the map of the branch, and the map asked for, both behind the prefix
  have hget_br : (Node.full br).get = branch (Function.update (Function.update
      (fun _ => empty) x (prefixed k' c.get)) y (single key' v)) := by
    rw [get_full, childOf_update _ rfl, childOf_update _ rfl, childOf_const_nil, get_comp_update,
      get_comp_update, get_insertNil, get_insertNil, get_value, prefixed_single, List.append_nil]
    rfl
  have htarget : Function.update (Node.short k c).get (z :: zs) (some v) =
      prefixed T (Node.full br).get := by
    rw [hget_br, get_short]
    calc Function.update (prefixed k c.get) (z :: zs) (some v)
        = Function.update (prefixed (T ++ x :: k') c.get) (T ++ y :: key') (some v) := by
          rw [← hsplitk, ← hsplitkey]
      _ = prefixed T (branch (Function.update (Function.update (fun _ => empty) x
            (prefixed k' c.get)) y (Function.update empty key' (some v)))) := by
          rw [prefixed_append, prefixed_cons, ← prefixed_update, ← branch_update,
            Function.update_of_ne hyx]
      _ = _ := rfl
  simp only [childIndex_of_lt hx, childIndex_of_lt hy, Machine.ok_bind]
  by_cases hm0 : m = 0
  · -- no common prefix: the branch itself
    have hTnil : T = [] := by simp [T, hm0]
    refine ⟨.full br, by rw [if_pos hm0]; rfl, hbr, ?_⟩
    rw [htarget, hTnil, prefixed_nil]
  · refine ⟨.short T (.full br), by rw [if_neg hm0]; rfl, ⟨?_, hT, hbr⟩, htarget.symm⟩
    intro hTnil
    have := congrArg List.length hTnil
    simp [T] at this
    omega

/-- The value slot takes the value at the end of the key. -/
lemma insert_slot {s : Node} (hs : ValueSlot s) (v : Bytes) :
    ∃ d, insert s [] (.value v) = .ok (d, .value v) ∧ (d = false → Node.value v = s) := by
  rcases hs with rfl | ⟨v₀, -, rfl⟩
  · exact ⟨true, rfl, nofun⟩
  · refine ⟨decide (v₀ ≠ v), rfl, fun h => ?_⟩
    rw [decide_eq_false_iff_not, not_not] at h
    rw [h]

lemma get_slot_update {s : Node} (hs : ValueSlot s) (b : Option Bytes) (n : Node)
    (hn : n.get = Function.update empty [] b) : n.get = Function.update s.get [] b := by
  rcases hs with rfl | ⟨v₀, -, rfl⟩
  · exact hn
  · rw [hn, get_value, single, Function.update_idem]

/-- A write of one child is a write of the full node's map at the child's nibble. -/
lemma get_full_update {cs : Fin 17 → Node} {x : UInt8} {j : Fin 17} (hx : x.toNat = j)
    {nn : Node} {r : Bytes} {b : Option Bytes} (h : nn.get = Function.update (cs j).get r b) :
    (Node.full (Function.update cs j nn)).get = Function.update (Node.full cs).get (x :: r) b := by
  have hcx : childOf cs x = cs j := by
    unfold childOf
    rw [dif_pos (hx ▸ j.isLt)]
    exact congrArg cs (Fin.ext hx)
  rw [get_full, get_full, childOf_update cs hx, get_comp_update, ← branch_update, h, hcx]

/-- A full node whose one child is written with a node that fits there stays canonical: no child
that was there goes. -/
lemma wf_full_update {cs : Fin 17 → Node} (h : (Node.full cs).Wf) {j : Fin 17} {nn : Node}
    (hnn : ChildFits j nn) : (Node.full (Function.update cs j nn)).Wf := by
  obtain ⟨hslot, hcs, i, i', hii, hi, hi'⟩ := wf_full.mp h
  have hkeep : ∀ l, cs l ≠ .nil → Function.update cs j nn l ≠ .nil := by
    intro l hl
    by_cases hl' : l = j
    · subst hl'
      rw [Function.update_self]
      exact hnn.ne_nil
    · rwa [Function.update_of_ne hl']
  refine ⟨?_, fun l hl => ?_, i, i', hii, hkeep i hi, hkeep i' hi'⟩
  · by_cases h16 : (16 : Fin 17) = j
    · rw [← h16, Function.update_self]
      exact hnn.slot h16.symm
    · rw [Function.update_of_ne h16]
      exact hslot
  · by_cases hl' : l = j
    · subst hl'
      rw [Function.update_self]
      exact .inr (hnn.wf hl)
    · rw [Function.update_of_ne hl']
      exact hcs l hl

/-- Insertion of a non-empty value at the end of a hex key into a canonical node, or into
nothing: it succeeds; the node it returns is canonical, maps the key to the value and every
other key as before, and is the node given when nothing changed; a full node stays a full
node. -/
theorem insert_spec {n : Node} (hn : n.WfOpt) {key : Bytes} (hkey : HexWord key) {v : Bytes}
    (hv : v ≠ []) :
    ∃ d n', insert n key (.value v) = .ok (d, n') ∧ n'.Wf ∧
      n'.get = Function.update n.get key (some v) ∧ (d = false → n' = n) ∧
      ∀ cs, n = .full cs → ∃ cs', n' = .full cs' := by
  induction n generalizing key with
  | nil =>
    obtain ⟨z, zs, rfl⟩ := List.exists_cons_of_ne_nil hkey.ne_nil
    refine ⟨true, .short (z :: zs) (.value v), rfl, ⟨hkey, hv⟩, ?_, nofun, nofun⟩
    rw [get_short, get_value, prefixed_single, List.append_nil]
    rfl
  | value v₀ => exact absurd (hn.resolve_left (by simp)) id
  | short k c ih =>
    have hwf : (Node.short k c).Wf := hn.resolve_left (by simp)
    obtain ⟨z, zs, rfl⟩ := List.exists_cons_of_ne_nil hkey.ne_nil
    by_cases hm : prefixLen (z :: zs) k = k.length
    · -- the key runs through the node's key: the child takes the rest
      obtain ⟨r, hr⟩ := prefixLen_eq_length_iff.mp hm
      have hdrop : (z :: zs).drop (prefixLen (z :: zs) k) = r := by rw [hm, ← hr, List.drop_left]
      have hchild : ∃ d nn, insert c r (.value v) = .ok (d, nn) ∧ (Node.short k nn).Wf ∧
          nn.get = Function.update c.get r (some v) ∧ (d = false → nn = c) := by
        rcases hwf.short_cases with ⟨v₀, rfl, hk, hv₀⟩ | ⟨cs, rfl, hk0, hk, hf⟩
        · -- a leaf: its key is the whole key
          have hr0 : r = [] := by
            have := HexWord.eq_of_isPrefix hk hkey ⟨r, hr⟩
            rw [← hr] at this
            simpa using this
          subst hr0
          obtain ⟨d, hins, hd⟩ := insert_slot (.inr ⟨v₀, hv₀, rfl⟩) v
          exact ⟨d, .value v, hins, ⟨hk, hv⟩, get_slot_update (.inr ⟨v₀, hv₀, rfl⟩) _ _ rfl,
            fun h => hd h⟩
        · -- an extension: the full node below takes it, and stays full
          have hrhex : HexWord r := (HexWord.append_iff hk).mp (hr ▸ hkey)
          obtain ⟨d, nn, hins, hnn, hget, hd, hfull⟩ := ih (.inr hf) hrhex
          obtain ⟨cs', rfl⟩ := hfull cs rfl
          exact ⟨d, _, hins, ⟨hk0, hk, hnn⟩, hget, hd⟩
      obtain ⟨d, nn, hins, hwf', hget, hd⟩ := hchild
      refine ⟨d, .short k nn, ?_, hwf', ?_, fun h => by rw [hd h], nofun⟩
      · simp only [insert, if_pos hm, hdrop, hins, Machine.ok_bind]
        exact dirty_ite fun h => by rw [hd h]
      · rw [get_short, get_short, hget, prefixed_update, hr]
    · obtain ⟨n', hins, hwf', hget⟩ := insert_split hwf hkey hv hm
      exact ⟨true, n', hins, hwf', hget, nofun, nofun⟩
  | full cs ih =>
    have hwf : (Node.full cs).Wf := hn.resolve_left (by simp)
    obtain ⟨hslot, hcs, -⟩ := wf_full.mp hwf
    obtain ⟨x, r, rfl⟩ := List.exists_cons_of_ne_nil hkey.ne_nil
    have hx := hkey.head_lt
    -- the child at the key's nibble takes the rest of the key
    have hchild : ∃ d nn, insert (cs (nibbleIndex x hx)) r (.value v) = .ok (d, nn) ∧
        ChildFits (nibbleIndex x hx) nn ∧
        nn.get = Function.update (cs (nibbleIndex x hx)).get r (some v) ∧
        (d = false → nn = cs (nibbleIndex x hx)) := by
      rcases HexWord.cons_iff.mp hkey with ⟨rfl, rfl⟩ | ⟨hx16, hr⟩
      · obtain ⟨d, hins, hd⟩ := insert_slot hslot v
        refine ⟨d, .value v, hins, ⟨nofun, fun _ => .inr ⟨v, hv, rfl⟩, fun h => absurd rfl h⟩,
          get_slot_update hslot _ _ rfl, fun h => hd h⟩
      · have hne := index_ne_16 hx16
        obtain ⟨d, nn, hins, hnn, hget, hd, -⟩ := ih _ (hcs _ hne) hr
        exact ⟨d, nn, hins, ⟨hnn.ne_nil, fun h => absurd h hne, fun _ => hnn⟩, hget, hd⟩
    obtain ⟨d, nn, hins, hfits, hget, hd⟩ := hchild
    refine ⟨d, .full (Function.update cs (nibbleIndex x hx) nn), ?_, wf_full_update hwf hfits,
      get_full_update rfl hget, fun h => by rw [hd h, Function.update_eq_self], fun _ _ => ⟨_, rfl⟩⟩
    simp only [insert, childIndex_of_lt hx, Machine.ok_bind, hins]
    exact dirty_ite fun h => by rw [hd h, Function.update_eq_self]

/-! ### Deletion -/

/-- The step of the loop of `delete` over the children. -/
def onlyChildStep (cs : Fin 17 → Node) (pos : Int) (i : Fin 17) : Int :=
  if pos = -2 then -2
  else if !(cs i).isNil then (if pos = -1 then (i : Int) else -2)
  else pos

lemma onlyChild_eq (cs : Fin 17 → Node) :
    onlyChild cs = (List.finRange 17).foldl (onlyChildStep cs) (-1) := rfl

lemma foldl_onlyChildStep_neg_two (cs : Fin 17 → Node) (l : List (Fin 17)) :
    l.foldl (onlyChildStep cs) (-2) = -2 := by
  induction l with
  | nil => rfl
  | cons i l ih => rw [List.foldl_cons, onlyChildStep, if_pos rfl, ih]

/-- Once a child is found, the loop ends at it if no other child follows, at `-2` if one
does. -/
lemma foldl_onlyChildStep_of_nonneg (cs : Fin 17 → Node) (l : List (Fin 17)) {p : Int}
    (hp : 0 ≤ p) :
    l.foldl (onlyChildStep cs) p = if l.all fun i => (cs i).isNil then p else -2 := by
  induction l with
  | nil => rfl
  | cons i l ih =>
    rw [List.foldl_cons, onlyChildStep, if_neg (by omega)]
    by_cases hi : cs i = .nil
    · rw [if_neg (by simp [hi]), ih, List.all_cons, hi]
      rfl
    · rw [if_pos (by simpa using hi), if_neg (by omega), foldl_onlyChildStep_neg_two,
        if_neg (by simp [hi])]

/-- With two children or more, the loop ends at `-2`. -/
lemma foldl_onlyChildStep_two (cs : Fin 17 → Node) (l : List (Fin 17)) {i i' : Fin 17}
    (hii : i ≠ i') (hi : i ∈ l) (hi' : i' ∈ l) (hci : cs i ≠ .nil) (hci' : cs i' ≠ .nil) :
    l.foldl (onlyChildStep cs) (-1) = -2 := by
  induction l with
  | nil => simp at hi
  | cons a l ih =>
    rw [List.foldl_cons, onlyChildStep, if_neg (by omega)]
    by_cases ha : cs a = .nil
    · have hai : a ≠ i := fun h => hci (h ▸ ha)
      have hai' : a ≠ i' := fun h => hci' (h ▸ ha)
      rw [if_neg (by simp [ha])]
      exact ih ((List.mem_cons.mp hi).resolve_left (Ne.symm hai))
        ((List.mem_cons.mp hi').resolve_left (Ne.symm hai'))
    · rw [if_pos (by simpa using ha), if_pos rfl, foldl_onlyChildStep_of_nonneg cs l (by omega)]
      -- one of the two comes after `a`
      have hlater : ∃ b ∈ l, cs b ≠ .nil := by
        by_cases hai : a = i
        · subst hai
          exact ⟨i', (List.mem_cons.mp hi').resolve_left hii.symm, hci'⟩
        · exact ⟨i, (List.mem_cons.mp hi).resolve_left (Ne.symm hai), hci⟩
      obtain ⟨b, hb, hcb⟩ := hlater
      rw [if_neg]
      simp only [List.all_eq_true, Node.isNil_iff, not_forall]
      exact ⟨b, hb, hcb⟩

/-- With one child, the loop ends at its index. -/
lemma foldl_onlyChildStep_one (cs : Fin 17 → Node) (l : List (Fin 17)) (hl : l.Nodup)
    {p : Fin 17} (hp : p ∈ l) (hcp : cs p ≠ .nil) (hother : ∀ i, i ≠ p → cs i = .nil) :
    l.foldl (onlyChildStep cs) (-1) = p := by
  induction l with
  | nil => simp at hp
  | cons a l ih =>
    rw [List.foldl_cons, onlyChildStep, if_neg (by omega)]
    by_cases hap : a = p
    · subst hap
      rw [if_pos (by simpa using hcp), if_pos rfl,
        foldl_onlyChildStep_of_nonneg cs l (by omega), if_pos]
      -- every later index is another one, with no child
      simp only [List.all_eq_true, Node.isNil_iff]
      intro b hb
      exact hother b fun h => (List.nodup_cons.mp hl).1 (h ▸ hb)
    · rw [if_neg (by simp [hother a hap])]
      exact ih (List.nodup_cons.mp hl).2 ((List.mem_cons.mp hp).resolve_left (Ne.symm hap))

lemma onlyChild_of_two {cs : Fin 17 → Node} (h : ∃ i j, i ≠ j ∧ cs i ≠ .nil ∧ cs j ≠ .nil) :
    onlyChild cs = -2 := by
  obtain ⟨i, j, hij, hi, hj⟩ := h
  exact foldl_onlyChildStep_two cs _ hij (List.mem_finRange i) (List.mem_finRange j) hi hj

lemma reduceFull_of_two {cs : Fin 17 → Node} (h : ∃ i j, i ≠ j ∧ cs i ≠ .nil ∧ cs j ≠ .nil) :
    reduceFull cs = .full cs := by
  simp only [reduceFull, onlyChild_of_two h]
  rfl

lemma ofNat_lt_16 {p : Fin 17} (hp : p ≠ 16) : UInt8.ofNat p < 16 := by
  have hp' : p.val < 16 := by
    have := p.isLt
    have : p.val ≠ 16 := fun h => hp (Fin.ext h)
    omega
  rw [UInt8.lt_iff_toNat_lt, UInt8.toNat_ofNat', Nat.mod_eq_of_lt (by omega)]
  exact hp'

/-- What `delete` leaves of a full node whose children fit and one of which is there: a
canonical node with the full node's map. -/
theorem reduceFull_spec {cs : Fin 17 → Node} (hslot : ValueSlot (cs 16))
    (hcs : ∀ i : Fin 17, i ≠ 16 → cs i = .nil ∨ (cs i).Wf) (hne : ∃ i, cs i ≠ .nil) :
    (reduceFull cs).Wf ∧ (reduceFull cs).get = (Node.full cs).get := by
  by_cases h2 : ∃ i j, i ≠ j ∧ cs i ≠ .nil ∧ cs j ≠ .nil
  · rw [reduceFull_of_two h2]
    exact ⟨wf_full.mpr ⟨hslot, hcs, h2⟩, rfl⟩
  obtain ⟨p, hp⟩ := hne
  have hother : ∀ i, i ≠ p → cs i = .nil := fun i hi => by
    by_contra hci
    exact h2 ⟨i, p, hi, hci, hp⟩
  have hpos : onlyChild cs = p :=
    foldl_onlyChildStep_one cs _ (List.nodup_finRange 17) (List.mem_finRange p) hp hother
  -- one child left: the full node's map is the child's behind its nibble
  have hget : (Node.full cs).get = prefixed [UInt8.ofNat p] (cs p).get := by
    rw [get_full, prefixed_cons, prefixed_nil]
    congr 1
    funext y
    by_cases hy : y = UInt8.ofNat p
    · rw [hy, Function.update_self, childOf_ofNat]
    · rw [Function.update_of_ne hy]
      unfold childOf
      split_ifs with hlt
      · rw [hother _ fun h => hy ?_]
        · rfl
        · rw [← UInt8.ofNat_toNat (x := y), ← h]
      · rfl
  have hnat : ((p : Int)).toNat = p.val := by simp
  have hfin : Fin.ofNat 17 p.val = p := Fin.ext (by simp)
  simp only [reduceFull, hpos, hnat, hfin, Int.natCast_nonneg, if_true]
  by_cases h16 : p = 16
  · -- the value is left: a leaf of the terminator
    subst h16
    rcases hslot with hnil | ⟨v, hv, hval⟩
    · exact absurd hnil hp
    · rw [if_neg (by decide), hval]
      exact ⟨⟨.term, hv⟩, by rw [hget, hval]; rfl⟩
  · rw [if_pos (fun h => h16 (Fin.ext (by exact_mod_cast h)))]
    have hwf := (hcs p h16).resolve_left hp
    have hlt := ofNat_lt_16 h16
    cases hcp : cs p with
    | short ck cv =>
      rw [hcp] at hwf hget
      refine ⟨?_, by rw [hget, get_short, get_short, ← prefixed_append, List.singleton_append]⟩
      rcases hwf.short_cases with ⟨v, rfl, hck, hv⟩ | ⟨cs', rfl, hck0, hck, hf⟩
      · exact ⟨.cons hlt hck, hv⟩
      · exact ⟨List.cons_ne_nil _ _, fun x hx => (List.mem_cons.mp hx).elim (· ▸ hlt) (hck x), hf⟩
    | full cs' =>
      rw [hcp] at hwf hget
      exact ⟨⟨List.cons_ne_nil _ _, fun x hx => (List.mem_singleton.mp hx) ▸ hlt, hwf⟩, hget.symm⟩
    | nil => exact absurd hcp hp
    | value v => rw [hcp] at hwf; exact absurd hwf id

lemma delete_slot {s : Node} (hs : ValueSlot s) :
    ∃ d, delete s [] = .ok (d, .nil) ∧ (d = false → Node.nil = s) := by
  rcases hs with rfl | ⟨v, -, rfl⟩
  · exact ⟨false, rfl, fun _ => rfl⟩
  · exact ⟨true, rfl, nofun⟩

/-- A short node that takes in a canonical node below a key of nibbles is canonical. -/
lemma wf_mergeShort {k : Bytes} (hk0 : k ≠ []) (hk : ∀ x ∈ k, x < 16) {child : Node}
    (hc : child.Wf) : (mergeShort k child).Wf := by
  cases child with
  | short ck cv =>
    simp only [mergeShort]
    rcases hc.short_cases with ⟨v, rfl, hck, hv⟩ | ⟨cs, rfl, -, hck, hf⟩
    · exact ⟨(HexWord.append_iff hk).mpr hck, hv⟩
    · exact ⟨by simp [hk0], fun x hx => (List.mem_append.mp hx).elim (hk x) (hck x), hf⟩
  | full cs => exact ⟨hk0, hk, hc⟩
  | nil => exact absurd hc id
  | value v => exact absurd hc id

/-- A canonical full node with a child that deletion left in place of one of its own, reduced:
a canonical node with the map of the full node. -/
lemma reduceFull_update {cs : Fin 17 → Node} (hwf : (Node.full cs).Wf) {j : Fin 17} {nn : Node}
    (hnn16 : j = 16 → ValueSlot nn) (hnn : j ≠ 16 → nn = .nil ∨ nn.Wf) :
    (reduceFull (Function.update cs j nn)).Wf ∧
      (reduceFull (Function.update cs j nn)).get = (Node.full (Function.update cs j nn)).get := by
  obtain ⟨hslot, hcs, i, i', hii, hi, hi'⟩ := wf_full.mp hwf
  refine reduceFull_spec ?_ ?_ ?_
  · by_cases h16 : (16 : Fin 17) = j
    · rw [← h16, Function.update_self]
      exact hnn16 h16.symm
    · rw [Function.update_of_ne h16]
      exact hslot
  · intro l hl
    by_cases hlj : l = j
    · rw [hlj, Function.update_self]
      exact hnn (hlj ▸ hl)
    · rw [Function.update_of_ne hlj]
      exact hcs l hl
  · -- of the two children, one is not the one written
    by_cases hij : i = j
    · exact ⟨i', by rw [Function.update_of_ne (hij ▸ hii.symm)]; exact hi'⟩
    · exact ⟨i, by rw [Function.update_of_ne hij]; exact hi⟩

/-- Deletion of the end of a hex key from a canonical node, or from nothing: it succeeds; the
node it returns is canonical or nothing, maps the key to nothing and every other key as
before, and is the node given when nothing changed; a full node leaves a canonical node. -/
theorem delete_spec {n : Node} (hn : n.WfOpt) {key : Bytes} (hkey : HexWord key) :
    ∃ d n', delete n key = .ok (d, n') ∧ n'.WfOpt ∧
      n'.get = Function.update n.get key none ∧ (d = false → n' = n) ∧
      ∀ cs, n = .full cs → n'.Wf := by
  induction n generalizing key with
  | nil => exact ⟨false, .nil, rfl, .inl rfl, (Function.update_eq_self key Node.nil.get).symm,
      fun _ => rfl, fun _ h => Node.noConfusion h⟩
  | value v₀ => exact absurd (hn.resolve_left (by simp)) id
  | short k c ih =>
    have hwf : (Node.short k c).Wf := hn.resolve_left (by simp)
    by_cases hm : prefixLen key k < k.length
    · -- the key leaves the node's key: nothing to delete
      have hnot : ¬ k <+: key := fun h => by
        rw [← prefixLen_eq_length_iff] at h
        omega
      refine ⟨false, .short k c, by simp only [delete, if_pos hm]; rfl, .inr hwf, ?_,
        fun _ => rfl, fun _ h => Node.noConfusion h⟩
      rw [get_short]
      exact (Function.update_eq_self_iff.mpr (prefixed_apply_eq_none hnot).symm).symm
    have hmk : prefixLen key k = k.length := Nat.le_antisymm (prefixLen_spec key k).2.1 (by omega)
    obtain ⟨r, hr⟩ := prefixLen_eq_length_iff.mp hmk
    by_cases hend : prefixLen key k = key.length
    · -- the key ends with the node's key: the leaf goes
      have hr0 : r = [] := by
        have := congrArg List.length hr
        rw [List.length_append] at this
        exact List.eq_nil_of_length_eq_zero (by omega)
      subst hr0
      rw [List.append_nil] at hr
      subst hr
      rcases hwf.short_cases with ⟨v, rfl, -, -⟩ | ⟨cs, rfl, -, hk, -⟩
      · refine ⟨true, .nil, by simp only [delete, if_neg hm, if_pos hend]; rfl, .inl rfl, ?_,
          fun h => Bool.noConfusion h, fun _ h => Node.noConfusion h⟩
        rw [get_short, get_value, prefixed_single, List.append_nil, single, Function.update_idem]
        exact (Function.update_eq_self k empty).symm
      · exact absurd hk hkey.not_forall_lt
    · -- the key goes on below the node's key: only an extension has keys there
      have hrne : r ≠ [] := by
        rintro rfl
        rw [List.append_nil] at hr
        exact hend (hr ▸ hmk)
      rcases hwf.short_cases with ⟨v, rfl, hk, -⟩ | ⟨cs, rfl, hk0, hk, hf⟩
      · exact absurd (HexWord.eq_of_isPrefix hk hkey ⟨r, hr⟩ ▸ hr) (by simpa using hrne)
      have hrhex : HexWord r := (HexWord.append_iff hk).mp (hr ▸ hkey)
      obtain ⟨d, child, hdel, -, hget, hd, hwfc⟩ := ih (.inr hf) hrhex
      have hchild := hwfc cs rfl
      refine ⟨d, mergeShort k child, ?_, .inr (wf_mergeShort hk0 hk hchild), ?_,
        fun h => by rw [hd h]; rfl, fun _ h => Node.noConfusion h⟩
      · have hdrop : key.drop k.length = r := by rw [← hr, List.drop_left]
        rw [delete.eq_1, if_neg hm, if_neg hend, hdrop, hdel, Machine.ok_bind]
        exact dirty_ite fun h => by rw [hd h]; rfl
      · rw [get_mergeShort, hget, prefixed_update, hr]
        rfl
  | full cs ih =>
    have hwf : (Node.full cs).Wf := hn.resolve_left (by simp)
    obtain ⟨hslot, hcs, hbr⟩ := wf_full.mp hwf
    obtain ⟨x, r, rfl⟩ := List.exists_cons_of_ne_nil hkey.ne_nil
    have hx := hkey.head_lt
    -- the child at the key's nibble loses the rest of the key
    have hchild : ∃ d nn, delete (cs (nibbleIndex x hx)) r = .ok (d, nn) ∧
        (nibbleIndex x hx = 16 → ValueSlot nn) ∧ (nibbleIndex x hx ≠ 16 → nn = .nil ∨ nn.Wf) ∧
        nn.get = Function.update (cs (nibbleIndex x hx)).get r none ∧
        (d = false → nn = cs (nibbleIndex x hx)) := by
      rcases HexWord.cons_iff.mp hkey with ⟨rfl, rfl⟩ | ⟨hx16, hr⟩
      · obtain ⟨d, hdel, hd⟩ := delete_slot hslot
        exact ⟨d, .nil, hdel, fun _ => .inl rfl, fun h => absurd rfl h,
          get_slot_update hslot _ _ (Function.update_eq_self [] Node.nil.get).symm, hd⟩
      · have hne := index_ne_16 hx16
        obtain ⟨d, nn, hdel, hnn, hget, hd, -⟩ := ih _ (hcs _ hne) hr
        exact ⟨d, nn, hdel, fun h => absurd h hne, fun _ => hnn, hget, hd⟩
    obtain ⟨d, nn, hdel, hnn16, hnn, hget, hd⟩ := hchild
    obtain ⟨hred, hredget⟩ := reduceFull_update hwf hnn16 hnn
    -- an unchanged child leaves the two children the node had
    have hsame : d = false → reduceFull (Function.update cs (nibbleIndex x hx) nn) = .full cs :=
      fun h => by rw [hd h, Function.update_eq_self, reduceFull_of_two hbr]
    refine ⟨d, reduceFull (Function.update cs (nibbleIndex x hx) nn), ?_, .inr hred, ?_, hsame,
      fun _ _ => hred⟩
    · simp only [delete, byteAt_cons, childIndex_of_lt hx, Machine.ok_bind, List.drop_succ_cons,
        List.drop_zero, hdel]
      exact dirty_ite hsame
    · rw [hredget]
      exact get_full_update rfl hget

/-! ### A canonical node is the only one of its map -/

lemma get_leaf (k v : Bytes) : (Node.short k (.value v)).get = single k v := by
  rw [get_short, get_value, prefixed_single, List.append_nil]

/-- A canonical node is a leaf, or a full node behind a prefix, which is empty for the full
node itself. -/
lemma Node.Wf.shape {n : Node} (h : n.Wf) :
    (∃ k v, n = .short k (.value v)) ∨ ∃ p cs, n = insertNil p (.full cs) ∧ (Node.full cs).Wf := by
  cases n with
  | short k c =>
    rcases h.short_cases with ⟨v, rfl, -, -⟩ | ⟨cs, rfl, hk0, -, hf⟩
    · exact .inl ⟨k, v, rfl⟩
    · exact .inr ⟨k, cs, (if_neg hk0).symm, hf⟩
  | full cs => exact .inr ⟨[], cs, rfl, h⟩
  | nil => exact absurd h id
  | value v => exact absurd h id

/-- A canonical node with the map of one entry is the leaf of that entry. -/
lemma Node.Wf.eq_leaf_of_get {n : Node} (h : n.Wf) {k v : Bytes} (he : n.get = single k v) :
    n = .short k (.value v) := by
  rcases h.shape with ⟨k', v', rfl⟩ | ⟨p, cs, rfl, hf⟩
  · rw [get_leaf] at he
    obtain ⟨rfl, rfl⟩ := single_inj he
    rfl
  · rw [get_insertNil, get_full] at he
    exact absurd he.symm (single_ne_prefixed_branch hf.branching)

lemma ValueSlot.eq_of_get {s s' : Node} (hs : ValueSlot s) (hs' : ValueSlot s')
    (he : s.get = s'.get) : s = s' := by
  rcases hs with rfl | ⟨v, -, rfl⟩ <;> rcases hs' with rfl | ⟨v', -, rfl⟩
  · rfl
  · exact absurd he.symm get_value_ne_empty
  · exact absurd he get_value_ne_empty
  · rw [(single_inj he).2]

/-- Two canonical nodes of one map are one node. The induction is on the first node; the map of
the second fixes its shape: one entry makes a leaf, and a branching map behind a prefix fixes the
prefix and, nibble by nibble, the children. -/
theorem Node.Wf.eq_of_get {n n' : Node} (h : n.Wf) (h' : n'.Wf) (he : n.get = n'.get) :
    n = n' := by
  induction n generalizing n' with
  | nil => exact absurd h id
  | value v => exact absurd h id
  | short k c ih =>
    rcases h.short_cases with ⟨v, rfl, -, -⟩ | ⟨cs, rfl, hk0, -, hf⟩
    · exact (h'.eq_leaf_of_get (by rw [← he, get_leaf])).symm
    rcases h'.shape with ⟨k', v', rfl⟩ | ⟨p', cs', rfl, hf'⟩
    · exact h.eq_leaf_of_get (he.trans (get_leaf k' v'))
    -- two extensions: the keys and the branches agree
    rw [get_short, get_full, get_insertNil, get_full] at he
    obtain ⟨rfl, hg⟩ := prefixed_branch_inj hf.branching hf'.branching he
    rw [insertNil, if_neg hk0, ih hf hf' (by rw [get_full, get_full, hg])]
  | full cs ih =>
    rcases h'.shape with ⟨k', v', rfl⟩ | ⟨p', cs', rfl, hf'⟩
    · exact h.eq_leaf_of_get (he.trans (get_leaf k' v'))
    rw [get_full, get_insertNil, get_full] at he
    obtain ⟨rfl, hg⟩ := prefixed_branch_inj h.branching hf'.branching ((prefixed_nil _).trans he)
    rw [insertNil, if_pos rfl]
    congr 1
    funext j
    -- the children agree one by one
    have hj : (cs j).get = (cs' j).get := by
      rw [← childOf_ofNat cs j, ← childOf_ofNat cs' j]
      exact congrFun hg (UInt8.ofNat j)
    obtain ⟨hslot, hcs, -⟩ := wf_full.mp h
    obtain ⟨hslot', hcs', -⟩ := wf_full.mp hf'
    by_cases h16 : j = 16
    · subst h16
      exact hslot.eq_of_get hslot' hj
    rcases hcs j h16 with hn | hw <;> rcases hcs' j h16 with hn' | hw'
    · rw [hn, hn']
    · rw [hn, get_nil] at hj
      exact absurd hj.symm hw'.get_ne_empty
    · rw [hn', get_nil] at hj
      exact absurd hj hw.get_ne_empty
    · exact ih j hw hw' hj

theorem Node.WfOpt.eq_of_get {n n' : Node} (h : n.WfOpt) (h' : n'.WfOpt) (he : n.get = n'.get) :
    n = n' := by
  rcases h with rfl | hw <;> rcases h' with rfl | hw'
  · rfl
  · exact absurd he.symm hw'.get_ne_empty
  · exact absurd he hw.get_ne_empty
  · exact hw.eq_of_get hw' he

end Wanchain.Trie
