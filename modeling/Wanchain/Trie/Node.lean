import Wanchain.Trie.Encoding
import Wanchain.Rlp.Encode

/-!
# The in-memory Merkle Patricia trie

`trie/trie.go` and `trie/hasher.go` on a trie with no database, whose nodes are all in memory:
the nodes of `trie/node.go`, lookup (`tryGet`), insertion (`insert`), deletion (`delete`) and
the root hash (`hasher.hash`). Keys reach the nodes in their hex form (`keybytesToHex`), one
nibble a byte with the terminator `16` at the end.

A `hashNode` is a node still in the database; a trie with no database never holds one, and
`resolve` returns every other node as it is. A node's `nodeFlag` caches its hash once `Hash` has
run and marks it dirty; every node that `Update` and `Delete` make gets `newFlag()`, which caches
nothing, so on a trie built by them `hasher.hash` never reads a cache and the flags are left out.

Go panics on an index past the end of a slice or of the seventeen children of a `fullNode`, on a
`valueNode` with key left to insert, and on the type assertion of a value that is not a
`valueNode`; these are the errors of the model.
-/

set_option linter.dupNamespace false

namespace Wanchain.Trie

/-- A node held in memory: `nil`, a `valueNode`, a `shortNode` with its key and child, and a
`fullNode` with its seventeen children, the last one the value of the key that ends there. -/
inductive Node where
  | nil
  | value (v : Bytes)
  | short (Key : Bytes) (Val : Node)
  | full (Children : Fin 17 → Node)

/-- `n == nil`. -/
def Node.isNil : Node → Bool
  | .nil => true
  | _ => false

@[simp] lemma Node.isNil_iff (n : Node) : n.isNil = true ↔ n = .nil := by
  cases n <;> simp [Node.isNil]

@[simp] lemma Node.isNil_eq_false_iff (n : Node) : n.isNil = false ↔ n ≠ .nil := by
  cases n <;> simp [Node.isNil]

def errIndexOutOfRange : String := "runtime error: index out of range"
def errInvalidNode : String := "invalid node"
def errNotValueNode : String := "interface conversion: trie.node is not trie.valueNode"

/-- `b[i]`, which panics past the end of `b`. -/
def byteAt (b : Bytes) (i : ℕ) : Except String UInt8 :=
  match b[i]? with
  | some x => .ok x
  | none => .error errIndexOutOfRange

/-- The child `Children[i]` of a `fullNode` is read and written at: past the seventeenth, Go
panics. -/
def childIndex (i : UInt8) : Except String (Fin 17) :=
  if h : i.toNat < 17 then .ok ⟨i.toNat, h⟩ else .error errIndexOutOfRange

/-! ### Lookup -/

/-- `tryGet` from position `pos` of `key`, given the rest `key[pos:]`: the value, `nil` where
there is none. -/
def tryGet : Node → Bytes → Except String Bytes
  | .nil, _ => .ok []
  | .value v, _ => .ok v
  | .short k c, key =>
    if key.length < k.length ∨ k ≠ key.take k.length then .ok []
    else tryGet c (key.drop k.length)
  | .full cs, key => do
    let j ← childIndex (← byteAt key 0)
    tryGet (cs j) (key.drop 1)

/-! ### Insertion -/

/-- `insert` into `nil`: the value itself at the end of the key, a short node leading to it
before. -/
def insertNil (key : Bytes) (value : Node) : Node :=
  if key = [] then value else .short key value

/-- `insert`: whether the node changed, and the new node. At the end of the key the value
replaces the node; a short node whose key the key does not start with splits into a full node
at the nibble where the two part, behind a short node of their common prefix if they share
one. -/
def insert : Node → Bytes → Node → Except String (Bool × Node)
  | .value v, [], .value v' => .ok (decide (v ≠ v'), .value v')
  | .value _, [], _ => .error errNotValueNode
  | _, [], value => .ok (true, value)
  | .short k c, key@(_ :: _), value =>
    let matchlen := prefixLen key k
    if matchlen = k.length then do
      let (dirty, nn) ← insert c (key.drop matchlen) value
      if !dirty then pure (false, .short k c) else pure (true, .short k nn)
    else do
      -- both old and new entries go under the branch, each at its own nibble
      let i₁ ← childIndex (← byteAt k matchlen)
      let i₂ ← childIndex (← byteAt key matchlen)
      let branch := Function.update (Function.update (fun _ => Node.nil) i₁
        (insertNil (k.drop (matchlen + 1)) c)) i₂ (insertNil (key.drop (matchlen + 1)) value)
      if matchlen = 0 then pure (true, .full branch)
      else pure (true, .short (key.take matchlen) (.full branch))
  | .full cs, i :: rest, value => do
    let j ← childIndex i
    let (dirty, nn) ← insert (cs j) rest value
    if !dirty then pure (false, .full cs) else pure (true, .full (Function.update cs j nn))
  | .nil, key, value => pure (true, .short key value)
  | .value _, _ :: _, _ => .error errInvalidNode

/-- The call `insert(nil, prefix, key, value)` that builds the two children of a split. -/
lemma insert_nil (key : Bytes) (value : Node) :
    insert .nil key value = .ok (true, insertNil key value) := by
  cases key <;> rfl

/-! ### Deletion -/

/-- The loop of `delete` over the children of a full node: the index of the only child left,
`-1` where there is none, `-2` where there are two or more (the loop breaks there). -/
def onlyChild (cs : Fin 17 → Node) : Int :=
  (List.finRange 17).foldl (fun pos i =>
    if pos = -2 then -2
    else if !(cs i).isNil then (if pos = -1 then (i : Int) else -2)
    else pos) (-1)

/-- What `delete` makes of a short node whose child changed: a short child is taken in, its key
after the node's (`concat`). -/
def mergeShort (k : Bytes) : Node → Node
  | .short ck cv => .short (k ++ ck) cv
  | child => .short k child

/-- What `delete` makes of a full node whose child changed: the full node while two children are
left; with one child left, a short node of that child's nibble, taking in the child if it is a
short node. -/
def reduceFull (cs : Fin 17 → Node) : Node :=
  let pos := onlyChild cs
  if 0 ≤ pos then
    let p : Fin 17 := Fin.ofNat 17 pos.toNat
    if pos ≠ 16 then
      match cs p with
      | .short ck cv => .short (UInt8.ofNat pos.toNat :: ck) cv
      | _ => .short [UInt8.ofNat pos.toNat] (cs p)
    else .short [UInt8.ofNat pos.toNat] (cs p)
  else .full cs

/-- `delete`: whether the node changed, and the new node, reduced on the way up. -/
def delete : Node → Bytes → Except String (Bool × Node)
  | .short k c, key =>
    let matchlen := prefixLen key k
    if matchlen < k.length then pure (false, .short k c)
    else if matchlen = key.length then pure (true, .nil)
    else do
      let (dirty, child) ← delete c (key.drop k.length)
      if !dirty then pure (false, .short k c) else pure (true, mergeShort k child)
  | .full cs, key => do
    let j ← childIndex (← byteAt key 0)
    let (dirty, nn) ← delete (cs j) (key.drop 1)
    if !dirty then pure (false, .full cs) else pure (true, reduceFull (Function.update cs j nn))
  | .value _, _ => pure (true, .nil)
  | .nil, _ => pure (false, .nil)

/-! ### The trie -/

/-- A `Trie` with no database: its root node. The zero value is the empty trie. -/
structure Trie where
  root : Node

def Trie.empty : Trie := ⟨.nil⟩

/-- `TryGet`; `Get` is the same, logging the error. -/
def Trie.TryGet (t : Trie) (key : Bytes) : Except String Bytes :=
  tryGet t.root (keybytesToHex key)

/-- `TryUpdate`: an empty value deletes the key. -/
def Trie.TryUpdate (t : Trie) (key value : Bytes) : Except String Trie :=
  let k := keybytesToHex key
  if value.length ≠ 0 then do
    let (_, n) ← insert t.root k (.value value)
    pure ⟨n⟩
  else do
    let (_, n) ← delete t.root k
    pure ⟨n⟩

/-- `TryDelete`. -/
def Trie.TryDelete (t : Trie) (key : Bytes) : Except String Trie := do
  let (_, n) ← delete t.root (keybytesToHex key)
  pure ⟨n⟩

/-! ### The hash -/

section Hash

open Rlp

variable (Keccak256 : Bytes → Bytes)

/-- What `store` leaves in the parent of a node it is not forced to hash: the node itself when
its encoding is shorter than a hash, the hash of the encoding otherwise. -/
def storeRef (e : Value) : Value :=
  if (EncodeToBytes e).length < 32 then e else .bytes (Keccak256 (EncodeToBytes e))

/-- The RLP value `hasher.hash` encodes of a node: `hashChildren` gives a short node its compact
key and replaces every child but a value by what `store` leaves of it; an absent child is the
empty string. -/
def collapse : Node → Value
  | .nil => .bytes []
  | .value v => .bytes v
  | .short k c => .list [.bytes (hexToCompact k), match c with
      | .value v => .bytes v
      | c => storeRef Keccak256 (collapse c)]
  | .full cs => .list (List.ofFn fun i : Fin 17 =>
      if i.val < 16 then
        if (cs i).isNil then .bytes [] else storeRef Keccak256 (collapse (cs i))
      else
        -- the value slot is copied as it is
        match cs 16 with
        | .value v => .bytes v
        | _ => .bytes [])

/-- `emptyRoot`, the hash of the RLP of the empty string, which Go writes out as a constant. -/
def emptyRoot : Bytes := Keccak256 (EncodeToBytes (.bytes []))

/-- `Hash`: the root is always hashed (`force`); the empty trie has `emptyRoot`. -/
def Trie.Hash (t : Trie) : Bytes :=
  match t.root with
  | .nil => emptyRoot Keccak256
  | n => Keccak256 (EncodeToBytes (collapse Keccak256 n))

end Hash

end Wanchain.Trie
