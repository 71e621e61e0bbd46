import Wanchain.Basic.Bytes
import Wanchain.Lib.Heap
import Wanchain.Lib.KeyedList

/-!
# The miner's transaction set

`core/types/transaction.go`: `TransactionsByPriceAndNonce` hands the miner one transaction at a
time. It keeps, for each account, the account's pending transactions in nonce order; the first
of each account is a head, and the heads form a heap under `TxByPrice.Less`. `Peek` reads the
root, `Shift` replaces it by the next transaction of its account, `Pop` drops it with the rest
of its account.

`TxByPrice.Less` puts a `POS_TX` transaction before a transaction of another type, and then
falls through to the price: it is not an order on transactions of both kinds. A cheap `POS_TX`
transaction and a dearer normal one are each less than the other (`Less_not_asymm`), and which
of the two `heap.Init` puts at the root depends on the order in which the map of accounts is
iterated (`posTx_not_served_first`). The sender a transaction's signature recovers is a field of
the transaction here.
-/

namespace Wanchain.Types

def NORMAL_TX : UInt64 := 1
def PRIVACY_TX : UInt64 := 6
def POS_TX : UInt64 := 7

/-- The fields of a transaction the set reads: its type, its gas price and its sender. -/
structure Transaction where
  Txtype : UInt64
  Price : ℕ
  sender : Address
  deriving DecidableEq, Repr

/-- `TxByPrice.Less(i, j)`, with `s[i] = a` and `s[j] = b`. -/
def TxByPrice.Less (a b : Transaction) : Bool :=
  (b.Txtype != POS_TX && a.Txtype == POS_TX) || decide (a.Price > b.Price)

/-- `TransactionsByPriceAndNonce`: the pending transactions of each account after its head, and
the heap of heads. -/
structure TransactionsByPriceAndNonce where
  txs : List (Address × List Transaction)
  heads : List Transaction

/-- `NewTransactionsByPriceAndNonce`, with the accounts in the order the map is iterated: the
first transaction of each account is a head, and the account keeps the others. An account with
no transaction panics (`accTxs[0]`). -/
def NewTransactionsByPriceAndNonce (txs : List (Address × List Transaction)) :
    Option TransactionsByPriceAndNonce := do
  let heads ← txs.mapM fun p => p.2.head?
  let rest := txs.foldl (fun acc p =>
    match p.2 with
    | tx :: more => KeyedList.upsert Prod.fst acc (tx.sender, more)
    | [] => acc) txs
  pure ⟨rest, Heap.initList TxByPrice.Less heads⟩

/-- `Peek`: the root of the heap, `nil` when there are no heads. -/
def Peek (t : TransactionsByPriceAndNonce) : Option Transaction := t.heads.head?

/-- The pending transactions of an account; an account absent from the map has none. -/
def pending (t : TransactionsByPriceAndNonce) (acc : Address) : List Transaction :=
  ((t.txs.find? (·.1 = acc)).map (·.2)).getD []

/-- `Shift`: the root is replaced by the next transaction of its account, which the heap then
fixes; an account with no more transactions leaves the heap. With no heads it panics. -/
def Shift (t : TransactionsByPriceAndNonce) : Option TransactionsByPriceAndNonce :=
  match t.heads with
  | [] => none
  | head :: others =>
    match pending t head.sender with
    | tx :: more =>
      some ⟨KeyedList.upsert Prod.fst t.txs (head.sender, more),
        Heap.fix TxByPrice.Less (tx :: others) ⟨0, Nat.succ_pos _⟩⟩
    | [] => (Heap.pop TxByPrice.Less t.heads).map fun r => ⟨t.txs, r.2⟩

/-- `Pop`: the root leaves the heap, and its account with it. With no heads it panics. -/
def Pop (t : TransactionsByPriceAndNonce) : Option TransactionsByPriceAndNonce :=
  (Heap.pop TxByPrice.Less t.heads).map fun r => ⟨t.txs, r.2⟩

/-! ### `Less` -/

/-- A `POS_TX` transaction is less than a transaction of another type, whatever the prices. -/
theorem Less_pos_first {a b : Transaction} (ha : a.Txtype = POS_TX) (hb : b.Txtype ≠ POS_TX) :
    TxByPrice.Less a b = true := by
  simp [TxByPrice.Less, ha, hb]

/-- A dearer transaction of another type is less than a `POS_TX` transaction too: `Less` is
not asymmetric. -/
theorem Less_not_asymm {a b : Transaction} (ha : a.Txtype = POS_TX) (hb : b.Txtype ≠ POS_TX)
    (hp : a.Price < b.Price) : TxByPrice.Less a b = true ∧ TxByPrice.Less b a = true := by
  refine ⟨Less_pos_first ha hb, ?_⟩
  simp [TxByPrice.Less, hp]

/-! ### A `POS_TX` transaction behind a normal one -/

theorem posTx_not_served_first :
    TxByPrice.Less ⟨POS_TX, 1, 1⟩ ⟨NORMAL_TX, 2, 2⟩ = true ∧
    TxByPrice.Less ⟨NORMAL_TX, 2, 2⟩ ⟨POS_TX, 1, 1⟩ = true ∧
    (NewTransactionsByPriceAndNonce [(1, [⟨POS_TX, 1, 1⟩]), (2, [⟨NORMAL_TX, 2, 2⟩])]).map Peek =
      some (some ⟨NORMAL_TX, 2, 2⟩) ∧
    (NewTransactionsByPriceAndNonce [(2, [⟨NORMAL_TX, 2, 2⟩]), (1, [⟨POS_TX, 1, 1⟩])]).map Peek =
      some (some ⟨POS_TX, 1, 1⟩) := by
  refine ⟨(Less_not_asymm rfl (by decide) (by decide)).1,
    (Less_not_asymm rfl (by decide) (by decide)).2, by decide, by decide⟩

end Wanchain.Types
