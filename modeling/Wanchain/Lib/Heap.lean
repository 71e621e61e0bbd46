import Mathlib.Data.List.FinRange
import Mathlib.Data.List.OfFn
import Mathlib.Logic.Equiv.Fin.Basic

/-!
# Binary heaps, as Go's `container/heap` keeps them

The heap is an array `Fin m → α` ordered by a Boolean `less`, the `Less` of the `heap.Interface`
it is handed; nothing is assumed of `less`. The loops of `container/heap`:

* `down` sifts the entry at `i0` towards the leaves of the first `n` entries, swapping it with
  the lesser child while that child is less than it, and reports whether it moved;
* `up` sifts the entry at `j` towards the root while it is less than its parent;
* `init` runs `down` at every index from `n / 2 - 1` down to `0`;
* `pop` swaps the root with the last entry, sifts the new root down the others, and removes the
  last entry; `fix` runs `down`, then `up` when `down` did not move the entry.

The `for` loops of the source are given fuel, the most iterations each can make: `n - i0` for
`down`, which moves to an index past the current one, and `j` for `up`, which moves to one
before it. Nothing is assumed of `less`, so what the entry at the root is depends on `less` and
on the order of the entries.
-/

namespace Heap

variable {α : Type*} (less : α → α → Bool) {m : ℕ}

/-- The child `down` compares the entry at `i` with: the left child `2 * i + 1`, or the right
one when it is below `n` and less than the left one. -/
def child (f : Fin m → α) (n : ℕ) (hn : n ≤ m) (i : Fin m) (h1 : 2 * i.val + 1 < n) : Fin m :=
  if h2 : 2 * i.val + 2 < n then
    if less (f ⟨2 * i.val + 2, by omega⟩) (f ⟨2 * i.val + 1, by omega⟩) then
      ⟨2 * i.val + 2, by omega⟩
    else ⟨2 * i.val + 1, by omega⟩
  else ⟨2 * i.val + 1, by omega⟩

/-- The loop of `down(h, i0, n)` from index `i`, on `n ≤ m` entries, with `fuel` iterations at
most: it returns the array and the index the entry stopped at. -/
def downLoop (n : ℕ) (hn : n ≤ m) : (Fin m → α) → Fin m → ℕ → (Fin m → α) × Fin m
  | f, i, 0 => (f, i)
  | f, i, fuel + 1 =>
    if h1 : 2 * i.val + 1 < n then
      if less (f (child less f n hn i h1)) (f i) then
        downLoop n hn (f ∘ Equiv.swap i (child less f n hn i h1)) (child less f n hn i h1) fuel
      else (f, i)
    else (f, i)

/-- `down(h, i0, n)`: the array after the sift, and whether the entry moved (`i > i0`). -/
def down (f : Fin m → α) (i0 : Fin m) (n : ℕ) (hn : n ≤ m) : (Fin m → α) × Bool :=
  let r := downLoop less n hn f i0 (n - i0.val)
  (r.1, decide (i0 < r.2))

/-- The loop of `up(h, j)`, with `fuel` iterations at most. -/
def upLoop : (Fin m → α) → Fin m → ℕ → Fin m → α
  | f, _, 0 => f
  | f, j, fuel + 1 =>
    let i : Fin m := ⟨(j.val - 1) / 2, by omega⟩
    if i = j ∨ !less (f j) (f i) then f else upLoop (f ∘ Equiv.swap i j) i fuel

/-- `up(h, j)`. -/
def up (f : Fin m → α) (j : Fin m) : Fin m → α := upLoop less f j j.val

/-- `heap.Init`: `down` at every index from `n / 2 - 1` down to `0`. -/
def init (f : Fin m → α) : Fin m → α :=
  ((List.finRange m).filter (fun i => i.val < m / 2)).reverse.foldl
    (fun g i => (down less g i m le_rfl).1) f

/-- `heap.Init` on the list of entries. -/
def initList (l : List α) : List α := List.ofFn (init less l.get)

/-- `heap.Pop`: the root is swapped with the last entry, sifted down the others, and the last
entry is removed and returned. On no entries it panics. -/
def pop (l : List α) : Option (α × List α) :=
  if h : 0 < l.length then
    let last : Fin l.length := ⟨l.length - 1, by omega⟩
    let g := (down less (l.get ∘ Equiv.swap ⟨0, h⟩ last) ⟨0, h⟩ (l.length - 1) (by omega)).1
    some (g last, (List.ofFn g).dropLast)
  else none

/-- `heap.Fix(h, i)`: `down`, then `up` when `down` did not move the entry. -/
def fix (l : List α) (i : Fin l.length) : List α :=
  let r := down less l.get i l.length le_rfl
  List.ofFn (if r.2 then r.1 else up less r.1 i)

end Heap
