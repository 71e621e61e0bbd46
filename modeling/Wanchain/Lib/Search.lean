import Mathlib.Algebra.BigOperators.Intervals
import Mathlib.Algebra.Order.BigOperators.Group.Finset
import Mathlib.Order.Interval.Finset.Nat

/-!
# Binary search and sampling by prefix sums

`search n f` is the binary search of Go's `sort.Search`: it halves `[i, j)`, starting from
`[0, n)`, and returns the first index below `n` at which `f` holds, or `n` when there is none,
provided `f` is monotone below `n` (`search_spec`, and `search_eq_of` for the uniqueness of the
answer). It only looks at `f` below `n` (`search_congr`).

Sampling by weights `w 0, …, w (n - 1)` draws a residue `c` below their total and takes the
first index whose prefix sum exceeds `c` (`draw`). The index drawn is below `n` and has a
positive weight, and exactly `w k` of the residues draw `k` (`card_draw_eq`): they are the
residues from the sum of the weights before `k` up to the sum through `k`.
-/

namespace Search

open Finset

/-- `f` is monotone below `n`: once it holds at an index below `n` it holds at every later
index below `n`. -/
def MonotoneBelow (n : ℕ) (f : ℕ → Bool) : Prop :=
  ∀ a b, a ≤ b → b < n → f a = true → f b = true

/-- The halving loop of `sort.Search` over `[i, j)`: the midpoint `h = (i + j) / 2` is rounded
down, and the interval goes on as `[h + 1, j)` when `f h` fails and as `[i, h)` otherwise. -/
def searchFrom (f : ℕ → Bool) (i j : ℕ) : ℕ :=
  if i < j then
    if !f ((i + j) / 2) then searchFrom f ((i + j) / 2 + 1) j else searchFrom f i ((i + j) / 2)
  else i
termination_by j - i

/-- `sort.Search(n, f)`. -/
def search (n : ℕ) (f : ℕ → Bool) : ℕ := searchFrom f 0 n

section Spec

variable {n : ℕ} {f : ℕ → Bool}

/-- The invariant of the loop: every index below `i` fails, and `j` holds when it is below `n`.
The answer stays in `[i, j]` and keeps both. -/
theorem searchFrom_spec (hf : MonotoneBelow n f) (i j : ℕ) (hij : i ≤ j) (hjn : j ≤ n)
    (hlo : ∀ a < i, f a = false) (hhi : j < n → f j = true) :
    i ≤ searchFrom f i j ∧ searchFrom f i j ≤ j ∧
      (∀ a < searchFrom f i j, f a = false) ∧
      (searchFrom f i j < n → f (searchFrom f i j) = true) := by
  induction i, j using searchFrom.induct f with
  | case1 i j hlt hfail ih =>
    -- `f` fails at the midpoint, so at every index up to it: the lower end moves past it
    rw [searchFrom, if_pos hlt, if_pos hfail]
    have hh : f ((i + j) / 2) = false := by simpa using hfail
    have hlo' : ∀ a < (i + j) / 2 + 1, f a = false := by
      intro a ha
      by_cases hai : a < i
      · exact hlo a hai
      · cases hfa : f a
        · rfl
        · have := hf a ((i + j) / 2) (by omega) (by omega) hfa
          rw [hh] at this
          exact absurd this Bool.false_ne_true
    obtain ⟨h1, h2, h3, h4⟩ := ih (by omega) hjn hlo' hhi
    exact ⟨by omega, h2, h3, h4⟩
  | case2 i j hlt hhold ih =>
    -- `f` holds at the midpoint: the upper end moves down to it
    rw [searchFrom, if_pos hlt, if_neg hhold]
    have hh : f ((i + j) / 2) = true := by simpa using hhold
    obtain ⟨h1, h2, h3, h4⟩ := ih (by omega) (by omega) hlo (fun _ => hh)
    exact ⟨h1, by omega, h3, h4⟩
  | case3 i j hge =>
    rw [searchFrom, if_neg hge]
    have hji : j = i := by omega
    subst hji
    exact ⟨le_rfl, le_rfl, hlo, hhi⟩

/-- The answer of `search` is at most `n`, every index below it fails, and it holds there when
it is below `n`. -/
theorem search_spec (hf : MonotoneBelow n f) :
    search n f ≤ n ∧ (∀ a < search n f, f a = false) ∧
      (search n f < n → f (search n f) = true) := by
  obtain ⟨-, h2, h3, h4⟩ :=
    searchFrom_spec hf 0 n (Nat.zero_le n) le_rfl (fun a ha => absurd ha (Nat.not_lt_zero a))
      (fun h => absurd h (Nat.lt_irrefl n))
  exact ⟨h2, h3, h4⟩

/-- The answer is the one index with the properties of `search_spec`. -/
theorem search_eq_of (hf : MonotoneBelow n f) {k : ℕ} (hk : k ≤ n)
    (hlt : ∀ a < k, f a = false) (hkf : k < n → f k = true) : search n f = k := by
  obtain ⟨hle, hbelow, hat⟩ := search_spec hf
  rcases lt_trichotomy (search n f) k with hr | hr | hr
  · have := hat (by omega)
    rw [hlt _ hr] at this
    exact absurd this Bool.false_ne_true
  · exact hr
  · have := hbelow k hr
    rw [hkf (by omega)] at this
    exact absurd this.symm Bool.false_ne_true

/-- The loop only evaluates `f` at midpoints of `[i, j)`, so below `j`. -/
theorem searchFrom_congr {g : ℕ → Bool} (i j : ℕ) (hfg : ∀ a < j, f a = g a) :
    searchFrom f i j = searchFrom g i j := by
  induction i, j using searchFrom.induct f with
  | case1 i j hlt hfail ih =>
    rw [searchFrom.eq_1 f i j, searchFrom.eq_1 g i j, if_pos hlt, if_pos hlt, if_pos hfail,
      if_pos (by rwa [← hfg _ (by omega)])]
    exact ih hfg
  | case2 i j hlt hhold ih =>
    rw [searchFrom.eq_1 f i j, searchFrom.eq_1 g i j, if_pos hlt, if_pos hlt, if_neg hhold,
      if_neg (by rwa [← hfg _ (by omega)])]
    exact ih fun a ha => hfg a (by omega)
  | case3 i j hge =>
    rw [searchFrom.eq_1 f i j, searchFrom.eq_1 g i j, if_neg hge, if_neg hge]

theorem search_congr {g : ℕ → Bool} (hfg : ∀ a < n, f a = g a) : search n f = search n g :=
  searchFrom_congr 0 n hfg

end Spec

section Sampling

variable (w : ℕ → ℕ)

/-- Drawing the residue `c` against the prefix sums of the weights `w 0, …, w (n - 1)`: the
first index whose prefix sum exceeds `c`. -/
def draw (n c : ℕ) : ℕ := search n fun i => decide (c < ∑ j ∈ range (i + 1), w j)

lemma sum_range_mono {a b : ℕ} (hab : a ≤ b) :
    ∑ j ∈ range a, w j ≤ ∑ j ∈ range b, w j :=
  sum_le_sum_of_subset (range_subset_range.2 hab)

lemma prefix_monotoneBelow (n c : ℕ) :
    MonotoneBelow n fun i => decide (c < ∑ j ∈ range (i + 1), w j) := by
  intro a b hab _ ha
  have := sum_range_mono w (show a + 1 ≤ b + 1 by omega)
  simp only [decide_eq_true_eq] at ha ⊢
  omega

/-- `search_spec` for a draw: every index below the one drawn has a prefix sum of at most `c`,
and the one drawn, when it is below `n`, a prefix sum above `c`. -/
lemma draw_spec (n c : ℕ) :
    draw w n c ≤ n ∧ (∀ a < draw w n c, ∑ j ∈ range (a + 1), w j ≤ c) ∧
      (draw w n c < n → c < ∑ j ∈ range (draw w n c + 1), w j) := by
  obtain ⟨hle, hbelow, hat⟩ := search_spec (prefix_monotoneBelow w n c)
  refine ⟨hle, fun a ha => ?_, fun h => ?_⟩
  · simpa using hbelow a ha
  · exact of_decide_eq_true (hat h)

variable {w}

/-- An index below `n` is drawn exactly by the residues from the sum of the weights before it
up to the sum through it. -/
theorem draw_eq_iff {n c k : ℕ} (hk : k < n) :
    draw w n c = k ↔ ∑ j ∈ range k, w j ≤ c ∧ c < ∑ j ∈ range (k + 1), w j := by
  constructor
  · rintro rfl
    obtain ⟨-, hbelow, hat⟩ := draw_spec w n c
    refine ⟨?_, hat hk⟩
    -- the index before the one drawn, if any, has a prefix sum of at most `c`
    rcases Nat.eq_zero_or_pos (draw w n c) with h0 | hpos
    · rw [h0, sum_range_zero]
      exact Nat.zero_le c
    · have := hbelow (draw w n c - 1) (by omega)
      rwa [Nat.sub_add_cancel hpos] at this
  · rintro ⟨hlo, hhi⟩
    refine search_eq_of (prefix_monotoneBelow w n c) hk.le (fun a ha => ?_) (fun _ => by simpa)
    have := sum_range_mono w (show a + 1 ≤ k by omega)
    simp only [decide_eq_false_iff_not, not_lt]
    omega

/-- A residue below the total draws an index below `n`. -/
theorem draw_lt {n c : ℕ} (hc : c < ∑ j ∈ range n, w j) : draw w n c < n := by
  obtain ⟨hle, hbelow, -⟩ := draw_spec w n c
  by_contra h
  -- drawing `n` would put the whole total at most `c`
  have hn : 0 < n := by
    rcases Nat.eq_zero_or_pos n with rfl | hn
    · simp at hc
    · exact hn
  have := hbelow (n - 1) (by omega)
  rw [Nat.sub_add_cancel hn] at this
  omega

/-- A residue below the total draws an index of positive weight. -/
theorem draw_weight_pos {n c : ℕ} (hc : c < ∑ j ∈ range n, w j) : 0 < w (draw w n c) := by
  have hlo := ((draw_eq_iff (draw_lt hc)).mp rfl)
  rw [sum_range_succ] at hlo
  omega

/-- Exactly `w k` of the residues below the total draw `k`. -/
theorem card_draw_eq {n k : ℕ} (hk : k < n) :
    ((range (∑ j ∈ range n, w j)).filter fun c => draw w n c = k).card = w k := by
  have htot := sum_range_mono w (show k + 1 ≤ n by omega)
  have hset : (range (∑ j ∈ range n, w j)).filter (fun c => draw w n c = k) =
      Ico (∑ j ∈ range k, w j) (∑ j ∈ range (k + 1), w j) := by
    ext c
    rw [mem_filter, mem_range, mem_Ico, draw_eq_iff hk]
    constructor
    · exact fun h => h.2
    · exact fun h => ⟨by omega, h⟩
  rw [hset, Nat.card_Ico, sum_range_succ]
  omega

end Sampling

end Search
