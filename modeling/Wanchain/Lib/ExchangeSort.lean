import Wanchain.Lib.Machine
import Mathlib.Data.List.FinRange
import Mathlib.Data.List.Sort
import Mathlib.Algebra.Group.End

/-!
# Exchange sort

The sort that compares the entry at each position `i`, in increasing order, with every later
entry `j`, in increasing order, and swaps the two when the entry at `i` has the greater key.
On an array `Fin n → α`:

* the result is the array composed with a permutation (`sort_perm`);
* its keys increase (`sort_monotone`): after the pass at `i`, the entry at `i` has a key at
  most that of every later entry, and the passes at later positions only permute later entries;
* an array whose keys already increase is left as it is (`sort_of_monotone`).

On lists, two lists that are permutations of each other sort to the same list as soon as the
key tells their entries apart (`sortList_eq_of_perm`); the order of entries with one key is
otherwise that of the input.
-/

namespace ExchangeSort

variable {α β : Type*} [LinearOrder β] (key : α → β) {n : ℕ}

/-- One comparison of the pass at `i`: the entries at `i` and `j` change places when the entry
at `i` has the greater key. -/
def exchange (i : Fin n) (f : Fin n → α) (j : Fin n) : Fin n → α :=
  if key (f j) < key (f i) then f ∘ Equiv.swap i j else f

/-- The pass at `i`: the entry at `i` against every later entry, in order. -/
def pass (f : Fin n → α) (i : Fin n) : Fin n → α :=
  Machine.run (exchange key i) f ((List.finRange n).filter (i < ·))

/-- The passes at every position, in order. -/
def sort (f : Fin n → α) : Fin n → α :=
  Machine.run (pass key) f (List.finRange n)

/-- The sort of a list, through the array of its entries. -/
def sortList (l : List α) : List α :=
  List.ofFn (sort key l.get)

section Perm

/-- A run whose every step permutes the array permutes the array. -/
lemma run_comp_perm {γ : Type*} {step : (Fin n → α) → γ → Fin n → α}
    (hstep : ∀ g c, ∃ τ : Equiv.Perm (Fin n), step g c = g ∘ τ) (f : Fin n → α) (cs : List γ) :
    ∃ σ : Equiv.Perm (Fin n), Machine.run step f cs = f ∘ σ := by
  refine Machine.run_invariant (P := fun g => ∃ σ : Equiv.Perm (Fin n), g = f ∘ σ) ?_ ⟨1, rfl⟩ cs
  rintro g c ⟨σ, rfl⟩
  obtain ⟨τ, hτ⟩ := hstep (f ∘ σ) c
  exact ⟨σ * τ, by rw [hτ, Equiv.Perm.coe_mul, Function.comp_assoc]⟩

lemma exchange_perm (i : Fin n) (f : Fin n → α) (j : Fin n) :
    ∃ τ : Equiv.Perm (Fin n), exchange key i f j = f ∘ τ := by
  unfold exchange
  split_ifs
  · exact ⟨Equiv.swap i j, rfl⟩
  · exact ⟨1, rfl⟩

lemma pass_perm (f : Fin n → α) (i : Fin n) :
    ∃ τ : Equiv.Perm (Fin n), pass key f i = f ∘ τ :=
  run_comp_perm (fun g j => exchange_perm key i g j) f _

theorem sort_perm (f : Fin n → α) : ∃ σ : Equiv.Perm (Fin n), sort key f = f ∘ σ :=
  run_comp_perm (pass_perm key) f _

theorem sortList_perm (l : List α) : (sortList key l).Perm l := by
  obtain ⟨σ, hσ⟩ := sort_perm key l.get
  have h := Equiv.Perm.ofFn_comp_perm σ l.get
  rw [List.ofFn_get] at h
  rw [sortList, hσ]
  exact h

@[simp] lemma length_sortList (l : List α) : (sortList key l).length = l.length := by
  simp [sortList]

end Perm

section Sorted

/-- One comparison of the pass at `i`. Before it, every position of `pre` (all before `i`)
holds a key at most every later key, and the position `i` a key at most those of the positions
already compared with it; both stay so, with `j` now among the compared positions. -/
lemma exchange_settles {pre : List (Fin n)} {i j : Fin n} {done : List (Fin n)}
    (hpre : ∀ a ∈ pre, a < i) (hij : i < j) (hdone : ∀ b ∈ done, b < j) {f : Fin n → α}
    (hf : ∀ a ∈ pre, ∀ b, a < b → key (f a) ≤ key (f b))
    (hi : ∀ b ∈ done, i < b ∧ key (f i) ≤ key (f b)) :
    (∀ a ∈ pre, ∀ b, a < b → key (exchange key i f j a) ≤ key (exchange key i f j b)) ∧
      ∀ b ∈ done ++ [j], i < b ∧ key (exchange key i f j i) ≤ key (exchange key i f j b) := by
  unfold exchange
  split_ifs with hlt
  · -- the swap moves entries only among positions after every position of `pre`
    refine ⟨fun a ha b hab => ?_, fun b hb => ?_⟩
    · have hai : a ≠ i := (hpre a ha).ne
      have haj : a ≠ j := ((hpre a ha).trans hij).ne
      have hswap : a < Equiv.swap i j b := by
        rcases eq_or_ne b i with rfl | hbi
        · rw [Equiv.swap_apply_left]
          exact (hpre a ha).trans hij
        rcases eq_or_ne b j with rfl | hbj
        · rw [Equiv.swap_apply_right]
          exact hpre a ha
        · rwa [Equiv.swap_apply_of_ne_of_ne hbi hbj]
      simp only [Function.comp_apply, Equiv.swap_apply_of_ne_of_ne hai haj]
      exact hf a ha _ hswap
    · simp only [Function.comp_apply, Equiv.swap_apply_left]
      rcases List.mem_append.mp hb with hb | hb
      · obtain ⟨hib, hle⟩ := hi b hb
        rw [Equiv.swap_apply_of_ne_of_ne hib.ne' (hdone b hb).ne]
        exact ⟨hib, hlt.le.trans hle⟩
      · rw [List.mem_singleton.mp hb, Equiv.swap_apply_right]
        exact ⟨hij, hlt.le⟩
  · refine ⟨hf, fun b hb => ?_⟩
    rcases List.mem_append.mp hb with hb | hb
    · exact hi b hb
    · rw [List.mem_singleton.mp hb]
      exact ⟨hij, not_lt.mp hlt⟩

/-- The pass at `i`, after passes at the positions `pre`: the entry at `i` ends with a key at
most every later key, and the positions of `pre` keep that property. -/
lemma pass_settles {pre : List (Fin n)} {i : Fin n} (hpre : ∀ a ∈ pre, a < i) {f : Fin n → α}
    (hf : ∀ a ∈ pre, ∀ b, a < b → key (f a) ≤ key (f b)) :
    ∀ a ∈ pre ++ [i], ∀ b, a < b → key (pass key f i a) ≤ key (pass key f i b) := by
  have hsorted : ((List.finRange n).filter (i < ·)).Pairwise (· < ·) :=
    (List.sortedLT_finRange n).pairwise.filter _
  -- the compared positions, in order, carry the invariant of `exchange_settles`
  have hrun := Machine.run_prefix_invariant (exchange key i)
    (fun done g => (∀ a ∈ pre, ∀ b, a < b → key (g a) ≤ key (g b)) ∧
      ∀ b ∈ done, i < b ∧ key (g i) ≤ key (g b)) hsorted
    (fun done j g hj hdone hg => by
      have hij : i < j := by simpa using (List.mem_filter.mp hj).2
      exact exchange_settles key hpre hij hdone hg.1 hg.2)
    (s := f) ⟨hf, by simp⟩
  intro a ha b hab
  rcases List.mem_append.mp ha with ha | ha
  · exact hrun.1 a ha b hab
  · rw [List.mem_singleton.mp ha] at hab ⊢
    exact (hrun.2 b (List.mem_filter.mpr ⟨List.mem_finRange b, by simpa using hab⟩)).2

theorem sort_monotone (f : Fin n → α) : Monotone (key ∘ sort key f) := by
  have hrun := Machine.run_prefix_invariant (pass key)
    (fun pre g => ∀ a ∈ pre, ∀ b, a < b → key (g a) ≤ key (g b))
    (List.sortedLT_finRange n).pairwise
    (fun pre i g _ hpre hg => pass_settles key hpre hg) (s := f) (by simp)
  intro a b hab
  rcases hab.lt_or_eq with hab | rfl
  · exact hrun a (List.mem_finRange a) b hab
  · exact le_rfl

/-- The keys of a sorted list increase. -/
theorem sortList_pairwise (l : List α) : (sortList key l).Pairwise (key · ≤ key ·) := by
  rw [sortList, List.pairwise_ofFn]
  intro i j hij
  exact sort_monotone key l.get hij.le

end Sorted

section Sorted

variable {f : Fin n → α}

lemma pass_of_monotone (hf : Monotone (key ∘ f)) (i : Fin n) : pass key f i = f := by
  refine Machine.run_prefix_invariant (exchange key i) (fun _ g => g = f) (R := fun _ _ => True)
    (List.pairwise_of_forall (fun _ _ => trivial)) ?_ rfl
  rintro pre j g hj - rfl
  have hij : i < j := by simpa using (List.mem_filter.mp hj).2
  have hle : key (g i) ≤ key (g j) := hf hij.le
  simp [exchange, not_lt.mpr hle]

/-- An array whose keys already increase is left as it is. -/
theorem sort_of_monotone (hf : Monotone (key ∘ f)) : sort key f = f :=
  Machine.run_invariant (P := fun g => g = f) (fun _ i hg => hg ▸ pass_of_monotone key hf i)
    rfl _

theorem sortList_of_pairwise {l : List α} (hl : l.Pairwise (key · ≤ key ·)) :
    sortList key l = l := by
  have hmono : Monotone (key ∘ l.get) := by
    intro i j hij
    rcases hij.lt_or_eq with hij | rfl
    · exact List.pairwise_iff_get.mp hl i j hij
    · exact le_rfl
  rw [sortList, sort_of_monotone key hmono, List.ofFn_get]

/-- Sorting is idempotent. -/
theorem sortList_sortList (l : List α) : sortList key (sortList key l) = sortList key l :=
  sortList_of_pairwise key (sortList_pairwise key l)

/-- Two lists that are permutations of each other sort to the same list when the key tells
their entries apart. -/
theorem sortList_eq_of_perm {l l' : List α} (hperm : l'.Perm l)
    (hkey : ∀ x ∈ l, ∀ y ∈ l, key x = key y → x = y) : sortList key l' = sortList key l := by
  refine List.Perm.eq_of_pairwise (fun x y hx hy hxy hyx => ?_) (sortList_pairwise key l')
    (sortList_pairwise key l) ((sortList_perm key l').trans (hperm.trans (sortList_perm key l).symm))
  have hx' : x ∈ l := hperm.subset ((sortList_perm key l').subset hx)
  have hy' : y ∈ l := (sortList_perm key l).subset hy
  exact hkey x hx' y hy' (le_antisymm hxy hyx)

end Sorted

section Map

variable {α' : Type*} (key' : α' → β) (φ : α → α') (hkey : ∀ a, key' (φ a) = key a)
include hkey

/-- A map of the entries that keeps their keys commutes with the sort. -/
theorem sort_comp (f : Fin n → α) : sort key' (φ ∘ f) = φ ∘ sort key f := by
  have hexchange : ∀ (i : Fin n) g j, exchange key' i (φ ∘ g) j = φ ∘ exchange key i g j := by
    intro i g j
    simp only [exchange, Function.comp_apply, hkey]
    split_ifs <;> rfl
  have hpass : ∀ (g : Fin n → α) i, pass key' (φ ∘ g) i = φ ∘ pass key g i :=
    fun g i => Machine.run_map (φ ∘ ·) (hexchange i) g _
  exact Machine.run_map (φ ∘ ·) hpass f _

theorem sortList_map (l : List α) : sortList key' (l.map φ) = (sortList key l).map φ := by
  -- the array of the mapped list is the mapped array, up to the length of the list
  have hcongr : ∀ {m} (h : m = l.length) {g : Fin m → α'}, (∀ i, g i = φ (l.get (Fin.cast h i))) →
      List.ofFn (sort key' g) = List.ofFn (sort key' (φ ∘ l.get)) := by
    intro m h g hg
    subst h
    congr
    funext i
    exact hg i
  rw [sortList, hcongr (List.length_map φ) (fun i => by simp), sort_comp key key' φ hkey,
    ← List.map_ofFn, sortList]

end Map

end ExchangeSort
