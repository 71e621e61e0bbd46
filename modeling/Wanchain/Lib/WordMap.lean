import Mathlib.Data.List.Basic
import Mathlib.Logic.Function.Basic

/-!
# Maps of words

A partial map from words, lists of letters, to values, built in three ways: one entry
(`single`), a map behind a fixed prefix (`prefixed`), and a map that reads the first letter and
looks the rest up in the map of that letter (`branch`). The nodes of a radix or Patricia tree
mean such maps: a leaf one entry, an extension a prefix, a branch node a branch.

The lemmas say how the three compose (`prefixed_append`, `prefixed_cons`), how a write at one
word moves through them (`prefixed_update`, `branch_update`), and which words a map built so can
have. That last part makes such a tree unique for its map: a branch with two letters that lead
somewhere, behind a prefix, fixes the prefix and the branch (`prefixed_branch_inj`), and is never
a single entry (`single_ne_prefixed_branch`).
-/

namespace WordMap

variable {α β : Type*}

/-- The map with no entry. -/
def empty : List α → Option β := fun _ => none

/-- The map that looks the rest of a word up in the map of its first letter; the empty word has
no entry. -/
def branch (g : α → List α → Option β) : List α → Option β
  | [] => none
  | a :: u => g a u

@[simp] lemma empty_apply (u : List α) : (empty u : Option β) = none := rfl

@[simp] lemma branch_nil (g : α → List α → Option β) : branch g [] = none := rfl

@[simp] lemma branch_cons (g : α → List α → Option β) (a : α) (u : List α) :
    branch g (a :: u) = g a u := rfl

lemma branch_empty : branch (fun _ => (empty : List α → Option β)) = empty := by
  funext w
  cases w <;> rfl

lemma branch_injective {g g' : α → List α → Option β} (h : branch g = branch g') : g = g' := by
  funext a u
  exact congrFun h (a :: u)

variable [DecidableEq α]

/-- The map with the one entry `w ↦ b`. -/
def single (w : List α) (b : β) : List α → Option β := Function.update empty w (some b)

/-- The map `f` behind the prefix `p`: it has `p ++ u ↦ b` for each entry `u ↦ b` of `f`. -/
def prefixed (p : List α) (f : List α → Option β) : List α → Option β :=
  fun u => if p <+: u then f (u.drop p.length) else none

lemma single_apply (w u : List α) (b : β) : single w b u = if u = w then some b else none := by
  by_cases h : u = w
  · subst h
    simp [single]
  · simp [single, h]

/-! ### Prefixes -/

section Prefixed

variable {p q u : List α} {f : List α → Option β}

@[simp] lemma prefixed_append_apply (p u : List α) (f : List α → Option β) :
    prefixed p f (p ++ u) = f u := by
  simp [prefixed]

lemma prefixed_apply_eq_none (h : ¬ p <+: u) : prefixed p f u = none := if_neg h

/-- A word with an entry behind a prefix starts with the prefix. -/
lemma exists_of_prefixed_ne_none (h : prefixed p f u ≠ none) : ∃ v, u = p ++ v ∧ f v ≠ none := by
  by_cases hp : p <+: u
  · obtain ⟨v, rfl⟩ := hp
    exact ⟨v, rfl, by simpa using h⟩
  · exact absurd (prefixed_apply_eq_none hp) h

lemma prefix_of_prefixed_ne_none (h : prefixed p f u ≠ none) : p <+: u := by
  obtain ⟨v, rfl, -⟩ := exists_of_prefixed_ne_none h
  exact List.prefix_append p v

@[simp] lemma prefixed_nil (f : List α → Option β) : prefixed [] f = f := by
  funext u
  simp [prefixed]

lemma prefixed_empty (p : List α) : prefixed p (empty : List α → Option β) = empty := by
  funext u
  simp [prefixed]

lemma prefixed_append (p q : List α) (f : List α → Option β) :
    prefixed (p ++ q) f = prefixed p (prefixed q f) := by
  funext u
  by_cases hp : p <+: u
  · obtain ⟨v, rfl⟩ := hp
    by_cases hq : q <+: v
    · obtain ⟨w, rfl⟩ := hq
      rw [← List.append_assoc, prefixed_append_apply, List.append_assoc, prefixed_append_apply,
        prefixed_append_apply]
    · rw [prefixed_append_apply, prefixed_apply_eq_none hq,
        prefixed_apply_eq_none (by rwa [List.prefix_append_right_inj])]
  · rw [prefixed_apply_eq_none hp, prefixed_apply_eq_none]
    exact fun h => hp ((List.prefix_append p q).trans h)

/-- A prefix of one letter is a branch with one letter. -/
lemma prefixed_cons (a : α) (p : List α) (f : List α → Option β) :
    prefixed (a :: p) f = branch (Function.update (fun _ => empty) a (prefixed p f)) := by
  funext u
  cases u with
  | nil => rfl
  | cons b v =>
    by_cases hab : b = a
    · subst hab
      simp [prefixed, List.cons_prefix_cons]
    · rw [branch_cons, Function.update_of_ne hab, prefixed_apply_eq_none]
      · rfl
      · rw [List.cons_prefix_cons]
        exact fun h => hab h.1.symm

/-- A write behind a prefix is a write at the prefixed word. -/
lemma prefixed_update (p u : List α) (f : List α → Option β) (b : Option β) :
    prefixed p (Function.update f u b) = Function.update (prefixed p f) (p ++ u) b := by
  funext w
  by_cases hp : p <+: w
  · obtain ⟨v, rfl⟩ := hp
    by_cases hv : v = u
    · subst hv
      simp
    · rw [prefixed_append_apply, Function.update_of_ne hv, Function.update_of_ne
        (fun h => hv (List.append_cancel_left h)), prefixed_append_apply]
  · have hne : w ≠ p ++ u := fun h => hp (h ▸ List.prefix_append p u)
    rw [prefixed_apply_eq_none hp, Function.update_of_ne hne,
      prefixed_apply_eq_none hp]

lemma prefixed_single (p u : List α) (b : β) : prefixed p (single u b) = single (p ++ u) b := by
  rw [single, prefixed_update, prefixed_empty, single]

lemma prefixed_injective {f f' : List α → Option β} (h : prefixed p f = prefixed p f') :
    f = f' := by
  funext u
  rw [← prefixed_append_apply p u f, h, prefixed_append_apply]

end Prefixed

/-! ### Branches -/

section Branch

variable {g g' : α → List α → Option β}

/-- A write under a letter of a branch is a write at the word that starts with it. -/
lemma branch_update (g : α → List α → Option β) (a : α) (u : List α) (b : Option β) :
    branch (Function.update g a (Function.update (g a) u b)) =
      Function.update (branch g) (a :: u) b := by
  funext w
  cases w with
  | nil => rfl
  | cons c v =>
    by_cases hc : c = a
    · subst hc
      by_cases hv : v = u
      · subst hv
        simp
      · simp [Function.update_of_ne hv, Function.update_of_ne (fun h : c :: v = c :: u =>
          hv (List.cons.inj h).2)]
    · simp [Function.update_of_ne hc, Function.update_of_ne (fun h : c :: v = a :: u =>
        hc (List.cons.inj h).1)]

/-- Two letters of the branch lead to some entry. -/
def Branching (g : α → List α → Option β) : Prop :=
  ∃ a b, a ≠ b ∧ (∃ u, g a u ≠ none) ∧ ∃ u, g b u ≠ none

/-- Every word with an entry in a branching map behind `p` starts with `q`: then `q` is no
longer than `p`, as two of those words part right after `p`. -/
lemma length_le_of_branching {p q : List α} (hg : Branching g)
    (hq : ∀ u, prefixed p (branch g) u ≠ none → q <+: u) : q.length ≤ p.length := by
  obtain ⟨a, b, hab, ⟨ua, ha⟩, ⟨ub, hb⟩⟩ := hg
  by_contra hlt
  have hqa := hq (p ++ a :: ua) (by simpa using ha)
  have hqb := hq (p ++ b :: ub) (by simpa using hb)
  -- the letter of `q` at the length of `p` is both `a` and `b`
  have hia := hqa.getElem (i := p.length) (by omega)
  have hib := hqb.getElem (i := p.length) (by omega)
  simp only [List.getElem_append_right (Nat.le_refl _), Nat.sub_self,
    List.getElem_cons_zero] at hia hib
  exact hab (hia.symm.trans hib)

/-- A branching map behind a prefix fixes the prefix and the branch. -/
theorem prefixed_branch_inj {p p' : List α} (hg : Branching g) (hg' : Branching g')
    (h : prefixed p (branch g) = prefixed p' (branch g')) : p = p' ∧ g = g' := by
  have hle : p'.length ≤ p.length :=
    length_le_of_branching hg fun u hu => prefix_of_prefixed_ne_none (h ▸ hu)
  have hle' : p.length ≤ p'.length :=
    length_le_of_branching hg' fun u hu => prefix_of_prefixed_ne_none (h.symm ▸ hu)
  -- both are prefixes of one word with an entry, of one length
  obtain ⟨a, -, -, ⟨ua, ha⟩, -⟩ := hg
  have hu : prefixed p (branch g) (p ++ a :: ua) ≠ none := by simpa using ha
  have hpp : p = p' :=
    (List.prefix_of_prefix_length_le (List.prefix_append p _) (prefix_of_prefixed_ne_none (h ▸ hu))
      hle').eq_of_length (Nat.le_antisymm hle' hle)
  subst hpp
  exact ⟨rfl, branch_injective (prefixed_injective h)⟩

/-- One entry is not a branching map behind a prefix, which has two words. -/
theorem single_ne_prefixed_branch {p w : List α} {b : β} (hg : Branching g) :
    single w b ≠ prefixed p (branch g) := by
  intro h
  obtain ⟨a, c, hac, ⟨ua, ha⟩, ⟨uc, hc⟩⟩ := hg
  have hwa : p ++ a :: ua = w := by
    by_contra hne
    have := congrFun h (p ++ a :: ua)
    rw [single_apply, if_neg hne, prefixed_append_apply] at this
    exact ha this.symm
  have hwc : p ++ c :: uc = w := by
    by_contra hne
    have := congrFun h (p ++ c :: uc)
    rw [single_apply, if_neg hne, prefixed_append_apply] at this
    exact hc this.symm
  have heq := hwa.trans hwc.symm
  rw [List.append_cancel_left_eq, List.cons.injEq] at heq
  exact hac heq.1

lemma single_inj {w w' : List α} {b b' : β} (h : single w b = single w' b') :
    w = w' ∧ b = b' := by
  have hw := congrFun h w
  rw [single_apply, single_apply, if_pos rfl] at hw
  by_cases hww : w = w'
  · rw [if_pos hww] at hw
    exact ⟨hww, Option.some.inj hw⟩
  · rw [if_neg hww] at hw
    cases hw

lemma single_ne_empty (w : List α) (b : β) : single w b ≠ empty := by
  intro h
  have := congrFun h w
  simp [single] at this

end Branch

end WordMap
