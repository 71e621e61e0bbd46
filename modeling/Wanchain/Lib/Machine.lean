import Mathlib.Algebra.BigOperators.Group.List.Basic
import Mathlib.Algebra.BigOperators.Group.Multiset.Basic
import Mathlib.Tactic.Abel

/-!
# Runs of a deterministic machine

A machine is a step function `σ → α → σ`; a run feeds it a list of inputs. Two rules carry
every whole-run statement of the development:

* an invariant that one step keeps holds after every run (`Machine.run_invariant`);
* a step that splits a quantity of the state into what stays and what it emits keeps the
  quantity, over a whole run, equal to what stays plus everything emitted
  (`Machine.runOut_conserve`).

A step that can fail is peeled with `Machine.bind_ok`.
-/

namespace Machine

universe u v

variable {σ α β M : Type*}

/-- The state after feeding `as` to `step`, one input after another. -/
def run (step : σ → α → σ) (s : σ) (as : List α) : σ := as.foldl step s

@[simp] lemma run_nil (step : σ → α → σ) (s : σ) : run step s [] = s := rfl

@[simp] lemma run_cons (step : σ → α → σ) (s : σ) (a : α) (as : List α) :
    run step s (a :: as) = run step (step s a) as := rfl

lemma run_append (step : σ → α → σ) (s : σ) (as bs : List α) :
    run step s (as ++ bs) = run step (run step s as) bs := List.foldl_append

/-- A run over inputs mapped into the machine's is a run of the step composed with the map. -/
lemma run_map_inputs (step : σ → β → σ) (g : α → β) (s : σ) (as : List α) :
    run step s (as.map g) = run (fun s a => step s (g a)) s as :=
  List.foldl_map ..

/-- A property kept by every step holds after every run. -/
theorem run_invariant {step : σ → α → σ} {P : σ → Prop} (hstep : ∀ s a, P s → P (step s a))
    {s : σ} (hs : P s) (as : List α) : P (run step s as) := by
  induction as generalizing s with
  | nil => exact hs
  | cons a as ih => exact ih (hstep s a hs)

/-- A map of states that commutes with one step commutes with every run: the mapped machine,
run from the mapped state, ends in the map of the run. -/
theorem run_map {σ' : Type*} {step : σ → α → σ} {step' : σ' → α → σ'} (φ : σ → σ')
    (h : ∀ s a, step' (φ s) a = φ (step s a)) (s : σ) (as : List α) :
    run step' (φ s) as = φ (run step s as) := by
  induction as generalizing s with
  | nil => rfl
  | cons a as ih => rw [run_cons, run_cons, h, ih]

/-- An invariant of a run that speaks of the inputs consumed so far. The inputs come in
`R`-order, and a step on an input of the run that `R` puts after every consumed input keeps
the invariant. -/
theorem run_prefix_invariant {R : α → α → Prop} (step : σ → α → σ) (P : List α → σ → Prop)
    {as : List α} (has : as.Pairwise R)
    (hstep : ∀ pre a s, a ∈ as → (∀ b ∈ pre, R b a) → P pre s → P (pre ++ [a]) (step s a))
    {s : σ} (hs : P [] s) : P as (run step s as) := by
  -- cut the inputs into those consumed and those still to come
  suffices h : ∀ rest pre s, pre ++ rest = as → P pre s → P as (run step s rest) from
    h as [] s rfl hs
  intro rest
  induction rest with
  | nil =>
    intro pre s hpre hP
    rw [List.append_nil] at hpre
    rwa [← hpre]
  | cons a rest ih =>
    intro pre s hpre hP
    have hmem : a ∈ as := hpre ▸ List.mem_append_right _ List.mem_cons_self
    have hord : ∀ b ∈ pre, R b a := by
      rw [← hpre, List.pairwise_append] at has
      exact fun b hb => has.2.2 b hb a List.mem_cons_self
    exact ih (pre ++ [a]) (step s a) (by simpa using hpre) (hstep pre a s hmem hord hP)

/-- A property that holds before a run and fails after it was lost at one step: the run splits
at an input that took a state where it held to one where it fails. -/
theorem run_exit {step : σ → α → σ} {P : σ → Prop} {s : σ} (hs : P s) {as : List α}
    (hend : ¬ P (run step s as)) :
    ∃ pre a post, as = pre ++ a :: post ∧ P (run step s pre) ∧ ¬ P (step (run step s pre) a) := by
  induction as generalizing s with
  | nil => exact absurd hs hend
  | cons a as ih =>
    by_cases ha : P (step s a)
    · obtain ⟨pre, b, post, rfl, h₁, h₂⟩ := ih ha hend
      exact ⟨a :: pre, b, post, rfl, h₁, h₂⟩
    · exact ⟨[], a, as, rfl, hs, ha⟩

/-- Write once: a value of the state that a step changes only from the blank `b`, and never to
it, changes at most once along a run. After the step from `s` changed it, no step of any later
run changes it again. `R` is an invariant of the reachable states. -/
theorem run_changes_once {β : Type*} {step : σ → α → σ} {R : σ → Prop} {f : σ → β} {b : β}
    (hR : ∀ s a, R s → R (step s a))
    (hstep : ∀ s a, R s → f (step s a) ≠ f s → f s = b ∧ f (step s a) ≠ b)
    {s : σ} (hs : R s) {a : α} (hchg : f (step s a) ≠ f s) (as : List α) (a' : α) :
    f (step (run step (step s a) as) a') = f (run step (step s a) as) := by
  have hwritten : f (step s a) ≠ b := (hstep s a hs hchg).2
  -- from a reachable state whose value is the written one, no step changes it
  have hkeep : ∀ t x, R t → f t = f (step s a) → f (step t x) = f t := by
    intro t x ht hft
    by_contra hne
    exact hwritten (hft ▸ (hstep t x ht hne).1)
  have hrun : R (run step (step s a) as) ∧ f (run step (step s a) as) = f (step s a) :=
    run_invariant (P := fun t => R t ∧ f t = f (step s a))
      (fun t x ⟨ht, hft⟩ => ⟨hR t x ht, (hkeep t x ht hft).trans hft⟩) ⟨hR s a hs, rfl⟩ as
  exact hkeep _ a' hrun.1 hrun.2

/-- A run of a machine that emits a list at each step: the final state and everything it
emitted, in order. -/
def runOut (step : σ → α → σ × List β) : σ → List α → σ × List β
  | s, [] => (s, [])
  | s, a :: as =>
    let r := runOut step (step s a).1 as
    (r.1, (step s a).2 ++ r.2)

@[simp] lemma runOut_nil (step : σ → α → σ × List β) (s : σ) : runOut step s [] = (s, []) := rfl

lemma runOut_cons (step : σ → α → σ × List β) (s : σ) (a : α) (as : List α) :
    runOut step s (a :: as) =
      ((runOut step (step s a).1 as).1, (step s a).2 ++ (runOut step (step s a).1 as).2) := rfl

/-- The final state of a run with outputs is the run of the state part of the step. -/
lemma runOut_fst (step : σ → α → σ × List β) (s : σ) (as : List α) :
    (runOut step s as).1 = run (fun s a => (step s a).1) s as := by
  induction as generalizing s with
  | nil => rfl
  | cons a as ih => exact ih _

/-- Conservation over a run: if each step splits `m` of the state into `m` of the next state
and the weight `w` of what it emits, a whole run does the same with everything emitted. -/
theorem runOut_conserve [AddCommMonoid M] {step : σ → α → σ × List β} (m : σ → M) (w : β → M)
    (hstep : ∀ s a, m s = m (step s a).1 + ((step s a).2.map w).sum) (s : σ) (as : List α) :
    m s = m (runOut step s as).1 + ((runOut step s as).2.map w).sum := by
  induction as generalizing s with
  | nil => simp
  | cons a as ih =>
    rw [runOut_cons, List.map_append, List.sum_append, hstep s a, ih (step s a).1]
    abel

/-- Conservation counted entry by entry: if each step splits the multiset `m` of the state into
that of the next state and what it emits, a whole run does the same with everything emitted,
so each entry of `m s` is kept or emitted, once. -/
theorem runOut_conserve_multiset {step : σ → α → σ × List β} (m : σ → Multiset β)
    (hstep : ∀ s a, m s = m (step s a).1 + ((step s a).2 : Multiset β)) (s : σ) (as : List α) :
    m s = m (runOut step s as).1 + ((runOut step s as).2 : Multiset β) := by
  have hsum : ∀ l : List β, (l.map fun b => ({b} : Multiset β)).sum = l := fun l => by
    rw [← Multiset.sum_coe, ← Multiset.map_coe, Multiset.sum_map_singleton]
  have h := runOut_conserve m (fun b => ({b} : Multiset β))
    (fun s a => by rw [hsum]; exact hstep s a) s as
  rwa [hsum] at h

/-- Each entry emitted at most once: if every step emits distinct entries that were not in a set
`K` of the state and are in it afterwards, and no step shrinks `K`, a whole run emits distinct
entries, none of them in `K` at the start. -/
theorem runOut_nodup {step : σ → α → σ × List β} (K : σ → Set β)
    (hnodup : ∀ s a, (step s a).2.Nodup)
    (hfresh : ∀ s a, ∀ b ∈ (step s a).2, b ∉ K s ∧ b ∈ K (step s a).1)
    (hmono : ∀ s a, K s ⊆ K (step s a).1) (s : σ) (as : List α) :
    (runOut step s as).2.Nodup ∧ ∀ b ∈ (runOut step s as).2, b ∉ K s := by
  induction as generalizing s with
  | nil => simp
  | cons a as ih =>
    -- what the first step emits is in `K` from then on, so the rest of the run cannot emit it
    obtain ⟨ihnd, ihfresh⟩ := ih (step s a).1
    rw [runOut_cons]
    refine ⟨List.nodup_append.mpr ⟨hnodup s a, ihnd, ?_⟩, ?_⟩
    · intro b hb b' hb' hbb'
      subst hbb'
      exact ihfresh b hb' (hfresh s a b hb).2
    · intro b hb
      rcases List.mem_append.mp hb with hb | hb
      · exact (hfresh s a b hb).1
      · exact fun hbK => ihfresh b hb (hmono s a hbK)

/-- A run with outputs keeps an invariant that one step keeps. -/
theorem runOut_invariant {step : σ → α → σ × List β} {P : σ → Prop}
    (hstep : ∀ s a, P s → P (step s a).1) {s : σ} (hs : P s) (as : List α) :
    P (runOut step s as).1 := by
  rw [runOut_fst]
  exact run_invariant hstep hs as

/-! ### Fallible steps

A step that can fail returns `Except ε`; the bind of such steps succeeds exactly when each
part does. -/

theorem bind_ok {ε : Type u} {α β : Type v} {x : Except ε α} {f : α → Except ε β} {b : β}
    (h : (x >>= f) = .ok b) : ∃ a, x = .ok a ∧ f a = .ok b := by
  cases x with
  | error e => cases h
  | ok a => exact ⟨a, rfl, h⟩

@[simp] theorem ok_bind {ε : Type u} {α β : Type v} (a : α) (f : α → Except ε β) :
    (Except.ok a >>= f) = f a := rfl

@[simp] theorem error_bind {ε : Type u} {α β : Type v} (e : ε) (f : α → Except ε β) :
    (Except.error e >>= f) = .error e := rfl

@[simp] theorem mapError_ok {ε ε' : Type u} {α : Type v} (g : ε → ε') (a : α) :
    (Except.ok a : Except ε α).mapError g = .ok a := rfl

/-- A loop whose every step succeeds, from any state, runs as the loop of the steps' results. -/
theorem foldlM_ok {ε : Type u} {α β : Type v} {f : β → α → Except ε β} {g : β → α → β}
    (hf : ∀ b a, f b a = .ok (g b a)) (l : List α) (b : β) :
    l.foldlM f b = .ok (l.foldl g b) := by
  induction l generalizing b with
  | nil => rfl
  | cons a l ih => rw [List.foldlM_cons, hf, ok_bind, ih, List.foldl_cons]

/-- A loop of fallible steps simulates a machine: when every step from a state related to the
machine's succeeds into a state related to the machine's next one, the whole loop succeeds into
a state related to the machine's run. -/
theorem foldlM_simulation {ε : Type u} {α β : Type v} {γ : Type*} {f : β → α → Except ε β}
    {g : γ → α → γ} {R : β → γ → Prop} (hstep : ∀ b c a, R b c → ∃ b', f b a = .ok b' ∧ R b' (g c a))
    (l : List α) {b : β} {c : γ} (h : R b c) : ∃ b', l.foldlM f b = .ok b' ∧ R b' (run g c l) := by
  induction l generalizing b c with
  | nil => exact ⟨b, rfl, h⟩
  | cons a l ih =>
    obtain ⟨b₁, hb₁, h₁⟩ := hstep b c a h
    rw [List.foldlM_cons, hb₁, ok_bind]
    exact ih h₁

/-- A map over a list whose every step succeeds succeeds with the list of results. -/
theorem mapM_ok {ε : Type u} {α β : Type v} {f : α → Except ε β} {g : α → β} {l : List α}
    (h : ∀ a ∈ l, f a = .ok (g a)) : l.mapM f = .ok (l.map g) := by
  induction l with
  | nil => rfl
  | cons a l ih =>
    rw [List.mapM_cons, h a List.mem_cons_self, ih fun b hb => h b (List.mem_cons_of_mem a hb)]
    rfl

/-- A map over a list whose every step succeeds succeeds, each result related to its input as
the steps say. -/
theorem mapM_ok_forall₂ {ε : Type u} {α β : Type v} {f : α → Except ε β} {R : α → β → Prop}
    {l : List α} (h : ∀ a ∈ l, ∃ b, f a = .ok b ∧ R a b) :
    ∃ bs, l.mapM f = .ok bs ∧ List.Forall₂ R l bs := by
  induction l with
  | nil => exact ⟨[], rfl, .nil⟩
  | cons a l ih =>
    obtain ⟨b, hb, hR⟩ := h a List.mem_cons_self
    obtain ⟨bs, hbs, hF⟩ := ih fun a' ha' => h a' (List.mem_cons_of_mem a ha')
    refine ⟨b :: bs, ?_, .cons hR hF⟩
    rw [List.mapM_cons, hb, hbs]
    rfl

/-- A map over a list succeeds with `bs` exactly when each step succeeds with the entry of `bs`
at its place. -/
theorem mapM_eq_ok_iff {ε : Type u} {α β : Type v} {f : α → Except ε β} {l : List α}
    {bs : List β} : l.mapM f = .ok bs ↔ List.Forall₂ (fun a b => f a = .ok b) l bs := by
  induction l generalizing bs with
  | nil =>
    rw [List.forall₂_nil_left_iff]
    exact ⟨fun h => (Except.ok.inj h).symm, fun h => h ▸ rfl⟩
  | cons a l ih =>
    rw [List.mapM_cons, List.forall₂_cons_left_iff]
    cases hfa : f a with
    | error e => simp
    | ok b =>
      rw [ok_bind]
      constructor
      · intro h
        obtain ⟨bs', hbs', hb⟩ := bind_ok h
        exact ⟨b, bs', rfl, ih.mp hbs', (Except.ok.inj hb).symm⟩
      · rintro ⟨b', bs', hb', hF, rfl⟩
        cases hb'
        rw [ih.mpr hF]
        rfl

theorem map_ok {ε : Type u} {α β : Type v} {x : Except ε α} {g : α → β} {b : β}
    (h : x.map g = .ok b) : ∃ a, x = .ok a ∧ g a = b := by
  cases x with
  | error e => cases h
  | ok a => cases h; exact ⟨a, rfl, rfl⟩

/-! ### Stateful steps

A step that reads and writes a state and can fail is an `EStateM ε σ` computation. A result
known for the first part of a bind is fed to the rest (`ebind_ok`), an error ends the bind with
the state it left (`ebind_error`), and `attempt` turns an error into a value, as Go's
`v, err := f()` does. -/

section Stateful

@[simp] theorem epure_apply {ε S A : Type u} (a : A) (s : S) :
    (pure a : EStateM ε S A) s = .ok a s := rfl

@[simp] theorem eget_apply {ε S : Type u} (s : S) : (get : EStateM ε S S) s = .ok s s := rfl

@[simp] theorem eset_apply {ε S : Type u} (s' s : S) :
    (set s' : EStateM ε S PUnit) s = .ok ⟨⟩ s' := rfl

@[simp] theorem emodify_apply {ε S : Type u} (f : S → S) (s : S) :
    (modify f : EStateM ε S PUnit) s = .ok ⟨⟩ (f s) := rfl

@[simp] theorem ethrow_apply {ε S A : Type u} (e : ε) (s : S) :
    (throw e : EStateM ε S A) s = .error e s := rfl

theorem emap_apply {ε S A B : Type u} (g : A → B) (x : EStateM ε S A) (s : S) :
    (g <$> x) s = match x s with
      | .ok a s' => .ok (g a) s'
      | .error e s' => .error e s' := rfl

/-- A bind runs its first part and then, on success, the rest from the state it left. -/
theorem ebind_apply {ε S A B : Type u} (x : EStateM ε S A) (f : A → EStateM ε S B) (s : S) :
    (x >>= f) s = match x s with
      | .ok a s' => f a s'
      | .error e s' => .error e s' := rfl

theorem ebind_ok {ε S A B : Type u} {x : EStateM ε S A} {f : A → EStateM ε S B} {s s' : S}
    {a : A} (h : x s = .ok a s') : (x >>= f) s = f a s' := by
  show EStateM.bind x f s = _
  simp only [EStateM.bind, h]

theorem ebind_error {ε S A B : Type u} {x : EStateM ε S A} {f : A → EStateM ε S B} {s s' : S}
    {e : ε} (h : x s = .error e s') : (x >>= f) s = .error e s' := by
  show EStateM.bind x f s = _
  simp only [EStateM.bind, h]

theorem emap_ok {ε S A B : Type u} {x : EStateM ε S A} {g : A → B} {s s' : S} {a : A}
    (h : x s = .ok a s') : (g <$> x) s = .ok (g a) s' := by
  show EStateM.map g x s = _
  simp only [EStateM.map, h]

theorem emap_error {ε S A B : Type u} {x : EStateM ε S A} {g : A → B} {s s' : S} {e : ε}
    (h : x s = .error e s') : (g <$> x) s = .error e s' := by
  show EStateM.map g x s = _
  simp only [EStateM.map, h]

/-- A handler is run on the error of `x`, from the state `x` left. -/
theorem tryCatch_ok {ε S A : Type u} {x : EStateM ε S A} {handle : ε → EStateM ε S A} {s s' : S}
    {a : A} (h : x s = .ok a s') : tryCatch x handle s = .ok a s' := by
  show EStateM.tryCatch x handle s = _
  simp only [EStateM.tryCatch, h]

theorem tryCatch_error {ε S A : Type u} {x : EStateM ε S A} {handle : ε → EStateM ε S A}
    {s s' : S} {e : ε} (h : x s = .error e s') : tryCatch x handle s = handle e s' := by
  show EStateM.tryCatch x handle s = _
  simp only [EStateM.tryCatch, h]
  rfl

/-- A bind that succeeded: its first part succeeded, and the rest succeeded from the state it
left. -/
theorem ebind_ok_inv {ε S A B : Type u} {x : EStateM ε S A} {f : A → EStateM ε S B} {s s' : S}
    {b : B} (h : (x >>= f) s = .ok b s') : ∃ a s₁, x s = .ok a s₁ ∧ f a s₁ = .ok b s' := by
  cases hx : x s with
  | ok a s₁ => exact ⟨a, s₁, rfl, by rwa [ebind_ok hx] at h⟩
  | error e s₁ =>
    rw [ebind_error hx] at h
    cases h

/-- A bind that failed: its first part failed, or the rest did. -/
theorem ebind_error_inv {ε S A B : Type u} {x : EStateM ε S A} {f : A → EStateM ε S B}
    {s s' : S} {e : ε} (h : (x >>= f) s = .error e s') :
    x s = .error e s' ∨ ∃ a s₁, x s = .ok a s₁ ∧ f a s₁ = .error e s' := by
  cases hx : x s with
  | ok a s₁ => exact .inr ⟨a, s₁, rfl, by rwa [ebind_ok hx] at h⟩
  | error e' s₁ =>
    rw [ebind_error hx] at h
    cases h
    exact .inl rfl

theorem emap_ok_inv {ε S A B : Type u} {x : EStateM ε S A} {g : A → B} {s s' : S} {b : B}
    (h : (g <$> x) s = .ok b s') : ∃ a, x s = .ok a s' ∧ b = g a := by
  cases hx : x s with
  | ok a s₁ =>
    rw [emap_ok hx] at h
    cases h
    exact ⟨a, rfl, rfl⟩
  | error e s₁ =>
    rw [emap_error hx] at h
    cases h

theorem emap_error_inv {ε S A B : Type u} {x : EStateM ε S A} {g : A → B} {s s' : S} {e : ε}
    (h : (g <$> x) s = .error e s') : x s = .error e s' := by
  cases hx : x s with
  | ok a s₁ =>
    rw [emap_ok hx] at h
    cases h
  | error e' s₁ =>
    rw [emap_error hx] at h
    cases h
    rfl

/-- A `tryCatch` that succeeded: `x` did, or the handler did on the error of `x`. -/
theorem tryCatch_ok_inv {ε S A : Type u} {x : EStateM ε S A} {handle : ε → EStateM ε S A}
    {s s' : S} {a : A} (h : tryCatch x handle s = .ok a s') :
    x s = .ok a s' ∨ ∃ e s₁, x s = .error e s₁ ∧ handle e s₁ = .ok a s' := by
  cases hx : x s with
  | ok a' s₁ =>
    rw [tryCatch_ok hx] at h
    exact .inl h
  | error e s₁ =>
    rw [tryCatch_error hx] at h
    exact .inr ⟨e, s₁, rfl, h⟩

/-- A `tryCatch` that failed: `x` failed, and so did the handler on its error. -/
theorem tryCatch_error_inv {ε S A : Type u} {x : EStateM ε S A} {handle : ε → EStateM ε S A}
    {s s' : S} {e : ε} (h : tryCatch x handle s = .error e s') :
    ∃ e' s₁, x s = .error e' s₁ ∧ handle e' s₁ = .error e s' := by
  cases hx : x s with
  | ok a s₁ =>
    rw [tryCatch_ok hx] at h
    cases h
  | error e' s₁ =>
    rw [tryCatch_error hx] at h
    exact ⟨e', s₁, rfl, h⟩

/-- `v, err := x()`: the result of `x`, or its error as a value. -/
def attempt {ε S A : Type u} (x : EStateM ε S A) : EStateM ε S (Except ε A) :=
  tryCatch (Except.ok <$> x) fun e => pure (.error e)

theorem attempt_ok {ε S A : Type u} {x : EStateM ε S A} {s s' : S} {a : A}
    (h : x s = .ok a s') : attempt x s = .ok (.ok a) s' :=
  tryCatch_ok (emap_ok h)

theorem attempt_error {ε S A : Type u} {x : EStateM ε S A} {s s' : S} {e : ε}
    (h : x s = .error e s') : attempt x s = .ok (.error e) s' :=
  tryCatch_error (emap_error h)

/-- What `attempt` returns is what `x` did. -/
theorem attempt_ok_inv {ε S A : Type u} {x : EStateM ε S A} {s s' : S} {a : A}
    (h : attempt x s = .ok (.ok a) s') : x s = .ok a s' := by
  cases hx : x s with
  | ok a' s₁ =>
    rw [attempt_ok hx] at h
    cases h
    rfl
  | error e s₁ =>
    rw [attempt_error hx] at h
    cases h

theorem attempt_error_inv {ε S A : Type u} {x : EStateM ε S A} {s s' : S} {e : ε}
    (h : attempt x s = .ok (.error e) s') : x s = .error e s' := by
  cases hx : x s with
  | ok a s₁ =>
    rw [attempt_ok hx] at h
    cases h
  | error e' s₁ =>
    rw [attempt_error hx] at h
    cases h
    rfl

/-- `attempt` never fails. -/
theorem attempt_ne_error {ε S A : Type u} {x : EStateM ε S A} {s s' : S} {e : ε} :
    attempt x s ≠ .error e s' := by
  cases hx : x s with
  | ok a s₁ =>
    rw [attempt_ok hx]
    intro h
    cases h
  | error e' s₁ =>
    rw [attempt_error hx]
    intro h
    cases h

end Stateful

end Machine
