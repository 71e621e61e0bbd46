import Mathlib.Algebra.BigOperators.Fin
import Wanchain.Basic.Bytes

/-!
# Balances and calls into precompiled contracts

The part of `core/vm/evm.go` and `core/evm.go` that the precompiled contracts of the node run
under: account balances, `CanTransfer` and `Transfer`, and `EVM.Call`, which checks the call
depth and the caller's balance, moves the value to the callee (except for the two privacy
contracts, which move it themselves), runs the contract and reverts every change when it
returns an error.

A world is the balances together with the storage `σ` the contract under study reads and
writes; the storage of every other account is not touched by these contracts.
-/

namespace Wanchain

/-- Balances and the storage of the contracts under study. -/
structure World (σ : Type*) where
  balance : Address → ℕ
  storage : σ

/-- `wanCoinPrecompileAddr`. -/
def wanCoinPrecompileAddr : Address := 100

/-- `wanStampPrecompileAddr`. -/
def wanStampPrecompileAddr : Address := 200

/-- `WanCscPrecompileAddr`, the staking contract. -/
def WanCscPrecompileAddr : Address := 218

/-- `params.CallCreateDepth`. -/
def CallCreateDepth : ℕ := 1024

/-- `core.CanTransfer`: the account holds at least `amount`. -/
def CanTransfer (b : Address → ℕ) (addr : Address) (amount : ℕ) : Bool :=
  decide (amount ≤ b addr)

/-- `core.Transfer`: `SubBalance` on the sender, then `AddBalance` on the recipient. -/
def Transfer (b : Address → ℕ) (sender recipient : Address) (amount : ℕ) : Address → ℕ :=
  let b := Function.update b sender (b sender - amount)
  Function.update b recipient (b recipient + amount)

lemma Transfer_self {b : Address → ℕ} {a : Address} {amount : ℕ} (h : amount ≤ b a) :
    Transfer b a a amount = b := by
  funext x
  by_cases hx : x = a
  · subst hx
    simp [Transfer]
    omega
  · simp [Transfer, hx]

lemma Transfer_apply_of_ne {b : Address → ℕ} {sender recipient : Address} (amount : ℕ)
    (h : sender ≠ recipient) (x : Address) :
    Transfer b sender recipient amount x =
      if x = recipient then b x + amount else if x = sender then b x - amount else b x := by
  by_cases hr : x = recipient
  · subst hr
    simp [Transfer, Ne.symm h]
  · by_cases hs : x = sender
    · subst hs
      simp [Transfer, hr]
    · simp [Transfer, hr, hs]

/-- A transfer lowers the sender's balance by at most the amount. -/
lemma Transfer_sender_ge {b : Address → ℕ} {sender : Address} (recipient : Address)
    {amount : ℕ} (h : amount ≤ b sender) :
    b sender ≤ Transfer b sender recipient amount sender + amount := by
  by_cases hsr : sender = recipient
  · subst hsr
    rw [Transfer_self h]
    omega
  · rw [Transfer_apply_of_ne amount hsr, if_neg hsr, if_pos rfl]
    omega

/-- A transfer the sender can pay keeps the sum of all balances. -/
theorem sum_Transfer {b : Address → ℕ} {sender recipient : Address} {amount : ℕ}
    (h : amount ≤ b sender) :
    ∑ x, Transfer b sender recipient amount x = ∑ x, b x := by
  by_cases hsr : sender = recipient
  · subst hsr
    rw [Transfer_self h]
  · have hb := Finset.sum_update_of_mem (Finset.mem_univ sender) b (b sender - amount)
    have hb' := Finset.sum_update_of_mem (Finset.mem_univ recipient)
      (Function.update b sender (b sender - amount)) (b recipient + amount)
    have hrest : ∑ x ∈ Finset.univ \ {recipient}, Function.update b sender (b sender - amount) x +
        b recipient = ∑ x, Function.update b sender (b sender - amount) x := by
      rw [← Finset.sum_sdiff (Finset.subset_univ {recipient}), Finset.sum_singleton,
        Function.update_of_ne (Ne.symm hsr)]
    have hall : ∑ x ∈ Finset.univ \ {sender}, b x + b sender = ∑ x, b x := by
      rw [← Finset.sum_sdiff (Finset.subset_univ {sender}), Finset.sum_singleton]
    unfold Transfer
    simp only [Function.update_of_ne (Ne.symm hsr)] at hb' ⊢
    omega

/-- Setting one balance moves the sum of all balances by the difference. -/
lemma sum_update (b : Address → ℕ) (a : Address) (n : ℕ) :
    ∑ x, (Function.update b a n x : ℤ) = ∑ x, (b x : ℤ) - b a + n := by
  have hcast : (fun x => (Function.update b a n x : ℤ)) =
      Function.update (fun x => (b x : ℤ)) a (n : ℤ) := by
    funext x
    by_cases hx : x = a
    · subst hx
      simp
    · simp [hx]
  have hrest := Finset.add_sum_erase Finset.univ (fun x => (b x : ℤ)) (Finset.mem_univ a)
  rw [hcast, Finset.sum_update_of_mem (Finset.mem_univ a), ← Finset.erase_eq, ← hrest]
  ring

variable {σ : Type*}

/-- The world a called contract runs in: the value moved from the caller to `addr`, except for
the two privacy contracts, which move it themselves. -/
def valueTransfer (caller addr : Address) (value : ℕ) (w : World σ) : World σ :=
  if addr ≠ wanCoinPrecompileAddr ∧ addr ≠ wanStampPrecompileAddr then
    { w with balance := Transfer w.balance caller addr value }
  else w

/-- `EVM.Call` into the precompiled contract at `addr`: the new world and the error, if any.
A call above the depth limit or whose caller cannot pay `value` fails before anything happens;
otherwise the value is transferred, the contract runs, and an error reverts to the snapshot
taken before the transfer. -/
def Call (run : World σ → Except String (World σ)) (depth : ℕ) (caller addr : Address)
    (value : ℕ) (w : World σ) : World σ × Except String Unit :=
  if depth > CallCreateDepth then (w, .error "max call depth exceeded")
  else if !CanTransfer w.balance caller value then (w, .error "insufficient balance for transfer")
  else
    match run (valueTransfer caller addr value w) with
    | .ok w2 => (w2, .ok ())
    | .error e => (w, .error e)

/-- The two privacy contracts move the value themselves. -/
lemma valueTransfer_of_not {caller addr : Address} {value : ℕ} {w : World σ}
    (h : addr = wanCoinPrecompileAddr ∨ addr = wanStampPrecompileAddr) :
    valueTransfer caller addr value w = w := by
  unfold valueTransfer
  rw [if_neg]
  rintro ⟨h1, h2⟩
  rcases h with h | h
  · exact h1 h
  · exact h2 h

/-- What a call can do: fail and leave the world as it was, or succeed with the world the
contract produced from the world after the value transfer, which the caller could pay. -/
theorem Call_cases (run : World σ → Except String (World σ)) (depth : ℕ) (caller addr : Address)
    (value : ℕ) (w : World σ) :
    (∃ e, Call run depth caller addr value w = (w, .error e)) ∨
      ∃ w2, value ≤ w.balance caller ∧ run (valueTransfer caller addr value w) = .ok w2 ∧
        Call run depth caller addr value w = (w2, .ok ()) := by
  unfold Call
  split_ifs with hd hc
  · exact .inl ⟨_, rfl⟩
  · exact .inl ⟨_, rfl⟩
  · have hpay : value ≤ w.balance caller := by simpa [CanTransfer] using hc
    cases hr : run (valueTransfer caller addr value w) with
    | error e => exact .inl ⟨e, rfl⟩
    | ok w2 => exact .inr ⟨w2, hpay, rfl, rfl⟩

/-- A failed call leaves the world as it was. -/
theorem Call_error {run : World σ → Except String (World σ)} {depth : ℕ}
    {caller addr : Address} {value : ℕ} {w : World σ} {e : String}
    (h : (Call run depth caller addr value w).2 = .error e) :
    (Call run depth caller addr value w).1 = w := by
  rcases Call_cases run depth caller addr value w with ⟨e', he'⟩ | ⟨w2, -, -, hw2⟩
  · rw [he']
  · rw [hw2] at h
    cases h

end Wanchain
