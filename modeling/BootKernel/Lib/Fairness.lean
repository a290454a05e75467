import Mathlib.Data.Nat.Notation

/-!
# Fair label schedules

A system takes one action after another, as a schedule says. Under a schedule in which every action
comes again and again it reaches its goal if each state has a rank that no action raises, and an
action that lowers it. The other actions leave this action in place. Actions are told apart by their
labels; those without a label do not matter.
-/

namespace Fairness

variable {σ α κ : Type}

/-- The states of the system under a schedule. -/
def trajectory (step : σ → α → σ) (s : σ) (schedule : ℕ → α) : ℕ → σ
  | 0 => s
  | n + 1 => step (trajectory step s schedule n) (schedule n)

/-- Actions with every label come again and again. -/
def Fair (label : α → Option κ) (schedule : ℕ → α) : Prop := ∀ k n, ∃ m ≥ n, label (schedule m) = some k

/-- Each action lowers the rank of a state, or it is not the awaited one and leaves the rank and the
awaited action as they are. -/
def Advances (step : σ → α → σ) (label : α → Option κ) (At : σ → ℕ → Prop) (awaited : σ → κ) : Prop :=
  ∀ s n a, At s (n + 1) → (∃ m ≤ n, At (step s a) m) ∨
    label a ≠ some (awaited s) ∧ At (step s a) (n + 1) ∧ awaited (step s a) = awaited s

variable {step : σ → α → σ} {label : α → Option κ} {At : σ → ℕ → Prop} {awaited : σ → κ} {schedule : ℕ → α} {s : σ}

/-- The rank has dropped by the time the awaited action comes. -/
theorem Advances.drops (h : Advances step label At awaited) {i n : ℕ} (d : ℕ)
    (hi : At (trajectory step s schedule i) (n + 1))
    (hd : label (schedule (i + d)) = some (awaited (trajectory step s schedule i))) :
    ∃ j m, m ≤ n ∧ At (trajectory step s schedule j) m := by
  induction d generalizing i with
  | zero =>
      rcases h _ n (schedule i) hi with ⟨m, hm, hat⟩ | ⟨hne, -, -⟩
      · exact ⟨i + 1, m, hm, hat⟩
      · exact absurd hd hne
  | succ d ih =>
      rcases h _ n (schedule i) hi with ⟨m, hm, hat⟩ | ⟨-, hat, hsame⟩
      · exact ⟨i + 1, m, hm, hat⟩
      · refine ih (i := i + 1) hat ?_
        rw [Nat.add_right_comm]
        exact hd.trans (congrArg some hsame.symm)

theorem Advances.eventually (h : Advances step label At awaited) (hfair : Fair label schedule) {n : ℕ} (i : ℕ)
    (hi : At (trajectory step s schedule i) n) : ∃ k, At (trajectory step s schedule k) 0 := by
  induction n using Nat.strongRecOn generalizing i with
  | ind n ih =>
      cases n with
      | zero => exact ⟨i, hi⟩
      | succ n =>
          obtain ⟨m, hm, hawaited⟩ := hfair (awaited (trajectory step s schedule i)) i
          obtain ⟨d, rfl⟩ := Nat.exists_eq_add_of_le hm
          obtain ⟨j, m, hlt, hj⟩ := h.drops d hi hawaited
          exact ih m (Nat.lt_succ_of_le hlt) j hj

/-- What every action keeps holds from some state on. -/
theorem trajectory_invariant {P : σ → Prop} (hP : ∀ s a, P s → P (step s a)) {i j : ℕ} (hij : i ≤ j)
    (h : P (trajectory step s schedule i)) : P (trajectory step s schedule j) := by
  obtain ⟨d, rfl⟩ := Nat.exists_eq_add_of_le hij
  induction d with
  | zero => exact h
  | succ d ih => exact hP _ _ (ih (Nat.le_add_right i d))

end Fairness
