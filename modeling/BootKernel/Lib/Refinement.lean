import Mathlib.Tactic.TypeStar

/-!
# Refinement of deterministic operations

A component is a step function that takes an operation to its result and the next state. It refines
another one when each allowed operation gives the same result and keeps the states related; then so
does every run whose operations are allowed.
-/

namespace Refinement

variable {o r σ τ : Type*}

/-- The results of a list of operations, and the state after them. -/
def run (step : σ → o → r × σ) : σ → List o → List r × σ
  | s, [] => ([], s)
  | s, a :: as =>
      let (x, s') := step s a
      let (xs, s'') := run step s' as
      (x :: xs, s'')

/-- Every operation is allowed in the state in which it is performed. -/
def Enabled (step : σ → o → r × σ) (ok : σ → o → Prop) : σ → List o → Prop
  | _, [] => True
  | s, a :: as => ok s a ∧ Enabled step ok (step s a).2 as

theorem run_refines {stepC : σ → o → r × σ} {stepA : τ → o → r × τ} {ok : τ → o → Prop} (abs : σ → τ)
    (hstep : ∀ s a, ok (abs s) a →
      (stepC s a).1 = (stepA (abs s) a).1 ∧ abs (stepC s a).2 = (stepA (abs s) a).2)
    {s : σ} {as : List o} (hen : Enabled stepA ok (abs s) as) :
    (run stepC s as).1 = (run stepA (abs s) as).1 ∧
      abs (run stepC s as).2 = (run stepA (abs s) as).2 := by
  induction as generalizing s with
  | nil => exact ⟨rfl, rfl⟩
  | cons a as ih =>
      obtain ⟨hok, hrest⟩ := hen
      obtain ⟨hres, hst⟩ := hstep s a hok
      rw [← hst] at hrest
      obtain ⟨hxs, hend⟩ := ih hrest
      constructor
      · simp only [run, hres, hxs, hst]
      · simp only [run, hend, hst]

end Refinement
