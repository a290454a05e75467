import Mathlib.Algebra.Order.Ring.Nat
import Mathlib.Data.List.Range

/-!
# Counted loops

Two `for` loops of C. `forRange` counts with a number and always ends. `forStep` counts with a
machine word, stops early when its body asks for it, and may run for ever when the counter wraps
round: it is cut off after a number of turns, and its rule gives the number that is enough.
-/

namespace Loop

variable {σ : Type}

/-! ## Loops over a range of numbers -/

/-- `for (i = lo; i < hi; i++) body(i)` -/
def forRange (lo hi : Nat) (body : Nat → σ → σ) (s : σ) : σ :=
  (List.range' lo (hi - lo)).foldl (fun s i => body i s) s

theorem forRange_empty {lo hi : Nat} (h : hi ≤ lo) (body : Nat → σ → σ) (s : σ) :
    forRange lo hi body s = s := by
  simp [forRange, Nat.sub_eq_zero_of_le h]

theorem forRange_succ {lo hi : Nat} (h : lo ≤ hi) (body : Nat → σ → σ) (s : σ) :
    forRange lo (hi + 1) body s = body hi (forRange lo hi body s) := by
  have hn : hi + 1 - lo = (hi - lo) + 1 := by omega
  have hlast : lo + (hi - lo) = hi := by omega
  simp only [forRange, hn, List.range'_1_concat, List.foldl_append, List.foldl_cons,
    List.foldl_nil, hlast]

/-- The invariant rule: what holds at `lo` and is kept by every turn holds at `hi`. -/
theorem forRange_rule {lo hi : Nat} (P : Nat → σ → Prop) {body : Nat → σ → σ} {s : σ}
    (hle : lo ≤ hi) (h₀ : P lo s)
    (hbody : ∀ i s, lo ≤ i → i < hi → P i s → P (i + 1) (body i s)) :
    P hi (forRange lo hi body s) := by
  obtain ⟨n, rfl⟩ := Nat.exists_eq_add_of_le hle
  clear hle
  induction n with
  | zero => rw [forRange_empty (by omega)]; exact h₀
  | succ n ih =>
      have hprev := ih fun i s hlo hhi => hbody i s hlo (by omega)
      rw [← Nat.add_assoc, forRange_succ (by omega)]
      exact hbody _ _ (by omega) (by omega) hprev

theorem forRange_congr {lo hi : Nat} {body body' : Nat → σ → σ} (h : ∀ i, lo ≤ i → i < hi → body i = body' i) :
    forRange lo hi body = forRange lo hi body' := by
  funext s
  by_cases hle : lo ≤ hi
  · refine forRange_rule (fun n t => t = forRange lo n body' s) hle (forRange_empty (Nat.le_refl lo) body' s).symm ?_
    rintro i t hlo hhi rfl
    rw [forRange_succ hlo, h i hlo hhi]
  · rw [forRange_empty (by omega), forRange_empty (by omega)]

theorem forRange_preserves {α : Type} (g : σ → α) {body : Nat → σ → σ}
    (h : ∀ i s, g (body i s) = g s) (lo hi : Nat) (s : σ) : g (forRange lo hi body s) = g s := by
  by_cases hle : lo ≤ hi
  · exact forRange_rule (fun _ t => g t = g s) hle rfl fun i t _ _ ih => (h i t).trans ih
  · rw [forRange_empty (by omega)]

/-! ## Loops over a machine word -/

variable {w : Nat}

/-- `for (; i < bound; i += step) if (!body(i)) return 0;`, where `none` is a loop that is still
running after `fuel` tests of its condition. -/
def forStep (bound step : BitVec w) (body : BitVec w → σ → Bool × σ) :
    Nat → BitVec w → σ → Option (Bool × σ)
  | 0, _, _ => none
  | fuel + 1, i, s =>
      if i < bound then
        match body i s with
        | (true, s') => forStep bound step body fuel (i + step) s'
        | (false, s') => some (false, s')
      else some (true, s)

theorem forStep_done {bound step i : BitVec w} {body : BitVec w → σ → Bool × σ} {fuel : Nat} {s : σ}
    (h : ¬ i < bound) : forStep bound step body (fuel + 1) i s = some (true, s) := by
  simp [forStep, h]

theorem forStep_continue {bound step i : BitVec w} {body : BitVec w → σ → Bool × σ} {fuel : Nat}
    {s s' : σ} (h : i < bound) (hb : body i s = (true, s')) :
    forStep bound step body (fuel + 1) i s = forStep bound step body fuel (i + step) s' := by
  simp [forStep, h, hb]

theorem forStep_stop {bound step i : BitVec w} {body : BitVec w → σ → Bool × σ} {fuel : Nat}
    {s s' : σ} (h : i < bound) (hb : body i s = (false, s')) :
    forStep bound step body (fuel + 1) i s = some (false, s') := by
  simp [forStep, h, hb]

theorem forStep_mono {bound step : BitVec w} {body : BitVec w → σ → Bool × σ} {fuel fuel' : Nat}
    {i : BitVec w} {s : σ} {r : Bool × σ} (hle : fuel ≤ fuel')
    (h : forStep bound step body fuel i s = some r) : forStep bound step body fuel' i s = some r := by
  induction fuel generalizing fuel' i s with
  | zero => simp [forStep] at h
  | succ fuel ih =>
      obtain ⟨fuel', rfl⟩ : ∃ k, fuel' = k + 1 := ⟨fuel' - 1, by omega⟩
      by_cases hi : i < bound
      · rcases hb : body i s with ⟨_ | _, s'⟩
        · rw [forStep_stop hi hb] at h ⊢; exact h
        · rw [forStep_continue hi hb] at h ⊢; exact ih (by omega) h
      · rw [forStep_done hi] at h ⊢; exact h

/-- The total rule. When the counter cannot wrap before it passes the bound, the loop ends within
`bound - i` turns, and `Q` holds of its result if each turn keeps `P` or stops in `Q`. -/
theorem forStep_rule {bound step i : BitVec w} {body : BitVec w → σ → Bool × σ} {fuel : Nat} {s : σ}
    (P : Nat → σ → Prop) (Q : Bool → σ → Prop)
    (hstep : 0 < step.toNat) (hwrap : bound.toNat + step.toNat ≤ 2 ^ w)
    (hbody : ∀ i : BitVec w, ∀ s, i < bound → P i.toNat s →
      if (body i s).1 then P (i.toNat + step.toNat) (body i s).2 else Q false (body i s).2)
    (hexit : ∀ k s, bound.toNat ≤ k → P k s → Q true s)
    (h₀ : P i.toNat s) (hfuel : bound.toNat - i.toNat < fuel) :
    ∃ r s', forStep bound step body fuel i s = some (r, s') ∧ Q r s' := by
  induction fuel generalizing i s with
  | zero => omega
  | succ fuel ih =>
      by_cases hi : i < bound
      · have hturn := hbody i s hi h₀
        have hlt : i.toNat < bound.toNat := BitVec.lt_def.mp hi
        rcases hb : body i s with ⟨_ | _, s'⟩
        · rw [hb] at hturn
          exact ⟨false, s', forStep_stop hi hb, by simpa using hturn⟩
        · rw [hb] at hturn
          -- the counter stays below `2 ^ w`, so the addition is the one on numbers
          have hnext : (i + step).toNat = i.toNat + step.toNat := by
            rw [BitVec.toNat_add, Nat.mod_eq_of_lt (by omega)]
          rw [forStep_continue hi hb]
          exact ih (by rw [hnext]; simpa using hturn) (by omega)
      · refine ⟨true, s, forStep_done hi, hexit _ _ ?_ h₀⟩
        exact Nat.le_of_not_lt fun hlt => hi (BitVec.lt_def.mpr hlt)

theorem forStep_rule_of_eq {bound step i : BitVec w} {body : BitVec w → σ → Bool × σ} {fuel : Nat}
    {s s' : σ} {r : Bool} (P : Nat → σ → Prop) (Q : Bool → σ → Prop)
    (hstep : 0 < step.toNat) (hwrap : bound.toNat + step.toNat ≤ 2 ^ w)
    (hbody : ∀ i : BitVec w, ∀ s, i < bound → P i.toNat s →
      if (body i s).1 then P (i.toNat + step.toNat) (body i s).2 else Q false (body i s).2)
    (hexit : ∀ k s, bound.toNat ≤ k → P k s → Q true s) (h₀ : P i.toNat s)
    (h : forStep bound step body fuel i s = some (r, s')) : Q r s' := by
  obtain ⟨r₁, s₁, h₁, hQ⟩ := forStep_rule P Q hstep hwrap hbody hexit h₀
    (show _ < fuel + (bound.toNat - i.toNat) + 1 by omega)
  rw [forStep_mono (by omega) h] at h₁
  cases h₁
  exact hQ

/-- The rule that does not ask why the loop ends, and so does not mind a counter that wraps round. -/
theorem forStep_invariant {bound step i : BitVec w} {body : BitVec w → σ → Bool × σ} {fuel : Nat}
    {s s' : σ} {r : Bool} (P : σ → Prop) (Q : Bool → σ → Prop)
    (hbody : ∀ i s, P s → if (body i s).1 then P (body i s).2 else Q false (body i s).2)
    (hexit : ∀ s, P s → Q true s) (h₀ : P s) (h : forStep bound step body fuel i s = some (r, s')) :
    Q r s' := by
  induction fuel generalizing i s with
  | zero => cases h
  | succ fuel ih =>
      have hturn := hbody i s h₀
      by_cases hi : i < bound
      · rcases hb : body i s with ⟨_ | _, t⟩
        · rw [forStep_stop hi hb] at h
          cases h
          rw [hb] at hturn
          exact hturn
        · rw [forStep_continue hi hb] at h
          rw [hb] at hturn
          exact ih hturn h
      · rw [forStep_done hi] at h
        cases h
        exact hexit _ h₀

/-- A loop whose counter never gets past the bound only ends when its body stops it. -/
theorem forStep_endless {bound step i : BitVec w} {body : BitVec w → σ → Bool × σ} {fuel : Nat} {s s' : σ}
    (P : BitVec w → Prop) (hP : ∀ i, P i → i < bound ∧ P (i + step)) (h₀ : P i) :
    forStep bound step body fuel i s ≠ some (true, s') := by
  induction fuel generalizing i s with
  | zero => nofun
  | succ fuel ih =>
      obtain ⟨hi, hnext⟩ := hP i h₀
      rcases hb : body i s with ⟨_ | _, t⟩
      · rw [forStep_stop hi hb]
        simp
      · rw [forStep_continue hi hb]
        exact ih hnext

/-! ### Turns -/

/-- The loop, begun with the counter `i` in the state `s`, comes to run its body at `j` in `t`. -/
inductive Turn (bound step : BitVec w) (body : BitVec w → σ → Bool × σ) :
    BitVec w → σ → BitVec w → σ → Prop
  | here {i s} (hi : i < bound) : Turn bound step body i s i s
  | next {i s s' j t} (hi : i < bound) (hb : body i s = (true, s'))
      (hrest : Turn bound step body (i + step) s' j t) : Turn bound step body i s j t

section
variable {bound step i j : BitVec w} {body : BitVec w → σ → Bool × σ} {s t : σ}

theorem Turn.lt (h : Turn bound step body i s j t) : j < bound := by
  induction h with
  | here hi => exact hi
  | next _ _ _ ih => exact ih

/-- What every turn keeps holds at each turn that the loop comes to. -/
theorem Turn.rule (P : Nat → σ → Prop) (hwrap : bound.toNat + step.toNat ≤ 2 ^ w)
    (hbody : ∀ i s, i < bound → P i.toNat s → (body i s).1 = true →
      P (i.toNat + step.toNat) (body i s).2)
    (h₀ : P i.toNat s) (h : Turn bound step body i s j t) : P j.toNat t := by
  induction h with
  | here _ => exact h₀
  | @next i s s' j t hi hb _ ih =>
      have hlt := BitVec.lt_def.mp hi
      have hnext : (i + step).toNat = i.toNat + step.toNat := by
        rw [BitVec.toNat_add, Nat.mod_eq_of_lt (by omega)]
      have hturn := hbody i s hi h₀ (by rw [hb])
      rw [hb, ← hnext] at hturn
      exact ih hturn

/-- A loop whose body does not stop it comes to every turn below the bound. -/
theorem exists_turn {last : Nat} (P : Nat → σ → Prop) (hstep : 0 < step.toNat) (hlast : last < bound.toNat)
    (hbody : ∀ i s, i.toNat < last → P i.toNat s →
      (body i s).1 = true ∧ P (i.toNat + step.toNat) (body i s).2)
    (h₀ : P i.toNat s) (n : Nat) (hn : i.toNat + n * step.toNat = last) :
    ∃ j t, j.toNat = last ∧ Turn bound step body i s j t := by
  have hbound := bound.isLt
  induction n generalizing i s with
  | zero => exact ⟨i, s, by omega, .here (BitVec.lt_def.mpr (by omega))⟩
  | succ n ih =>
      rw [Nat.succ_mul] at hn
      have hnext : (i + step).toNat = i.toNat + step.toNat := by
        rw [BitVec.toNat_add, Nat.mod_eq_of_lt (by omega)]
      obtain ⟨hgo, hturn⟩ := hbody i s (by omega) h₀
      rw [← hnext] at hturn
      obtain ⟨j, t, hj, hrest⟩ := ih hturn (by omega)
      exact ⟨j, t, hj, .next (BitVec.lt_def.mpr (by omega)) (Prod.ext hgo rfl) hrest⟩

end

end Loop
