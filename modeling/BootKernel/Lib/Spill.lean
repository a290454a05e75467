import BootKernel.Lib.Loop
import BootKernel.Lib.Memory

/-!
# A loop whose counter is in memory

`for (p = start; p < stop; p++) body(p);`, where the counter is kept in the eight bytes of a slot. If the body does
not change the slot this is the plain loop. If it does the loop may run for ever.
-/

namespace Spill

/-- `none` is a loop that is still running after `fuel` tests of its condition. -/
def loop (slot : Nat) (stop : BitVec 64) (body : Nat → Memory → Memory) : Nat → Memory → Option Memory
  | 0, _ => none
  | fuel + 1, m =>
      if m.load64 slot < stop then
        let m := body (m.load64 slot).toNat m
        loop slot stop body fuel (m.store64 slot (m.load64 slot + 1))
      else some m

section
variable {slot fuel : Nat} {start stop v w : BitVec 64} {body : Nat → Memory → Memory} {m : Memory}

theorem store64_store64 : (m.store64 slot v).store64 slot w = m.store64 slot w := by
  funext x
  simp only [Memory.store64]
  split
  · rfl
  · rfl

theorem forRange_cons {lo hi : Nat} (h : lo < hi) (m : Memory) :
    Loop.forRange lo hi body m = Loop.forRange (lo + 1) hi body (body lo m) := by
  have hn : hi - lo = (hi - (lo + 1)) + 1 := by omega
  rw [Loop.forRange, Loop.forRange, hn, List.range'_succ, List.foldl_cons]

/-- A body that leaves the counter in the slot alone. -/
def Apart (slot : Nat) (start stop : BitVec 64) (body : Nat → Memory → Memory) : Prop :=
  ∀ m v, start.toNat ≤ v.toNat → v.toNat < stop.toNat →
    body v.toNat (Memory.store64 m slot v) = (body v.toNat m).store64 slot v

theorem loop_plain (h : Apart slot start stop body) (hle : start.toNat ≤ stop.toNat)
    (hfuel : stop.toNat - start.toNat < fuel) (m : Memory) :
    loop slot stop body fuel (m.store64 slot start) =
      some ((Loop.forRange start.toNat stop.toNat body m).store64 slot stop) := by
  induction fuel generalizing start m with
  | zero => omega
  | succ fuel ih =>
      rw [loop, Memory.load64_store64_same]
      by_cases hlt : start < stop
      · have hnat : start.toNat < stop.toNat := BitVec.lt_def.mp hlt
        have hnext : (start + 1).toNat = start.toNat + 1 := by
          have hstop := stop.isLt
          have hone : (1 : BitVec 64).toNat = 1 := rfl
          rw [BitVec.toNat_add, hone, Nat.mod_eq_of_lt (by omega)]
        have hrest : Apart slot (start + 1) stop body := fun m v hlo => h m v (by omega)
        rw [if_pos hlt, forRange_cons hnat]
        simp only [h m start (Nat.le_refl _) hnat, Memory.load64_store64_same, store64_store64]
        rw [ih hrest (by omega) (by omega), hnext]
      · have heq : start = stop := by
          have hge : ¬ start.toNat < stop.toNat := fun hlt' => hlt (BitVec.lt_def.mpr hlt')
          exact BitVec.eq_of_toNat_eq (by omega)
        rw [if_neg hlt, heq, Loop.forRange_empty (Nat.le_refl _)]

theorem loop_mono {fuel' : Nat} {m' : Memory} (hle : fuel ≤ fuel') (h : loop slot stop body fuel m = some m') :
    loop slot stop body fuel' m = some m' := by
  induction fuel generalizing fuel' m with
  | zero => cases h
  | succ fuel ih =>
      obtain ⟨fuel', rfl⟩ : ∃ k, fuel' = k + 1 := ⟨fuel' - 1, by omega⟩
      rw [loop] at h ⊢
      by_cases hlt : m.load64 slot < stop
      · rw [if_pos hlt] at h ⊢
        exact ih (by omega) h
      · rw [if_neg hlt] at h ⊢
        exact h

/-- What every turn keeps, and what keeps the counter low, keeps the loop running. -/
theorem loop_endless (P : Memory → Prop) (hlt : ∀ m, P m → m.load64 slot < stop)
    (hP : ∀ m, P m → P ((body (m.load64 slot).toNat m).store64 slot
      ((body (m.load64 slot).toNat m).load64 slot + 1)))
    (hm : P m) : loop slot stop body fuel m = none := by
  induction fuel generalizing m with
  | zero => rfl
  | succ fuel ih =>
      rw [loop, if_pos (hlt m hm)]
      exact ih (hP m hm)

end

end Spill
