import Mathlib.Logic.Function.Basic

/-!
# Bit arrays

Bits kept in an array of 64-bit words: bit `i` is bit `i % 64` of word `i / 64`.
-/

namespace BitArray

variable {a : Nat → BitVec 64} {i j k : Nat}

def bit (a : Nat → BitVec 64) (i : Nat) : Bool := (a (i / 64)).getLsbD (i % 64)

/-- The word with the only bit `i % 64`. -/
def mask (i : Nat) : BitVec 64 := 1#64 <<< (i % 64)

theorem getLsbD_mask (i k : Nat) (hk : k < 64) : (mask i).getLsbD k = decide (k = i % 64) := by
  have hi : i % 64 < 64 := Nat.mod_lt i (by omega)
  simp only [mask, BitVec.getLsbD_shiftLeft, BitVec.getLsbD_one, hk, decide_true, Bool.true_and]
  by_cases h : k = i % 64
  · simp [h]
  · by_cases hlt : k < i % 64
    · simp [h, hlt]
    · simp [h, hlt]; omega

def set (a : Nat → BitVec 64) (i : Nat) : Nat → BitVec 64 :=
  Function.update a (i / 64) (a (i / 64) ||| mask i)

def clear (a : Nat → BitVec 64) (i : Nat) : Nat → BitVec 64 :=
  Function.update a (i / 64) (a (i / 64) &&& ~~~ mask i)

@[simp] theorem bit_set (a : Nat → BitVec 64) (i j : Nat) :
    bit (set a i) j = (decide (j = i) || bit a j) := by
  have hj : j % 64 < 64 := Nat.mod_lt j (by omega)
  by_cases hw : j / 64 = i / 64
  · have hbit : (j % 64 = i % 64) ↔ j = i := by omega
    simp only [bit, set, hw, Function.update_self, BitVec.getLsbD_or, getLsbD_mask i _ hj, hbit]
    exact Bool.or_comm _ _
  · have hne : j ≠ i := fun h => hw (by rw [h])
    simp [bit, set, Function.update_of_ne hw, hne]

@[simp] theorem bit_clear (a : Nat → BitVec 64) (i j : Nat) :
    bit (clear a i) j = (!decide (j = i) && bit a j) := by
  have hj : j % 64 < 64 := Nat.mod_lt j (by omega)
  by_cases hw : j / 64 = i / 64
  · have hbit : (j % 64 = i % 64) ↔ j = i := by omega
    simp only [bit, clear, hw, Function.update_self, BitVec.getLsbD_and, BitVec.getLsbD_not, hj,
      getLsbD_mask i _ hj, hbit, decide_true, Bool.true_and]
    exact Bool.and_comm _ _
  · have hne : j ≠ i := fun h => hw (by rw [h])
    simp [bit, clear, Function.update_of_ne hw, hne]

theorem word_eq {a b : Nat → BitVec 64} {w : Nat} (h : ∀ i, i / 64 = w → bit a i = bit b i) :
    a w = b w := by
  apply BitVec.eq_of_getLsbD_eq
  intro k hk
  have hdiv : (64 * w + k) / 64 = w := by omega
  have hmod : (64 * w + k) % 64 = k := by omega
  simpa only [bit, hdiv, hmod] using h (64 * w + k) hdiv

theorem ext_bit {a b : Nat → BitVec 64} (h : ∀ i, bit a i = bit b i) : a = b :=
  funext fun _ => word_eq fun i _ => h i

theorem clear_set_of_clear (h : bit a i = false) : clear (set a i) i = a := by
  apply ext_bit
  intro j
  by_cases hj : j = i
  · simp [hj, h]
  · simp [hj]

/-! ## Searching for a clear bit -/

theorem eq_allOnes_iff (x : BitVec 64) : x = ~~~ 0#64 ↔ ∀ k < 64, x.getLsbD k = true := by
  constructor
  · rintro rfl k hk
    simp only [BitVec.getLsbD_not, hk, decide_true, BitVec.getLsbD_zero, Bool.not_false,
      Bool.and_self]
  · intro h
    apply BitVec.eq_of_getLsbD_eq
    intro k hk
    simp only [h k hk, BitVec.getLsbD_not, hk, decide_true, BitVec.getLsbD_zero, Bool.not_false,
      Bool.and_self]

theorem word_full_iff (a : Nat → BitVec 64) (w : Nat) :
    a w = ~~~ 0#64 ↔ ∀ i, i / 64 = w → bit a i = true := by
  rw [eq_allOnes_iff]
  constructor
  · rintro h i rfl
    exact h _ (Nat.mod_lt i (by omega))
  · intro h k hk
    have hbit := h (64 * w + k) (by omega)
    rwa [bit, show (64 * w + k) / 64 = w by omega, show (64 * w + k) % 64 = k by omega] at hbit

theorem ctz_not_lt {x : BitVec 64} (hx : x ≠ ~~~ 0#64) : (~~~ x).ctz.toNat < 64 := by
  have hne : ~~~ x ≠ 0#64 := fun h => hx (by rw [← h, BitVec.not_not])
  have := BitVec.lt_def.mp (BitVec.ctz_lt_iff_ne_zero.mpr hne)
  simpa using this

/-- Counting the trailing zeros of the complement finds the first clear bit of a word. -/
theorem first_clear {w : Nat} (hw : a w ≠ ~~~ 0#64) :
    bit a (64 * w + (~~~ a w).ctz.toNat) = false ∧
      ∀ i, i / 64 = w → i < 64 * w + (~~~ a w).ctz.toNat → bit a i = true := by
  have hlt := ctz_not_lt hw
  have hne : ~~~ a w ≠ 0#64 := fun h => hw (by rw [← h, BitVec.not_not])
  constructor
  · have hset := BitVec.getLsbD_true_ctz_of_ne_zero hne
    rw [bit, show (64 * w + (~~~ a w).ctz.toNat) / 64 = w by omega,
      show (64 * w + (~~~ a w).ctz.toNat) % 64 = (~~~ a w).ctz.toNat by omega]
    simpa [hlt] using hset
  · rintro i rfl hi
    have hk : i % 64 < (~~~ a (i / 64)).ctz.toNat := by omega
    have hmod : i % 64 < 64 := Nat.mod_lt i (by omega)
    have := BitVec.getLsbD_false_of_lt_ctz hk
    simpa [bit, hmod] using this

end BitArray
