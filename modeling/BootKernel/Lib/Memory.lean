import Mathlib.Data.Nat.Notation

/-!
# Byte-addressed memory

A memory gives a byte at every address. A 64-bit word is stored little-endian in eight bytes.
-/

abbrev Memory := Nat → BitVec 8

namespace Memory

variable {m : Memory} {a b : Nat} {v : BitVec 64}

/-- The 64-bit word in the eight bytes from `a`. -/
def load64 (m : Memory) (a : Nat) : BitVec 64 :=
  m (a + 7) ++ m (a + 6) ++ m (a + 5) ++ m (a + 4) ++ m (a + 3) ++ m (a + 2) ++ m (a + 1) ++ m a

def store8 (m : Memory) (a : Nat) (v : BitVec 8) : Memory := fun x => if x = a then v else m x

def store64 (m : Memory) (a : Nat) (v : BitVec 64) : Memory :=
  fun x => if a ≤ x ∧ x < a + 8 then v.extractLsb' (8 * (x - a)) 8 else m x

/-- The `n` bytes from `a` are the first values of `f`. -/
def storeBytes (m : Memory) (a n : Nat) (f : Nat → BitVec 8) : Memory :=
  fun x => if a ≤ x ∧ x < a + n then f (x - a) else m x

theorem load64_congr {m' : Memory} (h : ∀ x, a ≤ x → x < a + 8 → m' x = m x) :
    load64 m' a = load64 m a := by
  simp only [load64]
  rw [h (a + 7) (by omega) (by omega), h (a + 6) (by omega) (by omega),
    h (a + 5) (by omega) (by omega), h (a + 4) (by omega) (by omega),
    h (a + 3) (by omega) (by omega), h (a + 2) (by omega) (by omega),
    h (a + 1) (by omega) (by omega), h a (by omega) (by omega)]

theorem load64_zero (h : ∀ x, a ≤ x → x < a + 8 → m x = 0) : load64 m a = 0 := by
  have hzero : load64 m a = load64 (fun _ => 0) a := load64_congr h
  rw [hzero]
  simp only [load64]
  decide

theorem extract_bytes (v : BitVec 64) :
    v.extractLsb' 56 8 ++ v.extractLsb' 48 8 ++ v.extractLsb' 40 8 ++ v.extractLsb' 32 8 ++
      v.extractLsb' 24 8 ++ v.extractLsb' 16 8 ++ v.extractLsb' 8 8 ++ v.extractLsb' 0 8 = v := by
  apply BitVec.eq_of_getLsbD_eq
  intro i hi
  simp only [BitVec.getLsbD_append, BitVec.getLsbD_extractLsb']
  grind

theorem load64_eq_of_bytes (h : ∀ i < 8, m (a + i) = v.extractLsb' (8 * i) 8) : load64 m a = v := by
  have h₀ : m a = v.extractLsb' 0 8 := h 0 (by omega)
  simp only [load64, h 7 (by omega), h 6 (by omega), h 5 (by omega), h 4 (by omega), h 3 (by omega),
    h 2 (by omega), h 1 (by omega), h₀]
  exact extract_bytes v

theorem load64_byte (m : Memory) (a : Nat) {i : Nat} (hi : i < 8) :
    (load64 m a).extractLsb' (8 * i) 8 = m (a + i) := by
  apply BitVec.eq_of_getLsbD_eq
  intro k hk
  match i with
  | 0 | 1 | 2 | 3 | 4 | 5 | 6 | 7 =>
      simp only [load64, BitVec.getLsbD_extractLsb', BitVec.getLsbD_append]
      grind

theorem load64_eq_iff : load64 m a = v ↔ ∀ i < 8, m (a + i) = v.extractLsb' (8 * i) 8 :=
  ⟨fun h _ hi => h ▸ (load64_byte m a hi).symm, load64_eq_of_bytes⟩

theorem load64_store64_same (m : Memory) (a : Nat) (v : BitVec 64) :
    load64 (store64 m a v) a = v := by
  have hbyte : ∀ k, k < 8 → store64 m a v (a + k) = v.extractLsb' (8 * k) 8 := by
    intro k hk
    simp [store64, hk]
  have h₀ : store64 m a v a = v.extractLsb' 0 8 := hbyte 0 (by omega)
  simp only [load64, hbyte 7 (by omega), hbyte 6 (by omega), hbyte 5 (by omega),
    hbyte 4 (by omega), hbyte 3 (by omega), hbyte 2 (by omega), hbyte 1 (by omega), h₀]
  exact extract_bytes v

theorem load64_store64_of_disjoint (h : b + 8 ≤ a ∨ a + 8 ≤ b) :
    load64 (store64 m a v) b = load64 m b := by
  apply load64_congr
  intro x hlo hhi
  simp only [store64]
  rw [if_neg (by omega)]

section

variable (m : Memory) (a n k : Nat) (f : Nat → BitVec 8)

theorem storeBytes_zero : m.storeBytes a 0 f = m := by
  funext x
  rw [storeBytes, if_neg (by omega)]

/-- Bytes that are stored after one another are one run of bytes. -/
theorem storeBytes_append :
    (m.storeBytes a n f).storeBytes (a + n) k (fun i => f (n + i)) = m.storeBytes a (n + k) f := by
  funext x
  simp only [storeBytes]
  by_cases hlast : a + n ≤ x ∧ x < a + n + k
  · rw [if_pos hlast, if_pos (by omega)]
    exact congrArg f (by omega)
  · rw [if_neg hlast]
    by_cases hfirst : a ≤ x ∧ x < a + n
    · rw [if_pos hfirst, if_pos (by omega)]
    · rw [if_neg hfirst, if_neg (by omega)]

theorem storeBytes_congr {g : Nat → BitVec 8} (h : ∀ i < n, f i = g i) : m.storeBytes a n f = m.storeBytes a n g := by
  funext x
  simp only [storeBytes]
  by_cases hx : a ≤ x ∧ x < a + n
  · rw [if_pos hx, if_pos hx, h (x - a) (by omega)]
  · rw [if_neg hx, if_neg hx]

theorem storeBytes_apply {i : Nat} (hi : i < n) : m.storeBytes a n f (a + i) = f i := by
  rw [storeBytes, if_pos (by omega), Nat.add_sub_cancel_left]

theorem storeBytes_outside {x : Nat} (hx : x < a ∨ a + n ≤ x) : m.storeBytes a n f x = m x := by
  rw [storeBytes, if_neg (by omega)]

end

end Memory
