import BootKernel.Pmm.Defs
import BootKernel.Lib.BitArray

/-!
# The frame bitmap as a bit array

What each operation of `pmm.c` does to the bits. The search of `pmm_frame_alloc` is described once,
by `pmmFrameAlloc_cases`.
-/

namespace BootKernel

variable {p : Pmm} {f : Nat} {idx : BitVec 64}

/-- The bit of the frame `f`, past the end of the array too. -/
def Pmm.used (p : Pmm) (f : Nat) : Bool := BitArray.bit p.gFrameBitmap f

/-- The number of frames that the words of `g_frame_bitmap` cover. -/
def coveredFrames : Nat := 64 * bitmapBytes.toNat

/-- The number of frames that the loop bound of `pmm_frame_alloc` lets it look at. -/
def scannedFrames : Nat := 64 * maxFrames.toNat

theorem coveredFrames_eq : coveredFrames = 2 ^ 27 := by simp [coveredFrames]

theorem scannedFrames_eq : scannedFrames = 2 ^ 30 := by simp [scannedFrames]

/-! ## Word index and bit index -/

theorem frameIdx_toNat (hf : f < 2 ^ 64) : (BitVec.ofNat 64 f).toNat = f := by
  rw [BitVec.toNat_ofNat, Nat.mod_eq_of_lt hf]

theorem wordIndex (idx : BitVec 64) : (idx >>> 6).toNat = idx.toNat / 64 := by
  rw [BitVec.toNat_ushiftRight, Nat.shiftRight_eq_div_pow]

theorem bitIndex (idx : BitVec 64) : (idx &&& 63).toNat = idx.toNat % 64 := by
  rw [BitVec.toNat_and]
  exact Nat.and_two_pow_sub_one_eq_mod idx.toNat 6

theorem shift_bitIndex (idx : BitVec 64) : 1#64 <<< (idx &&& 63) = BitArray.mask idx.toNat := by
  rw [BitArray.mask, ← bitIndex]
  rfl

theorem frameBitmapSet_bitmap (p : Pmm) (idx : BitVec 64) :
    (frameBitmapSet p idx).gFrameBitmap = BitArray.set p.gFrameBitmap idx.toNat := by
  simp only [frameBitmapSet, Pmm.setWord, BitArray.set, wordIndex, shift_bitIndex]

theorem frameBitmapClear_bitmap (p : Pmm) (idx : BitVec 64) :
    (frameBitmapClear p idx).gFrameBitmap = BitArray.clear p.gFrameBitmap idx.toNat := by
  simp only [frameBitmapClear, Pmm.setWord, BitArray.clear, wordIndex, shift_bitIndex]

@[simp] theorem frameBitmapSet_ceiling (p : Pmm) (idx : BitVec 64) :
    (frameBitmapSet p idx).gPhysCeiling = p.gPhysCeiling := rfl

@[simp] theorem frameBitmapClear_ceiling (p : Pmm) (idx : BitVec 64) :
    (frameBitmapClear p idx).gPhysCeiling = p.gPhysCeiling := rfl

@[simp] theorem used_frameBitmapSet (p : Pmm) (idx : BitVec 64) (f : Nat) :
    (frameBitmapSet p idx).used f = (decide (f = idx.toNat) || p.used f) := by
  rw [Pmm.used, frameBitmapSet_bitmap, BitArray.bit_set, Pmm.used]

@[simp] theorem used_frameBitmapClear (p : Pmm) (idx : BitVec 64) (f : Nat) :
    (frameBitmapClear p idx).used f = (!decide (f = idx.toNat) && p.used f) := by
  rw [Pmm.used, frameBitmapClear_bitmap, BitArray.bit_clear, Pmm.used]

theorem frameBitmapTest_eq_zero_iff (p : Pmm) (idx : BitVec 64) :
    frameBitmapTest p idx = 0 ↔ p.used idx.toNat = false := by
  have hbit : (p.gFrameBitmap (idx.toNat / 64) >>> (idx &&& 63)).getLsbD 0
      = p.used idx.toNat := by
    rw [BitVec.ushiftRight_eq', BitVec.getLsbD_ushiftRight, bitIndex, Nat.add_zero]
    rfl
  have hone : ∀ x : BitVec 64, (x &&& 1#64).setWidth 32 = 0 ↔ x.getLsbD 0 = false := by
    intro x
    constructor
    · intro h
      have := congrArg (fun y : BitVec 32 => y.getLsbD 0) h
      simpa using this
    · intro h
      apply BitVec.eq_of_getLsbD_eq
      intro i hi
      cases i with
      | zero => simpa using h
      | succ i => simp [BitVec.getLsbD_one]
  rw [frameBitmapTest, wordIndex, hone, hbit]

/-! ## Loops over frames -/

theorem used_forRange_set {lo hi : Nat} (hhi : hi ≤ 2 ^ 64) (p : Pmm) (f : Nat) :
    (Loop.forRange lo hi (fun i p => frameBitmapSet p (BitVec.ofNat 64 i)) p).used f =
      (decide (lo ≤ f ∧ f < hi) || p.used f) := by
  by_cases hle : lo ≤ hi
  · refine Loop.forRange_rule
      (fun n (q : Pmm) => n ≤ 2 ^ 64 → q.used f = (decide (lo ≤ f ∧ f < n) || p.used f)) hle ?_ ?_ hhi
    · intro _
      have hnot : ¬ (lo ≤ f ∧ f < lo) := by omega
      simp [hnot]
    · intro i q hlo _ ih hi'
      have hcond : (lo ≤ f ∧ f < i + 1) ↔ f = i ∨ (lo ≤ f ∧ f < i) := by omega
      rw [used_frameBitmapSet, frameIdx_toNat (by omega), ih (by omega),
        ← Bool.or_assoc, ← Bool.decide_or]
      simp only [hcond]
  · have hnot : ¬ (lo ≤ f ∧ f < hi) := by omega
    rw [Loop.forRange_empty (by omega)]
    simp [hnot]

theorem used_forRange_clear {lo hi : Nat} (hhi : hi ≤ 2 ^ 64) (p : Pmm) (f : Nat) :
    (Loop.forRange lo hi (fun i p => frameBitmapClear p (BitVec.ofNat 64 i)) p).used f =
      (!decide (lo ≤ f ∧ f < hi) && p.used f) := by
  by_cases hle : lo ≤ hi
  · refine Loop.forRange_rule
      (fun n (q : Pmm) => n ≤ 2 ^ 64 → q.used f = (!decide (lo ≤ f ∧ f < n) && p.used f)) hle ?_ ?_ hhi
    · intro _
      have hnot : ¬ (lo ≤ f ∧ f < lo) := by omega
      simp [hnot]
    · intro i q hlo _ ih hi'
      have hcond : (lo ≤ f ∧ f < i + 1) ↔ f = i ∨ (lo ≤ f ∧ f < i) := by omega
      rw [used_frameBitmapClear, frameIdx_toNat (by omega), ih (by omega),
        ← Bool.and_assoc, ← Bool.not_or, ← Bool.decide_or]
      simp only [hcond]
  · have hnot : ¬ (lo ≤ f ∧ f < hi) := by omega
    rw [Loop.forRange_empty (by omega)]
    simp [hnot]

theorem used_frameBitmapSetRange (p : Pmm) (lo hi : BitVec 64) (f : Nat) :
    (frameBitmapSetRange p lo hi).used f =
      (decide (lo.toNat ≤ f ∧ f < hi.toNat) || p.used f) :=
  used_forRange_set (Nat.le_of_lt hi.isLt) p f

theorem used_frameBitmapClearRange (p : Pmm) (lo hi : BitVec 64) (f : Nat) :
    (frameBitmapClearRange p lo hi).used f =
      (!decide (lo.toNat ≤ f ∧ f < hi.toNat) && p.used f) :=
  used_forRange_clear (Nat.le_of_lt hi.isLt) p f

/-! ## `pmm_frame_alloc` -/

/-- The physical address of a frame. -/
def frameAddr (f : Nat) : BitVec 64 := BitVec.ofNat 64 (f * 4096)

theorem frameAddr_toNat (hf : f < 2 ^ 52) : (frameAddr f).toNat = f * 4096 := by
  rw [frameAddr, BitVec.toNat_ofNat, Nat.mod_eq_of_lt (by omega)]

theorem shift_or_bit {w b : Nat} (hw : w < 2 ^ 58) (hb : b < 64) :
    (BitVec.ofNat 64 w <<< 6) ||| BitVec.ofNat 64 b = BitVec.ofNat 64 (64 * w + b) := by
  apply BitVec.eq_of_toNat_eq
  have hshift : (BitVec.ofNat 64 w <<< 6).toNat = 2 ^ 6 * w := by
    rw [BitVec.toNat_shiftLeft, BitVec.toNat_ofNat, Nat.shiftLeft_eq]
    omega
  have hor : 2 ^ 6 * w ||| b = 2 ^ 6 * w + b := (Nat.two_pow_add_eq_or_of_lt hb w).symm
  rw [BitVec.toNat_or, hshift, BitVec.toNat_ofNat, BitVec.toNat_ofNat, Nat.mod_eq_of_lt (by omega),
    hor]
  omega

theorem shiftLeft_pageShift (hf : f < 2 ^ 52) : BitVec.ofNat 64 f <<< pageShift = frameAddr f := by
  apply BitVec.eq_of_toNat_eq
  rw [frameAddr_toNat hf, BitVec.toNat_shiftLeft, BitVec.toNat_ofNat, pageShift, Nat.shiftLeft_eq]
  omega

theorem frameAddr_shiftRight (hf : f < 2 ^ 52) : frameAddr f >>> pageShift = BitVec.ofNat 64 f := by
  apply BitVec.eq_of_toNat_eq
  rw [BitVec.toNat_ushiftRight, frameAddr_toNat hf, pageShift, Nat.shiftRight_eq_div_pow,
    BitVec.toNat_ofNat]
  omega

theorem frameAddr_ne_invalid (f : Nat) : frameAddr f ≠ pmmInvalidFrame := by
  intro h
  have := congrArg BitVec.toNat h
  rw [frameAddr, BitVec.toNat_ofNat, show pmmInvalidFrame.toNat = 2 ^ 64 - 1 by decide] at this
  omega

/-- The search from word `w`: either every word that is left is full, or the first clear bit is
found and set. -/
theorem pmmFrameAllocFrom_cases (p : Pmm) (n w : Nat) (hw : w + n ≤ 2 ^ 46) :
    (pmmFrameAllocFrom p n w = (pmmInvalidFrame, p) ∧
      ∀ f, 64 * w ≤ f → f < 64 * (w + n) → p.used f = true) ∨
    ∃ f, 64 * w ≤ f ∧ f < 64 * (w + n) ∧ p.used f = false ∧
      (∀ g, 64 * w ≤ g → g < f → p.used g = true) ∧
      pmmFrameAllocFrom p n w = (frameAddr f, frameBitmapSet p (BitVec.ofNat 64 f)) := by
  induction n generalizing w with
  | zero => exact Or.inl ⟨rfl, fun f hlo hhi => by omega⟩
  | succ n ih =>
      by_cases hfull : p.gFrameBitmap w = ~~~ 0#64
      · have hword := (BitArray.word_full_iff p.gFrameBitmap w).mp hfull
        have hskip : pmmFrameAllocFrom p (n + 1) w = pmmFrameAllocFrom p n (w + 1) := by
          simp only [pmmFrameAllocFrom, hfull, ↓reduceIte]
        have hused : ∀ g, 64 * w ≤ g → g < 64 * (w + 1) → p.used g = true :=
          fun g hlo hhi => hword g (by omega)
        rw [hskip]
        rcases ih (w + 1) (by omega) with ⟨hnone, hrest⟩ | ⟨f, hlo, hhi, hfree, hmin, hres⟩
        · left
          refine ⟨hnone, fun f hlo hhi => ?_⟩
          by_cases hf : f < 64 * (w + 1)
          · exact hused f hlo hf
          · exact hrest f (by omega) (by omega)
        · right
          refine ⟨f, by omega, by omega, hfree, fun g hg hgf => ?_, hres⟩
          by_cases hg' : g < 64 * (w + 1)
          · exact hused g hg hg'
          · exact hmin g (by omega) hgf
      · right
        have hlt := BitArray.ctz_not_lt hfull
        obtain ⟨hclear, hbelow⟩ := BitArray.first_clear hfull
        have hidx : (BitVec.ofNat 64 w <<< 6) ||| (~~~ p.gFrameBitmap w).ctz =
            BitVec.ofNat 64 (64 * w + (~~~ p.gFrameBitmap w).ctz.toNat) := by
          rw [← shift_or_bit (by omega) hlt, BitVec.ofNat_toNat, BitVec.setWidth_eq]
        refine ⟨64 * w + (~~~ p.gFrameBitmap w).ctz.toNat, by omega, by omega, hclear,
          fun g hg hgf => hbelow g (by omega) hgf, ?_⟩
        simp only [pmmFrameAllocFrom, hfull, ↓reduceIte, hidx]
        rw [shiftLeft_pageShift (by omega)]

/-- `pmm_frame_alloc` fails when no frame it looks at is free, and otherwise takes the first one. -/
theorem pmmFrameAlloc_cases (p : Pmm) :
    (pmmFrameAlloc p = (pmmInvalidFrame, p) ∧ ∀ f < scannedFrames, p.used f = true) ∨
    ∃ f < scannedFrames, p.used f = false ∧ (∀ g < f, p.used g = true) ∧
      pmmFrameAlloc p = (frameAddr f, frameBitmapSet p (BitVec.ofNat 64 f)) := by
  have hcases := pmmFrameAllocFrom_cases p maxFrames.toNat 0 (by simp)
  simp only [Nat.mul_zero, Nat.zero_le, Nat.zero_add, true_implies, true_and] at hcases
  exact hcases

end BootKernel
