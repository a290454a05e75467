import Mathlib.Algebra.Order.Ring.Nat

/-!
# Shared types and constants

The part of `kernel/common.h` that the allocator and the paging code use, and the two symbols that
`kernel/link.ld` places around the kernel image.
-/

namespace BootKernel

def pageShift : Nat := 12
def pageSize : BitVec 64 := 1 <<< pageShift
def hhdmOffset : BitVec 64 := 0xFFFF800000000000
def gibSize : BitVec 64 := 1 <<< 30
def psBit : BitVec 64 := 1 <<< 7

@[simp] theorem pageSize_toNat : pageSize.toNat = 4096 := by decide
@[simp] theorem hhdmOffset_toNat : hhdmOffset.toNat = 0xFFFF800000000000 := by decide
@[simp] theorem gibSize_toNat : gibSize.toNat = 2 ^ 30 := by decide

/-- One descriptor of the firmware's memory map. -/
structure E820Entry where
  base : BitVec 64
  length : BitVec 64
  type : BitVec 32
  attr : BitVec 32
deriving DecidableEq, Repr

/-- The symbols `__kernel_start` and `__kernel_end`, which the linker script aligns to pages. -/
structure KernelImage where
  kernelStart : BitVec 64
  kernelEnd : BitVec 64
  start_aligned : kernelStart.toNat % 4096 = 0
  end_aligned : kernelEnd.toNat % 4096 = 0
  start_le_end : kernelStart.toNat ≤ kernelEnd.toNat

def alignDown (addr : BitVec 64) : BitVec 64 := addr &&& ~~~ (pageSize - 1)

def alignUp (addr : BitVec 64) : BitVec 64 := (addr + pageSize - 1) &&& ~~~ (pageSize - 1)

/-! ## Page arithmetic -/

theorem alignDown_toNat (addr : BitVec 64) :
    (alignDown addr).toNat = addr.toNat / 4096 * 4096 := by
  have hmask : alignDown addr = (addr >>> 12) <<< 12 := by
    apply BitVec.eq_of_getLsbD_eq
    intro i hi
    have hlow : (~~~ (pageSize - 1)).getLsbD i = decide (12 ≤ i) := by
      revert i; decide
    simp only [alignDown, BitVec.getLsbD_and, hlow, BitVec.getLsbD_shiftLeft, hi, decide_true,
      Bool.true_and, BitVec.getLsbD_ushiftRight]
    by_cases h : i < 12
    · simp [h, Nat.not_le.mpr h]
    · simp [h, Nat.le_of_not_lt h, show 12 + (i - 12) = i by omega]
  have hlt := addr.isLt
  rw [hmask, BitVec.toNat_shiftLeft, BitVec.toNat_ushiftRight, Nat.shiftLeft_eq,
    Nat.shiftRight_eq_div_pow]
  omega

theorem alignDown_aligned {addr : BitVec 64} (h : addr.toNat % 4096 = 0) : alignDown addr = addr := by
  apply BitVec.eq_of_toNat_eq
  rw [alignDown_toNat]
  omega

/-- Rounding up adds first, so it wraps within a page of the top of the address space. -/
theorem alignUp_toNat (addr : BitVec 64) :
    (alignUp addr).toNat = (addr.toNat + 4095) % 2 ^ 64 / 4096 * 4096 := by
  have hadd : addr + pageSize - 1 = addr + 4095#64 := by
    rw [BitVec.sub_eq_add_neg, BitVec.add_assoc]
    rfl
  have hdown : (alignUp addr).toNat = (alignDown (addr + 4095#64)).toNat := by
    rw [alignUp, hadd, alignDown]
  rw [hdown, alignDown_toNat, BitVec.toNat_add]
  rfl

theorem alignUp_toNat_of_le {addr : BitVec 64} (h : addr.toNat ≤ 2 ^ 64 - 4096) :
    (alignUp addr).toNat = (addr.toNat + 4095) / 4096 * 4096 := by
  rw [alignUp_toNat, Nat.mod_eq_of_lt (by omega)]

theorem alignUp_aligned {addr : BitVec 64} (h : addr.toNat % 4096 = 0) : alignUp addr = addr := by
  apply BitVec.eq_of_toNat_eq
  rw [alignUp_toNat_of_le (by omega)]
  omega

end BootKernel
