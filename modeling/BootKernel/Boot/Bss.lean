import BootKernel.Lib.Spill
import BootKernel.Pmm.Defs
import Mathlib.Algebra.Order.Ring.Nat

/-!
# Clearing the zeroed section

Both programs begin `kmain` with `for (char *p = __bss_start; p < __bss_end; p++) *p = 0;`. They are built without
optimisation, so `p` is on the stack. The stack of the kernel loader ends below its image, while the one of the kernel
lies in the section that is cleared.
-/

namespace BootKernel

/-- The loop, with `p` in the eight bytes from `slot`. -/
def bssClear (slot : Nat) (bssStart bssEnd : BitVec 64) (fuel : Nat) (m : Memory) : Option Memory :=
  Spill.loop slot bssEnd (fun p m => m.store8 p 0) fuel (m.store64 slot bssStart)

/-- Where the loop clears a byte of its own variable, that byte of `p` is zero already. -/
def SparesPointer (slot : Nat) (bssStart bssEnd : BitVec 64) : Prop :=
  ∀ i < 8, bssStart.toNat ≤ slot + i → slot + i < bssEnd.toNat → (slot + i) >>> (8 * i) % 256 = 0

section
variable {slot fuel i : Nat} {bssStart bssEnd v : BitVec 64} {m : Memory} {p : Nat}

theorem store8_store64 (h : p < slot ∨ slot + 8 ≤ p) (m : Memory) (v : BitVec 64) :
    (m.store64 slot v).store8 p 0 = (m.store8 p 0).store64 slot v := by
  funext x
  simp only [Memory.store8, Memory.store64]
  by_cases hx : x = p
  · subst hx
    rw [if_pos rfl, if_neg (by omega), if_pos rfl]
  · rw [if_neg hx, if_neg hx]

theorem byte_eq_zero (v : BitVec 64) (i : Nat) : v.extractLsb' (8 * i) 8 = 0 ↔ v.toNat >>> (8 * i) % 256 = 0 := by
  rw [← BitVec.toNat_inj, BitVec.extractLsb'_toNat]
  rfl

/-- Clearing a byte that is zero. -/
theorem store8_store64_zero (hi : i < 8) (hzero : v.extractLsb' (8 * i) 8 = 0) (m : Memory) :
    (m.store64 slot v).store8 (slot + i) 0 = (m.store8 (slot + i) 0).store64 slot v := by
  funext x
  simp only [Memory.store8, Memory.store64]
  by_cases hx : x = slot + i
  · rw [if_pos hx, if_pos (by omega), hx, Nat.add_sub_cancel_left, hzero]
  · rw [if_neg hx, if_neg hx]

theorem load64_store8_outside (h : p < slot ∨ slot + 8 ≤ p) (m : Memory) :
    (m.store8 p 0).load64 slot = m.load64 slot := by
  refine Memory.load64_congr fun x hlo hhi => ?_
  rw [Memory.store8, if_neg (by omega)]

/-- Clearing a byte of a number takes nothing but ones from it. -/
theorem load64_store8_and (i : Nat) (m : Memory) :
    (m.store8 (slot + i) 0).load64 slot = m.load64 slot &&& (m.store8 (slot + i) 0).load64 slot := by
  refine Memory.load64_eq_of_bytes fun j hj => ?_
  rw [BitVec.extractLsb'_and, Memory.load64_byte _ _ hj, Memory.load64_byte _ _ hj, Memory.store8]
  by_cases hji : slot + j = slot + i
  · rw [if_pos hji]
    exact BitVec.and_zero.symm
  · rw [if_neg hji, BitVec.and_self]

theorem load64_store8_le (slot p : Nat) (m : Memory) :
    ((m.store8 p 0).load64 slot).toNat ≤ (m.load64 slot).toNat := by
  by_cases h : p < slot ∨ slot + 8 ≤ p
  · rw [load64_store8_outside h]
  · obtain ⟨i, rfl⟩ := Nat.exists_eq_add_of_le (show slot ≤ p by omega)
    rw [load64_store8_and, BitVec.toNat_and]
    exact Nat.and_le_left

/-- Clearing a byte that is not zero makes the number smaller. -/
theorem load64_store8_lt (hi : i < 8) (h : (m.load64 slot).toNat >>> (8 * i) % 256 ≠ 0) :
    ((m.store8 (slot + i) 0).load64 slot).toNat < (m.load64 slot).toNat := by
  refine lt_of_le_of_ne (load64_store8_le _ _ m) fun heq => h ?_
  rw [← byte_eq_zero, ← BitVec.eq_of_toNat_eq heq, Memory.load64_byte _ _ hi, Memory.store8, if_pos rfl]

/-- With a variable that is spared the loop does what it says. -/
theorem bssClear_spared (hle : bssStart.toNat ≤ bssEnd.toNat) (hspares : SparesPointer slot bssStart bssEnd)
    (hfuel : bssEnd.toNat - bssStart.toNat < fuel) (m : Memory) :
    bssClear slot bssStart bssEnd fuel m =
      some ((Loop.forRange bssStart.toNat bssEnd.toNat (fun p m => m.store8 p 0) m).store64 slot bssEnd) := by
  refine Spill.loop_plain (fun m v hlo hhi => ?_) hle hfuel m
  by_cases h : v.toNat < slot ∨ slot + 8 ≤ v.toNat
  · exact store8_store64 h m v
  · obtain ⟨i, hi⟩ := Nat.exists_eq_add_of_le (show slot ≤ v.toNat by omega)
    have hzero : v.extractLsb' (8 * i) 8 = 0 := by
      rw [byte_eq_zero, hi]
      exact hspares i (by omega) (by omega) (by omega)
    simp only [hi]
    exact store8_store64_zero (by omega) hzero m

/-- Clearing a byte that is not zero sets the pointer back, and it never gets past that byte. -/
theorem bssClear_endless (hi : i < 8) (hlo : bssStart.toNat ≤ slot + i) (hhi : slot + i < bssEnd.toNat)
    (hbyte : (slot + i) >>> (8 * i) % 256 ≠ 0) (fuel : Nat) (m : Memory) :
    bssClear slot bssStart bssEnd fuel m = none := by
  refine Spill.loop_endless (fun m => (m.load64 slot).toNat ≤ slot + i) (fun m hm => ?_) (fun m hm => ?_) ?_
  · exact BitVec.lt_def.mpr (by omega)
  · have hfit := bssEnd.isLt
    have hone : (1 : BitVec 64).toNat = 1 := rfl
    rw [Memory.load64_store64_same, BitVec.toNat_add, hone]
    by_cases heq : (m.load64 slot).toNat = slot + i
    · have hless := load64_store8_lt (m := m) hi (by rwa [heq])
      rw [heq] at hless ⊢
      omega
    · have hless := load64_store8_le slot (m.load64 slot).toNat m
      omega
  · rw [Memory.load64_store64_same]
    exact hlo

/-- The loop ends exactly when it spares its own variable, and then it has cleared the section. -/
theorem bssClear_ends_iff (slot : Nat) (hle : bssStart.toNat ≤ bssEnd.toNat) (m : Memory) :
    ((∃ fuel m', bssClear slot bssStart bssEnd fuel m = some m') ↔ SparesPointer slot bssStart bssEnd) ∧
      ∀ fuel m', bssClear slot bssStart bssEnd fuel m = some m' →
        m' = (Loop.forRange bssStart.toNat bssEnd.toNat (fun p m => m.store8 p 0) m).store64 slot bssEnd := by
  have hspares : ∀ fuel m', bssClear slot bssStart bssEnd fuel m = some m' → SparesPointer slot bssStart bssEnd := by
    intro fuel m' hend i hi hlo hhi
    by_contra hbyte
    rw [bssClear_endless hi hlo hhi hbyte] at hend
    cases hend
  refine ⟨⟨fun ⟨fuel, m', hend⟩ => hspares fuel m' hend, fun h => ?_⟩, fun fuel m' hend => ?_⟩
  · exact ⟨_, _, bssClear_spared hle h (Nat.lt_succ_self _) m⟩
  · have hplain := bssClear_spared hle (hspares fuel m' hend)
      (show _ < fuel + (bssEnd.toNat - bssStart.toNat) + 1 by omega) m
    have hmono := Spill.loop_mono (show fuel ≤ fuel + (bssEnd.toNat - bssStart.toNat) + 1 by omega) hend
    exact Option.some.inj (hmono.symm.trans hplain)

/-- A variable outside of the section is spared. -/
theorem sparesPointer_outside (h : slot + 8 ≤ bssStart.toNat ∨ bssEnd.toNat ≤ slot) :
    SparesPointer slot bssStart bssEnd := fun _ _ _ _ => by omega

/-- Inside it the lowest byte of the variable decides, unless it is zero. -/
theorem sparesPointer_iff (hlo : bssStart.toNat ≤ slot) (hlow : slot % 256 ≠ 0) :
    SparesPointer slot bssStart bssEnd ↔ bssEnd.toNat ≤ slot := by
  refine ⟨fun h => ?_, fun h => sparesPointer_outside (.inr h)⟩
  by_contra hhi
  exact hlow (h 0 (by omega) hlo (by omega))

/-- The kernel, with its variable on the stack and a bitmap in the section. -/
theorem bssClear_ends_iff_kernel :
    ¬ ∃ fuel m', bssClear 0x6FFFE8 0x404000 0x3404000 fuel (fun _ => 0) = some m' := by
  rw [(bssClear_ends_iff 0x6FFFE8 (by decide) _).1, sparesPointer_iff (by decide) (by decide)]
  decide

end

/-! ## The kernel's own section -/

/-- The kernel as `kernel/link.ld` lays it out, with the words of `g_frame_bitmap` among its variables. -/
structure KernelSection (bssStart bssEnd : BitVec 64) : Prop where
  image : 0x400000 ≤ bssStart.toNat
  code : bssStart.toNat ≤ 0x6FFF00
  bitmap : bssStart.toNat + 8 * bitmapBytes.toNat ≤ bssEnd.toNat

/-- The first variables on the stack that `kernel/entry.asm` sets up are cleared with the section. -/
theorem kernelSection_endless {bssStart bssEnd : BitVec 64} (h : KernelSection bssStart bssEnd) {slot : Nat}
    (hlo : 0x6FFF00 < slot) (hhi : slot + 8 ≤ 0x700000) (fuel : Nat) (m : Memory) :
    bssClear slot bssStart bssEnd fuel m = none := by
  have hbitmap := h.bitmap
  have himage := h.image
  have hcode := h.code
  have hbytes : bitmapBytes.toNat = 2 ^ 21 := by decide
  exact bssClear_endless (i := 0) (by omega) (by omega) (by omega)
    (show slot % 256 ≠ 0 by omega) fuel m

end BootKernel
