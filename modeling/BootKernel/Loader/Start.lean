import BootKernel.Loader.Idt.Table

/-!
# The jump to the kernel

`_start` of `kernelLoader/entry.asm` keeps the address of the boot information in the variable `bootinfo_ptr` while
`kmain` runs, and hands it on to the kernel. The variable is defined with one byte, and eight are stored: what the
linker puts behind it takes part in what the kernel gets.
-/

namespace BootKernel

open PortProgram

/-- What the kernel is entered with. -/
structure Handover where
  rip : BitVec 64
  rdi : BitVec 64
deriving DecidableEq, Repr

def loaderStack : Nat := 0x00020000

/-- `_start`, where `ret` is the address behind the call. -/
def loaderStart (sym : LoaderSymbols) (bootinfoPtr : Nat) (ret rdi : BitVec 64) (fuel : Nat) :
    Prog AtaBuffer Pc (Option Handover) := do
  store fun m => m.setRam fun ram => ram.store64 bootinfoPtr rdi
  store fun m => m.setRam fun ram => ram.store64 (loaderStack - 8 - 8) ret
  if (← kmain sym fuel) = .returned then
    load fun m => some ⟨BitVec.ofNat 64 kernelBase, m.store.ram.load64 bootinfoPtr⟩
  else
    return none

section
variable {dev : Pc → BitVec 16 → BitVec 8} {sym : LoaderSymbols} {fuel bootinfoPtr n k : Nat} {ret rdi : BitVec 64}
  {m m' : Pc} {h : Handover}

/-- The machine when `kmain` is called. -/
def Pc.called (bootinfoPtr : Nat) (ret rdi : BitVec 64) (m : Pc) : Pc :=
  (m.setRam fun ram => ram.store64 bootinfoPtr rdi).setRam fun ram => ram.store64 (loaderStack - 8 - 8) ret

theorem run_loaderStart (dev : Pc → BitVec 16 → BitVec 8) (sym : LoaderSymbols) (bootinfoPtr : Nat)
    (ret rdi : BitVec 64) (fuel : Nat) (m : Pc) :
    (pcBoard dev).run (loaderStart sym bootinfoPtr ret rdi fuel) m =
      let r := (pcBoard dev).run (kmain sym fuel) (m.called bootinfoPtr ret rdi)
      (if r.1 = .returned then some ⟨BitVec.ofNat 64 kernelBase, r.2.store.ram.load64 bootinfoPtr⟩ else none,
        r.2) := by
  rw [loaderStart, Board.run_store, Board.run_store, Board.run_bind]
  by_cases hr : ((pcBoard dev).run (kmain sym fuel) (m.called bootinfoPtr ret rdi)).1 = .returned
  · simp only [Pc.called] at hr ⊢
    simp only [hr, ↓reduceIte]
    rfl
  · simp only [Pc.called] at hr ⊢
    simp only [hr, ↓reduceIte]
    rfl

/-- A start that comes to its jump. -/
theorem loaderStart_returned
    (hrun : (pcBoard dev).run (loaderStart sym bootinfoPtr ret rdi fuel) m = (some h, m')) :
    h = ⟨BitVec.ofNat 64 kernelBase, m'.store.ram.load64 bootinfoPtr⟩ ∧
      m'.store.ram = ((m.called bootinfoPtr ret rdi).filled sym).store.ram ∧ m'.idtr = (256 * 16 - 1, sym.idt) := by
  rw [run_loaderStart] at hrun
  rcases hmain : (pcBoard dev).run (kmain sym fuel) (m.called bootinfoPtr ret rdi) with ⟨r, m₁⟩
  simp only [hmain] at hrun
  by_cases hr : r = .returned
  · simp only [hr, ↓reduceIte, Prod.mk.injEq, Option.some.injEq] at hrun
    obtain ⟨rfl, rfl⟩ := hrun
    exact ⟨rfl, kmain_memory hmain⟩
  · simp only [hr, ↓reduceIte, Prod.mk.injEq, reduceCtorEq, false_and] at hrun

/-- The table follows the variable after `n` bytes, as the sections of `link.ld` do, with no other variable between. -/
structure DataThenTable (sym : LoaderSymbols) (bootinfoPtr n : Nat) : Prop where
  bss : sym.bssStart = bootinfoPtr + n
  idt : sym.idt = bootinfoPtr + n
  text : loaderStack ≤ bootinfoPtr
  kernel : bootinfoPtr + 8 ≤ kernelBase

/-- The first gate, byte by byte. -/
theorem idtGate_byte (sym : LoaderSymbols) :
    (idtSlot sym 0).extractLsb' 0 8 = (sym.isr 0).setWidth 8 ∧
      (idtSlot sym 0).extractLsb' 8 8 = (sym.isr 0).extractLsb' 8 8 ∧ (idtSlot sym 0).extractLsb' 16 8 = 0x18 := by
  have hslot : idtSlot sym 0 = idtGate (sym.isr 0) kernelCs 0 idtAttrIntgate := if_pos (by decide)
  rw [hslot]
  refine ⟨extractLsb'_of_bits fun k hk => ?_, extractLsb'_of_bits fun k hk => ?_, extractLsb'_of_bits fun k hk => ?_⟩
  · rw [idtGate_bit, BitVec.getLsbD_setWidth]
    grind
  · rw [idtGate_bit, BitVec.getLsbD_extractLsb']
    grind
  · have hcs : kernelCs.extractLsb' 0 8 = 0x18 := by decide
    rw [idtGate_bit, ← hcs, BitVec.getLsbD_extractLsb']
    grind

/-- What the eight bytes of the variable hold in the end. -/
theorem called_byte (hsym : sym.Linked) (hlayout : DataThenTable sym bootinfoPtr n) (ret rdi : BitVec 64) (m : Pc)
    (hk : k < 8) :
    ((m.called bootinfoPtr ret rdi).filled sym).store.ram (bootinfoPtr + k) =
      if k < n then rdi.extractLsb' (8 * k) 8 else (idtSlot sym 0).extractLsb' (8 * (k - n)) 8 := by
  obtain ⟨hbss, hidt, htext, hkernel⟩ := hlayout
  have hstack : loaderStack = 0x20000 := rfl
  by_cases hkn : k < n
  · rw [if_pos hkn, hsym.before _ (by omega) (by omega), Pc.called, Pc.setRam_ram, Pc.setRam_ram, Memory.store64,
      if_neg (by omega), Memory.store64, if_pos (by omega), Nat.add_sub_cancel_left]
  · have hslot := hsym.slot (m.called bootinfoPtr ret rdi) 0 (i := k - n) (by omega)
    rw [if_neg hkn, ← hslot]
    refine congrArg _ ?_
    have hzero : (0 : BitVec 8).toNat = 0 := rfl
    omega

theorem low16_eq_zero_iff (v : BitVec 64) :
    v.setWidth 16 = (0 : BitVec 16) ↔ v.setWidth 8 = (0 : BitVec 8) ∧ v.extractLsb' 8 8 = 0 := by
  have h₁₆ : (0 : BitVec 16).toNat = 0 := rfl
  have h₈ : (0 : BitVec 8).toNat = 0 := rfl
  rw [← BitVec.toNat_inj, ← BitVec.toNat_inj, ← BitVec.toNat_inj, BitVec.toNat_setWidth, BitVec.toNat_setWidth,
    BitVec.extractLsb'_toNat, Nat.shiftRight_eq_div_pow, h₁₆, h₈]
  omega

/-- A pointer below 64 KiB, where `bootloader/boot2.asm` has the boot information, reaches the kernel only if the
table begins late enough, or if the address of the first handler ends in zeros. -/
theorem loaderStart_handover_iff (hsym : sym.Linked) (hlayout : DataThenTable sym bootinfoPtr n) (hn : 1 ≤ n)
    (hrdi : rdi.toNat < 2 ^ 16)
    (hrun : (pcBoard dev).run (loaderStart sym bootinfoPtr ret rdi fuel) m = (some h, m')) :
    h.rip = BitVec.ofNat 64 kernelBase ∧
      (h.rdi = rdi ↔ 8 ≤ n ∨ n = 7 ∧ (sym.isr 0).setWidth 8 = (0 : BitVec 8) ∨
        n = 6 ∧ (sym.isr 0).setWidth 16 = (0 : BitVec 16)) := by
  obtain ⟨rfl, hram, -⟩ := loaderStart_returned hrun
  refine ⟨rfl, ?_⟩
  obtain ⟨hlow, hmid, hcs⟩ := idtGate_byte sym
  have hhigh : ∀ k, 2 ≤ k → k < 8 → rdi.extractLsb' (8 * k) 8 = 0 := by
    intro k hlo hhi
    refine BitVec.eq_of_toNat_eq ?_
    rw [BitVec.extractLsb'_toNat, Nat.shiftRight_eq_div_pow, Nat.div_eq_of_lt]
    · rfl
    · exact Nat.lt_of_lt_of_le hrdi (Nat.pow_le_pow_right (by decide) (by omega))
  have hbyte := fun k (hk : k < 8) => called_byte hsym hlayout ret rdi m hk
  rw [Memory.load64_eq_iff, hram]
  constructor
  · intro hall
    have hgate : ∀ k, n ≤ k → 2 ≤ k → k < 8 → (idtSlot sym 0).extractLsb' (8 * (k - n)) 8 = 0 := by
      intro k hnk hlo hhi
      have hk := hall k hhi
      rwa [hbyte k hhi, if_neg (by omega), hhigh k hlo hhi] at hk
    by_cases h₅ : n ≤ 5
    · -- the selector of the gate is in the way
      have hselector := hgate (n + 2) (by omega) (by omega) (by omega)
      rw [Nat.add_sub_cancel_left, hcs] at hselector
      exact absurd hselector (by decide)
    · obtain rfl | rfl | h₈ : n = 6 ∨ n = 7 ∨ 8 ≤ n := by omega
      · refine .inr (.inr ⟨rfl, (low16_eq_zero_iff _).mpr ⟨hlow ▸ ?_, hmid ▸ ?_⟩⟩)
        · exact hgate 6 (by omega) (by omega) (by omega)
        · exact hgate 7 (by omega) (by omega) (by omega)
      · exact .inr (.inl ⟨rfl, hlow ▸ hgate 7 (by omega) (by omega) (by omega)⟩)
      · exact .inl h₈
  · intro hcond k hk
    rw [hbyte k hk]
    by_cases hkn : k < n
    · rw [if_pos hkn]
    · rw [if_neg hkn]
      rcases hcond with h₈ | ⟨rfl, hzero⟩ | ⟨rfl, hzero⟩
      · omega
      · obtain rfl : k = 7 := by omega
        exact (hlow.trans hzero).trans (hhigh 7 (by omega) (by omega)).symm
      · obtain ⟨hzero₀, hzero₁⟩ := (low16_eq_zero_iff _).mp hzero
        obtain rfl | rfl : k = 6 ∨ k = 7 := by omega
        · exact (hlow.trans hzero₀).trans (hhigh 6 (by omega) (by omega)).symm
        · exact (hmid.trans hzero₁).trans (hhigh 7 (by omega) (by omega)).symm

end

/-- The table right behind the variable, four bytes on. -/
theorem loaderStart_handover_lost :
    ∃ h m', (pcBoard servingDrive).run (loaderStart linkedSymbols 0x214DC 0x20020 0x8200 1) (diskOf 0) =
      (some h, m') ∧ h.rdi ≠ 0x8200 := by
  obtain ⟨m', hmain⟩ := kmain_ends linkedSymbols ((diskOf 0).called 0x214DC 0x20020 0x8200) rfl
  have hrun := run_loaderStart servingDrive linkedSymbols 0x214DC 0x20020 0x8200 1 (diskOf 0)
  simp only [hmain, ↓reduceIte] at hrun
  have hlayout : DataThenTable linkedSymbols 0x214DC 4 := ⟨rfl, rfl, by decide, by decide⟩
  obtain ⟨-, hiff⟩ := loaderStart_handover_iff linkedSymbols_linked hlayout (by decide) (by decide) hrun
  refine ⟨_, _, hrun, fun heq => ?_⟩
  have hcond := hiff.mp heq
  omega

end BootKernel
