import BootKernel.Vmm.Lemmas.Boot
import Mathlib.Data.List.GetD

/-!
# The page tables of `boot2.asm`

The tables that the second stage loads into CR3 before it jumps to the kernel loader, as they are
assembled, and what the processor finds in them: the first 16 MiB map to themselves, and no other
address is mapped.
-/

namespace BootKernel

open Radix

/-! ## The tables -/

/-- The table at the label `pml4`; the label `pdpt` is the address of the frame. -/
def bootPml4 (pdpt : Nat) : List (BitVec 64) := (frameAddr pdpt + 0b11) :: List.replicate 511 0

/-- The table at the label `pdpt`. -/
def bootPdpt (pd : Nat) : List (BitVec 64) := (frameAddr pd + 0b11) :: List.replicate 511 0

/-- The table at the label `pd`. -/
def bootPd : List (BitVec 64) :=
  [0x00000083, 0x00200083, 0x00400083, 0x00600083, 0x00800083, 0x00A00083, 0x00C00083, 0x00E00083] ++
    List.replicate (512 - 8) 0

def HoldsTable (mem : Memory) (f : Nat) (table : List (BitVec 64)) : Prop :=
  ∀ i : Fin 512, tableEntry mem f i = table.getD i 0

/-- Memory and CR3 after `enter_long_mode`. -/
structure BootPaging (mem : Memory) (cr3 : BitVec 64) (pdpt pd : Nat) : Prop where
  pml4_table : HoldsTable mem (entryFrame cr3) (bootPml4 pdpt)
  pdpt_table : HoldsTable mem pdpt (bootPdpt pd)
  pd_table : HoldsTable mem pd bootPd
  pdpt_lt : pdpt < 2 ^ 40
  pd_lt : pd < 2 ^ 40

/-! ## What they translate -/

section
variable {mem : Memory} {cr3 va : BitVec 64} {f g pdpt pd : Nat} {i : Fin 512}

theorem frameAddr_add_flags (g : Nat) : frameAddr g + 0b11 = linkEntry g := by
  have hflags : frameAddr g &&& 0b11 = 0 := by
    apply BitVec.eq_of_getLsbD_eq
    intro i hi
    have hbits : ∀ i < 64, 12 ≤ i → (0b11 : BitVec 64).getLsbD i = false := by decide
    rw [BitVec.getLsbD_and]
    by_cases hlow : i < 12
    · rw [getLsbD_frameAddr_low hlow, Bool.false_and]
      exact BitVec.getLsbD_zero.symm
    · rw [hbits i hi (by omega), Bool.and_false]
      exact BitVec.getLsbD_zero.symm
  rw [BitVec.add_eq_or_of_and_eq_zero _ _ hflags, linkEntry, BitVec.or_assoc]
  rfl

/-- A table whose only entry is the link in its slot 0. -/
theorem HoldsTable.slot {depth : Nat} (h : HoldsTable mem f ((frameAddr g + 0b11) :: List.replicate 511 0))
    (hg : g < 2 ^ 40) (hdepth : depth < 3) (i : Fin 512) :
    slots mem depth f i = if i = 0 then .node g else .empty := by
  rw [slots, h i]
  by_cases hi : i = 0
  · rw [if_pos hi, hi]
    exact (congrArg (entrySlot depth) (frameAddr_add_flags g)).trans (entrySlot_linkEntry hg hdepth)
  · have hlt := i.isLt
    obtain ⟨n, hn⟩ := Nat.exists_eq_succ_of_ne_zero (Fin.val_ne_zero_iff.mpr hi)
    rw [if_neg hi, hn, List.getD_cons_succ, List.getD_replicate _ (by omega)]
    exact entrySlot_empty (by decide)

theorem bootPd_getD (i : Fin 512) :
    bootPd.getD i 0 = if (i : Nat) < 8 then BitVec.ofNat 64 (i * 2 ^ 21 + 0x83) else 0 := by
  have hlt := i.isLt
  by_cases hi : (i : Nat) < 8
  · have hlow : ∀ k < 8, bootPd.getD k 0 = BitVec.ofNat 64 (k * 2 ^ 21 + 0x83) := by decide
    rw [if_pos hi, hlow i hi]
  · rw [if_neg hi, bootPd, List.getD_append_right _ _ _ _ (by simpa using hi)]
    simp only [List.length_cons, List.length_nil]
    exact List.getD_replicate _ (by omega)

/-- The entries of the page directory: eight large pages of 2 MiB. -/
theorem HoldsTable.pd_slot (h : HoldsTable mem f bootPd) (i : Fin 512) :
    slots mem 2 f i = if (i : Nat) < 8 then .leaf (BitVec.ofNat 64 (i * 2 ^ 21 + 0x83)) else .empty := by
  rw [slots, h i, bootPd_getD]
  by_cases hi : (i : Nat) < 8
  · have hleaf : ∀ k < 8, entrySlot 2 (BitVec.ofNat 64 (k * 2 ^ 21 + 0x83)) =
        .leaf (BitVec.ofNat 64 (k * 2 ^ 21 + 0x83)) := by decide
    rw [if_pos hi, if_pos hi, hleaf i hi]
  · rw [if_neg hi, if_neg hi]
    exact entrySlot_empty (by decide)

theorem bootPaging_leaf {n : Nat} (hn : n < 8) (hva : va.toNat / 2 ^ 21 = n) :
    (BitVec.ofNat 64 (n * 2 ^ 21 + 0x83) &&& 0x000FFFFFFFE00000) ||| (va &&& 0x1FFFFF) = va := by
  have hbase : ∀ n < 8, (BitVec.ofNat 64 (n * 2 ^ 21 + 0x83) &&& 0x000FFFFFFFE00000).toNat = n * 2 ^ 21 := by
    decide
  have hoff : (va &&& 0x1FFFFF).toNat = va.toNat % 2 ^ 21 := by
    rw [BitVec.toNat_and]
    exact Nat.and_two_pow_sub_one_eq_mod _ 21
  apply BitVec.eq_of_toNat_eq
  rw [or_toNat 21 (by rw [hbase n hn]; omega) (by omega), hbase n hn, hoff]
  omega

theorem vaIndex_eq_zero (va : BitVec 64) (shift : Nat) : vaIndex va shift = 0 ↔ va.toNat / 2 ^ shift % 512 = 0 := by
  rw [← Fin.val_eq_zero_iff]
  rfl

/-- The boot tables map the first 16 MiB to themselves and nothing else. -/
theorem BootPaging.translate (h : BootPaging mem cr3 pdpt pd) (hcanon : Canonical va) :
    translate mem cr3 va = if va.toNat < 0x1000000 then some va else none := by
  have hlt := va.isLt
  have h39 := vaIndex_eq_zero va 39
  have h30 := vaIndex_eq_zero va 30
  have h21 : (vaIndex va 21 : Nat) = va.toNat / 2 ^ 21 % 512 := rfl
  have hcanon' : va.toNat < 2 ^ 47 ∨ 2 ^ 64 - 2 ^ 47 ≤ va.toNat := hcanon
  rw [BootKernel.translate, walk, vaPath_eq]
  simp only [lookup, h.pml4_table.slot h.pdpt_lt (show 0 < 3 by decide)]
  by_cases hpml4 : vaIndex va 39 = 0
  · simp only [hpml4, ↓reduceIte, Nat.zero_add, h.pdpt_table.slot h.pd_lt (show 1 < 3 by decide)]
    rw [h39] at hpml4
    by_cases hpdpt : vaIndex va 30 = 0
    · simp only [hpdpt, ↓reduceIte, Nat.reduceAdd, h.pd_table.pd_slot]
      rw [h30] at hpdpt
      by_cases hpd : (vaIndex va 21 : Nat) < 8
      · rw [if_pos hpd, if_pos (by omega)]
        simp only
        rw [bootPaging_leaf hpd (by omega)]
      · rw [if_neg hpd, if_neg (by omega)]
    · simp only [hpdpt, ↓reduceIte]
      rw [h30] at hpdpt
      rw [if_neg (by omega)]
  · simp only [hpml4, ↓reduceIte]
    rw [h39] at hpml4
    rw [if_neg (by omega)]

end

/-! ## The tables in memory -/

/-- A memory that holds the given tables. -/
def tableMemory (tables : Nat → List (BitVec 64)) : Memory :=
  fun x => ((tables (x / 4096)).getD (x % 4096 / 8) 0).extractLsb' (8 * (x % 8)) 8

theorem holdsTable_tableMemory (tables : Nat → List (BitVec 64)) (f : Nat) :
    HoldsTable (tableMemory tables) f (tables f) := by
  intro i
  have hi := i.isLt
  have hbyte : ∀ k < 8, tableMemory tables (f * 4096 + 8 * i + k) =
      ((tables f).getD i 0).extractLsb' (8 * k) 8 := by
    intro k hk
    have hframe : (f * 4096 + 8 * i + k) / 4096 = f := by omega
    have hslot : (f * 4096 + 8 * i + k) % 4096 / 8 = i := by omega
    have hoff : (f * 4096 + 8 * i + k) % 8 = k := by omega
    rw [tableMemory, hframe, hslot, hoff]
  have h₀ : tableMemory tables (f * 4096 + 8 * i) = ((tables f).getD i 0).extractLsb' 0 8 := by
    have hzero := hbyte 0 (by omega)
    rwa [Nat.add_zero, Nat.mul_zero] at hzero
  rw [tableEntry, Memory.load64]
  rw [hbyte 7 (by omega), hbyte 6 (by omega), hbyte 5 (by omega), hbyte 4 (by omega), hbyte 3 (by omega),
    hbyte 2 (by omega), hbyte 1 (by omega), h₀]
  exact Memory.extract_bytes _

/-- The tables as they lie when the code and the data of `boot2.asm` take up its first page. -/
def bootMemory : Memory := tableMemory fun f =>
  if f = 9 then bootPml4 10 else if f = 10 then bootPdpt 11 else if f = 11 then bootPd else []

theorem bootMemory_paging : BootPaging bootMemory 0x9000 10 11 where
  pml4_table := holdsTable_tableMemory _ 9
  pdpt_table := holdsTable_tableMemory _ 10
  pd_table := holdsTable_tableMemory _ 11
  pdpt_lt := by decide
  pd_lt := by decide

end BootKernel
