import BootKernel.Boot.Paging
import BootKernel.Loader.Defs
import BootKernel.Vmm.Supply

/-!
# What the switch of CR3 leaves behind

The kernel installs no tables of its own: it goes on with the GDT of `boot2.asm`, with the IDT and the
handlers of the kernel loader, and with the `boot_info_t` in the second stage. The new tables map the
kernel image and a window of the stack, so that these structures are reached after the switch exactly if
they lie there.
-/

namespace BootKernel

open Radix

/-! ## The live structures -/

/-- Where the structures lie that stay in use, and how long each handler is. -/
structure BootStructures where
  gdt : Nat
  bootinfo : Nat
  loader : LoaderSymbols
  isrBytes : BitVec 8 → Nat

/-- Four descriptors, from `gdt` to `gdt_end`. -/
def gdtBytes : Nat := 4 * 8

/-- `sizeof(boot_info_t)`, which is packed. -/
def bootInfoBytes : Nat := 2 + 64 * 24 + 4 * 2 + 1 + 1 + 4

/-- One of the `n` bytes from `base` on. -/
def InBytes (base n : Nat) (va : BitVec 64) : Prop := base ≤ va.toNat ∧ va.toNat < base + n

def BootStructures.Live (b : BootStructures) (va : BitVec 64) : Prop :=
  InBytes b.gdt gdtBytes va ∨ InBytes b.loader.idt (256 * 16) va ∨
    (∃ vec ∈ idtVectors, InBytes (b.loader.isr vec).toNat (b.isrBytes vec) va) ∨
    InBytes b.bootinfo bootInfoBytes va

/-- Every live byte is found where the boot tables have it. -/
def KeepsBoot (b : BootStructures) (m m' : Machine) : Prop :=
  ∀ va, b.Live va → translate m'.mem m'.cr3 va = translate m.mem m.cr3 va

/-- The structures lie in the image or in the window of the stack. -/
def BootStructures.Inside (b : BootStructures) (env : BootEnv) : Prop :=
  ∀ va, b.Live va → env.image.kernelStart ≤ va ∧ va < env.image.kernelEnd ∨
    alignDown (env.rsp - 256 * 1024) ≤ va ∧ va < alignUp (env.rsp + pageSize)

/-- The second stage runs from 0x8000 and the loader from 0x20000, both below the image, which is linked at
0x400000; the stack pointer is set to 0x700000. -/
structure BootStructures.Linked (b : BootStructures) (env : BootEnv) : Prop where
  gdt : b.gdt + gdtBytes ≤ 0x20000
  bootinfo : b.bootinfo + bootInfoBytes ≤ 0x20000
  idt : b.loader.idt + 256 * 16 ≤ 0x400000
  isr : ∀ vec ∈ idtVectors, (b.loader.isr vec).toNat + b.isrBytes vec ≤ 0x400000
  image : 0x400000 ≤ env.image.kernelStart.toNat
  stack : 0x400000 + 256 * 1024 ≤ env.rsp.toNat

/-! ## The two translations -/

section
variable {b : BootStructures} {map : List E820Entry} {p : Pmm} {env : BootEnv} {m m' : Machine} {fuel : Nat}
  {va : BitVec 64}

theorem BootStructures.Linked.low (h : b.Linked env) (hlive : b.Live va) : va.toNat < 0x400000 := by
  have hgdt := h.gdt
  have hbootinfo := h.bootinfo
  have hidt := h.idt
  rcases hlive with ⟨-, hlt⟩ | ⟨-, hlt⟩ | ⟨vec, hvec, -, hlt⟩ | ⟨-, hlt⟩
  · omega
  · omega
  · have hisr := h.isr vec hvec
    omega
  · omega

theorem BootStructures.Linked.not_inside (h : b.Linked env) (hplaced : env.Low) (hlive : b.Live va) :
    va.toNat / 4096 ∉ env.identityPages := by
  have hlt := h.low hlive
  have himage := h.image
  have hstack := h.stack
  have hstart := hplaced.start_toNat
  rintro (⟨hle, -⟩ | ⟨hle, -⟩)
  · omega
  · omega

/-- The new tables map what lies below 2^47 to itself or not at all. -/
theorem vmmInit_translate_low (hpmm : m.pmm = pmmInit map env.image p)
    (hplaced : env.Placed (pmmHighestAddressGet m.pmm)) (hfuel : 2 ^ 64 ≤ fuel)
    (hinit : vmmInit fuel env m = some (true, m')) (hva : va.toNat < 2 ^ 47) :
    (va.toNat / 4096 ∈ env.identityPages → translate m'.mem m'.cr3 va = some va) ∧
      (va.toNat / 4096 ∉ env.identityPages → translate m'.mem m'.cr3 va = none) := by
  obtain ⟨root, -, hcr3, hboot⟩ := vmmInit_bootTree hpmm hplaced hfuel hinit
  rw [hcr3]
  exact hboot.translate_low hva

/-- Below 16 MiB an address keeps its translation exactly if it lies in an identity page. -/
theorem translate_kept_iff {pdpt pd : Nat} (hpmm : m.pmm = pmmInit map env.image p)
    (hplaced : env.Placed (pmmHighestAddressGet m.pmm)) (hfuel : 2 ^ 64 ≤ fuel)
    (hinit : vmmInit fuel env m = some (true, m')) (hboot : BootPaging m.mem m.cr3 pdpt pd)
    (hva : va.toNat < 0x1000000) :
    translate m'.mem m'.cr3 va = translate m.mem m.cr3 va ↔ va.toNat / 4096 ∈ env.identityPages := by
  obtain ⟨hin, hout⟩ := vmmInit_translate_low hpmm hplaced hfuel hinit (show va.toNat < 2 ^ 47 by omega)
  rw [hboot.translate (Or.inl (by omega)), if_pos hva]
  constructor
  · intro hkept
    by_contra hpage
    rw [hout hpage] at hkept
    cases hkept
  · exact hin

end

/-! ## The live structures after the switch -/

/-- The switch keeps the live structures if they lie in the image or the window of the stack and the ceiling
is at most 2^47. With such a ceiling it keeps them only then, and where the three programs are linked it
keeps no byte of them. -/
theorem vmmInit_keepsBoot_iff (b : BootStructures) (map : List E820Entry) (p : Pmm) (env : BootEnv)
    (m m' : Machine) (fuel pdpt pd : Nat) (hpmm : m.pmm = pmmInit map env.image p)
    (himage : env.image.kernelEnd.toNat ≤ 64 * 2 ^ 20) (hwindow : 256 * 1024 ≤ env.rsp.toNat)
    (hstack : env.rsp.toNat ≤ 0x700000) (hboot : BootPaging m.mem m.cr3 pdpt pd)
    (hlive : ∀ va, b.Live va → va.toNat < 0x1000000) (hfuel : 2 ^ 64 ≤ fuel)
    (hinit : vmmInit fuel env m = some (true, m')) :
    (b.Inside env → (pmmHighestAddressGet m.pmm).toNat ≤ 2 ^ 47 → KeepsBoot b m m') ∧
      ((pmmHighestAddressGet m.pmm).toNat ≤ 2 ^ 47 → (KeepsBoot b m m' ↔ b.Inside env) ∧
        (b.Linked env → ∀ va, b.Live va → translate m'.mem m'.cr3 va = none ∧
          translate m.mem m.cr3 va = some va)) := by
  have hiff : (pmmHighestAddressGet m.pmm).toNat ≤ 2 ^ 47 → (KeepsBoot b m m' ↔ b.Inside env) := by
    intro hceil
    have hplaced : env.Placed (pmmHighestAddressGet m.pmm) := ⟨himage, hwindow, hstack, hceil⟩
    refine forall_congr' fun va => forall_congr' fun hva => ?_
    rw [translate_kept_iff hpmm hplaced hfuel hinit hboot (hlive va hva)]
    exact BootEnv.mem_identityPages hplaced.low va
  refine ⟨fun hinside hceil => (hiff hceil).mpr hinside, fun hceil => ⟨hiff hceil, fun hlinked va hva => ?_⟩⟩
  have hplaced : env.Placed (pmmHighestAddressGet m.pmm) := ⟨himage, hwindow, hstack, hceil⟩
  have hlow := hlinked.low hva
  refine ⟨?_, ?_⟩
  · exact (vmmInit_translate_low hpmm hplaced hfuel hinit (by omega)).2 (hlinked.not_inside hplaced.low hva)
  · rw [hboot.translate (Or.inl (by omega)), if_pos (by omega)]

/-! ## A machine that has been booted -/

/-- The structures of a machine, those of the second stage where it is assembled to. -/
def sampleStructures : BootStructures where
  gdt := 0x8876
  bootinfo := 0x8150
  loader := ⟨0x23000, 0x24000, 0x23000, fun vec => 0x21000 + 0x40 * vec.setWidth 64⟩
  isrBytes := fun _ => 0x40

theorem sampleStructures_linked : sampleStructures.Linked sampleEnv where
  gdt := by decide
  bootinfo := by decide
  idt := by decide
  isr := by decide
  image := by decide
  stack := by decide

theorem sampleStructures_low (va : BitVec 64) (h : sampleStructures.Live va) : va.toNat < 0x1000000 := by
  have hlt := sampleStructures_linked.low h
  omega

/-- 2 GiB of memory, after `pmm_init` under the boot tables. -/
def bootedMachine : Machine := { ramMachine [] bootMemory with cr3 := 0x9000 }

theorem bootedMachine_pmm : bootedMachine.pmm = pmmInit [ramEntry] sampleEnv.image fullPmm := by
  have hpmm : (ramMachine [] bootMemory).pmm = pmmInit [ramEntry] sampleEnv.image fullPmm := ramMachine_pmm
  rw [← hpmm, bootedMachine]

theorem bootedMachine_ceiling : pmmHighestAddressGet bootedMachine.pmm = 0x80000000 := by
  rw [← ramMachine_highest bootMemory, bootedMachine]

theorem bootedMachine_paging : BootPaging bootedMachine.mem bootedMachine.cr3 10 11 := bootMemory_paging

theorem bootedMachine_placed : sampleEnv.Placed (pmmHighestAddressGet bootedMachine.pmm) := by
  rw [bootedMachine_ceiling]
  exact sampleEnv_placed (by decide)

theorem bootedMachine_init : ∃ m', vmmInit (2 ^ 64) sampleEnv bootedMachine = some (true, m') :=
  vmmInit_succeeds bootedMachine_pmm bootedMachine_placed (Nat.le_refl _)

theorem vmmInit_keepsBoot_iff_booted :
    ∃ m', vmmInit (2 ^ 64) sampleEnv bootedMachine = some (true, m') ∧
      translate m'.mem m'.cr3 0x8876 = none ∧ translate bootedMachine.mem bootedMachine.cr3 0x8876 = some 0x8876 := by
  obtain ⟨m', hinit⟩ := bootedMachine_init
  have hgdt : sampleStructures.Live 0x8876 := Or.inl ⟨by decide, by decide⟩
  exact ⟨m', hinit, ((vmmInit_keepsBoot_iff sampleStructures [ramEntry] fullPmm sampleEnv bootedMachine m' (2 ^ 64)
    10 11 bootedMachine_pmm (by decide) (by decide) (by decide) bootedMachine_paging sampleStructures_low
    (Nat.le_refl _) hinit).2 (by rw [bootedMachine_ceiling]; decide)).2 sampleStructures_linked 0x8876 hgdt⟩

/-- After the switch the GDT is gone, although the boot tables map it. -/
theorem vmmInit_loses_gdt :
    ∃ m', vmmInit (2 ^ 64) sampleEnv bootedMachine = some (true, m') ∧
      ¬ KeepsBoot sampleStructures bootedMachine m' := by
  obtain ⟨m', hinit⟩ := bootedMachine_init
  have hgdt : sampleStructures.Live 0x8876 := Or.inl ⟨by decide, by decide⟩
  refine ⟨m', hinit, fun hkept => ?_⟩
  have hpage := (translate_kept_iff bootedMachine_pmm bootedMachine_placed (Nat.le_refl _) hinit bootedMachine_paging
    (sampleStructures_low _ hgdt)).mp (hkept _ hgdt)
  exact sampleStructures_linked.not_inside bootedMachine_placed.low hgdt hpage

end BootKernel
