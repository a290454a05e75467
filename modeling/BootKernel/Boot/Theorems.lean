import BootKernel.Boot.Paging
import BootKernel.Vmm.Owned

/-!
# Theorems about what the loader leaves to the kernel
-/

namespace BootKernel

/-! ## Early accesses -/

/-- What happens in `vmm_init` up to the load of CR3: the clearing of the root, or a whole call. -/
inductive EarlyRun (env : BootEnv) (m : Machine) : List Event → Prop
  | root {events} (halloc : m.frameAlloc.1 ≠ pmmInvalidFrame)
      (hclear : (zero .identity m.frameAlloc.1 4096 m.frameAlloc.2).trace = m.trace ++ events) :
      EarlyRun env m events
  | call {fuel r m' events} (hinit : vmmInit fuel env m = some (r, m'))
      (htrace : m'.trace = m.trace ++ events) : EarlyRun env m events

/-- An access to a frame that `vmm_init` has obtained, at its physical address. -/
def EarlyAccess (env : BootEnv) (m : Machine) (pa : Nat) : Prop :=
  ∃ events, EarlyRun env m events ∧ .alloc (frameAddr (pa / 4096)) ∈ events ∧
    (.load pa ∈ events ∨ .store pa ∈ events)

/-- Under the given tables every such access goes where it is meant to. -/
def EarlyAccessesMapped (env : BootEnv) (m : Machine) (mem : Memory) (cr3 : BitVec 64) : Prop :=
  ∀ pa, EarlyAccess env m pa → translate mem cr3 (BitVec.ofNat 64 pa) = some (BitVec.ofNat 64 pa)

section
variable {env : BootEnv} {m : Machine} {mem : Memory} {cr3 : BitVec 64} {pdpt pd root : Nat}

/-- The first byte of the root is cleared at its physical address. -/
theorem earlyAccess_root (hroot : m.frameAlloc.1 = frameAddr root)
    (hclear : zero .identity m.frameAlloc.1 4096 m.frameAlloc.2 = m.takeRoot root) :
    EarlyAccess env m (root * 4096) := by
  have hframe : root * 4096 / 4096 = root := Nat.mul_div_cancel root (by decide)
  refine ⟨.alloc (frameAddr root) :: Machine.zeroEvents root 4096, .root ?_ ?_, ?_, Or.inr ?_⟩
  · rw [hroot]
    exact frameAddr_ne_invalid root
  · rw [hclear]
    rfl
  · rw [hframe]
    exact List.mem_cons_self
  · refine List.mem_cons_of_mem _ ?_
    rw [Machine.zeroEvents, List.mem_map]
    exact ⟨0, List.mem_range.mpr (by omega), by rw [Nat.add_zero]⟩

/-- The boot tables map no frame that the allocator gives out. -/
theorem not_earlyAccessesMapped (hboot : BootPaging mem cr3 pdpt pd) (hres : ReservedUsed m.pmm)
    (halloc : m.frameAlloc.1 ≠ pmmInvalidFrame) : ¬ EarlyAccessesMapped env m mem cr3 := by
  intro hmapped
  rcases frameAlloc_root m with ⟨hfail, -⟩ | ⟨root, htaken, hroot, hclear⟩
  · exact halloc (congrArg Prod.fst hfail)
  · have hlt := htaken.lt
    have hge : pmmReservedFrames.toNat ≤ root := htaken.le hres
    rw [pmmReservedFrames_toNat] at hge
    have hnat : (BitVec.ofNat 64 (root * 4096)).toNat = root * 4096 := frameIdx_toNat (by omega)
    have hpage := hmapped _ (earlyAccess_root hroot hclear)
    rw [hboot.translate (Or.inl (by omega)), if_neg (by omega)] at hpage
    cases hpage

end

/-- Whatever the memory map says, no access that `vmm_init` makes to a frame of its own lies in the 16 MiB
that the boot tables map, unless there is no frame to be had at all. -/
theorem vmmInit_early_accesses_unmapped (map : List E820Entry) (p : Pmm) (env : BootEnv) (m : Machine)
    (mem : Memory) (cr3 : BitVec 64) (pdpt pd : Nat) (hpmm : m.pmm = pmmInit map env.image p)
    (hboot : BootPaging mem cr3 pdpt pd) :
    (EarlyAccessesMapped env m mem cr3 ↔ m.frameAlloc.1 = pmmInvalidFrame) ∧
      (env.image.kernelEnd.toNat < 2 ^ 39 → ¬ EarlyAccessesMapped env m mem cr3) := by
  have hres : ReservedUsed m.pmm := hpmm ▸ pmmInit_reservedUsed map env.image p
  have hcond : EarlyAccessesMapped env m mem cr3 → m.frameAlloc.1 = pmmInvalidFrame := by
    intro hmapped
    by_contra halloc
    exact not_earlyAccessesMapped hboot hres halloc hmapped
  refine ⟨⟨hcond, ?_⟩, fun hend hmapped => ?_⟩
  · rintro hnone pa ⟨events, hrun, -, haccess⟩
    cases hrun with
    | root halloc _ => exact absurd hnone halloc
    | call hinit htrace =>
        rcases frameAlloc_root m with ⟨hfail, -⟩ | ⟨root, -, hroot, -⟩
        · simp only [vmmInit, hfail, ↓reduceIte] at hinit
          cases hinit
          rw [← List.append_cancel_left htrace] at haccess
          simp at haccess
        · exact absurd (hroot.symm.trans hnone) (frameAddr_ne_invalid root)
  · have hhigh : 2 ^ 27 - 1 ∈ freeFrames m.pmm := by
      rw [hpmm]
      exact last_mem_freeFrames map p hend
    obtain ⟨f, -, hframe⟩ := pmmFrameAlloc_of_nonempty ⟨_, hhigh⟩
    exact frameAddr_ne_invalid f ((congrArg Prod.fst hframe).symm.trans (hcond hmapped))

theorem vmmInit_early_accesses_unmapped_ram :
    ¬ EarlyAccessesMapped sampleEnv (ramMachine [] fun _ => 0) bootMemory 0x9000 :=
  (vmmInit_early_accesses_unmapped [ramEntry] fullPmm sampleEnv (ramMachine [] fun _ => 0) bootMemory 0x9000
    10 11 ramMachine_pmm bootMemory_paging).2 (by decide)

/-- On a machine with 2 GiB of memory the root is cleared at 64 MiB, which the boot tables do not map. -/
theorem vmmInit_root_unmapped :
    EarlyAccess sampleEnv (ramMachine [] fun _ => 0) 0x4000000 ∧
      translate bootMemory 0x9000 0x4000000 = none ∧
      ¬ EarlyAccessesMapped sampleEnv (ramMachine [] fun _ => 0) bootMemory 0x9000 := by
  have haccess : EarlyAccess sampleEnv (ramMachine [] fun _ => 0) 0x4000000 := by
    rcases frameAlloc_root (ramMachine [] fun _ => 0) with ⟨-, hfull⟩ | ⟨root, htaken, hroot, hclear⟩
    · have htaken := ramMachine_taken (fun _ => 0) ramMachine_noWrap
      exact absurd rfl (htaken.ne_of_used (hfull 0x4000 htaken.lt))
    · obtain rfl := htaken.unique (ramMachine_taken (fun _ => 0) ramMachine_noWrap)
      have haddr : 0x4000 * 4096 = 0x4000000 := by decide
      rw [← haddr]
      exact earlyAccess_root hroot hclear
  have hnone : translate bootMemory 0x9000 0x4000000 = none := by
    rw [bootMemory_paging.translate (Or.inl (by decide)), if_neg (by decide)]
  refine ⟨haccess, hnone, fun hmapped => ?_⟩
  have hpage := hmapped 0x4000000 haccess
  rw [show BitVec.ofNat 64 0x4000000 = 0x4000000 by rfl, hnone] at hpage
  cases hpage

end BootKernel
