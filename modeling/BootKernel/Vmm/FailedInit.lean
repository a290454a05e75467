import BootKernel.Vmm.Theorems
import BootKernel.Vmm.Demand

/-!
# Allocations that fail in `vmm_init`
-/

namespace BootKernel

/-- What the caller may conclude when `vmm_init` returns 1. -/
def InitMeansMapped (fuel : Nat) (env : BootEnv) (m : Machine) : Prop :=
  ∀ m', vmmInit fuel env m = some (true, m') →
    ∀ va : BitVec 64, va.toNat / 4096 ∈ env.identityPages → translate m'.mem m'.cr3 va = some va

theorem BootEnv.Low.page_lt {env : BootEnv} (h : env.Low) {f : Nat} (hf : f ∈ env.identityPages) :
    f < 2 ^ 35 := by
  have himage := h.image
  have hstack := h.stack
  have hend := h.end_toNat
  rcases hf with ⟨-, hlt⟩ | ⟨-, hlt⟩ <;> omega

/-- `vmm_init` reports a failed allocation, having written its own frames only, exactly if none fails once
`vmm_kernel_map` has been entered; for a ceiling of at most 2^47 that is a matter of how many frames are
free. -/
theorem vmmInit_failsCleanly_iff (fuel : Nat) (env : BootEnv) (m : Machine) :
    (InitFailsCleanly fuel env m ↔ KernelMapRoomy fuel env m) ∧
      (2 ^ 64 ≤ fuel → env.Low → (pmmHighestAddressGet m.pmm).toNat ≤ 2 ^ 47 →
        (∃ r m', vmmInit fuel env m = some (r, m')) ∧
          (InitFailsCleanly fuel env m ∧ InitMeansMapped fuel env m ↔
            (spareFrames m.pmm).ncard < (directTables (gibCount (pmmHighestAddressGet m.pmm))).ncard ∨
              (bootTables env (pmmHighestAddressGet m.pmm)).ncard ≤ (spareFrames m.pmm).ncard)) := by
  refine ⟨initFailsCleanly_iff_roomy, fun hfuel hlow hceil => ?_⟩
  obtain ⟨r, m', heq, hpost⟩ := vmmInit_spec hlow hceil hfuel
  refine ⟨⟨r, m', heq⟩, ?_⟩
  rw [← kernelMapRoomy_iff hlow hceil hfuel, ← initFailsCleanly_iff_roomy]
  refine ⟨And.left, fun hclean => ⟨hclean, fun m₁ heq₁ va hpage => ?_⟩⟩
  rw [heq] at heq₁
  cases heq₁
  rcases hpost with hfailed | ⟨root, -, -, hcr3, hboot⟩
  · -- a failure would have been reported
    obtain ⟨events, htrace, hreport⟩ := hclean true m' heq
    have hmem : .alloc pmmInvalidFrame ∈ events := by
      rw [Machine.failures, Machine.failures, htrace, List.count_append] at hfailed
      exact List.count_pos_iff.mp (by omega)
    cases (hreport hmem).1
  · have hlt := hlow.page_lt hpage
    rw [hcr3]
    exact (hboot.translate_low (by omega)).1 hpage

theorem vmmInit_failsCleanly_iff_sample :
    (∃ r m', vmmInit (2 ^ 64) sampleEnv sampleMachine = some (r, m')) ∧
      InitFailsCleanly (2 ^ 64) sampleEnv sampleMachine ∧ InitMeansMapped (2 ^ 64) sampleEnv sampleMachine := by
  have hceil : (pmmHighestAddressGet sampleMachine.pmm).toNat ≤ 2 ^ 47 := by decide
  have hclean : InitFailsCleanly (2 ^ 64) sampleEnv sampleMachine := by
    obtain ⟨m', heq, hsame⟩ := sampleMachine_init
    intro r m₁ heq₁
    rw [heq] at heq₁
    cases heq₁
    refine ⟨m'.trace, rfl, fun hmem => ?_⟩
    have hnone : m'.trace.count (.alloc pmmInvalidFrame) = 0 := hsame
    exact absurd hmem (List.count_eq_zero.mp hnone)
  obtain ⟨hret, hiff⟩ := (vmmInit_failsCleanly_iff (2 ^ 64) sampleEnv sampleMachine).2
    (Nat.le_refl _) sampleEnv_low hceil
  exact ⟨hret, hiff.mpr ((kernelMapRoomy_iff sampleEnv_low hceil (Nat.le_refl _)).mp
    (initFailsCleanly_iff_roomy.mp hclean))⟩

/-- An allocator with two frames left, as many as the root and the direct map take. -/
def scarcePmm : Pmm := frameBitmapClear (frameBitmapClear ⟨0x4002000, fun _ => ~~~ 0#64⟩ 0x4000) 0x4001

def scarceMachine : Machine where
  mem := fun _ => 0
  pmm := scarcePmm
  cr3 := 0x1000
  trace := []

theorem scarceMachine_ceiling : pmmHighestAddressGet scarceMachine.pmm = 0x4002000 := rfl

theorem spareFrames_scarceMachine : spareFrames scarceMachine.pmm = {0x4000, 0x4001} := by
  have hfull : ∀ f, Pmm.used ⟨0x4002000, fun _ => ~~~ 0#64⟩ f = true := fun f =>
    (BitArray.eq_allOnes_iff _).mp rfl _ (Nat.mod_lt f (by omega))
  have h₁ : (0x4000 : BitVec 64).toNat = 0x4000 := rfl
  have h₂ : (0x4001 : BitVec 64).toNat = 0x4001 := rfl
  ext f
  simp only [spareFrames, scarceMachine, scarcePmm, Set.mem_ofPred_eq, used_frameBitmapClear, hfull, h₁, h₂,
    Set.mem_insert_iff, Set.mem_singleton_iff, Bool.and_true, Bool.and_eq_false_iff, Bool.not_eq_false',
    decide_eq_true_eq]
  omega

theorem bootTables_scarceMachine (hfin : (bootTables sampleEnv 0x4002000).Finite) :
    2 < (bootTables sampleEnv 0x4002000).ncard := by
  have hpage : ∀ q, q <+: ptPath (frameAddr 0x400) → q ∈ bootTables sampleEnv 0x4002000 := fun q hq =>
    Or.inr ⟨0x400, Or.inl (by decide), hq⟩
  have hsub : {[], [0], [0, 0]} ⊆ bootTables sampleEnv 0x4002000 := by
    rintro q (rfl | rfl | rfl)
    · exact hpage _ List.nil_prefix
    · exact hpage _ (by decide)
    · exact hpage _ (by decide)
  have hthree : ({[], [0], [0, 0]} : Set (List (Fin 512))).ncard = 3 := by
    rw [Set.ncard_eq_three]
    exact ⟨[], [0], [0, 0], by decide, by decide, by decide, rfl⟩
  exact Nat.lt_of_lt_of_le (by rw [hthree]; decide) (Set.ncard_le_ncard hsub hfin)

/-- With two frames left the walks of `vmm_kernel_map` fail, and `vmm_init` loads CR3 and returns 1. -/
theorem vmmInit_unnoticed :
    ∃ m', vmmInit (2 ^ 64) sampleEnv scarceMachine = some (true, m') ∧
      scarceMachine.failures < m'.failures ∧ m'.cr3 = 0x4000000 ∧
        ¬ InitFailsCleanly (2 ^ 64) sampleEnv scarceMachine := by
  have hceil := scarceMachine_ceiling
  have hgib : gibCount 0x4002000 = 1 := by decide
  have hspare : (spareFrames scarceMachine.pmm).ncard = 2 := by
    rw [spareFrames_scarceMachine, Set.ncard_pair (by decide)]
  rcases vmmInit_entered sampleEnv_low (show (pmmHighestAddressGet scarceMachine.pmm).toNat ≤ 2 ^ 47 by
    rw [hceil]; decide) (Nat.le_refl (2 ^ 64)) with
    ⟨-, hfew⟩ | ⟨m₁, m₂, halloc, hhhdm, hkernel, -, hcount⟩
  · rw [hceil, hgib, hspare] at hfew
    exact absurd (directTables_ncard_le 1) (Nat.not_le_of_lt hfew)
  · rw [hceil, hspare] at hcount
    have hfail : m₁.failures < m₂.failures := by
      rcases hcount.2 with ⟨hfail, -⟩ | htally
      · exact hfail
      · exact absurd htally.enough (Nat.not_le_of_lt (bootTables_scarceMachine hcount.1))
    refine ⟨_, vmmInit_of_kernelMap halloc hhhdm hkernel, ?_, ?_, fun hclean => ?_⟩
    · have hstart : scarceMachine.failures = 0 := List.count_nil
      rw [hstart]
      exact Nat.lt_of_lt_of_le (Nat.zero_lt_of_lt hfail) (failures_le_vmmPml4Load _ _)
    · rcases frameAlloc_root scarceMachine with ⟨hfull, -⟩ | ⟨root, htaken, hroot, -⟩
      · exact absurd (congrArg Prod.fst hfull) halloc
      · have hfree : root ∈ spareFrames scarceMachine.pmm := ⟨htaken.lt, htaken.free⟩
        have hmem : 0x4000 ∈ spareFrames scarceMachine.pmm := by
          rw [spareFrames_scarceMachine]
          exact Set.mem_insert _ _
        rw [spareFrames_scarceMachine] at hfree
        rcases hfree with rfl | rfl
        · have haddr : frameAddr 0x4000 = 0x4000000 := by decide
          rw [vmmPml4Load_cr3, hroot, haddr]
        · have hused := htaken.first 0x4000 (by decide)
          rw [hmem.2] at hused
          cases hused
    · have hsame := initFailsCleanly_iff_roomy.mp hclean m₁ m₂ halloc hhhdm hkernel
      exact absurd hsame (Nat.ne_of_gt hfail)

end BootKernel
