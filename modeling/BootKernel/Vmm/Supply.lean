import BootKernel.Vmm.Balance
import BootKernel.Vmm.FailedInit

/-!
# The frames that are there for `vmm_init`

The fill of the bitmap marks 8 frames out of 64 only, so that after `pmm_init` more frames are free than
the direct map of any ceiling up to 2^47 and the identity pages of the actual image and stack can need. On
the machine that `pmm_init` leaves no allocation of `vmm_init` fails.
-/

namespace BootKernel

open Radix

/-! ## What is free -/

section
variable {map : List E820Entry} {k : KernelImage} {p : Pmm}

/-- The frames above the reserved ones that the fill never marks include one in every 64. -/
theorem mem_spareFrames_pmmInit (himage : k.kernelEnd.toNat ≤ 64 * 2 ^ 20) {j : Nat} (hlo : 256 ≤ j)
    (hhi : j < 2 ^ 21) : 64 * j + 8 ∈ spareFrames (pmmInit map k p) := by
  have hcov := coveredFrames_eq
  have haligned := k.end_aligned
  refine ⟨by omega, ?_⟩
  rw [Bool.eq_false_iff]
  intro hused
  rcases (used_pmmInit map k p (show 64 * j + 8 < coveredFrames by omega)).mp hused with
    ⟨-, hlt⟩ | hlow | ⟨hbit, -⟩
  · omega
  · rw [pmmReservedFrames_toNat] at hlow
    omega
  · omega

theorem spareFrames_pmmInit (himage : k.kernelEnd.toNat ≤ 64 * 2 ^ 20) :
    2 ^ 20 ≤ (spareFrames (pmmInit map k p)).ncard := by
  have hinj : Function.Injective fun j => 64 * j + 8 := fun i j h => by
    simp only at h
    omega
  have hsub : (fun j => 64 * j + 8) '' Set.Ico 256 (2 ^ 21) ⊆ spareFrames (pmmInit map k p) := by
    rintro f ⟨j, ⟨hlo, hhi⟩, rfl⟩
    exact mem_spareFrames_pmmInit himage hlo hhi
  have hcard : (Set.Ico 256 (2 ^ 21)).ncard = 2 ^ 21 - 256 := by
    rw [← Finset.coe_Ico, Set.ncard_coe_finset, Nat.card_Ico]
  calc 2 ^ 20 ≤ 2 ^ 21 - 256 := by omega
    _ = ((fun j => 64 * j + 8) '' Set.Ico 256 (2 ^ 21)).ncard := by rw [Set.ncard_image_of_injective _ hinj, hcard]
    _ ≤ (spareFrames (pmmInit map k p)).ncard := Set.ncard_le_ncard hsub (spareFrames_finite _)

end

/-! ## What is needed -/

theorem branch_ncard_le (p q : List (Fin 512)) : (branch p q).ncard ≤ q.length + 1 := by
  induction q generalizing p with
  | nil => rw [branch_nil, Set.ncard_singleton, List.length_nil]
  | cons i q ih =>
      rw [branch_cons]
      exact (Set.ncard_insert_le _ _).trans (Nat.succ_le_succ (ih _))

theorem identityTables_ncard_le {S : Set Nat} (hS : S.Finite) : (identityTables S).ncard ≤ 4 * S.ncard := by
  induction S, hS using Set.Finite.induction_on with
  | empty => simp [identityTables_empty]
  | @insert f S hf hS ih =>
      have hbranch := branch_ncard_le [] (ptPath (frameAddr f))
      rw [ptPath_length] at hbranch
      rw [identityTables_insert, Set.ncard_insert_of_notMem hf hS]
      have hunion := Set.ncard_union_le (identityTables S) (branch [] (ptPath (frameAddr f)))
      omega

section
variable {env : BootEnv} {ceiling : BitVec 64}

theorem bootTables_ncard_le (h : env.Placed ceiling) : (bootTables env ceiling).ncard ≤ 2 ^ 20 := by
  have hceil := h.ceiling
  have hsub : env.identityPages ⊆ Set.Iio (2 ^ 14) := fun f hf => by
    have hlt := h.page_lt hf
    rw [pmmReservedFrames_toNat] at hlt
    exact hlt
  have hpages : env.identityPages.ncard ≤ 2 ^ 14 := by
    refine (Set.ncard_le_ncard hsub (Set.finite_lt_nat _)).trans ?_
    rw [← Finset.coe_Iio, Set.ncard_coe_finset, Nat.card_Iio]
  have hidentity := identityTables_ncard_le ((Set.finite_lt_nat (2 ^ 14)).subset hsub)
  have hdirect := directTables_ncard_le (gibCount ceiling)
  have hgib : gibCount ceiling ≤ 2 ^ 17 := by
    rw [gibCount]
    omega
  refine (Set.ncard_union_le _ _).trans ?_
  omega

end

/-! ## `vmm_init` after `pmm_init` -/

section
variable {map : List E820Entry} {p : Pmm} {env : BootEnv} {m m' : Machine} {fuel : Nat}

theorem bootTables_le_spareFrames (hpmm : m.pmm = pmmInit map env.image p)
    (hplaced : env.Placed (pmmHighestAddressGet m.pmm)) :
    (bootTables env (pmmHighestAddressGet m.pmm)).ncard ≤ (spareFrames m.pmm).ncard := by
  refine (bootTables_ncard_le hplaced).trans ?_
  rw [hpmm]
  exact spareFrames_pmmInit hplaced.image

/-- After `pmm_init` the call returns 1. -/
theorem vmmInit_succeeds (hpmm : m.pmm = pmmInit map env.image p)
    (hplaced : env.Placed (pmmHighestAddressGet m.pmm)) (hfuel : 2 ^ 64 ≤ fuel) :
    ∃ m', vmmInit fuel env m = some (true, m') := by
  rcases vmmInit_entered hplaced.low hplaced.ceiling hfuel with ⟨-, hfew⟩ |
    ⟨m₁, m₂, halloc, hhhdm, hkernel, -, -⟩
  · have hgib : gibCount (pmmHighestAddressGet m.pmm) ≤ 2 ^ 17 := by
      have hceil := hplaced.ceiling
      rw [gibCount]
      omega
    have hdirect := directTables_ncard_le (gibCount (pmmHighestAddressGet m.pmm))
    have hspare : 2 ^ 20 ≤ (spareFrames m.pmm).ncard := by
      rw [hpmm]
      exact spareFrames_pmmInit hplaced.image
    omega
  · exact ⟨_, vmmInit_of_kernelMap halloc hhhdm hkernel⟩

/-- On the machine that `pmm_init` leaves no allocation of `vmm_init` fails. -/
theorem vmmInit_failures (hpmm : m.pmm = pmmInit map env.image p)
    (hplaced : env.Placed (pmmHighestAddressGet m.pmm)) (hfuel : 2 ^ 64 ≤ fuel)
    (hinit : vmmInit fuel env m = some (true, m')) : m'.failures = m.failures := by
  have henough := bootTables_le_spareFrames hpmm hplaced
  have hclean : InitFailsCleanly fuel env m :=
    initFailsCleanly_iff_roomy.mpr
      ((kernelMapRoomy_iff hplaced.low hplaced.ceiling hfuel).mpr (Or.inr henough))
  obtain ⟨events, htrace, hreport⟩ := hclean true m' hinit
  have hnone : .alloc pmmInvalidFrame ∉ events := fun hmem => by cases (hreport hmem).1
  rw [Machine.failures, Machine.failures, htrace, List.count_append, List.count_eq_zero.mpr hnone,
    Nat.add_zero]

/-- What `vmm_init` has built there, with the properties that its steps keep. -/
theorem InitRules.built {P : Nat → Core → Prop} (hP : InitRules fuel m P) (hpmm : m.pmm = pmmInit map env.image p)
    (hplaced : env.Placed (pmmHighestAddressGet m.pmm)) (hfuel : 2 ^ 64 ≤ fuel)
    (hinit : vmmInit fuel env m = some (true, m')) :
    ∃ root, Machine.Taken m.pmm root ∧ m'.cr3 = frameAddr root ∧
      BootTree (rootCore m.toCore root) root (gibCount (pmmHighestAddressGet m.pmm)) env.identityPages
        m'.toCore ∧ P root m'.toCore := by
  have hsame := vmmInit_failures hpmm hplaced hfuel hinit
  obtain ⟨r, m₁, heq, hpost⟩ := hP.init hplaced.low hplaced.ceiling hfuel
  rw [hinit] at heq
  cases heq
  rcases hpost with hfailed | ⟨root, htaken, -, hcr3, hboot, hkept⟩
  · exact absurd hsame (Nat.ne_of_gt hfailed)
  · exact ⟨root, htaken, hcr3, hboot, hkept⟩

theorem vmmInit_bootTree (hpmm : m.pmm = pmmInit map env.image p)
    (hplaced : env.Placed (pmmHighestAddressGet m.pmm)) (hfuel : 2 ^ 64 ≤ fuel)
    (hinit : vmmInit fuel env m = some (true, m')) :
    ∃ root, Machine.Taken m.pmm root ∧ m'.cr3 = frameAddr root ∧
      BootTree (rootCore m.toCore root) root (gibCount (pmmHighestAddressGet m.pmm)) env.identityPages
        m'.toCore := by
  obtain ⟨root, htaken, hcr3, hboot, -⟩ := (initRules_true fuel m).built hpmm hplaced hfuel hinit
  exact ⟨root, htaken, hcr3, hboot⟩

/-- In the tree that `vmm_init` loads, tables and mapped frames are in use and apart. -/
theorem vmmInit_apart (hpmm : m.pmm = pmmInit map env.image p)
    (hplaced : env.Placed (pmmHighestAddressGet m.pmm)) (hfuel : 2 ^ 64 ≤ fuel)
    (hinit : vmmInit fuel env m = some (true, m')) :
    Apart (gibCount (pmmHighestAddressGet m.pmm)) (rootFrame m') m'.toCore := by
  obtain ⟨root, htaken, hcr3, hboot⟩ := vmmInit_bootTree hpmm hplaced hfuel hinit
  have hlt := htaken.lt
  have hcov := coveredFrames_eq
  have hresv := pmmReservedFrames_toNat
  have hres : ∀ f < pmmReservedFrames.toNat, m.pmm.used f = true := by
    intro f hf
    rw [hpmm]
    exact (used_pmmInit map env.image p (by omega)).mpr (Or.inr (Or.inl hf))
  have hroot_ge : pmmReservedFrames.toNat ≤ root := htaken.le hres
  have hset : ∀ f < pmmReservedFrames.toNat, (rootCore m.toCore root).pmm.used f = true := by
    intro f hf
    rw [rootCore]
    exact used_set_of_used (by omega) (hres f hf)
  rw [rootFrame, hcr3, entryFrame_frameAddr (by omega)]
  exact hboot.apart hset hroot_ge fun f hf => hplaced.page_lt hf

end

end BootKernel
