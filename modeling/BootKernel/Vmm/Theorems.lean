import BootKernel.Vmm.Lemmas.Room
import BootKernel.Vmm.Lemmas.Access
import BootKernel.Pmm.Theorems

/-!
# Theorems about the paging code
-/

namespace BootKernel

/-! ## `vmm_init` -/

/-- Where the processor is to find an address after `vmm_init`: in the direct map of the ceiling
rounded up to 1 GiB, in the identity pages of the image and the stack, or nowhere. -/
def bootTarget (env : BootEnv) (ceiling va : BitVec 64) : Option (BitVec 64) :=
  if hhdmOffset.toNat ≤ va.toNat ∧ va.toNat < hhdmOffset.toNat + gibCount ceiling * 2 ^ 30 then
    some (va - hhdmOffset)
  else if env.image.kernelStart ≤ va ∧ va < env.image.kernelEnd ∨
      alignDown (env.rsp - 256 * 1024) ≤ va ∧ va < alignUp (env.rsp + pageSize) then some va
  else none

theorem BootEnv.mem_identityPages {env : BootEnv} (hlow : env.Low) (va : BitVec 64) :
    va.toNat / 4096 ∈ env.identityPages ↔
      env.image.kernelStart ≤ va ∧ va < env.image.kernelEnd ∨
        alignDown (env.rsp - 256 * 1024) ≤ va ∧ va < alignUp (env.rsp + pageSize) := by
  have halign₁ := env.image.start_aligned
  have halign₂ := env.image.end_aligned
  have hstart := hlow.start_toNat
  have hend := hlow.end_toNat
  simp only [BootEnv.identityPages, Set.mem_union, Set.mem_ofPred_eq, BitVec.le_def, BitVec.lt_def]
  omega

/-- Whenever its allocations succeed, `vmm_init` returns 1 and every canonical address translates as
it should from the root that it has loaded. -/
theorem vmmInit_translates (fuel : Nat) (env : BootEnv) (m : Machine) (hfuel : 2 ^ 64 ≤ fuel)
    (hlow : env.Low) (hceil : (pmmHighestAddressGet m.pmm).toNat ≤ 2 ^ 47)
    (halloc : ∀ r m', vmmInit fuel env m = some (r, m') → m'.failures = m.failures) :
    ∃ m', vmmInit fuel env m = some (true, m') ∧
      ∀ va, Canonical va →
        translate m'.mem m'.cr3 va = bootTarget env (pmmHighestAddressGet m.pmm) va := by
  obtain ⟨r, m', heq, hpost⟩ := vmmInit_spec hlow hceil hfuel
  have hfails := halloc r m' heq
  rcases hpost with hfailed | ⟨root, -, rfl, hcr3, hboot⟩
  · omega
  · refine ⟨m', heq, fun va hcanon => ?_⟩
    have hidentity := BootEnv.mem_identityPages hlow va
    rw [hcr3, bootTarget]
    rcases hcanon with hva | hva
    · obtain ⟨hin, hout⟩ := hboot.translate_low hva
      rw [if_neg (by rw [hhdmOffset_toNat]; omega)]
      split
      · rename_i hmapped
        exact hin (hidentity.mpr hmapped)
      · rename_i hunmapped
        exact hout fun h => hunmapped (hidentity.mp h)
    · have hge : hhdmOffset.toNat ≤ va.toNat := by rw [hhdmOffset_toNat]; omega
      rw [hboot.translate_high hge]
      split
      · rename_i hlt
        rw [if_pos ⟨hge, hlt⟩]
      · rename_i hlt
        have himage := hlow.image
        have hend := hlow.end_toNat
        have hstack := hlow.stack
        rw [if_neg fun h => hlt h.2, if_neg ?_]
        simp only [BitVec.lt_def]
        omega

/-- The image as the linker script places it, and a stack below the address that `_start` loads. -/
def sampleEnv : BootEnv := ⟨sampleImage, 0x6FFFD0⟩

theorem sampleEnv_low : sampleEnv.Low :=
  ⟨by decide, by decide, by decide⟩

/-- A machine before `vmm_init` with 128 MiB of memory, of which the first 64 are in use. -/
def sampleMachine : Machine where
  mem := fun _ => 0
  pmm := { freshPmm with gPhysCeiling := 0x8000000 }
  cr3 := 0x1000
  trace := []

theorem sampleMachine_room (k : Nat) (hk : k ≤ 2 ^ 29) : Room sampleMachine.pmm k := by
  refine ⟨0x4000, by omega, fun f hlo _ => ?_⟩
  have hfree := used_freshPmm f
  rw [pmmReservedFrames_toNat] at hfree
  exact hfree.trans (decide_eq_false (by omega))

theorem vmmInit_translates_sample :
    ∃ m', vmmInit (2 ^ 64) sampleEnv sampleMachine = some (true, m') ∧
      translate m'.mem m'.cr3 0xFFFF800000123456 = some 0x123456 ∧
      translate m'.mem m'.cr3 0x400123 = some 0x400123 ∧
      translate m'.mem m'.cr3 0x6FFFD0 = some 0x6FFFD0 ∧
      translate m'.mem m'.cr3 0x1000 = none := by
  have hceil : (pmmHighestAddressGet sampleMachine.pmm).toNat ≤ 2 ^ 47 := by decide
  have hroom : Room sampleMachine.pmm (bootFrames sampleEnv (pmmHighestAddressGet sampleMachine.pmm)) :=
    sampleMachine_room _ (by decide)
  obtain ⟨m', heq, htranslate⟩ := vmmInit_translates (2 ^ 64) sampleEnv sampleMachine (Nat.le_refl _)
    sampleEnv_low hceil fun r m' h => (vmmInit_room sampleEnv_low (by omega) hroom h).2
  refine ⟨m', heq, ?_, ?_, ?_, ?_⟩
  · exact htranslate _ (Or.inr (by decide))
  · exact htranslate _ (Or.inl (by decide))
  · exact htranslate _ (Or.inl (by decide))
  · exact htranslate _ (Or.inl (by decide))

/-! ## `vmm_page_map` -/

/-- Two addresses lie in one page: they agree in bits 12 to 47. -/
def SamePage (va vb : BitVec 64) : Prop := va.toNat / 2 ^ 12 % 2 ^ 36 = vb.toNat / 2 ^ 12 % 2 ^ 36

/-- On a well-formed tree `vmm_page_map` changes the walk of one page, or of none when it fails, and
leaves a well-formed tree. -/
theorem vmmPageMap_correct (m : Machine) (root : Nat) (va paddr flags : BitVec 64)
    (ht : PageTree m.toCore root) (hps : WalksToPt m.mem root va)
    (hflags : flags &&& pageAddrMask = 0) :
    PageTree (vmmPageMap (frameAddr root) va paddr flags m).2.toCore root ∧
    ((vmmPageMap (frameAddr root) va paddr flags m).1 = true →
      (∃ e, walk (vmmPageMap (frameAddr root) va paddr flags m).2.mem root va = some (3, e) ∧
        e &&& pageAddrMask = paddr &&& pageAddrMask) ∧
      ∀ vb, ¬ SamePage va vb →
        walk (vmmPageMap (frameAddr root) va paddr flags m).2.mem root vb = walk m.mem root vb) ∧
    ((vmmPageMap (frameAddr root) va paddr flags m).1 = false →
      ∀ vb, walk (vmmPageMap (frameAddr root) va paddr flags m).2.mem root vb =
        walk m.mem root vb) := by
  obtain ⟨m₁, hgrow, -, hcases⟩ := vmmPageMap_cases paddr flags ht hps
  have hgrown := ht.grow hgrow
  have hsame : ∀ vb, walk m₁.mem root vb = walk m.mem root vb := fun vb => hgrown.lookup _
  rcases hcases with heq | ⟨t, hend, heq⟩
  · rw [heq]
    exact ⟨hgrown.tree, nofun, fun _ => hsame⟩
  · obtain ⟨htree, hwalk⟩ := hgrown.tree.setPage hend (pageEntry paddr flags)
    rw [heq]
    refine ⟨htree, fun _ => ⟨⟨pageEntry paddr flags, ?_, pageEntry_and_mask hflags paddr⟩, ?_⟩, nofun⟩
    · exact (hwalk va).trans (by rw [if_pos rfl, if_neg (pageEntry_present paddr flags)])
    · intro vb hvb
      refine (hwalk vb).trans ?_
      rw [if_neg (fun h => hvb (vaPath_inj.mp h.symm)), hsame]

/-- A machine whose tree is one cleared table, the first frame above 64 MiB. -/
def bareMachine : Machine where
  mem := fun _ => 0
  pmm := frameBitmapSet freshPmm 0x4000
  cr3 := frameAddr 0x4000
  trace := []

theorem bareMachine_tree : PageTree bareMachine.toCore 0x4000 ∧
    ∀ va, walk bareMachine.mem 0x4000 va = none := by
  have hused : bareMachine.pmm.used 0x4000 = true := by
    rw [bareMachine, used_frameBitmapSet]
    simp
  obtain ⟨htree, -, hlookup⟩ :=
    PageTree.of_zero (c := bareMachine.toCore) (by decide) hused fun _ => Memory.load64_zero fun _ _ _ => rfl
  exact ⟨htree, fun va => hlookup _⟩

theorem vmmPageMap_correct_bare :
    ((vmmPageMap (frameAddr 0x4000) 0x1000 0x5000 pageWritable bareMachine).1 = true →
      (∃ e, walk (vmmPageMap (frameAddr 0x4000) 0x1000 0x5000 pageWritable bareMachine).2.mem
          0x4000 0x1000 = some (3, e) ∧ e &&& pageAddrMask = 0x5000)) ∧
    PageTree (vmmPageMap (frameAddr 0x4000) 0x1000 0x5000 pageWritable bareMachine).2.toCore
      0x4000 := by
  obtain ⟨htree, hnone⟩ := bareMachine_tree
  have hps : WalksToPt bareMachine.mem 0x4000 0x1000 := by
    intro d e hwalk
    rw [hnone] at hwalk
    cases hwalk
  obtain ⟨htree', hmapped, -⟩ :=
    vmmPageMap_correct bareMachine 0x4000 0x1000 0x5000 pageWritable htree hps (by decide)
  exact ⟨fun htrue => (hmapped htrue).1, htree'⟩

/-! ## Large pages -/

/-- The walk of the call's address meets no large page, or the call makes no walk. -/
def MeetsNoLargePage (m : Machine) (c : VmmCall) : Prop :=
  WalksToPt m.mem (rootFrame m) c.vaddr ∨ c.NoPage m

/-- In every run each call is safe if and only if each meets no large page; after `vmm_init` the
addresses that meet one are those of the direct map. -/
theorem vmmCalls_safe_iff (m : Machine) (cs : List VmmCall) :
    (EachCall SafeCall m cs ↔ EachCall MeetsNoLargePage m cs) ∧
    ∀ (fuel : Nat) (env : BootEnv) (m₀ : Machine), 2 ^ 64 ≤ fuel → env.Low →
      (pmmHighestAddressGet m₀.pmm).toNat ≤ 2 ^ 47 → vmmInit fuel env m₀ = some (true, m) →
      m.failures = m₀.failures → ∀ va, Canonical va →
        (WalksToPt m.mem (rootFrame m) va ↔
          ¬ (hhdmOffset.toNat ≤ va.toNat ∧
            va.toNat < hhdmOffset.toNat + gibCount (pmmHighestAddressGet m₀.pmm) * 2 ^ 30)) := by
  refine ⟨EachCall.iff safeCall_iff m cs, ?_⟩
  intro fuel env m₀ hfuel hlow hceil hinit hfails va hcanon
  obtain ⟨r, m₁, heq, hpost⟩ := vmmInit_spec hlow hceil hfuel
  rw [hinit] at heq
  cases heq
  rcases hpost with hfailed | ⟨root, htaken, -, hcr3, hboot⟩
  · omega
  · have hlt := htaken.lt
    rw [rootFrame, hcr3, entryFrame_frameAddr (by omega)]
    exact hboot.walksToPt_iff hcanon

/-- After `vmm_init` on the sample machine, as a state from which calls start. -/
theorem sampleMachine_init : ∃ m', vmmInit (2 ^ 64) sampleEnv sampleMachine = some (true, m') ∧
    m'.failures = sampleMachine.failures := by
  have hceil : (pmmHighestAddressGet sampleMachine.pmm).toNat ≤ 2 ^ 47 := by decide
  have hroom : Room sampleMachine.pmm (bootFrames sampleEnv (pmmHighestAddressGet sampleMachine.pmm)) :=
    sampleMachine_room _ (by decide)
  obtain ⟨r, m', heq, -⟩ := vmmInit_spec sampleEnv_low hceil (Nat.le_refl (2 ^ 64))
  obtain ⟨rfl, hfails⟩ := vmmInit_room sampleEnv_low (by omega) hroom heq
  exact ⟨m', heq, hfails⟩

theorem vmmCalls_safe_iff_sample : ∃ m', vmmInit (2 ^ 64) sampleEnv sampleMachine = some (true, m') ∧
    EachCall SafeCall m' [.pageFree 0xFFFF900000000000 0] ∧
      ¬ EachCall SafeCall m' [.pageFree hhdmOffset 0] := by
  obtain ⟨m', heq, hfails⟩ := sampleMachine_init
  obtain ⟨hsafe, hboot⟩ := vmmCalls_safe_iff m' [.pageFree 0xFFFF900000000000 0]
  have hsafe₂ := (vmmCalls_safe_iff m' [.pageFree hhdmOffset 0]).1
  have hwalk := hboot (2 ^ 64) sampleEnv sampleMachine (Nat.le_refl _) sampleEnv_low (by decide) heq hfails
  refine ⟨m', heq, ?_, ?_⟩
  · rw [hsafe]
    exact ⟨Or.inl ((hwalk _ (Or.inr (by decide))).mpr (by decide)), trivial⟩
  · rw [hsafe₂]
    rintro ⟨h | h, -⟩
    · exact (hwalk _ (Or.inr (by decide))).mp h (by decide)
    · exact h

/-- After `vmm_init`, unmapping the first page of the direct map takes a frame of ordinary memory for a
table. -/
theorem vmmPageUnmap_follows_large_page :
    ∃ m', vmmInit (2 ^ 64) sampleEnv sampleMachine = some (true, m') ∧
      ¬ SafeCall m' (.pageUnmap hhdmOffset true) ∧
      ∃ evs e, (vmmCall m' (.pageUnmap hhdmOffset true)).trace = m'.trace ++ evs ∧
        .follow e ∈ evs ∧ e &&& psBit ≠ 0 := by
  obtain ⟨m', heq, hfails⟩ := sampleMachine_init
  have hps : ¬ WalksToPt m'.mem (rootFrame m') hhdmOffset := by
    obtain ⟨r, m₁, heq₁, hpost⟩ :=
      vmmInit_spec sampleEnv_low (m := sampleMachine) (by decide) (Nat.le_refl (2 ^ 64))
    rw [heq] at heq₁
    cases heq₁
    rcases hpost with hfailed | ⟨root, htaken, -, hcr3, hboot⟩
    · omega
    · have hlt := htaken.lt
      rw [rootFrame, hcr3, entryFrame_frameAddr (by omega), hboot.walksToPt_iff (Or.inr (by decide))]
      decide
  refine ⟨m', heq, fun h => ?_, ?_⟩
  · exact ((safeCall_iff _ _).mp h).elim hps id
  · obtain ⟨evs, e, hwalk, hfollow, hbit⟩ :=
      vmmPteGet_follows (m := m') false (entryFrame_lt m'.cr3) hps
    obtain ⟨tail, htrace, -⟩ :=
      vmmPageUnmap_trace (frameAddr (rootFrame m')) hhdmOffset (some 0) m'
    refine ⟨evs ++ tail, e, ?_, List.mem_append_left _ hfollow, hbit⟩
    rw [vmmCall, vmmPml4Get_eq, ← List.append_assoc, ← hwalk]
    exact htrace

end BootKernel
