import BootKernel.Vmm.Supply

/-!
# Where the direct map wraps

`vmm_hhdm_create` counts up to the ceiling that `pmm_init` has found in the map. Nothing bounds that ceiling, and
above 2^47 the addresses of the direct map leave the upper half.
-/

namespace BootKernel

open Radix

/-- The body of the loop of `vmm_hhdm_create`. -/
def hhdmTurn (pml4Virt p : BitVec 64) (m : Machine) : Bool × Machine :=
  vmmPage1gbMapOffline pml4Virt (p + hhdmOffset) p (pageWritable ||| pageNx) m

/-- `vmm_hhdm_create`, called on `m`, comes to the turn of the address `p` in the state `s`. -/
def HhdmTurn (pml4Virt : BitVec 64) (m : Machine) (p : BitVec 64) (s : Machine) : Prop :=
  Loop.Turn (pmmHighestAddressGet m.pmm) gibSize (hhdmTurn pml4Virt) 0 m p s

/-- The slots of a PML4 for the lower half. -/
def LowerSlot (pml4Virt : BitVec 64) (pa : Nat) : Prop :=
  pml4Virt.toNat ≤ pa ∧ pa < pml4Virt.toNat + 8 * 256

/-- The loop ends, computes no address that wraps, and stays out of the lower half. -/
structure HhdmContained (pml4Virt : BitVec 64) (m : Machine) : Prop where
  ends : ∃ fuel r, vmmHhdmCreate fuel pml4Virt m = some r
  noWrap : ∀ p s, HhdmTurn pml4Virt m p s → p.toNat + hhdmOffset.toNat < 2 ^ 64
  upper : ∀ p s, HhdmTurn pml4Virt m p s → ∃ events, (hhdmTurn pml4Virt p s).2.trace = m.trace ++ events ∧
    ∀ pa, .store pa ∈ events → ¬ LowerSlot pml4Virt pa

/-! ## What one turn writes -/

/-- In the root only the slot `i` is written. -/
def RootStores (root : Nat) (i : Fin 512) (events : List Event) : Prop :=
  ∀ pa, .store pa ∈ events → pa / 4096 = root → pa = root * 4096 + 8 * i

section
variable {c₀ : Core} {root k g : Nat} {i : Fin 512} {va : BitVec 64} {m : Machine} {events tail : List Event}

theorem RootStores.append (h : RootStores root i events) (htail : RootStores root i tail) :
    RootStores root i (events ++ tail) := by
  intro pa hpa
  rcases List.mem_append.mp hpa with hold | hnew
  · exact h pa hold
  · exact htail pa hnew

theorem RootStores.of_writesFrame {f : Nat} (h : WritesFrame f events) (hf : f ≠ root) :
    RootStores root i events := by
  intro pa hpa hroot
  exact absurd (((h _ hpa).1 pa rfl).symm.trans hroot) hf

theorem RootStores.entry (root : Nat) (i : Fin 512) : RootStores root i [.store (root * 4096 + 8 * i)] := by
  intro pa hpa _
  cases List.mem_singleton.mp hpa
  rfl

theorem HhdmTree.pdpt_ne_root {c : Core} (h : HhdmTree c₀ root k c)
    (hpres : tableEntry c.mem root (vaIndex va 39) &&& pagePresent ≠ 0) :
    entryFrame (tableEntry c.mem root (vaIndex va 39)) ≠ root := by
  intro heq
  have hdesc := h.descend_root hpres
  rw [heq] at hdesc
  cases h.tree.unshared _ [] root hdesc rfl

theorem HhdmTree.writeHuge_stores (h : HhdmTree c₀ root k m.toCore)
    (hpres : tableEntry m.mem root (vaIndex va 39) &&& pagePresent ≠ 0) (paddr flags : BitVec 64) :
    ∃ events, (m.writeHuge root va paddr flags).trace = m.trace ++ events ∧
      RootStores root (vaIndex va 39) events := by
  refine ⟨[.load (root * 4096 + 8 * vaIndex va 39), .follow (tableEntry m.mem root (vaIndex va 39))] ++
    [.store (entryFrame (tableEntry m.mem root (vaIndex va 39)) * 4096 + 8 * vaIndex va 30)], ?_, ?_⟩
  · simp only [Machine.writeHuge, Machine.setEntry, Machine.readEntry, Machine.emit, List.append_assoc,
      List.cons_append, List.nil_append]
  · refine RootStores.append ?_ (.of_writesFrame (.entry _ _) (h.pdpt_ne_root hpres))
    intro pa hpa
    simp at hpa

/-- A turn writes the slot of its address in the root, and otherwise other frames. -/
theorem vmmPage1gbMapOffline_stores (h : HhdmTree c₀ root k m.toCore) (va paddr flags : BitVec 64) :
    ∃ events, (vmmPage1gbMapOffline (frameAddr root) va paddr flags m).2.trace = m.trace ++ events ∧
      RootStores root (vaIndex va 39) events := by
  have hroot := h.tree.root_lt
  by_cases hpres : tableEntry m.mem root (vaIndex va 39) &&& pagePresent = 0
  · rcases vmmPage1gbMapOffline_absent va paddr flags (show root < 2 ^ 51 by omega) hpres with
      ⟨-, heq⟩ | ⟨g, htaken, heq⟩
    · rw [heq]
      refine ⟨[.load (root * 4096 + 8 * vaIndex va 39), .alloc pmmInvalidFrame], ?_, fun pa hpa => ?_⟩
      · simp only [Machine.readEntry, Machine.emit, List.append_assoc, List.cons_append, List.nil_append]
      · simp at hpa
    · have hne : root ≠ g := htaken.ne_of_used (h.tree.used root ⟨[], rfl⟩)
      have hnew : HhdmTree c₀ root k
          ((m.readEntry root (vaIndex va 39)).createTable root (vaIndex va 39) g).toCore :=
        h.link (entrySlot_empty hpres) htaken.free htaken.lt
      have hlinked : tableEntry ((m.readEntry root (vaIndex va 39)).createTable root (vaIndex va 39) g).mem
          root (vaIndex va 39) = linkEntry g := tableEntry_store64_same _ _ _ _
      obtain ⟨events, htrace, hstores⟩ := hnew.writeHuge_stores (hlinked.symm ▸ linkEntry_present g) paddr flags
      rw [heq]
      refine ⟨([.load (root * 4096 + 8 * vaIndex va 39), .alloc (frameAddr g)] ++ Machine.zeroEvents g 4096 ++
        [.store (root * 4096 + 8 * vaIndex va 39)]) ++ events, ?_, ?_⟩
      · rw [htrace]
        simp only [Machine.createTable, Machine.readEntry, Machine.emit, List.append_assoc, List.cons_append,
          List.nil_append]
      · refine RootStores.append (.append (.append ?_ ?_) (.entry _ _)) hstores
        · intro pa hpa
          simp at hpa
        · exact .of_writesFrame (.zeroEvents g 4096 (Nat.le_refl _)) hne.symm
  · obtain ⟨events, htrace, hstores⟩ := HhdmTree.writeHuge_stores
      (m := m.readEntry root (vaIndex va 39)) h hpres paddr flags
    rw [vmmPage1gbMapOffline_present (show root < 2 ^ 51 by omega) hpres]
    refine ⟨[.load (root * 4096 + 8 * vaIndex va 39)] ++ events, ?_, .append ?_ hstores⟩
    · rw [htrace]
      simp only [Machine.readEntry, Machine.emit, List.append_assoc]
    · intro pa hpa
      simp at hpa

theorem RootStores.not_lowerSlot (h : RootStores root i events) (hroot : root < 2 ^ 40) (hi : 256 ≤ (i : Nat))
    {pa : Nat} (hpa : .store pa ∈ events) : ¬ LowerSlot (frameAddr root) pa := by
  rintro ⟨hlo, hhi⟩
  rw [frameAddr_toNat (by omega)] at hlo hhi
  have hslot := h pa hpa (by omega)
  omega

end

/-! ## The turns -/

section
variable {c₀ : Core} {root n fails : Nat} {m : Machine} {fuel : Nat}

/-- The state at the turn of an address, with the events since the call. -/
structure HhdmReached (c₀ : Core) (root : Nat) (m : Machine) (p : Nat) (s : Machine) : Prop where
  tree : HhdmTree c₀ root (p / 2 ^ 30) s.toCore
  aligned : p % 2 ^ 30 = 0
  stores : ∃ events, s.trace = m.trace ++ events ∧ ∀ pa, .store pa ∈ events → ¬ LowerSlot (frameAddr root) pa

/-- A turn below 2^47 writes no slot of the lower half. -/
theorem HhdmReached.turn {p : BitVec 64} {s : Machine} (h : HhdmReached c₀ root m p.toNat s) (hp : p.toNat < 2 ^ 47) :
    ∃ events, (hhdmTurn (frameAddr root) p s).2.trace = m.trace ++ events ∧
      ∀ pa, .store pa ∈ events → ¬ LowerSlot (frameAddr root) pa := by
  obtain ⟨events, htrace, hupper⟩ := h.stores
  obtain ⟨events', htrace', hstores⟩ :=
    vmmPage1gbMapOffline_stores h.tree (p + hhdmOffset) p (pageWritable ||| pageNx)
  have hindex : 256 ≤ (vaIndex (p + hhdmOffset) 39 : Nat) := by
    have haddr : (p + hhdmOffset).toNat = (p.toNat + 0xFFFF800000000000) % 2 ^ 64 := by
      rw [BitVec.toNat_add, hhdmOffset_toNat]
    simp only [vaIndex]
    omega
  refine ⟨events ++ events', ?_, fun pa hpa => ?_⟩
  · rw [hhdmTurn, htrace', htrace, List.append_assoc]
  · rcases List.mem_append.mp hpa with hold | hnew
    · exact hupper pa hold
    · exact hstores.not_lowerSlot h.tree.tree.root_lt hindex hnew

/-- With a ceiling of at most 2^47 each turn starts where the ones before have left it. -/
theorem HhdmTurn.reached (hstart : HhdmTree c₀ root 0 m.toCore)
    (hceil : (pmmHighestAddressGet m.pmm).toNat ≤ 2 ^ 47) {p : BitVec 64} {s : Machine}
    (h : HhdmTurn (frameAddr root) m p s) : HhdmReached c₀ root m p.toNat s := by
  have hzero : HhdmReached c₀ root m (0 : BitVec 64).toNat m :=
    ⟨hstart, rfl, [], (List.append_nil _).symm, fun _ hpa => absurd hpa List.not_mem_nil⟩
  refine Loop.Turn.rule (HhdmReached c₀ root m) (by rw [gibSize_toNat]; omega) ?_ hzero h
  intro p s hlt hs hgo
  have hlt' := BitVec.lt_def.mp hlt
  have haligned := hs.aligned
  have hnext : (p.toNat + 2 ^ 30) / 2 ^ 30 = p.toNat / 2 ^ 30 + 1 := by omega
  obtain ⟨r, s', heq, hpost⟩ := vmmPage1gbMapOffline_step (p := p) hs.tree (by omega) (by omega)
  have hturn := hs.turn (by omega)
  rw [hhdmTurn, heq] at hgo hturn ⊢
  cases hgo
  rw [gibSize_toNat]
  exact ⟨hnext ▸ hpost.1, by omega, hturn⟩

/-- With a higher one, and frames for the tables of the upper half, the loop comes to 2^47. -/
theorem hhdmTurn_highest (hstart : HhdmTree c₀ root 0 m.toCore) (htally : Tallied n fails root (directTables 0) m)
    (hn : 2 ^ 20 ≤ n) (hceil : 2 ^ 47 < (pmmHighestAddressGet m.pmm).toNat) :
    ∃ p s, p.toNat = 2 ^ 47 ∧ HhdmTurn (frameAddr root) m p s := by
  refine Loop.exists_turn (fun p (s : Machine) => HhdmTree c₀ root (p / 2 ^ 30) s.toCore ∧ p % 2 ^ 30 = 0 ∧
    Tallied n fails root (directTables (p / 2 ^ 30)) s) (by rw [gibSize_toNat]; omega) hceil ?_
    ⟨hstart, rfl, htally⟩ (2 ^ 17) (by rw [gibSize_toNat]; rfl)
  rintro p s hlt ⟨htree, haligned, htally⟩
  have hnext : (p.toNat + 2 ^ 30) / 2 ^ 30 = p.toNat / 2 ^ 30 + 1 := by omega
  obtain ⟨r, s', heq, hpost⟩ := vmmPage1gbMapOffline_step (p := p) htree (by omega) (by omega)
  have hcount := vmmPage1gbMapOffline_tallied (p := p) (pageWritable ||| pageNx) htree (by omega) htally
  rw [hhdmTurn, heq, gibSize_toNat, hnext]
  rw [heq] at hcount
  cases r with
  | false =>
      have hle := directTables_ncard_le (p.toNat / 2 ^ 30 + 1)
      have hfew : n < (directTables (p.toNat / 2 ^ 30 + 1)).ncard := hcount
      omega
  | true => exact ⟨rfl, hpost.1, by omega, hcount⟩

end

/-- Up to a ceiling in the last GiB of the 64-bit addresses the loop never gets. -/
theorem vmmHhdmCreate_endless {fuel : Nat} {pml4Virt : BitVec 64} {m m' : Machine}
    (hceil : 2 ^ 64 - 2 ^ 30 < (pmmHighestAddressGet m.pmm).toNat) :
    vmmHhdmCreate fuel pml4Virt m ≠ some (true, m') := by
  refine Loop.forStep_endless (fun p => p.toNat % 2 ^ 30 = 0) (fun p hp => ⟨?_, ?_⟩) rfl
  · have hlt := p.isLt
    rw [BitVec.lt_def]
    omega
  · have hlt := p.isLt
    rw [BitVec.toNat_add, gibSize_toNat]
    omega

/-- After `pmm_init` the direct map is contained exactly if the ceiling is at most 2^47. -/
theorem vmmHhdmCreate_contained_iff {map : List E820Entry} {k : KernelImage} {p : Pmm} {m : Machine}
    (hpmm : m.pmm = pmmInit map k p) (himage : k.kernelEnd.toNat ≤ 64 * 2 ^ 20) :
    HhdmContained m.frameAlloc.1 (zero .identity m.frameAlloc.1 4096 m.frameAlloc.2) ↔
      (pmmHighestAddressGet m.pmm).toNat ≤ 2 ^ 47 := by
  have hspare : 2 ^ 20 ≤ (spareFrames m.pmm).ncard := by
    rw [hpmm]
    exact spareFrames_pmmInit himage
  rcases frameAlloc_root m with ⟨-, hfull⟩ | ⟨root, htaken, hroot, hclear⟩
  · rw [spareFrames_full hfull, Set.ncard_empty] at hspare
    omega
  · have hceil : pmmHighestAddressGet (m.takeRoot root).pmm = pmmHighestAddressGet m.pmm :=
      rootCore_ceiling m.toCore root
    have hstart : HhdmTree (rootCore m.toCore root) root 0 (m.takeRoot root).toCore := HhdmTree.start htaken
    have htally : Tallied (spareFrames m.pmm).ncard m.failures root (directTables 0) (m.takeRoot root) :=
      Tallied.start htaken rfl (m.failures_takeRoot root)
    rw [hroot] at hclear ⊢
    rw [hclear]
    constructor
    · intro h
      by_contra hhigh
      obtain ⟨p, s, hp, hturn⟩ := hhdmTurn_highest hstart htally hspare (by rw [hceil]; omega)
      have hwrap := h.noWrap p s hturn
      rw [hp, hhdmOffset_toNat] at hwrap
      omega
    · intro hle
      rw [← hceil] at hle
      refine ⟨?_, fun p s hturn => ?_, fun p s hturn => ?_⟩
      · obtain ⟨r, m', heq, -⟩ := vmmHhdmCreate_spec hstart (by omega) (Nat.le_refl (2 ^ 64))
        exact ⟨_, _, heq⟩
      · have hlt := BitVec.lt_def.mp hturn.lt
        rw [hhdmOffset_toNat]
        omega
      · have hlt := BitVec.lt_def.mp hturn.lt
        exact (hturn.reached hstart hle).turn (by omega)

theorem vmmHhdmCreate_contained_ram :
    HhdmContained (ramMachine [] fun _ => 0).frameAlloc.1
      (zero .identity (ramMachine [] fun _ => 0).frameAlloc.1 4096 (ramMachine [] fun _ => 0).frameAlloc.2) :=
  (vmmHhdmCreate_contained_iff ramMachine_pmm (by decide)).mpr (ramMachine_placed _).ceiling

/-- A reserved range at 2^47 is enough to lead the direct map into the lower half. -/
theorem vmmHhdmCreate_not_contained :
    ¬ HhdmContained (ramMachine [highEntry] fun _ => 0).frameAlloc.1
      (zero .identity (ramMachine [highEntry] fun _ => 0).frameAlloc.1 4096
        (ramMachine [highEntry] fun _ => 0).frameAlloc.2) := by
  have hceil : pmmHighestAddressGet (ramMachine [highEntry] fun _ => 0).pmm = 0x800040000000 := ramMachine_ceiling
  rw [vmmHhdmCreate_contained_iff ramMachine_pmm (by decide), hceil]
  decide

end BootKernel
