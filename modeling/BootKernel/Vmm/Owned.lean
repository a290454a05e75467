import BootKernel.Vmm.Theorems
import BootKernel.Vmm.Lemmas.Detour
import BootKernel.Vmm.Ownership
import BootKernel.Vmm.Demand

/-!
# Frames and their owners after `vmm_init`

Up to a ceiling of 2^47 every frame that the page calls hand out has one owner. Above it the direct map runs into
the tables of the root that it is linked into.
-/

namespace BootKernel

open Radix

/-! ## Ownership -/

/-- What the surroundings of `vmm_init` promise about the image, the stack and the ceiling. -/
structure BootEnv.Placed (env : BootEnv) (ceiling : BitVec 64) : Prop where
  image : env.image.kernelEnd.toNat ≤ 64 * 2 ^ 20
  window : 256 * 1024 ≤ env.rsp.toNat
  stack : env.rsp.toNat ≤ 0x700000
  ceiling : ceiling.toNat ≤ 2 ^ 47

theorem BootEnv.Placed.low {env : BootEnv} {ceiling : BitVec 64} (h : env.Placed ceiling) : env.Low := by
  have himage := h.image
  have hstack := h.stack
  exact ⟨by omega, h.window, by omega⟩

theorem sampleEnv_placed {ceiling : BitVec 64} (hceil : ceiling.toNat ≤ 2 ^ 47) : sampleEnv.Placed ceiling :=
  ⟨by decide, by decide, by decide, hceil⟩

theorem BootEnv.Placed.page_lt {env : BootEnv} {ceiling : BitVec 64} (h : env.Placed ceiling) {f : Nat}
    (hf : f ∈ env.identityPages) :
    f < pmmReservedFrames.toNat := by
  have hstack := h.stack
  have himage := h.image
  have hend := h.low.end_toNat
  have hres := pmmReservedFrames_toNat
  simp only [BootEnv.identityPages, Set.mem_union, Set.mem_ofPred_eq] at hf
  omega

/-- A machine with 2 GiB of memory whose map has further entries, after `pmm_init`. -/
def ramEntry : E820Entry := ⟨0x100000, 0x7FF00000, 1, 0⟩

/-- A bitmap in which nothing is free, neither in the array nor behind it. -/
def fullPmm : Pmm := ⟨0, fun _ => ~~~ 0#64⟩

def ramMachine (map : List E820Entry) (mem : Memory) : Machine where
  mem := mem
  pmm := pmmInit (ramEntry :: map) sampleImage fullPmm
  cr3 := 0x1000
  trace := []

theorem used_fullPmm (f : Nat) : fullPmm.used f = true :=
  (BitArray.eq_allOnes_iff _).mp rfl _ (Nat.mod_lt f (by omega))

section
variable {map : List E820Entry} {mem : Memory}

theorem ramMachine_pmm : (ramMachine map mem).pmm = pmmInit (ramEntry :: map) sampleImage fullPmm := by
  simp only [ramMachine]

theorem ramMachine_free (hwrap : NoWrap (ramEntry :: map)) {f : Nat} (hlo : 0x4000 ≤ f)
    (hhi : f < 2 ^ 19) : (ramMachine map mem).pmm.used f = false := by
  have hcov := coveredFrames_eq
  rw [ramMachine_pmm]
  refine used_pmmInit_of_allocatable hwrap (by omega) ⟨?_, ?_, ?_, ramEntry, List.mem_cons_self .., ?_⟩
  · rw [pmmReservedFrames_toNat]
    exact hlo
  · rw [maxFrames_toNat]
    omega
  · rintro ⟨-, hlt⟩
    have hend : sampleImage.kernelEnd.toNat = 0x3405000 := by decide
    omega
  · have hbase : ramEntry.base.toNat = 0x100000 := by decide
    have hlength : ramEntry.length.toNat = 0x7FF00000 := by decide
    exact ⟨rfl, by omega, by omega⟩

theorem ramMachine_room (hwrap : NoWrap (ramEntry :: map)) {k : Nat} (hk : k ≤ 2 ^ 18) :
    Room (ramMachine map mem).pmm k :=
  ⟨0x4000, by omega, fun f hlo hhi => ramMachine_free hwrap hlo (by omega)⟩

theorem ramMachine_taken (mem : Memory) (hwrap : NoWrap (ramEntry :: map)) :
    Machine.Taken (ramMachine map mem).pmm 0x4000 := by
  have hcov := coveredFrames_eq
  have hres := pmmReservedFrames_toNat
  refine ⟨by omega, ramMachine_free hwrap (Nat.le_refl _) (by omega), fun f hf => ?_⟩
  rw [ramMachine_pmm]
  exact (used_pmmInit _ _ _ (by omega)).mpr (Or.inr (Or.inl (by omega)))

theorem ramMachine_ceiling : (pmmHighestAddressGet (ramMachine map mem).pmm) =
    (map.foldl (fun c e => if c < e.base + e.length then e.base + e.length else c) 0x80000000) := by
  rw [ramMachine_pmm, pmmHighestAddressGet, pmmInit_ceiling, foldl_ceiling, bitmapFill_ceiling]
  rfl

end

theorem ramMachine_noWrap : NoWrap [ramEntry] := by
  simp [NoWrap, ramEntry]

theorem ramMachine_highest (mem : Memory) : pmmHighestAddressGet (ramMachine [] mem).pmm = 0x80000000 :=
  ramMachine_ceiling

theorem ramMachine_placed (mem : Memory) : sampleEnv.Placed (pmmHighestAddressGet (ramMachine [] mem).pmm) := by
  rw [ramMachine_highest]
  exact sampleEnv_placed (by decide)

/-- A reserved range at the end of the lower half, as a firmware may report it. -/
def highEntry : E820Entry := ⟨0x800000000000, 0x40000000, 2, 0⟩

/-- A frame filled with one word. -/
def fillFrame (mem : Memory) (f : Nat) (v : BitVec 64) : Memory :=
  fun x => if x / 4096 = f then v.extractLsb' (8 * (x % 8)) 8 else mem x

theorem tableEntry_fillFrame (mem : Memory) (f : Nat) (v : BitVec 64) (i : Fin 512) :
    tableEntry (fillFrame mem f v) f i = v := by
  have hi := i.isLt
  have hword : (fillFrame mem f v).load64 (f * 4096 + 8 * i) =
      (mem.store64 (f * 4096 + 8 * i) v).load64 (f * 4096 + 8 * i) := by
    apply Memory.load64_congr
    intro x hlo hhi
    have hbyte : x % 8 = x - (f * 4096 + 8 * i) := by omega
    simp only [fillFrame, Memory.store64]
    rw [if_pos (by omega), if_pos ⟨hlo, hhi⟩, hbyte]
  exact hword.trans (Memory.load64_store64_same _ _ _)

theorem tableEntry_fillFrame_ne {mem : Memory} {f g : Nat} {v : BitVec 64} {i : Fin 512} (h : g ≠ f) :
    tableEntry (fillFrame mem f v) g i = tableEntry mem g i := by
  have hi := i.isLt
  apply Memory.load64_congr
  intro x hlo hhi
  exact if_neg (by omega)

/-- The wrapped part of the direct map leads every walk below 1 GiB to the PDPT of slot 256. -/
theorem wrap_detour {c₀ c : Core} {k : Nat} (h : HhdmTree c₀ 0x4000 k c) (hk : 2 ^ 17 < k)
    (hframe : ∀ i, tableEntry c.mem (2 ^ 35) i = 0x4001001)
    (hpdpt : descend (slots c.mem) 0 0x4000 [256] = some 0x4001) :
    ∃ n, Detour c.mem 0x4000 n (2 ^ 35) 0x4001 := by
  have hwalk := h.walk 0
  have hslot : hhdmSlot 0 = 2 ^ 17 := by decide
  rw [hslot, if_pos hk, walk, vaPath_eq] at hwalk
  obtain ⟨q, i, q', n, hpath, hlen, hn, hleaf⟩ := lookup_eq_some hwalk
  obtain ⟨i₀, rfl⟩ : ∃ i₀, q = [i₀] := List.length_eq_one_iff.mp (by omega)
  simp only [List.singleton_append, List.cons.injEq] at hpath
  obtain ⟨rfl, rfl, -⟩ := hpath
  have h39 : vaIndex 0 39 = 0 := by decide
  have h30 : vaIndex 0 30 = 0 := by decide
  rw [h39] at hn
  rw [h30] at hleaf
  obtain ⟨root, hroot, hnode⟩ := descend_snoc (p := []).mp hn
  cases hroot
  obtain ⟨hpres, -, -, hnframe⟩ := entrySlot_eq_node.mp hnode
  obtain ⟨hlpres, -, hentry⟩ := entrySlot_eq_leaf.mp hleaf
  refine ⟨n, hpres, hnframe, hlpres, ?_, fun i => ?_, fun i => ?_, ⟨by decide, ?_, by decide⟩, by decide,
    by decide⟩
  · rw [hentry]
    decide
  · rw [hframe]
    decide
  · rw [hframe]
    decide
  · rintro rfl
    have heq := h.tree.unshared _ _ _ hn hpdpt
    exact absurd heq (by decide)

theorem wrap_noWrap : NoWrap [ramEntry, highEntry] := by
  simp [NoWrap, ramEntry, highEntry]

section
variable {mem : Memory}

theorem wrap_ceiling (mem : Memory) : pmmHighestAddressGet (ramMachine [highEntry] mem).pmm = 0x800040000000 :=
  ramMachine_ceiling

theorem wrap_second (mem : Memory) :
    Machine.Taken (rootCore (ramMachine [highEntry] mem).toCore 0x4000).pmm 0x4001 := by
  have hfirst := ramMachine_taken mem wrap_noWrap
  refine ⟨by decide, ?_, fun f hf => ?_⟩
  · rw [rootCore, used_set (by decide), ramMachine_free wrap_noWrap (by decide) (by decide)]
    rfl
  · rw [rootCore, used_set (by decide)]
    by_cases hroot : f = 0x4000
    · rw [hroot]
      rfl
    · rw [hfirst.first f (by omega), Bool.or_true]

theorem wrap_pdpt {fuel : Nat} {m m' : Machine} (hfuel : 2 ^ 64 ≤ fuel)
    (hcore : m.toCore = rootCore (ramMachine [highEntry] mem).toCore 0x4000)
    (hrun : vmmHhdmCreate fuel (frameAddr 0x4000) m = some (true, m')) :
    descend (slots m'.mem) 0 0x4000 [256] = some 0x4001 := by
  obtain ⟨n, rfl⟩ : ∃ n, fuel = n + 1 := ⟨fuel - 1, by omega⟩
  have hstart : HhdmTree m.toCore 0x4000 0 m.toCore := by
    rw [hcore]
    exact HhdmTree.start (ramMachine_taken mem wrap_noWrap)
  have hceil : pmmHighestAddressGet m.pmm = 0x800040000000 := by
    rw [hcore, rootCore_ceiling]
    exact wrap_ceiling mem
  have habs : tableEntry m.mem 0x4000 (vaIndex (0 + hhdmOffset) 39) &&& pagePresent = 0 := by
    rw [hcore, rootCore, tableEntry_zeroFrame_self]
    decide
  have htaken : Machine.Taken m.pmm 0x4001 := by
    rw [hcore]
    exact wrap_second mem
  obtain ⟨m₁, heq₁, h₁, hdesc₁⟩ := vmmPage1gbMapOffline_step_new hstart (by decide)
    (show (0 : BitVec 64).toNat = 0 * 2 ^ 30 by decide) habs htaken
  have hbound : (0x800040000000 : BitVec 64).toNat = 2 ^ 47 + 2 ^ 30 := by decide
  have hsize : (0 + gibSize).toNat = (0 + 1) * 2 ^ 30 := by decide
  have hceil' : (0x800040000000 : BitVec 64).toNat ≤ 2 ^ 48 := by omega
  obtain ⟨r₂, m₂, heq₂, hpost⟩ := hhdmLoop_spec (0 + gibSize) h₁ hceil' hsize (by omega)
    (show (0x800040000000 : BitVec 64).toNat - (0 + gibSize).toNat < n by omega)
  have hlt : (0 : BitVec 64) < 0x800040000000 := by decide
  rw [vmmHhdmCreate, hceil, Loop.forStep_continue hlt heq₁, heq₂] at hrun
  cases hrun
  exact hpost.2.2 _ _ hdesc₁

/-- In the lower half the wrapped part takes the first slot only. -/
theorem wrap_absent {fuel : Nat} {m m' : Machine}
    (hcore : m.toCore = rootCore (ramMachine [highEntry] mem).toCore 0x4000)
    (htree : HhdmTree (rootCore (ramMachine [highEntry] mem).toCore 0x4000) 0x4000
      (gibCount (pmmHighestAddressGet (ramMachine [highEntry] mem).pmm)) m'.toCore)
    (hrun : vmmHhdmCreate fuel (frameAddr 0x4000) m = some (true, m')) :
    tableEntry m'.mem 0x4000 1 &&& pagePresent = 0 := by
  have hcount : gibCount 0x800040000000 = 2 ^ 17 + 1 := by decide
  have hpaths := vmmHhdmCreate_tables (ramMachine_taken mem wrap_noWrap) hcore (by rw [wrap_ceiling]; decide) hrun
  rw [wrap_ceiling, hcount] at hpaths htree
  -- no address of the direct map has the index 1
  have hnot : [(1 : Fin 512)] ∉ tablePaths 0x4000 m'.toCore := by
    rw [hpaths]
    rintro (habs | ⟨j, hj, hindex⟩)
    · cases habs
    · have hnat : (BitVec.ofNat 64 (j * 2 ^ 30)).toNat = j * 2 ^ 30 := frameIdx_toNat (by omega)
      have haddr : (BitVec.ofNat 64 (j * 2 ^ 30) + hhdmOffset).toNat =
          (j * 2 ^ 30 + 0xFFFF800000000000) % 2 ^ 64 := by
        rw [BitVec.toNat_add, hnat, hhdmOffset_toNat]
      have hval := congrArg Fin.val (List.cons.inj hindex).1
      simp only [vaIndex] at hval
      rw [haddr, Fin.val_one] at hval
      omega
  cases hslot : slots m'.mem 0 0x4000 1 with
  | empty => exact entrySlot_eq_empty.mp hslot
  | node f =>
      refine absurd ⟨f, ?_⟩ hnot
      simp only [descend, hslot]
  | leaf e =>
      have hwalk := htree.walk 0x8000000000
      have hpath : vaPath 0x8000000000 = [1, 0, 0, 0] := by decide
      rw [if_neg (by decide), walk, hpath] at hwalk
      simp only [lookup, hslot] at hwalk
      cases hwalk

theorem wrap_used_high : (ramMachine [highEntry] mem).pmm.used (2 ^ 35) = true := by
  have hcov := coveredFrames_eq
  rw [ramMachine_pmm, used_pmmInit_past _ _ _ (show coveredFrames ≤ 2 ^ 35 by omega), used_fullPmm,
    Bool.or_true]

theorem wrap_used_stack : (ramMachine [highEntry] mem).pmm.used 0x700 = true := by
  have hcov := coveredFrames_eq
  have hres := pmmReservedFrames_toNat
  rw [ramMachine_pmm]
  exact (used_pmmInit _ _ _ (by omega)).mpr (Or.inr (Or.inl (by omega)))

/-- What was in use before `vmm_init` keeps its contents. -/
theorem wrap_kept {k f : Nat} {c : Core}
    (h : HhdmTree (rootCore (ramMachine [highEntry] mem).toCore 0x4000) 0x4000 k c)
    (hused : (ramMachine [highEntry] mem).pmm.used f = true) (hf : f ≠ 0x4000) (i : Fin 512) :
    tableEntry c.mem f i = tableEntry mem f i := by
  have hkept := h.confined.tableEntry_eq (f := f)
    (by rw [rootCore, used_set (by decide), hused, Bool.or_true]) hf i
  rw [hkept, rootCore, tableEntry_zeroFrame_ne hf]
  rfl

/-- The tree when the wrapped part of the direct map has led the identity pages to the PDPT of slot 256:
its entry 256 names the frame of the last page round the stack. -/
structure Wrapped (mem : Memory) (m : Machine) : Prop where
  root : rootFrame m = 0x4000
  link : slots m.mem 0 0x4000 256 = .node 0x4001
  page : slots m.mem 1 0x4001 256 = .node 0x700
  kept : ∀ i, tableEntry m.mem 0x700 i = tableEntry mem 0x700 i
  absent : tableEntry m.mem 0x4000 1 &&& pagePresent = 0
  used : m.pmm.used 0x4000 = true ∧ m.pmm.used 0x4001 = true ∧ m.pmm.used 0x700 = true
  room : Room m.pmm 4

/-- Such a tree is what `vmm_init` loads when the page at 2^47 names the second frame in every word. -/
theorem vmmInit_wrapped (hhigh : ∀ i, tableEntry mem (2 ^ 35) i = 0x4001001) :
    ∃ m', vmmInit (2 ^ 64) sampleEnv (ramMachine [highEntry] mem) = some (true, m') ∧
      m'.failures = (ramMachine [highEntry] mem).failures ∧ Wrapped mem m' := by
  have hroom : Room (ramMachine [highEntry] mem).pmm
      (bootFrames sampleEnv (pmmHighestAddressGet (ramMachine [highEntry] mem).pmm) + 4) := by
    rw [wrap_ceiling]
    exact ramMachine_room wrap_noWrap (by decide)
  have hceil : (pmmHighestAddressGet (ramMachine [highEntry] mem).pmm).toNat ≤ 2 ^ 48 := by
    rw [wrap_ceiling]
    decide
  rcases vmmInit_hhdm sampleEnv_low hceil (Nat.le_refl (2 ^ 64)) with
    ⟨m', heq, -⟩ | ⟨root, m₁, m₂, m₃, htaken, hcore, hhhdm, htree, -, hkernel, heq⟩
  · cases (vmmInit_roomy sampleEnv_low hceil hroom heq).1
  · obtain rfl : root = 0x4000 := htaken.unique (ramMachine_taken mem wrap_noWrap)
    obtain ⟨-, hroomy⟩ := vmmInit_roomy sampleEnv_low hceil hroom heq
    have hpdpt := wrap_pdpt (Nat.le_refl _) hcore hhhdm
    have hlarge : ∀ i, tableEntry m₂.mem (2 ^ 35) i = 0x4001001 := fun i => by
      rw [wrap_kept htree wrap_used_high (by decide), hhigh]
    have hk : 2 ^ 17 < gibCount (pmmHighestAddressGet (ramMachine [highEntry] mem).pmm) := by
      rw [wrap_ceiling]
      decide
    obtain ⟨n, hdetour⟩ := wrap_detour htree hk hlarge hpdpt
    obtain ⟨hpmm, hsame, hlast⟩ := vmmKernelMap_detour hdetour sampleEnv_low (by decide) (by decide) hkernel
    refine ⟨_, heq, hroomy.failures, entryFrame_frameAddr (by decide), ?_, ?_, fun i => ?_, ?_, ?_, hroomy.room⟩
    · obtain ⟨f, hf, hslot⟩ := descend_snoc (p := []).mp hpdpt
      cases hf
      exact (congrArg (entrySlot 0) (hsame 0x4000 256 (by decide))).trans hslot
    · exact (congrArg (entrySlot 1) (hlast 0x700000 (by decide))).trans (by decide)
    · exact (hsame 0x700 i (by decide)).trans (wrap_kept htree wrap_used_stack (by decide) i)
    · have habs := wrap_absent hcore htree hhhdm
      rw [← hsame 0x4000 1 (by decide)] at habs
      exact habs
    · have hused : (vmmPml4Load (frameAddr 0x4000) m₃).pmm = m₂.pmm := hpmm
      rw [hused]
      refine ⟨htree.tree.used _ ⟨[], rfl⟩, htree.tree.used _ ⟨_, hpdpt⟩, htree.confined.used _ ?_⟩
      rw [rootCore, used_set (by decide), wrap_used_stack, Bool.or_true]

end

end BootKernel
