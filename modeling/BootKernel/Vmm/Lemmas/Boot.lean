import BootKernel.Vmm.Lemmas.Hhdm
import Mathlib.Data.Set.Insert

/-!
# The tree that `vmm_init` loads

With a ceiling of at most 2^47 the direct map fills slots of the upper half only, and
`vmm_kernel_map` adds identity pages to the lower half, one at a time. Every lemma says that an
allocation has failed or that the tree has the next shape.
-/

namespace BootKernel

open Radix

/-- The page number of an address, bits 12 to 47. -/
def pageNumber (va : BitVec 64) : Nat := va.toNat / 4096 % 2 ^ 36

/-- The direct map of `k` GiB in the upper half and the identity pages `S` in the lower half. -/
structure BootTree (c₀ : Core) (root k : Nat) (S : Set Nat) (c : Core) : Prop where
  tree : PageTree c root
  confined : Confined root c₀ c
  clean : CleanTables c root
  high : ∀ va, 2 ^ 35 ≤ pageNumber va → walk c.mem root va =
    if hhdmSlot va < k then some (1, hhdmEntry (hhdmSlot va)) else none
  mapped : ∀ va, pageNumber va < 2 ^ 35 → pageNumber va ∈ S →
    walk c.mem root va = some (3, pageEntry (frameAddr (pageNumber va)) pageWritable)
  unmapped : ∀ va, pageNumber va < 2 ^ 35 → pageNumber va ∉ S → walk c.mem root va = none

/-- A count of failures has been passed, or the property holds. -/
def OrFailed (n : Nat) (T : Core → Prop) (m : Machine) : Prop :=
  n < m.failures ∨ n ≤ m.failures ∧ T m.toCore

section
variable {c₀ c : Core} {root k : Nat} {S : Set Nat} {va : BitVec 64} {m : Machine}

theorem HhdmTree.boot (h : HhdmTree c₀ root k c) (hk : k ≤ 2 ^ 17) : BootTree c₀ root k ∅ c := by
  have hclean : CleanTables c root := by
    intro q t i hq hqt _
    rw [h.shallow q (by omega)] at hqt
    cases hqt
  refine ⟨h.tree, h.confined, hclean, fun va _ => h.walk va, fun va _ hS => absurd hS id,
    fun va hlow _ => ?_⟩
  have hslot : ¬ hhdmSlot va < k := by
    rw [pageNumber] at hlow
    rw [hhdmSlot]
    omega
  rw [h.walk, if_neg hslot]

theorem BootTree.walksToPt (h : BootTree c₀ root k S c) (hlow : pageNumber va < 2 ^ 35) :
    WalksToPt c.mem root va := by
  intro d e hwalk
  by_cases hS : pageNumber va ∈ S
  · rw [h.mapped va hlow hS] at hwalk
    cases hwalk
    rfl
  · rw [h.unmapped va hlow hS] at hwalk
    cases hwalk

theorem BootTree.grow {c' : Core} (h : BootTree c₀ root k S c) (hgrow : Grow root c c') :
    BootTree c₀ root k S c' := by
  have hgrown := h.tree.grow hgrow
  have hwalk : ∀ va, walk c'.mem root va = walk c.mem root va := fun va => hgrown.lookup _
  refine ⟨hgrown.tree, h.confined.grow h.tree hgrow, h.clean.grow h.tree hgrow, fun va => ?_,
    fun va => ?_, fun va => ?_⟩
  · rw [hwalk]
    exact h.high va
  · rw [hwalk]
    exact h.mapped va
  · rw [hwalk]
    exact h.unmapped va

theorem BootTree.setPage {t : Nat} (h : BootTree c₀ root k S c) (hlow : pageNumber va < 2 ^ 35)
    (hend : descend (slots c.mem) 0 root (ptPath va) = some t) :
    BootTree c₀ root k (insert (pageNumber va) S) { c with
      mem := setEntry c.mem t (vaIndex va 12)
        (pageEntry (frameAddr (pageNumber va)) pageWritable) } := by
  obtain ⟨htree, hwalk⟩ :=
    h.tree.setPage hend (pageEntry (frameAddr (pageNumber va)) pageWritable)
  have hsame : ∀ vb, vaPath vb = vaPath va ↔ pageNumber vb = pageNumber va := fun vb => vaPath_inj
  simp only [hsame, if_neg (pageEntry_present _ _)] at hwalk
  refine ⟨htree, h.confined.setEntry h.tree hend (entrySlot_pt_ne_node (ptPath_length va) _)
    (entrySlot_pt_ne_node (ptPath_length va) _),
    h.clean.setPage h.tree hend fun habs => absurd habs (pageEntry_present _ _), fun vb hhigh => ?_,
    fun vb hvb hS => ?_, fun vb hvb hS => ?_⟩
  · refine (hwalk vb).trans ?_
    rw [if_neg (by omega)]
    exact h.high vb hhigh
  · refine (hwalk vb).trans ?_
    by_cases heq : pageNumber vb = pageNumber va
    · rw [if_pos heq, heq]
    · rw [if_neg heq]
      exact h.mapped vb hvb (Set.mem_of_mem_insert_of_ne hS heq)
  · rw [Set.mem_insert_iff, not_or] at hS
    refine (hwalk vb).trans ?_
    rw [if_neg hS.1]
    exact h.unmapped vb hvb hS.2

/-- No page table is the frame 0 when that frame was in use before. -/
theorem BootTree.pt_ne_zero {t : Nat} (h : BootTree c₀ root k S c) (hzero : c₀.pmm.used 0 = true)
    (hend : descend (slots c.mem) 0 root (ptPath va) = some t) : t ≠ 0 := by
  rintro rfl
  rcases h.confined.fresh 0 ⟨_, hend⟩ with hroot | hfree
  · have hpath := h.tree.unshared [] (ptPath va) 0 (by rw [← hroot]; rfl) hend
    cases hpath
  · rw [hzero] at hfree
    cases hfree

end

/-! ## One page -/

section
variable {root : Nat} {va : BitVec 64} {m : Machine}

theorem Descent.failures_le {create : Bool} {shifts : List Nat} {n t : Nat} {m' : Machine}
    (hd : Descent create va shifts n m t m') : m.failures ≤ m'.failures := by
  induction hd with
  | here => exact Nat.le_refl _
  | follow _ _ ih =>
      exact Nat.le_trans (Nat.le_trans (Machine.failures_le_emit _ _) (Machine.failures_le_emit _ _)) ih
  | enter _ _ _ _ ih => exact Nat.le_trans (Machine.failures_le_enterNew _ _ _ _) ih

/-- Only the walk allocates. -/
theorem vmmPageMapInternal_failures (pml4Virt va paddr flags : BitVec 64) (m : Machine) :
    (vmmPageMapInternal pml4Virt va paddr flags m).failures =
      (vmmPteGetOfflineLoop true va (levelsShift.take 3) pml4Virt m).2.failures := by
  rw [vmmPageMapInternal, vmmPteGetOffline]
  rcases vmmPteGetOfflineLoop true va (levelsShift.take 3) pml4Virt m with ⟨_ | table, m'⟩
  · rfl
  · simp only
    split
    · rw [Machine.failures_store64]
    · rfl

/-- Where the walk reaches the page table, the slot is written. -/
theorem vmmPageMapInternal_of_walk {m₁ : Machine} {t : Nat} (paddr flags : BitVec 64)
    (heq : vmmPteGetOfflineLoop true va (levelsShift.take 3) (frameAddr root) m = (some (frameAddr t), m₁))
    (hlt : t < 2 ^ 51) (hne : t ≠ 0) : vmmPageMapInternal (frameAddr root) va paddr flags m =
      m₁.setEntry t (vaIndex va 12) (pageEntry paddr flags) := by
  have hnull := entryPtr_ne_zero hlt hne (index_toNat va 12)
  have hstore := m₁.store64_entry .identity hlt va 12 (pageEntry paddr flags)
  simp only [Window.base, pageEntry] at hstore
  simp only [vmmPageMapInternal, vmmPteGetOffline, heq, hnull, ne_eq, not_false_eq_true, ↓reduceIte,
    hstore, pageEntry]

/-- The early `vmm_page_map_internal` fails to allocate, or grows the tree and writes the slot. -/
theorem vmmPageMapInternal_cases (paddr flags : BitVec 64) (ht : PageTree m.toCore root)
    (hps : WalksToPt m.mem root va) :
    m.failures < (vmmPageMapInternal (frameAddr root) va paddr flags m).failures ∨
    ∃ (m₁ : Machine) (t : Nat), Grow root m.toCore m₁.toCore ∧ m.failures ≤ m₁.failures ∧
      descend (slots m₁.mem) 0 root (ptPath va) = some t ∧
      (t ≠ 0 → vmmPageMapInternal (frameAddr root) va paddr flags m =
        m₁.setEntry t (vaIndex va 12) (pageEntry paddr flags)) := by
  have hroot := ht.root_lt
  rcases vmmPteGetOfflineLoop_descent va (levelsShift.take 3) m (show root < 2 ^ 51 by omega) with
    ⟨hfail, -⟩ | ⟨t, m₁, heq, hd⟩
  · left
    rw [vmmPageMapInternal_failures]
    exact hfail
  · right
    obtain ⟨hgrow, -, hend⟩ := hd.grow [] [vaIndex va 12] ht rfl hps rfl (by decide)
    have hlt := (ht.grow hgrow).tree.reaches_lt ⟨_, hend⟩
    exact ⟨m₁, t, hgrow, hd.failures_le, hend, vmmPageMapInternal_of_walk paddr flags heq (by omega)⟩

end

/-! ## The loops of `vmm_kernel_map` -/

section
variable {c₀ : Core} {root k fails : Nat} {S : Set Nat} {m : Machine}

/-- One identity page. What growing and writing the slot keep is carried along. -/
theorem vmmPageMapInternal_carry {P : Core → Prop} (va : BitVec 64) (hzero : c₀.pmm.used 0 = true)
    (hgrows : ∀ c c', PageTree c root → Grow root c c' → P c → P c')
    (hwrites : ∀ c t, PageTree c root → descend (slots c.mem) 0 root (ptPath va) = some t → P c →
      P { c with mem := setEntry c.mem t (vaIndex va 12) (pageEntry va pageWritable) })
    (h : OrFailed fails (fun c => BootTree c₀ root k S c ∧ P c) m) (hlow : va.toNat < 2 ^ 47)
    (hpage : va.toNat % 4096 = 0) :
    OrFailed fails (fun c => BootTree c₀ root k (insert (va.toNat / 4096) S) c ∧ P c)
      (vmmPageMapInternal (frameAddr root) va va pageWritable m) := by
  have hmono : m.failures ≤ (vmmPageMapInternal (frameAddr root) va va pageWritable m).failures := by
    rw [vmmPageMapInternal_failures]
    exact vmmPteGetOfflineLoop_failures _ _ _ _ _
  rcases h with hfailed | ⟨hle, h, hP⟩
  · exact Or.inl (Nat.lt_of_lt_of_le hfailed hmono)
  · have hnumber : pageNumber va = va.toNat / 4096 := by
      rw [pageNumber]
      omega
    have haddr : frameAddr (va.toNat / 4096) = va := by
      apply BitVec.eq_of_toNat_eq
      rw [frameAddr_toNat (by omega)]
      omega
    have hlow' : pageNumber va < 2 ^ 35 := by omega
    rcases vmmPageMapInternal_cases va pageWritable h.tree (h.walksToPt hlow') with
      hfail | ⟨m₁, t, hgrow, hfails, hend, hok⟩
    · exact Or.inl (Nat.lt_of_le_of_lt hle hfail)
    · right
      have h₁ := h.grow hgrow
      have h₂ := h₁.setPage hlow' hend
      have hP₂ := hwrites _ t h₁.tree hend (hgrows _ _ h.tree hgrow hP)
      rw [hnumber, haddr] at h₂
      rw [hok (h₁.pt_ne_zero hzero hend), Machine.failures_setEntry]
      exact ⟨Nat.le_trans hle hfails, h₂, hP₂⟩

theorem vmmPageMapInternal_step (va : BitVec 64) (hzero : c₀.pmm.used 0 = true)
    (h : OrFailed fails (BootTree c₀ root k S) m) (hlow : va.toNat < 2 ^ 47)
    (hpage : va.toNat % 4096 = 0) :
    OrFailed fails (BootTree c₀ root k (insert (va.toNat / 4096) S))
      (vmmPageMapInternal (frameAddr root) va va pageWritable m) := by
  have hcarry := vmmPageMapInternal_carry (P := fun _ => True) va hzero (fun _ _ _ _ _ => trivial)
    (fun _ _ _ _ _ => trivial) (h.imp id fun h => ⟨h.1, h.2, trivial⟩) hlow hpage
  exact hcarry.imp id fun h => ⟨h.1, h.2.1⟩

/-- A loop that maps one page after the other, from `base + start` up to `base + bound`, carries along
what each page extends. -/
theorem identityLoop_rule {fuel : Nat} {T : Set Nat → Machine → Prop} (base : Nat) (start bound : BitVec 64)
    (addr : BitVec 64 → BitVec 64)
    (hstep : ∀ (S : Set Nat) (va : BitVec 64) (m : Machine), va.toNat < 2 ^ 47 → va.toNat % 4096 = 0 → T S m →
      T (insert (va.toNat / 4096) S) (vmmPageMapInternal (frameAddr root) va va pageWritable m))
    (h : T S m) (haddr : ∀ i, i < bound → (addr i).toNat = base + i.toNat) (hlow : base + bound.toNat ≤ 2 ^ 47)
    (hle : start ≤ bound) (hstart : (base + start.toNat) % 4096 = 0)
    (hbound : (base + bound.toNat) % 4096 = 0) (hfuel : 2 ^ 64 ≤ fuel) :
    ∃ r m', Loop.forStep bound pageSize (fun i m =>
        (true, vmmPageMapInternal (frameAddr root) (addr i) (addr i) pageWritable m)) fuel start m =
          some (r, m') ∧
      T (S ∪ {f | (base + start.toNat) / 4096 ≤ f ∧ f < (base + bound.toNat) / 4096}) m' := by
  have hle' := BitVec.le_def.mp hle
  refine Loop.forStep_rule
    (fun i s => (base + i) % 4096 = 0 ∧ start.toNat ≤ i ∧ i ≤ bound.toNat ∧
      T (S ∪ {f | (base + start.toNat) / 4096 ≤ f ∧ f < (base + i) / 4096}) s)
    (fun _ s => T (S ∪ {f | (base + start.toNat) / 4096 ≤ f ∧ f < (base + bound.toNat) / 4096}) s)
    (by rw [pageSize_toNat]; omega) (by rw [pageSize_toNat]; omega) ?_ ?_
    ⟨hstart, Nat.le_refl _, hle', ?_⟩ (by omega)
  · rintro i s hlt ⟨hmod, hge, -, hs⟩
    have hlt' := BitVec.lt_def.mp hlt
    have hi := haddr i hlt
    have hturn := hstep _ (addr i) s (by omega) (by omega) hs
    rw [pageSize_toNat, if_pos rfl]
    refine ⟨by omega, by omega, by omega, ?_⟩
    have hset : insert ((addr i).toNat / 4096)
        (S ∪ {f | (base + start.toNat) / 4096 ≤ f ∧ f < (base + i.toNat) / 4096}) =
        S ∪ {f | (base + start.toNat) / 4096 ≤ f ∧ f < (base + (i.toNat + 4096)) / 4096} := by
      ext f
      simp only [Set.mem_insert_iff, Set.mem_union, Set.mem_ofPred_eq, hi]
      by_cases hS : f ∈ S
      · simp [hS]
      · simp only [hS, false_or]
        omega
    rw [← hset]
    exact hturn
  · rintro i s hge ⟨-, -, hle, hs⟩
    have heq : i = bound.toNat := by omega
    rw [← heq]
    exact hs
  · have hset : S ∪ {f | (base + start.toNat) / 4096 ≤ f ∧ f < (base + start.toNat) / 4096} = S := by
      ext f
      simp only [Set.mem_union, Set.mem_ofPred_eq]
      exact ⟨fun hf => hf.elim id fun hf => absurd hf.2 (by omega), Or.inl⟩
    rw [hset]
    exact h

end

/-- The pages that `vmm_kernel_map` is meant to map to themselves: the image, and the stack with
256 KiB below it. -/
def BootEnv.identityPages (env : BootEnv) : Set Nat :=
  {f | env.image.kernelStart.toNat / 4096 ≤ f ∧ f < env.image.kernelEnd.toNat / 4096} ∪
  {f | (alignDown (env.rsp - 256 * 1024)).toNat / 4096 ≤ f ∧
    f < (alignUp (env.rsp + pageSize)).toNat / 4096}

/-- The image ends in the lower half, and so does the window round the stack pointer. -/
structure BootEnv.Low (env : BootEnv) : Prop where
  image : env.image.kernelEnd.toNat ≤ 2 ^ 47
  window : 256 * 1024 ≤ env.rsp.toNat
  stack : env.rsp.toNat + 8192 < 2 ^ 47

section
variable {env : BootEnv} {fuel : Nat} {m : Machine}

theorem BootEnv.Low.start_toNat (h : env.Low) :
    (alignDown (env.rsp - 256 * 1024)).toNat = (env.rsp.toNat - 256 * 1024) / 4096 * 4096 := by
  have hwindow : (256 * 1024 : BitVec 64) ≤ env.rsp := BitVec.le_def.mpr h.window
  have hnat : (256 * 1024 : BitVec 64).toNat = 256 * 1024 := by decide
  rw [alignDown_toNat, BitVec.toNat_sub_of_le hwindow, hnat]

theorem BootEnv.Low.end_toNat (h : env.Low) :
    (alignUp (env.rsp + pageSize)).toNat = (env.rsp.toNat + 8191) / 4096 * 4096 := by
  have hstack := h.stack
  have hadd : (env.rsp + pageSize).toNat = env.rsp.toNat + 4096 := by
    rw [BitVec.toNat_add, pageSize_toNat]
    omega
  rw [alignUp_toNat_of_le (by omega), hadd]

/-- `vmm_kernel_map` returns, and carries along what each page extends. -/
theorem vmmKernelMap_rule {root : Nat} {T : Set Nat → Machine → Prop} (hlow : env.Low)
    (hstep : ∀ (S : Set Nat) (va : BitVec 64) (m : Machine), va.toNat < 2 ^ 47 → va.toNat % 4096 = 0 → T S m →
      T (insert (va.toNat / 4096) S) (vmmPageMapInternal (frameAddr root) va va pageWritable m))
    (h : T ∅ m) (hfuel : 2 ^ 64 ≤ fuel) :
    ∃ m', vmmKernelMap fuel env (frameAddr root) m = some m' ∧ T env.identityPages m' := by
  have himage := hlow.image
  have hstart := hlow.start_toNat
  have hend := hlow.end_toNat
  have hstack := hlow.stack
  have halign₁ := env.image.start_aligned
  have halign₂ := env.image.end_aligned
  have hle := env.image.start_le_end
  have hsize : (env.image.kernelEnd - env.image.kernelStart).toNat =
      env.image.kernelEnd.toNat - env.image.kernelStart.toNat :=
    BitVec.toNat_sub_of_le (BitVec.le_def.mpr hle)
  obtain ⟨r₁, m₁, heq₁, h₁⟩ := identityLoop_rule env.image.kernelStart.toNat 0
    (env.image.kernelEnd - env.image.kernelStart) (fun i => env.image.kernelStart + i) hstep h
    (fun i hi => by
      have hlt := BitVec.lt_def.mp hi
      rw [BitVec.toNat_add]
      omega)
    (by omega) (BitVec.le_def.mpr (by simp)) (by simpa using halign₁) (by omega) hfuel
  obtain ⟨r₂, m₂, heq₂, h₂⟩ := identityLoop_rule 0 (alignDown (env.rsp - 256 * 1024))
    (alignUp (env.rsp + pageSize)) (fun i => i) hstep h₁ (fun i _ => (Nat.zero_add _).symm) (by omega)
    (BitVec.le_def.mpr (by omega)) (by omega) (by omega) hfuel
  refine ⟨m₂, by simp only [vmmKernelMap, heq₁, heq₂], ?_⟩
  have hset : ∅ ∪ {f | (env.image.kernelStart.toNat + (0 : BitVec 64).toNat) / 4096 ≤ f ∧
        f < (env.image.kernelStart.toNat + (env.image.kernelEnd - env.image.kernelStart).toNat) / 4096} ∪
      {f | (0 + (alignDown (env.rsp - 256 * 1024)).toNat) / 4096 ≤ f ∧
        f < (0 + (alignUp (env.rsp + pageSize)).toNat) / 4096} = env.identityPages := by
    have hzero' : (0 : BitVec 64).toNat = 0 := rfl
    rw [hsize, Nat.add_sub_cancel' hle, Set.empty_union, hzero']
    simp only [Nat.zero_add, Nat.add_zero]
    rfl
  rw [← hset]
  exact h₂

theorem vmmKernelMap_total (hlow : env.Low) (hfuel : 2 ^ 64 ≤ fuel) (root : Nat) (m : Machine) :
    ∃ m', vmmKernelMap fuel env (frameAddr root) m = some m' := by
  obtain ⟨m', heq, -⟩ := vmmKernelMap_rule (m := m) (T := fun _ _ => True) hlow
    (fun _ _ _ _ _ _ => trivial) trivial hfuel
  exact ⟨m', heq⟩

/-! ## `vmm_init` -/

/-- The state after the root has been taken and cleared. -/
def rootCore (c : Core) (root : Nat) : Core :=
  { mem := zeroFrame c.mem root, pmm := frameBitmapSet c.pmm (BitVec.ofNat 64 root) }

theorem rootCore_ceiling (c : Core) (root : Nat) :
    pmmHighestAddressGet (rootCore c root).pmm = pmmHighestAddressGet c.pmm :=
  frameBitmapSet_ceiling _ _

theorem rootCore_zero {c : Core} {root : Nat} (htaken : Machine.Taken c.pmm root) :
    PageTree (rootCore c root) root ∧
      (∀ q, q ≠ [] → descend (slots (rootCore c root).mem) 0 root q = none) ∧
      ∀ q, lookup (slots (rootCore c root).mem) 0 root q = none := by
  have hlt := htaken.lt
  have hused : (rootCore c root).pmm.used root = true := by
    rw [rootCore, used_frameBitmapSet, frameIdx_toNat (by omega)]
    simp
  exact PageTree.of_zero (by omega) hused fun i => tableEntry_zeroFrame_self c.mem root i

/-- The root is the only table of its tree. -/
theorem rootCore_descend {c : Core} {root f : Nat} {q : List (Fin 512)} (htaken : Machine.Taken c.pmm root) :
    descend (slots (rootCore c root).mem) 0 root q = some f ↔ q = [] ∧ f = root := by
  obtain ⟨-, hdesc, -⟩ := rootCore_zero htaken
  constructor
  · intro hq
    by_cases hne : q = []
    · rw [hne] at hq
      cases hq
      exact ⟨hne, rfl⟩
    · rw [hdesc q hne] at hq
      cases hq
  · rintro ⟨rfl, rfl⟩
    rfl

theorem HhdmTree.start {c : Core} {root : Nat} (htaken : Machine.Taken c.pmm root) :
    HhdmTree (rootCore c root) root 0 (rootCore c root) := by
  obtain ⟨htree, hdesc, hlookup⟩ := rootCore_zero htaken
  refine ⟨htree, ⟨fun _ h => h, ?_, fun _ _ _ => rfl⟩, fun q hq => hdesc q ?_, fun va => ?_⟩
  · rintro f ⟨q, hq⟩
    exact Or.inl ((rootCore_descend htaken).mp hq).2
  · rintro rfl
    exact absurd hq (by simp)
  · rw [if_neg (Nat.not_lt_zero _)]
    exact hlookup _

theorem rootCore_used_zero {c : Core} {root : Nat} (htaken : Machine.Taken c.pmm root) :
    (rootCore c root).pmm.used 0 = true := by
  have hlt := htaken.lt
  rw [rootCore, used_frameBitmapSet, frameIdx_toNat (by omega)]
  by_cases hroot : root = 0
  · simp [hroot]
  · rw [htaken.first 0 (by omega), Bool.or_true]

/-- The machine after the root has been taken and cleared. -/
def Machine.takeRoot (m : Machine) (root : Nat) : Machine :=
  { m with
    mem := zeroFrame m.mem root
    pmm := frameBitmapSet m.pmm (BitVec.ofNat 64 root)
    trace := m.trace ++ .alloc (frameAddr root) :: Machine.zeroEvents root 4096 }

theorem Machine.failures_takeRoot (m : Machine) (root : Nat) : (m.takeRoot root).failures = m.failures := by
  simp [failures, takeRoot, List.count_append, count_zeroEvents, frameAddr_ne_invalid]

theorem vmmPml4Load_cr3 (pml4Phys : BitVec 64) (m : Machine) : (vmmPml4Load pml4Phys m).cr3 = pml4Phys := rfl

theorem failures_le_vmmPml4Load (pml4Phys : BitVec 64) (m : Machine) :
    m.failures ≤ (vmmPml4Load pml4Phys m).failures := Machine.failures_le_emit _ _

theorem frameAlloc_root (m : Machine) :
    (m.frameAlloc = (pmmInvalidFrame, m.emit (.alloc pmmInvalidFrame)) ∧ ∀ f < 2 ^ 30, m.pmm.used f = true) ∨
    ∃ root, Machine.Taken m.pmm root ∧ m.frameAlloc.1 = frameAddr root ∧
      zero .identity m.frameAlloc.1 4096 m.frameAlloc.2 = m.takeRoot root := by
  rcases m.frameAlloc_cases with hfail | ⟨root, htaken, hok⟩
  · exact Or.inl hfail
  · have hlt := htaken.lt
    have hzero := Machine.zero_frame .identity (show root < 2 ^ 51 by omega)
      ({ m with pmm := frameBitmapSet m.pmm (BitVec.ofNat 64 root) }.emit (.alloc (frameAddr root)))
    simp only [Window.base] at hzero
    refine Or.inr ⟨root, htaken, by rw [hok], ?_⟩
    rw [hok, hzero]
    simp only [Machine.takeRoot, Machine.emit, List.append_assoc, List.singleton_append]

/-- The first steps of `vmm_init`: it fails, or goes on from a cleared root. -/
theorem vmmInit_cases (fuel : Nat) (env : BootEnv) (m : Machine) :
    (vmmInit fuel env m = some (false, m.emit (.alloc pmmInvalidFrame)) ∧
      ∀ f < 2 ^ 30, m.pmm.used f = true) ∨
    ∃ (root : Nat) (m₁ : Machine), Machine.Taken m.pmm root ∧ m₁.toCore = rootCore m.toCore root ∧
      m₁.failures = m.failures ∧
      vmmInit fuel env m =
        match vmmHhdmCreate fuel (frameAddr root) m₁ with
        | none => none
        | some (false, m) => some (false, m)
        | some (true, m) =>
            match vmmKernelMap fuel env (frameAddr root) m with
            | none => none
            | some m => some (true, vmmPml4Load (frameAddr root) m) := by
  rcases frameAlloc_root m with ⟨hfail, hfull⟩ | ⟨root, htaken, hroot, hclear⟩
  · exact Or.inl ⟨by simp only [vmmInit, hfail, ↓reduceIte], hfull⟩
  · rw [hroot] at hclear
    have hinit := vmmInit.eq_def fuel env m
    simp only [hroot, frameAddr_ne_invalid, ↓reduceIte, hclear] at hinit
    exact Or.inr ⟨root, m.takeRoot root, htaken, rfl, m.failures_takeRoot root, hinit⟩

/-- A ceiling of at most 2^48 can be mapped: `vmm_init` fails to allocate, or it builds the direct map,
adds the identity pages and loads the root. -/
theorem vmmInit_hhdm (hlow : env.Low) (hceil : (pmmHighestAddressGet m.pmm).toNat ≤ 2 ^ 48)
    (hfuel : 2 ^ 64 ≤ fuel) :
    (∃ m', vmmInit fuel env m = some (false, m') ∧ m.failures < m'.failures) ∨
    ∃ (root : Nat) (m₁ m₂ m₃ : Machine), Machine.Taken m.pmm root ∧ m₁.toCore = rootCore m.toCore root ∧
      vmmHhdmCreate fuel (frameAddr root) m₁ = some (true, m₂) ∧
      HhdmTree (rootCore m.toCore root) root (gibCount (pmmHighestAddressGet m.pmm)) m₂.toCore ∧
      m.failures ≤ m₂.failures ∧ vmmKernelMap fuel env (frameAddr root) m₂ = some m₃ ∧
      vmmInit fuel env m = some (true, vmmPml4Load (frameAddr root) m₃) := by
  rcases vmmInit_cases fuel env m with ⟨heq, -⟩ | ⟨root, m₁, htaken, hcore, hsame, heq⟩
  · refine Or.inl ⟨_, heq, ?_⟩
    rw [Machine.failures_emit_fail]
    exact Nat.lt_succ_self _
  · have hceil₁ : pmmHighestAddressGet m₁.pmm = pmmHighestAddressGet m.pmm := by
      rw [hcore, rootCore_ceiling]
    have hstart : HhdmTree (rootCore m.toCore root) root 0 m₁.toCore := by
      rw [hcore]
      exact HhdmTree.start htaken
    obtain ⟨r, m₂, hhhdm, hpost⟩ := vmmHhdmCreate_spec hstart (by rw [hceil₁]; exact hceil) hfuel
    obtain ⟨m₃, hkernel⟩ := vmmKernelMap_total hlow hfuel root m₂
    rw [hceil₁, hsame] at hpost
    rw [hhhdm] at heq
    cases r with
    | false => exact Or.inl ⟨m₂, heq, hpost⟩
    | true =>
        simp only [hkernel] at heq
        exact Or.inr ⟨root, m₁, m₂, m₃, htaken, hcore, hhhdm, hpost.1, hpost.2, hkernel, heq⟩

/-- What `vmm_init` has to keep of a property of the tables, step by step. -/
structure InitRules (fuel : Nat) (m : Machine) (P : Nat → Core → Prop) : Prop where
  direct : ∀ {root : Nat} {m₁ m₂ : Machine}, Machine.Taken m.pmm root → m₁.toCore = rootCore m.toCore root →
    vmmHhdmCreate fuel (frameAddr root) m₁ = some (true, m₂) → P root m₂.toCore
  grow : ∀ {root : Nat} {c c' : Core}, PageTree c root → Grow root c c' → P root c → P root c'
  setPage : ∀ {root t : Nat} {c : Core} {va : BitVec 64}, PageTree c root →
    descend (slots c.mem) 0 root (ptPath va) = some t → P root c →
      P root { c with mem := setEntry c.mem t (vaIndex va 12) (pageEntry va pageWritable) }

theorem initRules_true (fuel : Nat) (m : Machine) : InitRules fuel m fun _ _ => True :=
  ⟨fun _ _ _ => trivial, fun _ _ _ => trivial, fun _ _ _ => trivial⟩

theorem InitRules.kernelMap {c₀ : Core} {root k fails : Nat} {m₀ : Machine} {P : Nat → Core → Prop}
    (hP : InitRules fuel m₀ P) (hlow : env.Low) (hzero : c₀.pmm.used 0 = true)
    (h : OrFailed fails (fun c => BootTree c₀ root k ∅ c ∧ P root c) m) (hfuel : 2 ^ 64 ≤ fuel) :
    ∃ m', vmmKernelMap fuel env (frameAddr root) m = some m' ∧
      OrFailed fails (fun c => BootTree c₀ root k env.identityPages c ∧ P root c) m' :=
  vmmKernelMap_rule (T := fun S m => OrFailed fails (fun c => BootTree c₀ root k S c ∧ P root c) m) hlow
    (fun _ va _ hva hpage hs => vmmPageMapInternal_carry va hzero (fun _ _ ht => hP.grow ht)
      (fun _ _ ht => hP.setPage ht) hs hva hpage) h hfuel

/-- `vmm_init` returns; unless an allocation has failed it has loaded the tree that is meant, with the
properties that its steps keep. -/
theorem InitRules.init {P : Nat → Core → Prop} (hP : InitRules fuel m P) (hlow : env.Low)
    (hceil : (pmmHighestAddressGet m.pmm).toNat ≤ 2 ^ 47) (hfuel : 2 ^ 64 ≤ fuel) :
    ∃ r m', vmmInit fuel env m = some (r, m') ∧ (m.failures < m'.failures ∨
      ∃ root, Machine.Taken m.pmm root ∧ r = true ∧ m'.cr3 = frameAddr root ∧
        BootTree (rootCore m.toCore root) root (gibCount (pmmHighestAddressGet m.pmm))
          env.identityPages m'.toCore ∧ P root m'.toCore) := by
  rcases vmmInit_hhdm hlow (show (pmmHighestAddressGet m.pmm).toNat ≤ 2 ^ 48 by omega) hfuel with
    ⟨m', heq, hfail⟩ | ⟨root, m₁, m₂, m₃, htaken, hcore, hhhdm, htree, hfails, hkernel, heq⟩
  · exact ⟨false, m', heq, Or.inl hfail⟩
  · have hk : gibCount (pmmHighestAddressGet m.pmm) ≤ 2 ^ 17 := by
      rw [gibCount]
      omega
    obtain ⟨m', hkernel', hboot⟩ := hP.kernelMap hlow (rootCore_used_zero htaken)
      (Or.inr ⟨hfails, htree.boot hk, hP.direct htaken hcore hhhdm⟩) hfuel
    rw [hkernel] at hkernel'
    cases hkernel'
    refine ⟨true, _, heq, ?_⟩
    rcases hboot with hfailed | ⟨-, hboot, hkept⟩
    · exact Or.inl (Nat.lt_of_lt_of_le hfailed (Machine.failures_le_emit _ _))
    · exact Or.inr ⟨root, htaken, rfl, rfl, hboot, hkept⟩

theorem vmmInit_spec (hlow : env.Low) (hceil : (pmmHighestAddressGet m.pmm).toNat ≤ 2 ^ 47)
    (hfuel : 2 ^ 64 ≤ fuel) :
    ∃ r m', vmmInit fuel env m = some (r, m') ∧ (m.failures < m'.failures ∨
      ∃ root, Machine.Taken m.pmm root ∧ r = true ∧ m'.cr3 = frameAddr root ∧
        BootTree (rootCore m.toCore root) root (gibCount (pmmHighestAddressGet m.pmm))
          env.identityPages m'.toCore) := by
  obtain ⟨r, m', heq, hpost⟩ := (initRules_true fuel m).init hlow hceil hfuel
  refine ⟨r, m', heq, hpost.imp id ?_⟩
  rintro ⟨root, htaken, hr, hcr3, hboot, -⟩
  exact ⟨root, htaken, hr, hcr3, hboot⟩

end

/-! ## What the tree translates -/

theorem or_toNat {a b : BitVec 64} (i : Nat) (ha : a.toNat % 2 ^ i = 0) (hb : b.toNat < 2 ^ i) :
    (a ||| b).toNat = a.toNat + b.toNat := by
  have hsplit : a.toNat = 2 ^ i * (a.toNat / 2 ^ i) := by
    rw [Nat.mul_div_cancel' (Nat.dvd_of_mod_eq_zero ha)]
  rw [BitVec.toNat_or, hsplit]
  exact (Nat.two_pow_add_eq_or_of_lt hb _).symm

theorem entryFrame_frameAddr {f : Nat} (hf : f < 2 ^ 40) : entryFrame (frameAddr f) = f := by
  rw [entryFrame, frameAddr_and_mask hf, frameAddr_toNat (by omega)]
  omega

theorem hhdmEntry_and_mask {j : Nat} (hj : j < 2 ^ 18) :
    hhdmEntry j &&& 0x000FFFFFC0000000 = BitVec.ofNat 64 (j * 2 ^ 30) := by
  have hflags : (pageWritable ||| pageNx ||| pagePresent ||| psBit) &&& 0x000FFFFFC0000000 = 0 := by decide
  have hmask : ∀ i < 64, (0x000FFFFFC0000000 : BitVec 64).getLsbD i = decide (30 ≤ i ∧ i < 52) := by
    decide
  have haddr : BitVec.ofNat 64 (j * 2 ^ 30) = BitVec.ofNat 64 j <<< 30 := by
    apply BitVec.eq_of_toNat_eq
    rw [BitVec.toNat_shiftLeft, BitVec.toNat_ofNat, BitVec.toNat_ofNat, Nat.shiftLeft_eq]
    omega
  have hkeep : BitVec.ofNat 64 (j * 2 ^ 30) &&& 0x000FFFFFC0000000 = BitVec.ofNat 64 (j * 2 ^ 30) := by
    apply BitVec.eq_of_getLsbD_eq
    intro i hi
    rw [BitVec.getLsbD_and, hmask i hi]
    by_cases hlow : i < 30
    · rw [haddr]
      simp [hlow]
    · by_cases hhigh : i < 52
      · simp [Nat.le_of_not_lt hlow, hhigh]
      · have hlt : (BitVec.ofNat 64 (j * 2 ^ 30)).toNat < 2 ^ i := by
          rw [frameIdx_toNat (by omega)]
          calc j * 2 ^ 30 < 2 ^ 52 := by omega
            _ ≤ 2 ^ i := Nat.pow_le_pow_right (by omega) (by omega)
        have hbit : (BitVec.ofNat 64 (j * 2 ^ 30)).getLsbD i = false := Nat.testBit_lt_two_pow hlt
        rw [hbit, Bool.false_and]
  rw [hhdmEntry, hugeEntry, BitVec.or_assoc, BitVec.or_assoc, ← BitVec.or_assoc (pageWritable ||| pageNx),
    BitVec.and_or_distrib_right, hflags, hkeep, hkeep]
  exact BitVec.or_zero

section
variable {c₀ c : Core} {root k : Nat} {S : Set Nat} {va : BitVec 64}

theorem BootTree.translate_high (h : BootTree c₀ root k S c)
    (hva : hhdmOffset.toNat ≤ va.toNat) :
    translate c.mem (frameAddr root) va =
      if va.toNat < hhdmOffset.toNat + k * 2 ^ 30 then some (va - hhdmOffset) else none := by
  have hlt := va.isLt
  have hroot := h.tree.root_lt
  rw [hhdmOffset_toNat] at hva ⊢
  have hslot : hhdmSlot va = va.toNat / 2 ^ 30 - 0xFFFF800000000000 / 2 ^ 30 := by
    rw [hhdmSlot]
    omega
  rw [translate, entryFrame_frameAddr hroot, h.high va (by rw [pageNumber]; omega)]
  by_cases hin : va.toNat < 0xFFFF800000000000 + k * 2 ^ 30
  · rw [if_pos (by omega), if_pos hin]
    simp only [Option.some.injEq]
    have hlow : (va &&& 0x3FFFFFFF).toNat = va.toNat % 2 ^ 30 := by
      rw [BitVec.toNat_and]
      exact Nat.and_two_pow_sub_one_eq_mod _ 30
    have hsub : (va - hhdmOffset).toNat = va.toNat - 0xFFFF800000000000 :=
      BitVec.toNat_sub_of_le (BitVec.le_def.mpr hva)
    apply BitVec.eq_of_toNat_eq
    rw [hhdmEntry_and_mask (by omega), or_toNat 30 (by rw [frameIdx_toNat (by omega)]; omega) (by omega),
      frameIdx_toNat (by omega), hlow, hsub]
    omega
  · rw [if_neg (by omega), if_neg hin]

theorem BootTree.translate_low (h : BootTree c₀ root k S c) (hva : va.toNat < 2 ^ 47) :
    (va.toNat / 4096 ∈ S → translate c.mem (frameAddr root) va = some va) ∧
    (va.toNat / 4096 ∉ S → translate c.mem (frameAddr root) va = none) := by
  have hroot := h.tree.root_lt
  have hnumber : pageNumber va = va.toNat / 4096 := by
    rw [pageNumber]
    omega
  have hlow : pageNumber va < 2 ^ 35 := by omega
  rw [translate, entryFrame_frameAddr hroot]
  refine ⟨fun hS => ?_, fun hS => by rw [h.unmapped va hlow (hnumber ▸ hS)]⟩
  rw [h.mapped va hlow (hnumber ▸ hS)]
  simp only [Option.some.injEq]
  have hbits : (va &&& 0xFFF).toNat = va.toNat % 4096 := by
    rw [BitVec.toNat_and]
    exact Nat.and_two_pow_sub_one_eq_mod _ 12
  apply BitVec.eq_of_toNat_eq
  rw [pageEntry_and_mask (by decide), frameAddr_and_mask (by omega), hnumber,
    or_toNat 12 (by rw [frameAddr_toNat (by omega)]; omega) (by omega), frameAddr_toNat (by omega),
    hbits]
  omega

/-- The large pages of the tree are those of the direct map. -/
theorem BootTree.walksToPt_iff (h : BootTree c₀ root k S c) (hcanon : Canonical va) :
    WalksToPt c.mem root va ↔
      ¬ (hhdmOffset.toNat ≤ va.toNat ∧ va.toNat < hhdmOffset.toNat + k * 2 ^ 30) := by
  have hlt := va.isLt
  rw [hhdmOffset_toNat]
  rcases hcanon with hva | hva
  · exact iff_of_true (h.walksToPt (by rw [pageNumber]; omega)) (by omega)
  · have hslot : hhdmSlot va = va.toNat / 2 ^ 30 - 0xFFFF800000000000 / 2 ^ 30 := by
      rw [hhdmSlot]
      omega
    rw [WalksToPt, h.high va (by rw [pageNumber]; omega)]
    by_cases hin : hhdmSlot va < k
    · simp only [hin, ↓reduceIte, Option.some.injEq, Prod.mk.injEq, and_imp]
      refine iff_of_false (fun h => ?_) (by omega)
      exact absurd (h 1 _ rfl rfl) (by decide)
    · simp only [hin, ↓reduceIte, reduceCtorEq, false_implies, implies_true, true_iff]
      omega

end

end BootKernel
