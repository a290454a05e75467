import BootKernel.Vmm.Orphans

/-!
# What `vmm_page_unmap` tells its caller

The function tests the entries above the page table and not the entry in it, so that it reports a page
as unmapped whenever the page table is there.
-/

namespace BootKernel

open Radix

/-- What a call of `vmm_page_unmap` should do, where `out` is the variable behind the out parameter. -/
structure UnmapExact (root : Nat) (va : BitVec 64) (out : Option (BitVec 64)) (m : Machine)
    (r : Bool × Option (BitVec 64) × Machine) : Prop where
  mapped : r.1 = true ↔ ∃ e, walk m.mem root va = some (3, e)
  frame : ∀ e, walk m.mem root va = some (3, e) → r.2.1 = out.map fun _ => e &&& pageAddrMask
  kept : r.1 = false → r.2.1 = out ∧ r.2.2.mem = m.mem
  unmapped : walk r.2.2.mem root va = none
  others : ∀ vb, vaPath vb ≠ vaPath va → walk r.2.2.mem root vb = walk m.mem root vb

section

variable {root t : Nat} {va : BitVec 64} {m : Machine}

theorem walk_none_of_pt (hps : WalksToPt m.mem root va) (hnone : descend (slots m.mem) 0 root (ptPath va) = none) :
    walk m.mem root va = none := by
  cases hwalk : walk m.mem root va with
  | none => rfl
  | some r =>
      obtain ⟨d, e⟩ := r
      obtain rfl := hps d e hwalk
      obtain ⟨t, hend, -⟩ := pt_of_walk hwalk
      rw [hnone] at hend
      cases hend

theorem vmmPageUnmap_none (out : Option (BitVec 64)) (ht : PageTree m.toCore root)
    (hps : WalksToPt m.mem root va) (hnone : descend (slots m.mem) 0 root (ptPath va) = none) :
    ∃ m', vmmPageUnmap (frameAddr root) va out m = (false, out, m') ∧ m'.toCore = m.toCore ∧ m'.cr3 = m.cr3 := by
  obtain ⟨pte, m', heq, -, hcr3, hcore, hpte⟩ := vmmPteGet_spec false ht hps
  rcases hpte with rfl | ⟨t, -, hend, -⟩
  · refine ⟨m', ?_, hcore rfl, hcr3⟩
    simp only [vmmPageUnmap, heq, ↓reduceIte]
  · rw [hcore rfl, hnone] at hend
    cases hend

/-- With a page table its entry is cleared, whatever it holds. -/
theorem vmmPageUnmap_pt (out : Option (BitVec 64)) (ht : PageTree m.toCore root) (hlow : LowTables root m.toCore)
    (hps : WalksToPt m.mem root va) (hend : descend (slots m.mem) 0 root (ptPath va) = some t) :
    ∃ m', vmmPageUnmap (frameAddr root) va out m =
        (true, out.map fun _ => tableEntry m.mem t (vaIndex va 12) &&& pageAddrMask, m') ∧
      m'.toCore = { m.toCore with mem := setEntry m.mem t (vaIndex va 12) 0 } ∧ m'.cr3 = m.cr3 := by
  have hlt := hlow t ⟨_, hend⟩
  obtain ⟨pte, m', heq, -, hcr3, hcore, -⟩ := vmmPteGet_spec false ht hps
  have hptr : pte = entryPtr (Window.hhdm.base (frameAddr t)) ((va >>> 12) &&& 0x1FF) := by
    have hfound := vmmPteGet_found false ht hps hend
    rwa [heq] at hfound
  have hsame : m'.toCore = m.toCore := hcore rfl
  have hne : pte ≠ 0 := by
    rw [hptr]
    exact hhdm_entryPtr_ne_zero hlt va
  have hload : m'.load64 .hhdm pte = (tableEntry m.mem t (vaIndex va 12), m'.readEntry t (vaIndex va 12)) := by
    have hread := m'.load64_entry .hhdm (show t < 2 ^ 51 by omega) va 12
    rwa [hsame, ← hptr] at hread
  have hstore (m₁ : Machine) : m₁.store64 .hhdm pte 0 = m₁.setEntry t (vaIndex va 12) 0 := by
    rw [hptr, Machine.store64_entry .hhdm (show t < 2 ^ 51 by omega)]
  cases out with
  | none =>
      refine ⟨invlpg va (m'.setEntry t (vaIndex va 12) 0), ?_, ?_, hcr3⟩
      · simp only [vmmPageUnmap, heq, hne, ↓reduceIte, hstore, Option.map_none]
      · rw [← hsame]
        rfl
  | some o =>
      refine ⟨invlpg va ((m'.readEntry t (vaIndex va 12)).setEntry t (vaIndex va 12) 0), ?_, ?_, hcr3⟩
      · simp only [vmmPageUnmap, heq, hne, ↓reduceIte, hload, hstore, Option.map_some]
      · rw [← hsame]
        rfl

/-- Whatever it reports, the function unmaps the page and no other. -/
theorem vmmPageUnmap_walk (ht : PageTree m.toCore root) (hend : descend (slots m.mem) 0 root (ptPath va) = some t)
    (vb : BitVec 64) : walk (setEntry m.mem t (vaIndex va 12) 0) root vb =
      if vaPath vb = vaPath va then none else walk m.mem root vb := by
  rw [(ht.setPage hend 0).2, if_pos (by decide : (0 : BitVec 64) &&& pagePresent = 0)]

theorem unmapExact_none {out : Option (BitVec 64)} {m' : Machine} (hnone : walk m.mem root va = none)
    (hmem : m'.mem = m.mem) : UnmapExact root va out m (false, out, m') where
  mapped := by simp [hnone]
  frame := fun e he => by
    rw [hnone] at he
    cases he
  kept := fun _ => ⟨rfl, hmem⟩
  unmapped := by rw [hmem, hnone]
  others := fun _ _ => by rw [hmem]

theorem unmapExact_pt {out : Option (BitVec 64)} {m' : Machine} {e : BitVec 64} (ht : PageTree m.toCore root)
    (hend : descend (slots m.mem) 0 root (ptPath va) = some t) (hwalk : walk m.mem root va = some (3, e))
    (hmem : m'.mem = setEntry m.mem t (vaIndex va 12) 0) :
    UnmapExact root va out m
      (true, out.map fun _ => tableEntry m.mem t (vaIndex va 12) &&& pageAddrMask, m') where
  mapped := iff_of_true rfl ⟨e, hwalk⟩
  frame := fun e' he' => by
    obtain ⟨t', hend', rfl⟩ := pt_of_walk he'
    rw [hend] at hend'
    cases hend'
    rfl
  kept := nofun
  unmapped := by rw [hmem, vmmPageUnmap_walk ht hend, if_pos rfl]
  others := fun vb hvb => by rw [hmem, vmmPageUnmap_walk ht hend, if_neg hvb]

/-- A page table with an empty entry is what the function does not see. -/
theorem UnmapExact.mapped_or_none {out : Option (BitVec 64)} (ht : PageTree m.toCore root)
    (hlow : LowTables root m.toCore) (hps : WalksToPt m.mem root va)
    (h : UnmapExact root va out m (vmmPageUnmap (frameAddr root) va out m)) :
    (∃ e, walk m.mem root va = some (3, e)) ∨ descend (slots m.mem) 0 root (ptPath va) = none := by
  cases hend : descend (slots m.mem) 0 root (ptPath va) with
  | none => exact Or.inr rfl
  | some t =>
      obtain ⟨m', heq, -⟩ := vmmPageUnmap_pt out ht hlow hps hend
      rw [heq] at h
      exact Or.inl (h.mapped.mp rfl)

end

/-- The function does what it should exactly if the page is mapped or has no page table. -/
theorem vmmPageUnmap_exact_iff {root : Nat} {va : BitVec 64} {m : Machine} (ht : PageTree m.toCore root)
    (hlow : LowTables root m.toCore) (hps : WalksToPt m.mem root va) (out : Option (BitVec 64)) :
    UnmapExact root va out m (vmmPageUnmap (frameAddr root) va out m) ↔
      (∃ e, walk m.mem root va = some (3, e)) ∨ descend (slots m.mem) 0 root (ptPath va) = none := by
  refine ⟨UnmapExact.mapped_or_none ht hlow hps, ?_⟩
  rintro (⟨e, hwalk⟩ | hnone)
  · obtain ⟨t, hend, -⟩ := pt_of_walk hwalk
    obtain ⟨m', heq, hcore, -⟩ := vmmPageUnmap_pt out ht hlow hps hend
    rw [heq]
    exact unmapExact_pt ht hend hwalk (congrArg Core.mem hcore)
  · obtain ⟨m', heq, hcore, -⟩ := vmmPageUnmap_none out ht hps hnone
    rw [heq]
    exact unmapExact_none (walk_none_of_pt hps hnone) (congrArg Core.mem hcore)

/-! ## One page -/

/-- A bitmap in which four frames are free. -/
def fourFreePmm : Pmm := frameBitmapClearRange markedPmm 0x4001 0x4005

theorem fourFreePmm_used (f : Nat) : fourFreePmm.used f = !decide (0x4001 ≤ f ∧ f < 0x4005) := by
  rw [fourFreePmm, used_frameBitmapClearRange, markedPmm_used, Bool.and_true]
  rfl

theorem fourFreePmm_room : Room fourFreePmm 4 :=
  ⟨0x4001, by decide, fun f hlo hhi => by
    rw [fourFreePmm_used]
    simp only [hlo, hhi, and_self, decide_true, Bool.not_true]⟩

/-- The tree of one cleared table, with four frames to spare. -/
theorem fourFree_tree : PageTree (zeroTree fourFreePmm).toCore 0x4000 ∧
    LowTables 0x4000 (zeroTree fourFreePmm).toCore ∧
    (∀ q, q ≠ [] → descend (slots (zeroTree fourFreePmm).mem) 0 0x4000 q = none) ∧
    ∀ vb, walk (zeroTree fourFreePmm).mem 0x4000 vb = none := by
  have hroot : rootFrame (zeroTree fourFreePmm) = 0x4000 := entryFrame_frameAddr (by decide)
  have hused : fourFreePmm.used 0x4000 = true := by
    rw [fourFreePmm_used]
    decide
  obtain ⟨hkernel, -⟩ := zeroTree_kernelTree 0 hused
  obtain ⟨htree, hdesc, hzero⟩ := PageTree.of_zero (c := (zeroTree fourFreePmm).toCore)
    (by decide : 0x4000 < 2 ^ 40) hused fun _ => Memory.load64_zero fun _ _ _ => rfl
  exact ⟨htree, hroot ▸ hkernel.low, hdesc, fun vb => hzero _⟩

theorem fourFree_walksToPt (va : BitVec 64) : WalksToPt (zeroTree fourFreePmm).mem 0x4000 va := by
  obtain ⟨-, -, -, hnone⟩ := fourFree_tree
  intro d e hwalk
  rw [hnone] at hwalk
  cases hwalk

theorem fourFree_map (va paddr flags : BitVec 64) :
    (vmmPageMap (frameAddr 0x4000) va paddr flags (zeroTree fourFreePmm)).1 = true := by
  obtain ⟨htree, hlow, -, -⟩ := fourFree_tree
  obtain ⟨hok, -⟩ :=
    vmmPageMap_room (k := 1) paddr flags htree (fourFree_walksToPt va) hlow fourFreePmm_room
  exact hok

/-- The machine after the page at `0x1000` has been mapped in an empty tree. -/
def onePageMachine : Machine :=
  (vmmPageMap (frameAddr 0x4000) 0x1000 0x5000 pageWritable (zeroTree fourFreePmm)).2

theorem onePageMachine_spec : PageTree onePageMachine.toCore 0x4000 ∧
    LowTables 0x4000 onePageMachine.toCore ∧
    (∃ t, descend (slots onePageMachine.mem) 0 0x4000 (ptPath 0x1000) = some t) ∧
    ∀ vb, walk onePageMachine.mem 0x4000 vb =
      if vaPath vb = vaPath 0x1000 then some (3, pageEntry 0x5000 pageWritable) else none := by
  obtain ⟨htree, hlow, -, hnone⟩ := fourFree_tree
  have hwalk := vmmPageMap_walk htree (fourFree_walksToPt 0x1000) hlow (fourFree_map 0x1000 0x5000 pageWritable)
  simp only [hnone] at hwalk
  rw [onePageMachine]
  exact hwalk

/-- A mapped page is unmapped as it should be. -/
theorem vmmPageUnmap_exact_page : UnmapExact 0x4000 0x1000 (some 0) onePageMachine
    (vmmPageUnmap (frameAddr 0x4000) 0x1000 (some 0) onePageMachine) := by
  obtain ⟨htree, hlow, -, hwalk⟩ := onePageMachine_spec
  have hpage : walk onePageMachine.mem 0x4000 0x1000 = some (3, pageEntry 0x5000 pageWritable) := by
    rw [hwalk, if_pos rfl]
  have hps : WalksToPt onePageMachine.mem 0x4000 0x1000 := fun d e he => by
    rw [hpage] at he
    cases he
    rfl
  exact (vmmPageUnmap_exact_iff htree hlow hps (some 0)).mpr (Or.inl ⟨_, hpage⟩)

/-- Its neighbour is not mapped, and the function says that it was. -/
theorem vmmPageUnmap_not_exact :
    (PageTree onePageMachine.toCore 0x4000 ∧ LowTables 0x4000 onePageMachine.toCore ∧
      WalksToPt onePageMachine.mem 0x4000 0x2000) ∧
      ¬ UnmapExact 0x4000 0x2000 (some 0) onePageMachine
        (vmmPageUnmap (frameAddr 0x4000) 0x2000 (some 0) onePageMachine) := by
  obtain ⟨htree, hlow, ⟨t, hend⟩, hwalk⟩ := onePageMachine_spec
  have hnone : walk onePageMachine.mem 0x4000 0x2000 = none := by
    rw [hwalk, if_neg (by decide)]
  have hps : WalksToPt onePageMachine.mem 0x4000 0x2000 := fun d e he => by
    rw [hnone] at he
    cases he
  have hpt : ptPath 0x2000 = ptPath 0x1000 := by decide
  refine ⟨⟨htree, hlow, hps⟩, fun h => ?_⟩
  rcases h.mapped_or_none htree hlow hps with ⟨e, he⟩ | habs
  · rw [hnone] at he
    cases he
  · rw [hpt, hend] at habs
    cases habs

end BootKernel
