import BootKernel.Vmm.Calls
import BootKernel.Pmm.FreeSet

/-!
# The pool of free frames

Which frames may be handed out. Mapping and allocating only take frames from the pool, and whatever
comes back goes through `pmm_frame_free`, which looks at the lower bound of the index alone.
-/

namespace BootKernel

variable {p q : Pmm} {I : Set Nat} {idx : BitVec 64} {m : Machine}

/-! ## Giving one frame back -/

/-- The indexes at which `pmm_frame_free` writes `g_frame_bitmap`. -/
def pmmFrameFreeIndexes (frameIdx : BitVec 64) : List Nat :=
  if frameIdx < pmmReservedFrames then [] else [(frameIdx >>> 6).toNat]

/-- Freeing the index adds no frame from outside `I` to the pool, and stays inside the array. -/
def PoolKept (I : Set Nat) (p : Pmm) (frameIdx : BitVec 64) : Prop :=
  freeFrames (pmmFrameFree frameIdx p) ⊆ I ∪ freeFrames p ∧
    ∀ i ∈ pmmFrameFreeIndexes frameIdx, i < bitmapBytes.toNat

/-- The index is refused, or it is that of a frame of `I` or of one that is free already. -/
def InPool (I : Set Nat) (p : Pmm) (frameIdx : BitVec 64) : Prop :=
  frameIdx < pmmReservedFrames ∨
    frameIdx.toNat < coveredFrames ∧ (frameIdx.toNat ∈ I ∨ frameIdx.toNat ∈ freeFrames p)

theorem pmmFrameFreeIndexes_bounded (hidx : ¬ idx < pmmReservedFrames) :
    (∀ i ∈ pmmFrameFreeIndexes idx, i < bitmapBytes.toNat) ↔ idx.toNat < coveredFrames := by
  rw [pmmFrameFreeIndexes, if_neg hidx, List.forall_mem_singleton, wordIndex, coveredFrames]
  omega

/-- Inside the array an index that is not refused joins the pool. -/
theorem freeFrames_pmmFrameFree (hidx : ¬ idx < pmmReservedFrames) (hlt : idx.toNat < coveredFrames) :
    freeFrames (pmmFrameFree idx p) = insert idx.toNat (freeFrames p) := by
  have hres : pmmReservedFrames ≤ idx := BitVec.not_lt.mp hidx
  rw [pmmFrameFree_refines hlt, freeSetStep]
  exact if_pos hres

theorem poolKept_iff : PoolKept I p idx ↔ InPool I p idx := by
  by_cases hidx : idx < pmmReservedFrames
  · have hsame : pmmFrameFree idx p = p := if_pos hidx
    refine iff_of_true ⟨?_, ?_⟩ (Or.inl hidx)
    · rw [hsame]
      exact Set.subset_union_right
    · rw [pmmFrameFreeIndexes, if_pos hidx]
      exact fun i hi => absurd hi List.not_mem_nil
  · rw [PoolKept, pmmFrameFreeIndexes_bounded hidx, InPool, or_iff_right hidx, and_comm]
    refine and_congr_right fun hlt => ?_
    rw [freeFrames_pmmFrameFree hidx hlt, Set.insert_subset_iff]
    exact and_iff_left Set.subset_union_right

/-! ## Calls only take frames -/

/-- What is in use stays in use. -/
def StillUsed (p q : Pmm) : Prop := ∀ f, p.used f = true → q.used f = true

theorem StillUsed.refl (p : Pmm) : StillUsed p p := fun _ h => h

theorem StillUsed.trans {r : Pmm} (h : StillUsed p q) (h' : StillUsed q r) : StillUsed p r :=
  fun f hf => h' f (h f hf)

theorem StillUsed.freeFrames (h : StillUsed p q) : freeFrames q ⊆ freeFrames p := by
  rintro f ⟨hf, hfree⟩
  refine ⟨hf, ?_⟩
  rw [Bool.eq_false_iff]
  intro hused
  rw [h f hused] at hfree
  cases hfree

theorem stillUsed_frameAlloc (m : Machine) : StillUsed m.pmm m.frameAlloc.2.pmm := by
  intro f hf
  rcases m.frameAlloc_cases with ⟨heq, -⟩ | ⟨g, -, heq⟩
  · rw [heq]
    exact hf
  · rw [heq]
    exact (used_frameBitmapSet _ _ _).trans (by rw [hf, Bool.or_true])

theorem zero_pmm (w : Window) (addr bytes : BitVec 64) (m : Machine) : (zero w addr bytes m).pmm = m.pmm :=
  Loop.forRange_preserves (fun m : Machine => m.pmm) (fun i m => by rw [Machine.store8]; rfl) _ _ m

theorem stillUsed_vmmPteGetLoop (create : Bool) (va : BitVec 64) (shifts : List Nat) (table : BitVec 64)
    (m : Machine) : StillUsed m.pmm (vmmPteGetLoop create va shifts table m).2.pmm := by
  induction shifts generalizing table m with
  | nil => exact .refl _
  | cons shift shifts ih =>
      simp only [vmmPteGetLoop]
      split
      · split
        · exact .refl _
        · have halloc := stillUsed_frameAlloc (m.emit (.load (Window.hhdm.phys
            (entryPtr (vmmPhysToVirt table) ((va >>> shift) &&& 0x1FF)))))
          split
          · exact halloc
          · refine StillUsed.trans ?_ (ih _ _)
            simp only [Machine.emit, Machine.store64, zero_pmm]
            exact halloc
      · refine StillUsed.trans ?_ (ih _ _)
        exact .refl m.pmm

theorem stillUsed_vmmPteGet (pml4 va : BitVec 64) (create : Bool) (m : Machine) :
    StillUsed m.pmm (vmmPteGet pml4 va create m).2.pmm := by
  have hloop := stillUsed_vmmPteGetLoop create va (levelsShift.take 3) pml4 m
  rw [vmmPteGet]
  split
  · rename_i m' heq
    rw [heq] at hloop
    exact hloop
  · rename_i table m' heq
    rw [heq] at hloop
    exact hloop

theorem stillUsed_vmmPageMap (pml4 va paddr flags : BitVec 64) (m : Machine) :
    StillUsed m.pmm (vmmPageMap pml4 va paddr flags m).2.pmm := by
  have hget := stillUsed_vmmPteGet pml4 va true m
  simp only [vmmPageMap]
  split <;> exact hget

theorem stillUsed_vmmPageUnmap (pml4 va : BitVec 64) (out : Option (BitVec 64)) (m : Machine) :
    StillUsed m.pmm (vmmPageUnmap pml4 va out m).2.2.pmm := by
  have hget := stillUsed_vmmPteGet pml4 va false m
  simp only [vmmPageUnmap]
  split
  · exact hget
  · cases out with
    | none => exact hget
    | some _ => exact hget

theorem stillUsed_vmmPageAlloc (va flags : BitVec 64) (m : Machine) :
    StillUsed m.pmm (vmmPageAlloc va flags m).2.pmm := by
  have halloc := stillUsed_frameAlloc m
  have hmap := stillUsed_vmmPageMap (vmmPml4Get m.frameAlloc.2) va m.frameAlloc.1 flags m.frameAlloc.2
  simp only [vmmPageAlloc]
  split
  · exact halloc
  · split <;> exact halloc.trans hmap

/-! ## Runs -/

/-- The index that a call hands to `pmm_frame_free`: that of the address which the slot of the page
holds. -/
def freedIndex (m : Machine) : VmmCall → Option (BitVec 64)
  | .pageFree vaddr _ =>
      match vmmPageUnmap (vmmPml4Get m) vaddr (some 0) m with
      | (true, some addrPhys, _) => some (addrPhys >>> pageShift)
      | _ => none
  | _ => none

/-- What the call gives back belongs to the pool. -/
def FreesInPool (I : Set Nat) (m : Machine) (c : VmmCall) : Prop :=
  ∀ idx, freedIndex m c = some idx → InPool I m.pmm idx

theorem vmmCall_pool (h : freeFrames m.pmm ⊆ I) (c : VmmCall) (hc : FreesInPool I m c) :
    freeFrames (vmmCall m c).pmm ⊆ I := by
  cases c with
  | pageMap va paddr flags => exact (stillUsed_vmmPageMap _ va paddr flags m).freeFrames.trans h
  | pageUnmap va wants => exact (stillUsed_vmmPageUnmap _ va _ m).freeFrames.trans h
  | pageAlloc va flags => exact (stillUsed_vmmPageAlloc va flags m).freeFrames.trans h
  | pageFree va flags =>
      have hunmap := (stillUsed_vmmPageUnmap (vmmPml4Get m) va (some 0) m).freeFrames
      simp only [FreesInPool, freedIndex] at hc
      simp only [vmmCall, vmmPageFree]
      rcases heq : vmmPageUnmap (vmmPml4Get m) va (some 0) m with ⟨r, out, m'⟩
      rw [heq] at hunmap hc
      match r, out with
      | false, _ => exact hunmap.trans h
      | true, none => exact hunmap.trans h
      | true, some addr =>
          -- the index is in the pool before the walk, and the walk frees nothing
          have hin : InPool I m'.pmm (addr >>> pageShift) := by
            rcases hc _ rfl with hlow | ⟨hlt, hI | hfree⟩
            · exact Or.inl hlow
            · exact Or.inr ⟨hlt, Or.inl hI⟩
            · exact Or.inr ⟨hlt, Or.inl (h hfree)⟩
          have hkept := (poolKept_iff.mpr hin).1
          exact hkept.trans (Set.union_subset (Set.Subset.refl I) (hunmap.trans h))

theorem vmmRun_pool (calls : List VmmCall) (h : freeFrames m.pmm ⊆ I)
    (hcalls : EachCall (FreesInPool I) m calls) : freeFrames (vmmRun m calls).pmm ⊆ I := by
  induction calls generalizing m with
  | nil => exact h
  | cons c calls ih =>
      obtain ⟨hc, hrest⟩ := hcalls
      exact ih (vmmCall_pool h c hc) hrest

end BootKernel
