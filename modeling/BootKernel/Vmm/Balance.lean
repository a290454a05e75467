import BootKernel.Vmm.Owned
import BootKernel.Vmm.Accounts

/-!
# The balance of the page calls

What the page calls take from the pool of frames and what they give back to it.
-/

namespace BootKernel

/-! ## The pool -/

/-- Freeing keeps within the pool that `pmm_init` leaves exactly when the index is refused or belongs to
that pool, and so does every run of calls that frees no other index. -/
theorem pmmFrameFree_poolKept (map : List E820Entry) (k : KernelImage) (p₀ : Pmm) :
    (∀ p idx, PoolKept (freeFrames (pmmInit map k p₀)) p idx ↔
      InPool (freeFrames (pmmInit map k p₀)) p idx) ∧
    ∀ m calls, freeFrames m.pmm ⊆ freeFrames (pmmInit map k p₀) →
      EachCall (FreesInPool (freeFrames (pmmInit map k p₀))) m calls →
        freeFrames (vmmRun m calls).pmm ⊆ freeFrames (pmmInit map k p₀) :=
  ⟨fun _ _ => poolKept_iff, fun _ calls h hcalls => vmmRun_pool calls h hcalls⟩

/-- Where the root has no entry for an address, freeing the page gives nothing back. -/
theorem freedIndex_of_absent {m : Machine} {va flags : BitVec 64}
    (habs : tableEntry m.mem (rootFrame m) (vaIndex va 39) &&& pagePresent = 0) :
    freedIndex m (.pageFree va flags) = none := by
  have hroot : rootFrame m < 2 ^ 40 := entryFrame_lt m.cr3
  have hshifts : levelsShift.take 3 = 39 :: [30, 21] := rfl
  have hget : vmmPteGet (vmmPml4Get m) va false m = (0, m.readEntry (rootFrame m) (vaIndex va 39)) := by
    rw [vmmPml4Get_eq, vmmPteGet, hshifts]
    have hstop : vmmPteGetLoop false va (39 :: [30, 21]) (frameAddr (rootFrame m)) m =
        (none, m.readEntry (rootFrame m) (vaIndex va 39)) := by
      rcases vmmPteGetLoop_absent (show rootFrame m < 2 ^ 51 by omega) habs with
        ⟨-, hstop⟩ | ⟨htrue, -⟩ | ⟨htrue, -⟩
      · exact hstop
      · cases htrue
      · cases htrue
    rw [hstop]
  simp only [freedIndex, vmmPageUnmap, hget, ↓reduceIte]

theorem pmmFrameFree_poolKept_ram :
    PoolKept (freeFrames (pmmInit [ramEntry] sampleImage fullPmm)) fullPmm 5 ∧
      freeFrames (vmmRun (ramMachine [] fun _ => 0)
          [.pageFree 0x40000000 0, .pageMap 0x40000000 0xFD000000 pageWritable]).pmm ⊆
        freeFrames (pmmInit [ramEntry] sampleImage fullPmm) := by
  obtain ⟨hiff, hrun⟩ := pmmFrameFree_poolKept [ramEntry] sampleImage fullPmm
  refine ⟨(hiff _ _).mpr (Or.inl (by decide)), hrun _ _ ?_ ⟨?_, nofun, trivial⟩⟩
  · rw [ramMachine_pmm]
  · have habs : ∀ n i, tableEntry (ramMachine [] fun _ => 0).mem n i &&& pagePresent = 0 := by
      intro n i
      have hzero : tableEntry (ramMachine [] fun _ => 0).mem n i = 0 :=
        Memory.load64_zero fun _ _ _ => rfl
      rw [hzero]
      decide
    intro idx hidx
    rw [freedIndex_of_absent (habs _ _)] at hidx
    cases hidx

/-- A frame of a reserved range becomes free when it is given back, and an index past the end writes
behind the array. -/
theorem pmmFrameFree_reserved_range :
    let p := pmmInit [ramEntry, ⟨0xFD000000, 0x1000000, 2, 0⟩] sampleImage samplePmm
    0xFD000 ∉ freeFrames p ∧ 0xFD000 ∈ freeFrames (pmmFrameFree 0xFD000 p) ∧
      ¬ PoolKept (freeFrames p) p 0xFD000 ∧ ¬ PoolKept (freeFrames p) p 0x8000000 := by
  intro p
  have hcov := coveredFrames_eq
  have hused : p.used 0xFD000 = true := by
    refine (used_pmmInit _ _ _ (by omega)).mpr (Or.inr (Or.inr ⟨by decide, ?_⟩))
    rintro ⟨e, hmem, htype, -, hend, -⟩
    simp only [List.mem_cons, List.not_mem_nil, or_false] at hmem
    rcases hmem with rfl | rfl
    · exact absurd hend (by decide)
    · exact absurd htype (by decide)
  have hout : 0xFD000 ∉ freeFrames p := by
    rintro ⟨-, hfree⟩
    rw [hused] at hfree
    cases hfree
  refine ⟨hout, ?_, ?_, ?_⟩
  · rw [freeFrames_pmmFrameFree (by decide) (show (0xFD000 : BitVec 64).toNat < coveredFrames by
      rw [hcov]; decide)]
    exact Set.mem_insert _ _
  · rw [poolKept_iff]
    rintro (hlow | ⟨-, hin | hin⟩)
    · exact absurd hlow (by decide)
    · exact hout hin
    · exact hout hin
  · rw [poolKept_iff]
    rintro (hlow | ⟨hlt, -⟩)
    · exact absurd hlow (by decide)
    · rw [hcov] at hlt
      exact absurd hlt (by decide)

/-! ## Leaks -/

/-- A page above the image, as a caller may ask for. -/
def samplePage : VmmCall := .pageAlloc 0x40000000 pageWritable

theorem samplePage_pageCall : samplePage.PageCall 0x80000000 := ⟨⟨Or.inl (by decide), by decide⟩, by decide⟩

end BootKernel
