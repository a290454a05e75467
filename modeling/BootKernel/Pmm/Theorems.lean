import BootKernel.Pmm.Lemmas.Init
import BootKernel.Pmm.Exhaust
import BootKernel.Lib.Refinement

/-!
# Theorems about the frame allocator

Which frames `pmm_init` leaves allocatable, and that allocating and freeing is taking the smallest
element out of a set and putting elements back.
-/

namespace BootKernel

/-! ## `pmm_init` -/

/-- The page of the frame lies wholly inside a type-1 entry. -/
def E820Entry.UsableFrame (e : E820Entry) (f : Nat) : Prop :=
  e.type = 1 ∧ e.base.toNat ≤ f * 4096 ∧ (f + 1) * 4096 ≤ e.base.toNat + e.length.toNat

/-- The frames that the map and the image leave for allocation. -/
def Allocatable (map : List E820Entry) (k : KernelImage) (f : Nat) : Prop :=
  pmmReservedFrames.toNat ≤ f ∧ f < maxFrames.toNat ∧ ¬ k.HasFrame f ∧ ∃ e ∈ map, e.UsableFrame f

def E820Entry.Disjoint (a b : E820Entry) : Prop :=
  a.base.toNat + a.length.toNat ≤ b.base.toNat ∨ b.base.toNat + b.length.toNat ≤ a.base.toNat

/-- No entry comes within a page of the top of the address space. -/
def NoWrap (map : List E820Entry) : Prop :=
  ∀ e ∈ map, e.base.toNat + e.length.toNat ≤ 2 ^ 64 - 4096

/-- After `pmm_init` the clear bits are exactly those of the allocatable frames. -/
def PmmInitExact (map : List E820Entry) (k : KernelImage) (p : Pmm) : Prop :=
  ∀ f : BitVec 64, f.toNat < coveredFrames →
    (frameBitmapTest (pmmInit map k p) f = 0 ↔ Allocatable map k f.toNat)

variable {map : List E820Entry} {k : KernelImage} {p : Pmm} {f : Nat}

theorem exists_frees_iff (hwrap : NoWrap map) :
    (∃ e ∈ map, e.Frees f) ↔ f < maxFrames.toNat ∧ ∃ e ∈ map, e.UsableFrame f := by
  constructor
  · rintro ⟨e, hmem, hfrees⟩
    obtain ⟨hmax, husable⟩ := (frees_iff_of_no_wrap (hwrap e hmem)).mp hfrees
    exact ⟨hmax, e, hmem, husable⟩
  · rintro ⟨hmax, e, hmem, husable⟩
    exact ⟨e, hmem, (frees_iff_of_no_wrap (hwrap e hmem)).mpr ⟨hmax, husable⟩⟩

/-- An allocatable frame is free; the other direction is what the fill breaks. -/
theorem used_pmmInit_of_allocatable (hwrap : NoWrap map) (hf : f < coveredFrames)
    (ha : Allocatable map k f) : (pmmInit map k p).used f = false := by
  obtain ⟨hres, hmax, hkernel, hentry⟩ := ha
  rw [Bool.eq_false_iff]
  intro hused
  rcases (used_pmmInit map k p hf).mp hused with h | h | h
  · exact hkernel h
  · omega
  · exact h.2 ((exists_frees_iff hwrap).mpr ⟨hmax, hentry⟩)

/-- Every frame whose bit the fill misses, from the reserved frames up, is one that is meant to be
free or belongs to the image. -/
def FillHarmless (map : List E820Entry) (k : KernelImage) : Prop :=
  ∀ f < coveredFrames, pmmReservedFrames.toNat ≤ f → 8 ≤ f % 64 → ¬ k.HasFrame f →
    f < maxFrames.toNat ∧ ∃ e ∈ map, e.UsableFrame f

theorem pmmInitExact_iff_fillHarmless (hwrap : NoWrap map) :
    PmmInitExact map k p ↔ FillHarmless map k := by
  have hcov := coveredFrames_eq
  constructor
  · intro hexact f hf hres hmod hkernel
    have htest := hexact (BitVec.ofNat 64 f)
    rw [frameBitmapTest_eq_zero_iff, frameIdx_toNat (by omega)] at htest
    have hnot : ¬ (pmmInit map k p).used f = true := by
      rw [used_pmmInit map k p hf]
      rintro (h | h | ⟨h, _⟩)
      · exact hkernel h
      · omega
      · omega
    obtain ⟨_, hmax, _, hentry⟩ := (htest hf).mp (Bool.eq_false_iff.mpr hnot)
    exact ⟨hmax, hentry⟩
  · intro hcond f hf
    rw [frameBitmapTest_eq_zero_iff]
    constructor
    · intro hfree
      have hnot : ¬ (pmmInit map k p).used f.toNat = true := by simp [hfree]
      rw [used_pmmInit map k p hf] at hnot
      have hkernel : ¬ k.HasFrame f.toNat := fun h => hnot (Or.inl h)
      have hres : ¬ f.toNat < pmmReservedFrames.toNat := fun h => hnot (Or.inr (Or.inl h))
      have hentry : f.toNat < maxFrames.toNat ∧ ∃ e ∈ map, e.UsableFrame f.toNat := by
        by_cases hmod : f.toNat % 64 < 8
        · rw [← exists_frees_iff hwrap]
          by_contra hno
          exact hnot (Or.inr (Or.inr ⟨hmod, hno⟩))
        · exact hcond _ hf (by omega) (by omega) hkernel
      exact ⟨by omega, hentry.1, hkernel, hentry.2⟩
    · exact used_pmmInit_of_allocatable hwrap hf

/-- No image that ends below 512 GiB makes up for the fill: the last frame of the bitmap is free. -/
theorem not_fillHarmless (hend : k.kernelEnd.toNat < 2 ^ 39) : ¬ FillHarmless map k := by
  intro hcond
  have haligned := k.end_aligned
  obtain ⟨hmax, _⟩ := hcond (2 ^ 27 - 1) (by rw [coveredFrames_eq]; decide)
    (by rw [pmmReservedFrames_toNat]; decide) (by decide) (by
      rintro ⟨_, hlt⟩
      omega)
  rw [maxFrames_toNat] at hmax
  omega

/-- `pmm_init` is exact if and only if the fill does no harm, which takes an image of 512 GiB. -/
theorem pmmInit_exact_iff (map : List E820Entry) (k : KernelImage) (p : Pmm) (hwrap : NoWrap map) :
    (PmmInitExact map k p ↔ FillHarmless map k) ∧
      (k.kernelEnd.toNat < 2 ^ 39 → ¬ PmmInitExact map k p) := by
  have hiff : PmmInitExact map k p ↔ FillHarmless map k := pmmInitExact_iff_fillHarmless hwrap
  exact ⟨hiff, fun hend h => not_fillHarmless hend (hiff.mp h)⟩

/-- A machine with 128 MiB of RAM, and the image as the linker script places it. -/
def sampleMap : List E820Entry := [⟨0, 0x9FC00, 1, 0⟩, ⟨0x100000, 0x7EE0000, 1, 0⟩]

def sampleImage : KernelImage where
  kernelStart := 0x400000
  kernelEnd := 0x3405000
  start_aligned := by decide
  end_aligned := by decide
  start_le_end := by decide

def samplePmm : Pmm := ⟨0, fun _ => 0⟩

theorem sampleMap_noWrap : NoWrap sampleMap := by
  simp [NoWrap, sampleMap]

theorem pmmInit_exact_iff_sample :
    (PmmInitExact sampleMap sampleImage samplePmm ↔ FillHarmless sampleMap sampleImage) ∧
      ¬ PmmInitExact sampleMap sampleImage samplePmm := by
  obtain ⟨hiff, hnever⟩ := pmmInit_exact_iff sampleMap sampleImage samplePmm sampleMap_noWrap
  exact ⟨hiff, hnever (by decide)⟩

/-- The frame at 1 GiB + 32 KiB lies in no entry of this map, and `pmm_init` leaves it free. -/
theorem pmmInit_sample_wrong :
    sampleMap.Pairwise E820Entry.Disjoint ∧ NoWrap sampleMap ∧
      frameBitmapTest (pmmInit sampleMap sampleImage samplePmm) 0x40008 = 0 ∧
      ¬ Allocatable sampleMap sampleImage 0x40008 ∧
      ¬ PmmInitExact sampleMap sampleImage samplePmm := by
  refine ⟨by simp [sampleMap, E820Entry.Disjoint], sampleMap_noWrap, ?_, ?_, ?_⟩
  · rw [frameBitmapTest_eq_zero_iff, Bool.eq_false_iff, ne_eq,
      used_pmmInit _ _ _ (by rw [coveredFrames_eq]; decide)]
    rintro (⟨_, h⟩ | h | ⟨h, _⟩)
    · exact absurd h (by decide)
    · exact absurd h (by decide)
    · exact absurd h (by decide)
  · rintro ⟨_, _, _, e, hmem, _, _, hend⟩
    simp only [sampleMap, List.mem_cons, List.not_mem_nil, or_false] at hmem
    rcases hmem with rfl | rfl <;> exact absurd hend (by decide)
  · rw [pmmInitExact_iff_fillHarmless sampleMap_noWrap]
    exact not_fillHarmless (by decide)

/-! ## `pmm_frame_alloc` and `pmm_frame_free` -/

/-- The allocator refines a set of free frame indexes; frames that are out at the same time differ,
and freeing an unreserved frame at once restores the bitmap. -/
theorem pmmFrame_refines_freeSet :
    (∀ (p : Pmm) (ops : List PmmOp), Refinement.Enabled freeSetStep FreeSetOk (freeFrames p) ops →
      (Refinement.run pmmStep p ops).1 = (Refinement.run freeSetStep (freeFrames p) ops).1 ∧
        freeFrames (Refinement.run pmmStep p ops).2 =
          (Refinement.run freeSetStep (freeFrames p) ops).2) ∧
    (∀ (p : Pmm) (out : List (BitVec 64)), OwnedRun p out → out.Nodup) ∧
    (∀ p : Pmm, (freeFrames p).Nonempty →
      pmmReservedFrames ≤ (pmmFrameAlloc p).1 >>> pageShift →
      pmmFrameFree ((pmmFrameAlloc p).1 >>> pageShift) (pmmFrameAlloc p).2 = p) := by
  refine ⟨?_, ?_, ?_⟩
  · intro p ops hen
    exact Refinement.run_refines freeFrames pmmStep_refines hen
  · intro p out h
    exact h.outstanding.nodup
  · intro p hne hres
    exact pmmFrameFree_alloc hne hres

/-- An allocator in which the frames below 64 MiB are used and all others free. -/
def freshPmm : Pmm := ⟨0, fun w => if w < 256 then ~~~ 0#64 else 0⟩

theorem used_freshPmm (f : Nat) : freshPmm.used f = decide (f < pmmReservedFrames.toNat) := by
  have hmod : f % 64 < 64 := Nat.mod_lt f (by omega)
  rw [pmmReservedFrames_toNat, Pmm.used, BitArray.bit, freshPmm]
  by_cases h : f / 64 < 256
  · have hf : f < 2 ^ 14 := by omega
    simp only [h, ↓reduceIte, (BitArray.eq_allOnes_iff _).mp rfl _ hmod, hf, decide_true]
  · have hf : ¬ f < 2 ^ 14 := by omega
    simp only [h, ↓reduceIte, hf, decide_false]
    exact BitVec.getLsbD_zero

theorem freeFrames_freshPmm : 0x4000 ∈ freeFrames freshPmm :=
  ⟨by rw [coveredFrames_eq]; decide, by rw [used_freshPmm]; decide⟩

theorem freshPmm_alloc : pmmReservedFrames ≤ (pmmFrameAlloc freshPmm).1 >>> pageShift := by
  obtain ⟨f, hleast, hres⟩ := pmmFrameAlloc_of_nonempty ⟨_, freeFrames_freshPmm⟩
  have hlt := freeFrames_lt hleast.1
  have hfree := hleast.1.2
  rw [used_freshPmm, decide_eq_false_iff_not] at hfree
  rw [hres, frameAddr_shiftRight hlt, BitVec.le_def, frameIdx_toNat (by omega)]
  omega

theorem pmmFrame_refines_freeSet_fresh :
    (Refinement.run pmmStep freshPmm [.alloc, .free 0x4001]).1 =
        (Refinement.run freeSetStep (freeFrames freshPmm) [.alloc, .free 0x4001]).1 ∧
      [(pmmFrameAlloc freshPmm).1].Nodup ∧
      pmmFrameFree ((pmmFrameAlloc freshPmm).1 >>> pageShift) (pmmFrameAlloc freshPmm).2 = freshPmm := by
  have hne : (freeFrames freshPmm).Nonempty := ⟨_, freeFrames_freshPmm⟩
  obtain ⟨hrun, howned, hback⟩ := pmmFrame_refines_freeSet
  have hidx : (0x4001 : BitVec 64).toNat < coveredFrames := by
    rw [coveredFrames_eq]
    decide
  exact ⟨(hrun freshPmm [.alloc, .free 0x4001] ⟨hne, hidx, trivial⟩).1,
    howned _ _ (.alloc (.start freshPmm) hne), hback freshPmm hne freshPmm_alloc⟩

/-! ## Running out of frames -/

/-- The allocations take every free frame in order, the next one fails, and none leaves the array. -/
def AllocatesAll (p : Pmm) : Prop :=
  let k := (freeFrames p).ncard
  let q := (pmmFrameAllocs k p).2
  (∀ a ∈ (pmmFrameAllocs k p).1, a ≠ pmmInvalidFrame) ∧ (pmmFrameAllocs k p).1.Pairwise (· < ·) ∧
    pmmFrameAlloc q = (pmmInvalidFrame, q) ∧ ∀ j ≤ k, AllocBounded (pmmFrameAllocs j p).2

/-- The allocations up to the last free frame are as they should be. The one after them always reads
behind the array, and fails only if that memory holds ones. -/
theorem pmmFrameAllocs_exact (p : Pmm) :
    let k := (freeFrames p).ncard
    let q := (pmmFrameAllocs k p).2
    (∀ a ∈ (pmmFrameAllocs k p).1, a ≠ pmmInvalidFrame) ∧ (pmmFrameAllocs k p).1.Pairwise (· < ·) ∧
      (∀ j < k, AllocBounded (pmmFrameAllocs j p).2) ∧
      (pmmFrameAlloc q = (pmmInvalidFrame, q) ↔
        ∀ w, bitmapBytes.toNat ≤ w → w < maxFrames.toNat → p.gFrameBitmap w = ~~~ 0#64) ∧
      ¬ AllocBounded q ∧ ¬ AllocatesAll p := by
  intro k q
  obtain ⟨hfrom, hsorted, hempty⟩ := pmmFrameAllocs_spec (p := p) (k := k) rfl
  have hleaves : ¬ AllocBounded q := by
    rw [allocBounded_iff, hempty]
    exact Set.not_nonempty_empty
  refine ⟨fun a ha => ?_, hsorted, fun j hj => ?_, ?_, hleaves, fun h => ?_⟩
  · obtain ⟨f, -, rfl⟩ := hfrom a ha
    exact frameAddr_ne_invalid f
  · exact allocBounded_iff.mpr (pmmFrameAllocs_nonempty rfl hj)
  · rw [pmmFrameAlloc_exhausted_iff hempty]
    have hpast : ∀ w, bitmapBytes.toNat ≤ w → q.gFrameBitmap w = p.gFrameBitmap w :=
      fun w hw => pmmFrameAllocs_past (k := k) rfl (Nat.le_refl k) hw
    constructor
    · intro hfull w hlo hhi
      rw [← hpast w hlo]
      exact hfull w hlo hhi
    · intro hfull w hlo hhi
      rw [hpast w hlo]
      exact hfull w hlo hhi
  · exact hleaves (h.2.2.2 k (Nat.le_refl k))

/-- Every bit of the array is set, and the memory behind it is zero. -/
def usedUpPmm : Pmm := ⟨0, fun w => if w < bitmapBytes.toNat then ~~~ 0#64 else 0⟩

/-- Instead of failing, the allocation returns the address of a frame that the array does not cover. -/
theorem pmmFrameAlloc_usedUp :
    freeFrames usedUpPmm = ∅ ∧ (pmmFrameAlloc usedUpPmm).1 = 0x8000000000 ∧ ¬ AllocatesAll usedUpPmm := by
  have hempty : freeFrames usedUpPmm = ∅ := by
    rw [freeFrames_eq_empty_iff]
    intro w hw
    exact if_pos hw
  have hbytes := bitmapBytes_toNat
  have hused : ∀ f, usedUpPmm.used f = decide (f < 2 ^ 27) := by
    intro f
    have hmod : f % 64 < 64 := Nat.mod_lt f (by omega)
    rw [Pmm.used, BitArray.bit, usedUpPmm]
    by_cases h : f / 64 < bitmapBytes.toNat
    · have hf : f < 2 ^ 27 := by omega
      simp only [h, ↓reduceIte, (BitArray.eq_allOnes_iff _).mp rfl _ hmod, hf, decide_true]
    · have hf : ¬ f < 2 ^ 27 := by omega
      simp only [h, ↓reduceIte, hf, decide_false]
      exact BitVec.getLsbD_zero
  have haddr : (pmmFrameAlloc usedUpPmm).1 = 0x8000000000 := by
    have hscan := scannedFrames_eq
    rcases pmmFrameAlloc_cases usedUpPmm with ⟨-, hfull⟩ | ⟨f, -, hfree, hmin, heq⟩
    · have h := hfull (2 ^ 27) (by omega)
      rw [hused] at h
      exact absurd (of_decide_eq_true h) (Nat.lt_irrefl _)
    · rw [hused, decide_eq_false_iff_not] at hfree
      have hle : ¬ 2 ^ 27 < f := by
        intro hlt
        have h := hmin (2 ^ 27) hlt
        rw [hused] at h
        exact absurd (of_decide_eq_true h) (Nat.lt_irrefl _)
      obtain rfl : f = 2 ^ 27 := by omega
      rw [heq]
      decide
  refine ⟨hempty, haddr, fun h => ?_⟩
  have hcard : (freeFrames usedUpPmm).ncard = 0 := by rw [hempty, Set.ncard_empty]
  obtain ⟨-, -, hfail, -⟩ := h
  rw [hcard, pmmFrameAllocs] at hfail
  rw [hfail] at haddr
  exact absurd haddr (by decide)

/-! ## Low memory -/

/-- The frames below 64 MiB are in use. -/
def ReservedUsed (p : Pmm) : Prop := ∀ f < pmmReservedFrames.toNat, p.used f = true

theorem pmmInit_reservedUsed (map : List E820Entry) (k : KernelImage) (p : Pmm) :
    ReservedUsed (pmmInit map k p) := by
  have hcov := coveredFrames_eq
  have hres := pmmReservedFrames_toNat
  intro f hf
  exact (used_pmmInit map k p (by omega)).mpr (Or.inr (Or.inl hf))

theorem ReservedUsed.alloc (h : ReservedUsed p) : ReservedUsed (pmmFrameAlloc p).2 := by
  intro f hf
  rcases pmmFrameAlloc_cases p with ⟨heq, -⟩ | ⟨g, -, -, -, heq⟩
  · rw [heq]
    exact h f hf
  · rw [heq, used_frameBitmapSet, h f hf, Bool.or_true]

theorem ReservedUsed.free (h : ReservedUsed p) (idx : BitVec 64) : ReservedUsed (pmmFrameFree idx p) := by
  intro f hf
  by_cases hidx : pmmReservedFrames ≤ idx
  · have hne : f ≠ idx.toNat := by
      have hle := BitVec.le_def.mp hidx
      omega
    rw [pmmFrameFree_unreserved hidx, used_frameBitmapClear, h f hf]
    simp [hne]
  · rw [pmmFrameFree_reserved hidx]
    exact h f hf

theorem ReservedUsed.step (h : ReservedUsed p) (a : PmmOp) : ReservedUsed (pmmStep p a).2 := by
  cases a with
  | alloc => exact h.alloc
  | free idx => exact h.free idx

/-- What an allocation returns is the address of a frame that was free, so it lies above. -/
theorem ReservedUsed.alloc_ge (h : ReservedUsed p) (hok : (pmmFrameAlloc p).1 ≠ pmmInvalidFrame) :
    pmmReservedFrames.toNat * 4096 ≤ (pmmFrameAlloc p).1.toNat := by
  have hscan := scannedFrames_eq
  rcases pmmFrameAlloc_cases p with ⟨heq, -⟩ | ⟨f, hf, hfree, -, heq⟩
  · exact absurd (congrArg Prod.fst heq) hok
  · have hge : pmmReservedFrames.toNat ≤ f := by
      by_contra hlt
      rw [h f (by omega)] at hfree
      cases hfree
    have haddr : (frameAddr f).toNat = f * 4096 := frameAddr_toNat (by omega)
    rw [heq, haddr]
    exact Nat.mul_le_mul_right 4096 hge

theorem ReservedUsed.run (h : ReservedUsed p) (ops : List PmmOp) (a : BitVec 64)
    (hmem : some a ∈ (Refinement.run pmmStep p ops).1) (hok : a ≠ pmmInvalidFrame) :
    pmmReservedFrames.toNat * 4096 ≤ a.toNat := by
  induction ops generalizing p with
  | nil => cases hmem
  | cons op ops ih =>
      rcases List.mem_cons.mp hmem with hhead | htail
      · cases op with
        | alloc =>
            cases hhead
            exact h.alloc_ge hok
        | free idx => cases hhead
      · exact ih (h.step op) htail

/-- The fill of the bitmap misses the last frame, so that something is free after `pmm_init` for any map. -/
theorem last_mem_freeFrames (map : List E820Entry) {k : KernelImage} (p : Pmm)
    (hend : k.kernelEnd.toNat < 2 ^ 39) : 2 ^ 27 - 1 ∈ freeFrames (pmmInit map k p) := by
  have hcov := coveredFrames_eq
  have haligned := k.end_aligned
  refine ⟨by omega, ?_⟩
  rw [Bool.eq_false_iff]
  intro hused
  rcases (used_pmmInit map k p (show 2 ^ 27 - 1 < coveredFrames by omega)).mp hused with
    ⟨-, hlt⟩ | hlow | ⟨hbit, -⟩
  · omega
  · rw [pmmReservedFrames_toNat] at hlow
    omega
  · omega

/-- Whatever the map, and whatever is freed, no allocation returns memory below 64 MiB or a frame of
the image. -/
theorem pmmRun_above_reserved (map : List E820Entry) (k : KernelImage) (p : Pmm) (ops : List PmmOp)
    (himage : k.kernelEnd.toNat ≤ 64 * 2 ^ 20) :
    ∀ a, some a ∈ (Refinement.run pmmStep (pmmInit map k p) ops).1 → a ≠ pmmInvalidFrame →
      64 * 2 ^ 20 ≤ a.toNat ∧ ¬ k.HasFrame (a.toNat / 4096) := by
  intro a hmem hok
  have hge := (pmmInit_reservedUsed map k p).run ops a hmem hok
  rw [pmmReservedFrames_toNat] at hge
  refine ⟨by omega, ?_⟩
  rintro ⟨-, hlt⟩
  omega

theorem pmmRun_above_reserved_sample :
    64 * 2 ^ 20 ≤ (pmmFrameAlloc (pmmInit sampleMap sampleImage samplePmm)).1.toNat ∧
      ¬ sampleImage.HasFrame ((pmmFrameAlloc (pmmInit sampleMap sampleImage samplePmm)).1.toNat / 4096) := by
  have hfree := last_mem_freeFrames sampleMap samplePmm (show sampleImage.kernelEnd.toNat < 2 ^ 39 by decide)
  obtain ⟨f, -, hframe⟩ := pmmFrameAlloc_of_nonempty ⟨_, hfree⟩
  refine pmmRun_above_reserved sampleMap sampleImage samplePmm [.alloc] (by decide) _ ?_ ?_
  · exact List.mem_cons_self
  · rw [hframe]
    exact frameAddr_ne_invalid f

end BootKernel
