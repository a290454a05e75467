import BootKernel.Pmm.Lemmas.Bitmap
import Mathlib.Order.ConditionallyCompleteLattice.Basic
import Mathlib.Order.Lattice.Nat

/-!
# What the allocator is for

The allocator seen as a set of free frame indexes: an allocation takes the smallest one out, and a
free puts an index back unless it is reserved. The bitmap refines this set, one operation at a time.
-/

namespace BootKernel

inductive PmmOp where
  | alloc
  | free (frameIdx : BitVec 64)

/-- The operations of `pmm.c` on the bitmap; the result is the address that an allocation returns. -/
def pmmStep (p : Pmm) : PmmOp → Option (BitVec 64) × Pmm
  | .alloc => (some (pmmFrameAlloc p).1, (pmmFrameAlloc p).2)
  | .free frameIdx => (none, pmmFrameFree frameIdx p)

/-- The same operations on a set of free frames. -/
noncomputable def freeSetStep (S : Set Nat) : PmmOp → Option (BitVec 64) × Set Nat
  | .alloc => (some (BitVec.ofNat 64 (sInf S) <<< pageShift), S \ {sInf S})
  | .free frameIdx => (none, if pmmReservedFrames ≤ frameIdx then insert frameIdx.toNat S else S)

/-- A run may allocate while there is a free frame, and free any index that the bitmap covers. -/
def FreeSetOk (S : Set Nat) : PmmOp → Prop
  | .alloc => S.Nonempty
  | .free frameIdx => frameIdx.toNat < coveredFrames

/-- The set that a bitmap stands for. -/
def freeFrames (p : Pmm) : Set Nat := {f | f < coveredFrames ∧ p.used f = false}

variable {p : Pmm} {f : Nat} {idx : BitVec 64}

/-! ## Allocation -/

/-- With a free frame in the bitmap, `pmm_frame_alloc` takes the smallest one. -/
theorem pmmFrameAlloc_of_nonempty (hne : (freeFrames p).Nonempty) :
    ∃ f, IsLeast (freeFrames p) f ∧
      pmmFrameAlloc p = (frameAddr f, frameBitmapSet p (BitVec.ofNat 64 f)) := by
  obtain ⟨g, hg, hgfree⟩ := hne
  have hcov := coveredFrames_eq
  have hscan := scannedFrames_eq
  rcases pmmFrameAlloc_cases p with ⟨_, hfull⟩ | ⟨f, _, hfree, hmin, hres⟩
  · have hused := hfull g (by omega)
    rw [hgfree] at hused
    cases hused
  · have hle : ∀ i, p.used i = false → f ≤ i := by
      intro i hi
      by_contra hlt
      have hused := hmin i (by omega)
      rw [hi] at hused
      cases hused
    have hfg := hle g hgfree
    exact ⟨f, ⟨⟨by omega, hfree⟩, fun i hi => hle i hi.2⟩, hres⟩

theorem freeFrames_set (hf : f < 2 ^ 64) :
    freeFrames (frameBitmapSet p (BitVec.ofNat 64 f)) = freeFrames p \ {f} := by
  ext i
  simp only [freeFrames, Set.mem_ofPred_eq, used_frameBitmapSet, frameIdx_toNat hf,
    Bool.or_eq_false_iff, decide_eq_false_iff_not, Set.mem_sdiff,
    Set.mem_singleton_iff]
  tauto

theorem freeFrames_lt (hf : f ∈ freeFrames p) : f < 2 ^ 52 := by
  have hcov := coveredFrames_eq
  have := hf.1
  omega

theorem pmmFrameAlloc_refines (hne : (freeFrames p).Nonempty) :
    (pmmFrameAlloc p).1 = BitVec.ofNat 64 (sInf (freeFrames p)) <<< pageShift ∧
      freeFrames (pmmFrameAlloc p).2 = freeFrames p \ {sInf (freeFrames p)} := by
  obtain ⟨f, hleast, hres⟩ := pmmFrameAlloc_of_nonempty hne
  have hlt := freeFrames_lt hleast.1
  rw [hleast.csInf_eq, hres]
  exact ⟨(shiftLeft_pageShift hlt).symm, freeFrames_set (by omega)⟩

/-! ## Freeing -/

theorem pmmFrameFree_reserved (h : ¬ pmmReservedFrames ≤ idx) : pmmFrameFree idx p = p := by
  rw [pmmFrameFree, if_pos (by simpa using h)]

theorem pmmFrameFree_unreserved (h : pmmReservedFrames ≤ idx) :
    pmmFrameFree idx p = frameBitmapClear p idx := by
  rw [pmmFrameFree, if_neg (by simpa using h)]

theorem pmmFrameFree_refines (hidx : idx.toNat < coveredFrames) :
    freeFrames (pmmFrameFree idx p) = (freeSetStep (freeFrames p) (.free idx)).2 := by
  simp only [freeSetStep]
  split
  · rename_i hres
    rw [pmmFrameFree_unreserved hres]
    ext i
    simp only [freeFrames, Set.mem_ofPred_eq, used_frameBitmapClear, Set.mem_insert_iff]
    by_cases hi : i = idx.toNat
    · simp [hi, hidx]
    · simp [hi]
  · rename_i hres
    rw [pmmFrameFree_reserved hres]

theorem pmmStep_refines (p : Pmm) (a : PmmOp) (hok : FreeSetOk (freeFrames p) a) :
    (pmmStep p a).1 = (freeSetStep (freeFrames p) a).1 ∧
      freeFrames (pmmStep p a).2 = (freeSetStep (freeFrames p) a).2 := by
  cases a with
  | alloc =>
      obtain ⟨haddr, hset⟩ := pmmFrameAlloc_refines hok
      exact ⟨congrArg some haddr, hset⟩
  | free idx => exact ⟨rfl, pmmFrameFree_refines hok⟩

/-! ## Outstanding frames -/

/-- The runs in which only outstanding frames are freed, with the addresses that are outstanding. -/
inductive OwnedRun : Pmm → List (BitVec 64) → Prop
  | start (p : Pmm) : OwnedRun p []
  | alloc {p out} (h : OwnedRun p out) (hne : (freeFrames p).Nonempty) :
      OwnedRun (pmmFrameAlloc p).2 ((pmmFrameAlloc p).1 :: out)
  | free {p out addr} (h : OwnedRun p out) (hmem : addr ∈ out) :
      OwnedRun (pmmFrameFree (addr >>> pageShift) p) (out.erase addr)

/-- An outstanding address is the address of a frame in use. -/
structure Outstanding (p : Pmm) (out : List (BitVec 64)) : Prop where
  nodup : out.Nodup
  used : ∀ addr ∈ out, ∃ f < coveredFrames, addr = frameAddr f ∧ p.used f = true

theorem frameAddr_inj {f g : Nat} (hf : f < 2 ^ 52) (hg : g < 2 ^ 52) (h : frameAddr f = frameAddr g) :
    f = g := by
  have := congrArg BitVec.toNat h
  rw [frameAddr_toNat hf, frameAddr_toNat hg] at this
  omega

theorem Outstanding.alloc {out : List (BitVec 64)} (h : Outstanding p out)
    (hne : (freeFrames p).Nonempty) :
    Outstanding (pmmFrameAlloc p).2 ((pmmFrameAlloc p).1 :: out) := by
  have hcov := coveredFrames_eq
  obtain ⟨f, hleast, hres⟩ := pmmFrameAlloc_of_nonempty hne
  have hlt := freeFrames_lt hleast.1
  obtain ⟨hf, hfree⟩ := hleast.1
  rw [hres]
  refine ⟨List.nodup_cons.mpr ⟨?_, h.nodup⟩, ?_⟩
  · -- an address that is already out belongs to a used frame, and `f` was free
    intro hmem
    obtain ⟨g, hg, haddr, hused⟩ := h.used _ hmem
    rw [← frameAddr_inj hlt (by omega) haddr, hfree] at hused
    cases hused
  · intro addr hmem
    rcases List.mem_cons.mp hmem with rfl | hmem
    · exact ⟨f, hf, rfl, by simp [frameIdx_toNat (show f < 2 ^ 64 by omega)]⟩
    · obtain ⟨g, hg, haddr, hused⟩ := h.used _ hmem
      exact ⟨g, hg, haddr, by simp [hused]⟩

theorem Outstanding.free {out : List (BitVec 64)} {addr : BitVec 64} (h : Outstanding p out)
    (hmem : addr ∈ out) : Outstanding (pmmFrameFree (addr >>> pageShift) p) (out.erase addr) := by
  have hcov := coveredFrames_eq
  obtain ⟨f, hf, rfl, _⟩ := h.used _ hmem
  have hidx : (frameAddr f >>> pageShift).toNat = f := by
    rw [frameAddr_shiftRight (by omega), frameIdx_toNat (by omega)]
  refine ⟨h.nodup.erase _, ?_⟩
  intro addr hmem'
  have hne : addr ≠ frameAddr f := (h.nodup.mem_erase_iff.mp hmem').1
  obtain ⟨g, hg, rfl, hused⟩ := h.used _ (List.mem_of_mem_erase hmem')
  have hgf : g ≠ f := fun heq => hne (by rw [heq])
  refine ⟨g, hg, rfl, ?_⟩
  rw [pmmFrameFree]
  split
  · exact hused
  · simp [hidx, hgf, hused]

theorem OwnedRun.outstanding {out : List (BitVec 64)} (h : OwnedRun p out) : Outstanding p out := by
  induction h with
  | start p => exact ⟨List.nodup_nil, fun _ hmem => by cases hmem⟩
  | alloc _ hne ih => exact ih.alloc hne
  | free _ hmem ih => exact ih.free hmem

/-! ## Freeing what was just allocated -/

theorem pmmFrameFree_alloc (hne : (freeFrames p).Nonempty)
    (hres : pmmReservedFrames ≤ (pmmFrameAlloc p).1 >>> pageShift) :
    pmmFrameFree ((pmmFrameAlloc p).1 >>> pageShift) (pmmFrameAlloc p).2 = p := by
  rw [pmmFrameFree_unreserved hres]
  obtain ⟨f, hleast, heq⟩ := pmmFrameAlloc_of_nonempty hne
  have hlt := freeFrames_lt hleast.1
  have hidx : (BitVec.ofNat 64 f).toNat = f := frameIdx_toNat (by omega)
  rw [heq, frameAddr_shiftRight hlt]
  have hbits : (frameBitmapClear (frameBitmapSet p (BitVec.ofNat 64 f)) (BitVec.ofNat 64 f)).gFrameBitmap
      = p.gFrameBitmap := by
    rw [frameBitmapClear_bitmap, frameBitmapSet_bitmap, hidx]
    exact BitArray.clear_set_of_clear hleast.1.2
  cases p
  simp only [frameBitmapClear, frameBitmapSet, Pmm.setWord] at hbits ⊢
  rw [hbits]

end BootKernel
