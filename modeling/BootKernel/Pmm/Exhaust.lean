import BootKernel.Pmm.FreeSet
import Mathlib.Data.Set.Card

/-!
# Allocating until nothing is free

Which words of the bitmap one allocation touches, and what a run of allocations without a free
returns.
-/

namespace BootKernel

variable {p q : Pmm} {n w : Nat}

/-! ## The words that an allocation touches -/

/-- While the words from `w` on are full the search goes on, one word at a time. -/
theorem pmmFrameAllocFromIndexes_full (h : p.gFrameBitmap w = ~~~ 0#64) :
    pmmFrameAllocFromIndexes p (n + 1) w = w :: pmmFrameAllocFromIndexes p n (w + 1) := by
  simp only [pmmFrameAllocFromIndexes, h, ↓reduceIte]

/-- A word with a clear bit is read, and written back. -/
theorem pmmFrameAllocFromIndexes_free (hw : w < 2 ^ 58) (h : p.gFrameBitmap w ≠ ~~~ 0#64) :
    pmmFrameAllocFromIndexes p (n + 1) w = [w, w] := by
  have hlt := BitArray.ctz_not_lt h
  have hidx : (BitVec.ofNat 64 w <<< 6) ||| (~~~ p.gFrameBitmap w).ctz =
      BitVec.ofNat 64 (64 * w + (~~~ p.gFrameBitmap w).ctz.toNat) := by
    rw [← shift_or_bit hw hlt, BitVec.ofNat_toNat, BitVec.setWidth_eq]
  have hword : ((BitVec.ofNat 64 (64 * w + (~~~ p.gFrameBitmap w).ctz.toNat)) >>> 6).toNat = w := by
    rw [wordIndex, frameIdx_toNat (by omega)]
    omega
  simp only [pmmFrameAllocFromIndexes, h, ↓reduceIte, hidx, hword]

/-- The indexes that are touched are those from `w` to the first word that is not full. -/
theorem mem_pmmFrameAllocFromIndexes {i : Nat} (hw : w + n ≤ 2 ^ 58) :
    i ∈ pmmFrameAllocFromIndexes p n w ↔
      w ≤ i ∧ i < w + n ∧ ∀ j, w ≤ j → j < i → p.gFrameBitmap j = ~~~ 0#64 := by
  induction n generalizing w with
  | zero =>
      simp only [pmmFrameAllocFromIndexes, List.not_mem_nil, false_iff]
      omega
  | succ n ih =>
      by_cases hfull : p.gFrameBitmap w = ~~~ 0#64
      · rw [pmmFrameAllocFromIndexes_full hfull, List.mem_cons, ih (by omega)]
        constructor
        · rintro (rfl | ⟨hlo, hhi, hbelow⟩)
          · exact ⟨Nat.le_refl _, by omega, fun j hj hji => by omega⟩
          · refine ⟨by omega, by omega, fun j hj hji => ?_⟩
            by_cases hjw : j = w
            · exact hjw ▸ hfull
            · exact hbelow j (by omega) hji
        · rintro ⟨hlo, hhi, hbelow⟩
          by_cases hiw : i = w
          · exact Or.inl hiw
          · exact Or.inr ⟨by omega, by omega, fun j hj hji => hbelow j (by omega) hji⟩
      · rw [pmmFrameAllocFromIndexes_free (by omega) hfull]
        simp only [List.mem_cons, List.not_mem_nil, or_false, or_self]
        constructor
        · rintro rfl
          exact ⟨Nat.le_refl _, by omega, fun j hj hji => by omega⟩
        · rintro ⟨hlo, -, hbelow⟩
          by_contra hne
          exact hfull (hbelow w (Nat.le_refl _) (by omega))

theorem mem_pmmFrameAllocIndexes {i : Nat} : i ∈ pmmFrameAllocIndexes p ↔
    i < maxFrames.toNat ∧ ∀ j < i, p.gFrameBitmap j = ~~~ 0#64 := by
  rw [pmmFrameAllocIndexes, mem_pmmFrameAllocFromIndexes (by rw [maxFrames_toNat]; decide)]
  simp only [Nat.zero_le, Nat.zero_add, true_and, true_implies]

/-- The list is complete: another bitmap that agrees there gives the same frame. -/
theorem pmmFrameAllocFrom_congr (h : ∀ i ∈ pmmFrameAllocFromIndexes p n w, q.gFrameBitmap i = p.gFrameBitmap i) :
    (pmmFrameAllocFrom q n w).1 = (pmmFrameAllocFrom p n w).1 := by
  induction n generalizing w with
  | zero => rfl
  | succ n ih =>
      have hhead : q.gFrameBitmap w = p.gFrameBitmap w := by
        apply h
        simp only [pmmFrameAllocFromIndexes]
        split <;> exact List.mem_cons_self
      by_cases hfull : p.gFrameBitmap w = ~~~ 0#64
      · rw [pmmFrameAllocFromIndexes_full hfull] at h
        have htail := ih fun i hi => h i (List.mem_cons_of_mem w hi)
        simp only [pmmFrameAllocFrom, hhead, hfull, ↓reduceIte, htail]
      · simp only [pmmFrameAllocFrom, hhead, hfull, ↓reduceIte]

/-- Every access of an allocation stays inside `g_frame_bitmap`. -/
def AllocBounded (p : Pmm) : Prop := ∀ i ∈ pmmFrameAllocIndexes p, i < bitmapBytes.toNat

theorem freeFrames_eq_empty_iff :
    freeFrames p = ∅ ↔ ∀ w < bitmapBytes.toNat, p.gFrameBitmap w = ~~~ 0#64 := by
  rw [Set.eq_empty_iff_forall_notMem]
  constructor
  · intro hempty w hw
    rw [BitArray.word_full_iff]
    rintro i rfl
    have hi := hempty i
    simp only [freeFrames, Set.mem_ofPred_eq, coveredFrames, not_and, Bool.not_eq_false] at hi
    exact hi (by omega)
  · rintro hfull f ⟨hf, hfree⟩
    rw [coveredFrames] at hf
    have hused := (BitArray.word_full_iff p.gFrameBitmap (f / 64)).mp (hfull _ (by omega)) f rfl
    rw [Pmm.used, hused] at hfree
    cases hfree

/-- An allocation leaves the array if and only if the array holds no free frame. -/
theorem allocBounded_iff : AllocBounded p ↔ (freeFrames p).Nonempty := by
  have hmax := maxFrames_toNat
  have hbytes := bitmapBytes_toNat
  rw [Set.nonempty_iff_ne_empty, ne_eq, freeFrames_eq_empty_iff]
  constructor
  · intro hbound hfull
    have hlt := hbound bitmapBytes.toNat (mem_pmmFrameAllocIndexes.mpr ⟨by omega, hfull⟩)
    omega
  · intro hfree i hi
    by_contra hge
    exact hfree fun w hw => (mem_pmmFrameAllocIndexes.mp hi).2 w (by omega)

/-! ## Runs of allocations -/

/-- The addresses that `k` allocations in a row return, and the allocator after them. -/
def pmmFrameAllocs : Nat → Pmm → List (BitVec 64) × Pmm
  | 0, p => ([], p)
  | k + 1, p =>
      let (addr, p) := pmmFrameAlloc p
      let (addrs, p) := pmmFrameAllocs k p
      (addr :: addrs, p)

theorem freeFrames_finite (p : Pmm) : (freeFrames p).Finite :=
  (Set.finite_lt_nat coveredFrames).subset fun _ hf => hf.1

/-- What one allocation does to a bitmap with `k + 1` free frames. -/
theorem pmmFrameAlloc_succ {k : Nat} (hk : (freeFrames p).ncard = k + 1) :
    ∃ f, IsLeast (freeFrames p) f ∧ (pmmFrameAlloc p).1 = frameAddr f ∧
      freeFrames (pmmFrameAlloc p).2 = freeFrames p \ {f} ∧
      (freeFrames (pmmFrameAlloc p).2).ncard = k := by
  have hne : (freeFrames p).Nonempty := Set.nonempty_of_ncard_ne_zero (by omega)
  obtain ⟨f, hleast, heq⟩ := pmmFrameAlloc_of_nonempty hne
  have hset : freeFrames (pmmFrameAlloc p).2 = freeFrames p \ {f} := by
    have hlt := freeFrames_lt hleast.1
    rw [heq]
    exact freeFrames_set (by omega)
  refine ⟨f, hleast, by rw [heq], hset, ?_⟩
  rw [hset, Set.ncard_sdiff_singleton_of_mem hleast.1, hk, Nat.add_sub_cancel]

/-- The addresses of a run are those of free frames, in order, and they use the free frames up. -/
theorem pmmFrameAllocs_spec {k : Nat} (hk : (freeFrames p).ncard = k) :
    (∀ a ∈ (pmmFrameAllocs k p).1, ∃ f ∈ freeFrames p, a = frameAddr f) ∧
      (pmmFrameAllocs k p).1.Pairwise (· < ·) ∧ freeFrames (pmmFrameAllocs k p).2 = ∅ := by
  induction k generalizing p with
  | zero =>
      refine ⟨fun a ha => absurd ha List.not_mem_nil, List.Pairwise.nil, ?_⟩
      exact (Set.ncard_eq_zero (freeFrames_finite p)).mp hk
  | succ k ih =>
      obtain ⟨f, hleast, haddr, hset, hcard⟩ := pmmFrameAlloc_succ hk
      obtain ⟨hfrom, hsorted, hempty⟩ := ih hcard
      simp only [pmmFrameAllocs, haddr, List.forall_mem_cons, List.pairwise_cons]
      refine ⟨⟨⟨f, hleast.1, rfl⟩, fun a ha => ?_⟩, ⟨fun a ha => ?_, hsorted⟩, hempty⟩
      · obtain ⟨g, hg, rfl⟩ := hfrom a ha
        rw [hset] at hg
        exact ⟨g, hg.1, rfl⟩
      · obtain ⟨g, hg, rfl⟩ := hfrom a ha
        rw [hset] at hg
        have hle := hleast.2 hg.1
        have hne : g ≠ f := hg.2
        rw [BitVec.lt_def, frameAddr_toNat (freeFrames_lt hleast.1), frameAddr_toNat (freeFrames_lt hg.1)]
        omega

/-- As long as the run is not longer than the free frames, each of its calls finds one. -/
theorem pmmFrameAllocs_nonempty {j k : Nat} (hk : (freeFrames p).ncard = k) (hj : j < k) :
    (freeFrames (pmmFrameAllocs j p).2).Nonempty := by
  induction j generalizing p k with
  | zero =>
      have hcard : (freeFrames p).ncard ≠ 0 := by omega
      exact Set.nonempty_of_ncard_ne_zero hcard
  | succ j ih =>
      obtain ⟨k, rfl⟩ : ∃ k', k = k' + 1 := ⟨k - 1, by omega⟩
      obtain ⟨-, -, -, -, hcard⟩ := pmmFrameAlloc_succ hk
      exact ih hcard (by omega)

/-- The words behind the array are as before. -/
theorem pmmFrameAllocs_past {j k : Nat} (hk : (freeFrames p).ncard = k) (hj : j ≤ k)
    (hw : bitmapBytes.toNat ≤ w) : (pmmFrameAllocs j p).2.gFrameBitmap w = p.gFrameBitmap w := by
  induction j generalizing p k with
  | zero => rfl
  | succ j ih =>
      obtain ⟨k, rfl⟩ : ∃ k', k = k' + 1 := ⟨k - 1, by omega⟩
      obtain ⟨-, -, -, -, hcard⟩ := pmmFrameAlloc_succ hk
      have hne : (freeFrames p).Nonempty := Set.nonempty_of_ncard_ne_zero (by omega)
      obtain ⟨f, hleast, heq⟩ := pmmFrameAlloc_of_nonempty hne
      have hlt := hleast.1.1
      rw [coveredFrames] at hlt
      have hword : (pmmFrameAlloc p).2.gFrameBitmap w = p.gFrameBitmap w := by
        rw [heq, frameBitmapSet_bitmap, frameIdx_toNat (by rw [bitmapBytes_toNat] at hlt; omega)]
        exact Function.update_of_ne (by omega) _ _
      exact (ih hcard (by omega)).trans hword

/-- With nothing free in the array, an allocation fails exactly when the words behind it are full. -/
theorem pmmFrameAlloc_exhausted_iff (hempty : freeFrames p = ∅) :
    pmmFrameAlloc p = (pmmInvalidFrame, p) ↔
      ∀ w, bitmapBytes.toNat ≤ w → w < maxFrames.toNat → p.gFrameBitmap w = ~~~ 0#64 := by
  have hfull := freeFrames_eq_empty_iff.mp hempty
  constructor
  · intro hfail w hlo hhi
    rcases pmmFrameAlloc_cases p with ⟨-, hused⟩ | ⟨f, -, -, -, hres⟩
    · rw [BitArray.word_full_iff]
      rintro i rfl
      exact hused i (by rw [scannedFrames]; omega)
    · rw [hres] at hfail
      exact absurd (congrArg Prod.fst hfail) (frameAddr_ne_invalid f)
  · intro hpast
    rcases pmmFrameAlloc_cases p with ⟨hfail, -⟩ | ⟨f, hf, hfree, -, -⟩
    · exact hfail
    · rw [scannedFrames] at hf
      have hword : p.gFrameBitmap (f / 64) = ~~~ 0#64 := by
        by_cases hlt : f / 64 < bitmapBytes.toNat
        · exact hfull _ hlt
        · exact hpast _ (by omega) (by omega)
      have hused := (BitArray.word_full_iff p.gFrameBitmap (f / 64)).mp hword f rfl
      rw [Pmm.used, hused] at hfree
      cases hfree

end BootKernel
