import BootKernel.Pmm.Lemmas.Bitmap

/-!
# Which frames `pmm_init` leaves free

One lemma for each of its four loops, for entries with any contents, and from them the bit of every
frame after `pmm_init`.
-/

namespace BootKernel

variable {p : Pmm} {e : E820Entry} {f : Nat}

/-! ## The fill -/

theorem fill_word (n : Nat) (p : Pmm) (w : Nat) :
    (Loop.forRange 0 n (fun i p => p.setWord i 0xFF) p).gFrameBitmap w =
      if w < n then 0xFF else p.gFrameBitmap w := by
  refine Loop.forRange_rule
    (fun n (q : Pmm) => q.gFrameBitmap w = if w < n then 0xFF else p.gFrameBitmap w)
    (Nat.zero_le _) (by simp) ?_
  intro i q _ _ ih
  by_cases hw : w = i
  · subst hw
    simp [Pmm.setWord]
  · have hlt : w < i + 1 ↔ w < i := by omega
    simp only [Pmm.setWord, Function.update_of_ne hw, ih, hlt]

theorem bitmapFill_word (p : Pmm) (w : Nat) :
    (bitmapFill p).gFrameBitmap w = if w < bitmapBytes.toNat then 0xFF else p.gFrameBitmap w := by
  rw [bitmapFill, fill_word]

/-- The fill writes `0xFF` into words of 64 bits, so it sets one bit in eight. -/
theorem used_bitmapFill (hf : f < coveredFrames) : (bitmapFill p).used f = decide (f % 64 < 8) := by
  have hbits : ∀ k < 64, (0xFF#64).getLsbD k = decide (k < 8) := by decide
  have hw : f / 64 < bitmapBytes.toNat := by
    rw [coveredFrames_eq] at hf
    rw [bitmapBytes_toNat]
    omega
  rw [Pmm.used, BitArray.bit, bitmapFill_word, if_pos hw]
  exact hbits _ (Nat.mod_lt f (by omega))

/-! ## The loop over the map -/

/-- The first frame that an entry frees, with the addition of `align_up` wrapping. -/
def E820Entry.startFrame (e : E820Entry) : Nat := (e.base.toNat + 4095) % 2 ^ 64 / 4096

/-- The frame after the last one that an entry frees, with the addition wrapping. -/
def E820Entry.endFrame (e : E820Entry) : Nat := (e.base.toNat + e.length.toNat) % 2 ^ 64 / 4096

/-- The frames whose bits the loop body clears for an entry. -/
def E820Entry.Frees (e : E820Entry) (f : Nat) : Prop :=
  e.type = 1 ∧ e.startFrame ≤ f ∧ f < e.endFrame ∧ f < maxFrames.toNat

instance (e : E820Entry) (f : Nat) : Decidable (e.Frees f) := by
  unfold E820Entry.Frees; infer_instance

theorem startIdx_toNat (e : E820Entry) : (alignUp e.base >>> pageShift).toNat = e.startFrame := by
  rw [BitVec.toNat_ushiftRight, alignUp_toNat, pageShift, Nat.shiftRight_eq_div_pow,
    E820Entry.startFrame]
  omega

theorem endIdx_toNat (e : E820Entry) :
    (alignDown (e.base + e.length) >>> pageShift).toNat = e.endFrame := by
  rw [BitVec.toNat_ushiftRight, alignDown_toNat, pageShift, Nat.shiftRight_eq_div_pow,
    BitVec.toNat_add, E820Entry.endFrame]
  omega

/-- Clamping the end to `MAX_FRAMES` is taking the smaller of the two. -/
theorem clamp_toNat (x : BitVec 64) :
    (if maxFrames < x then maxFrames else x).toNat = min x.toNat maxFrames.toNat := by
  by_cases h : maxFrames < x
  · rw [if_pos h, Nat.min_eq_right (Nat.le_of_lt (BitVec.lt_def.mp h))]
  · rw [if_neg h, Nat.min_eq_left (Nat.le_of_not_lt fun hlt => h (BitVec.lt_def.mpr hlt))]

theorem used_e820EntryApply (p : Pmm) (e : E820Entry) (f : Nat) :
    (e820EntryApply p e).used f = (!decide (e.Frees f) && p.used f) := by
  have hceil : ∀ q : Pmm, (if q.gPhysCeiling < e.base + e.length
      then { q with gPhysCeiling := e.base + e.length } else q).used f = q.used f := by
    intro q
    split <;> rfl
  simp only [e820EntryApply]
  by_cases htype : e.type = 1
  · rw [if_neg (by simp [htype])]
    by_cases hstart : maxFrames ≤ alignUp e.base >>> pageShift
    · have hle : maxFrames.toNat ≤ e.startFrame := by
        rw [← startIdx_toNat]
        exact BitVec.le_def.mp hstart
      have hnot : ¬ e.Frees f := by
        rintro ⟨_, hlo, _, hmax⟩
        omega
      rw [if_pos hstart, hceil]
      simp [hnot]
    · rw [if_neg hstart]
      by_cases hempty : (if maxFrames < alignDown (e.base + e.length) >>> pageShift then maxFrames
          else alignDown (e.base + e.length) >>> pageShift) ≤ alignUp e.base >>> pageShift
      · have hle := BitVec.le_def.mp hempty
        rw [clamp_toNat, startIdx_toNat, endIdx_toNat] at hle
        have hnot : ¬ e.Frees f := by
          rintro ⟨_, hlo, hhi, hmax⟩
          omega
        rw [if_pos hempty, hceil]
        simp [hnot]
      · have hiff : e.startFrame ≤ f ∧ f < min e.endFrame maxFrames.toNat ↔ e.Frees f := by
          simp only [E820Entry.Frees, htype, true_and, Nat.lt_min]
        rw [if_neg hempty, used_frameBitmapClearRange, hceil, startIdx_toNat, clamp_toNat,
          endIdx_toNat]
        simp only [hiff]
  · have hnot : ¬ e.Frees f := fun h => htype h.1
    rw [if_pos htype, hceil]
    simp [hnot]

theorem used_entries (map : List E820Entry) (p : Pmm) (f : Nat) :
    (map.foldl e820EntryApply p).used f = (!decide (∃ e ∈ map, e.Frees f) && p.used f) := by
  induction map generalizing p with
  | nil => simp
  | cons e map ih =>
      rw [List.foldl_cons, ih, used_e820EntryApply, ← Bool.and_assoc, ← Bool.not_or,
        ← Bool.decide_or]
      simp only [List.exists_mem_cons_iff, or_comm]

/-! ## The ceiling -/

@[simp] theorem frameBitmapSetRange_ceiling (p : Pmm) (lo hi : BitVec 64) :
    (frameBitmapSetRange p lo hi).gPhysCeiling = p.gPhysCeiling := by
  rw [frameBitmapSetRange]
  apply Loop.forRange_preserves Pmm.gPhysCeiling
  intro _ _
  rfl

@[simp] theorem frameBitmapClearRange_ceiling (p : Pmm) (lo hi : BitVec 64) :
    (frameBitmapClearRange p lo hi).gPhysCeiling = p.gPhysCeiling := by
  rw [frameBitmapClearRange]
  apply Loop.forRange_preserves Pmm.gPhysCeiling
  intro _ _
  rfl

@[simp] theorem bitmapFill_ceiling (p : Pmm) : (bitmapFill p).gPhysCeiling = p.gPhysCeiling := by
  rw [bitmapFill]
  apply Loop.forRange_preserves Pmm.gPhysCeiling
  intro _ _
  rfl

theorem e820EntryApply_ceiling (p : Pmm) (e : E820Entry) :
    (e820EntryApply p e).gPhysCeiling =
      if p.gPhysCeiling < e.base + e.length then e.base + e.length else p.gPhysCeiling := by
  simp only [e820EntryApply]
  repeat' split
  all_goals simp_all

/-- The ceiling after the loop over the map, from the descriptors alone. -/
theorem foldl_ceiling (map : List E820Entry) (p : Pmm) :
    (map.foldl e820EntryApply p).gPhysCeiling =
      map.foldl (fun c e => if c < e.base + e.length then e.base + e.length else c) p.gPhysCeiling := by
  induction map generalizing p with
  | nil => rfl
  | cons e map ih => rw [List.foldl_cons, List.foldl_cons, ih, e820EntryApply_ceiling]

theorem pmmInit_ceiling (map : List E820Entry) (k : KernelImage) (p : Pmm) :
    (pmmInit map k p).gPhysCeiling = (map.foldl e820EntryApply (bitmapFill p)).gPhysCeiling := by
  simp [pmmInit, pmmInitFromMap]

/-! ## All four loops -/

/-- The frames of the kernel image. -/
def KernelImage.HasFrame (k : KernelImage) (f : Nat) : Prop :=
  k.kernelStart.toNat < (f + 1) * 4096 ∧ f * 4096 < k.kernelEnd.toNat

instance (k : KernelImage) (f : Nat) : Decidable (k.HasFrame f) := by
  unfold KernelImage.HasFrame; infer_instance

theorem used_kernelRange (k : KernelImage) (p : Pmm) (f : Nat) :
    (frameBitmapSetRange p (alignDown k.kernelStart >>> pageShift)
      (alignUp k.kernelEnd >>> pageShift)).used f = (decide (k.HasFrame f) || p.used f) := by
  have hs := k.start_aligned
  have he := k.end_aligned
  have hiff : k.kernelStart.toNat / 4096 ≤ f ∧ f < k.kernelEnd.toNat / 4096 ↔ k.HasFrame f := by
    simp only [KernelImage.HasFrame]
    omega
  rw [used_frameBitmapSetRange, alignDown_aligned hs, alignUp_aligned he, BitVec.toNat_ushiftRight,
    BitVec.toNat_ushiftRight, pageShift, Nat.shiftRight_eq_div_pow, Nat.shiftRight_eq_div_pow]
  simp only [show (2 : Nat) ^ 12 = 4096 by rfl, hiff]

theorem used_reservedRange (p : Pmm) (f : Nat) :
    (frameBitmapSetRange p 0 pmmReservedFrames).used f =
      (decide (f < pmmReservedFrames.toNat) || p.used f) := by
  have hiff : (0 : BitVec 64).toNat ≤ f ∧ f < pmmReservedFrames.toNat ↔
      f < pmmReservedFrames.toNat := and_iff_right (Nat.zero_le f)
  rw [used_frameBitmapSetRange]
  simp only [hiff]

theorem used_pmmInitFromMap (map : List E820Entry) (p : Pmm) (f : Nat) :
    (pmmInitFromMap map p).used f = (decide (f < pmmReservedFrames.toNat) ||
      (!decide (∃ e ∈ map, e.Frees f) && (bitmapFill p).used f)) := by
  rw [pmmInitFromMap, used_reservedRange, used_entries]

theorem used_pmmInit (map : List E820Entry) (k : KernelImage) (p : Pmm) (hf : f < coveredFrames) :
    (pmmInit map k p).used f = true ↔
      k.HasFrame f ∨ f < pmmReservedFrames.toNat ∨
        (f % 64 < 8 ∧ ¬ ∃ e ∈ map, e.Frees f) := by
  simp only [pmmInit]
  rw [used_kernelRange, used_pmmInitFromMap, used_bitmapFill hf, Bool.and_comm (!decide _)]
  simp only [Bool.or_eq_true, Bool.and_eq_true, Bool.not_eq_true', decide_eq_true_eq,
    decide_eq_false_iff_not]

/-- Past the end of the array the loops over the map leave all bits alone. -/
theorem used_pmmInitFromMap_past (map : List E820Entry) (p : Pmm) (hf : coveredFrames ≤ f) :
    (pmmInitFromMap map p).used f = p.used f := by
  have hbound := coveredFrames_eq
  have hfill : (bitmapFill p).used f = p.used f := by
    rw [Pmm.used, BitArray.bit, bitmapFill_word, if_neg, Pmm.used, BitArray.bit]
    rw [bitmapBytes_toNat]
    omega
  have hfrees : ¬ ∃ e ∈ map, e.Frees f := by
    rintro ⟨e, _, _, _, _, hmax⟩
    rw [maxFrames_toNat] at hmax
    omega
  have hres : ¬ f < pmmReservedFrames.toNat := by
    rw [pmmReservedFrames_toNat]
    omega
  rw [used_pmmInitFromMap, hfill]
  simp only [hfrees, hres, decide_false, Bool.not_false, Bool.true_and, Bool.false_or]

/-- Past the end of the array `pmm_init` frees nothing, and sets bits of the image alone. -/
theorem used_pmmInit_past (map : List E820Entry) (k : KernelImage) (p : Pmm)
    (hf : coveredFrames ≤ f) : (pmmInit map k p).used f = (decide (k.HasFrame f) || p.used f) := by
  simp only [pmmInit]
  rw [used_kernelRange, used_pmmInitFromMap_past map p hf]

/-- Without wrapping, an entry frees the frames that lie wholly inside it. -/
theorem frees_iff_of_no_wrap (hwrap : e.base.toNat + e.length.toNat ≤ 2 ^ 64 - 4096) :
    e.Frees f ↔ f < maxFrames.toNat ∧ e.type = 1 ∧ e.base.toNat ≤ f * 4096 ∧
      (f + 1) * 4096 ≤ e.base.toNat + e.length.toNat := by
  simp only [E820Entry.Frees, E820Entry.startFrame, E820Entry.endFrame,
    Nat.mod_eq_of_lt (show e.base.toNat + 4095 < 2 ^ 64 by omega),
    Nat.mod_eq_of_lt (show e.base.toNat + e.length.toNat < 2 ^ 64 by omega)]
  constructor
  · rintro ⟨htype, hlo, hhi, hmax⟩
    exact ⟨hmax, htype, by omega, by omega⟩
  · rintro ⟨hmax, htype, hlo, hhi⟩
    exact ⟨htype, by omega, by omega, hmax⟩

end BootKernel
