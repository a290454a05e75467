import BootKernel.Pmm.Theorems

/-!
# The loop over the memory map

What the entry loop of `pmm_init_from_map` does to the bitmap and to the ceiling, started from any of
them, and what it does with descriptors that overlap or that reach the top of the address space.
-/

namespace BootKernel

variable {map : List E820Entry} {e r : E820Entry} {p : Pmm} {f : Nat}

/-- Where the range of the descriptor ends, in numbers that do not wrap. -/
def E820Entry.limit (e : E820Entry) : Nat := e.base.toNat + e.length.toNat

instance (e : E820Entry) (f : Nat) : Decidable (e.UsableFrame f) := by
  unfold E820Entry.UsableFrame; infer_instance

/-! ## The ceiling -/

theorem e820EntryApply_ceiling_toNat (p : Pmm) (e : E820Entry) :
    (e820EntryApply p e).gPhysCeiling.toNat =
      max p.gPhysCeiling.toNat (e.base + e.length).toNat := by
  rw [e820EntryApply_ceiling]
  by_cases h : p.gPhysCeiling < e.base + e.length
  · rw [if_pos h, Nat.max_eq_right (Nat.le_of_lt (BitVec.lt_def.mp h))]
  · rw [if_neg h, Nat.max_eq_left (Nat.le_of_not_lt fun hlt => h (BitVec.lt_def.mpr hlt))]

/-- The ceiling is the highest of where it was and of the sums, wrapped or not. -/
theorem ceiling_le_iff (map : List E820Entry) (p : Pmm) (c : Nat) :
    (map.foldl e820EntryApply p).gPhysCeiling.toNat ≤ c ↔
      p.gPhysCeiling.toNat ≤ c ∧ ∀ e ∈ map, (e.base + e.length).toNat ≤ c := by
  induction map generalizing p with
  | nil => simp
  | cons e map ih =>
      rw [List.foldl_cons, ih, e820EntryApply_ceiling_toNat, Nat.max_le, List.forall_mem_cons,
        and_assoc]

theorem ceiling_mono (map : List E820Entry) (p : Pmm) :
    p.gPhysCeiling.toNat ≤ (map.foldl e820EntryApply p).gPhysCeiling.toNat :=
  ((ceiling_le_iff map p _).mp (Nat.le_refl _)).1

/-- The sum of each descriptor, wrapped or not, is below the ceiling. -/
theorem le_ceiling (p : Pmm) (hmem : e ∈ map) :
    (e.base + e.length).toNat ≤ (map.foldl e820EntryApply p).gPhysCeiling.toNat :=
  ((ceiling_le_iff map p _).mp (Nat.le_refl _)).2 e hmem

theorem ceiling_eq (hwrap : NoWrap map) (p : Pmm) :
    (map.foldl e820EntryApply p).gPhysCeiling.toNat =
      (map.map E820Entry.limit).foldl max p.gPhysCeiling.toNat := by
  induction map generalizing p with
  | nil => rfl
  | cons e map ih =>
      have he := hwrap e List.mem_cons_self
      have hsum : (e.base + e.length).toNat = e.limit := by
        rw [BitVec.toNat_add, Nat.mod_eq_of_lt (by omega), E820Entry.limit]
      rw [List.foldl_cons, ih fun e he => hwrap e (List.mem_cons_of_mem _ he),
        e820EntryApply_ceiling_toNat, hsum, List.map_cons, List.foldl_cons]

/-! ## Descriptors that do not wrap -/

/-- The loop clears the bits of the usable frames below `MAX_FRAMES` and no other bit, and the ceiling
becomes the highest end. -/
theorem entries_exact (map : List E820Entry) (p : Pmm) (hwrap : NoWrap map) :
    (∀ f, (map.foldl e820EntryApply p).used f =
      if f < maxFrames.toNat ∧ ∃ e ∈ map, e.UsableFrame f then false else p.used f) ∧
      (map.foldl e820EntryApply p).gPhysCeiling.toNat =
        (map.map E820Entry.limit).foldl max p.gPhysCeiling.toNat := by
  refine ⟨fun f => ?_, ceiling_eq hwrap p⟩
  rw [used_entries]
  simp only [exists_frees_iff hwrap]
  by_cases h : f < maxFrames.toNat ∧ ∃ e ∈ map, e.UsableFrame f
  · rw [if_pos h, decide_eq_true h, Bool.not_true, Bool.false_and]
  · rw [if_neg h, decide_eq_false h, Bool.not_false, Bool.true_and]

/-- Two frames lie wholly inside a descriptor that is not aligned, and nothing above 64 GiB is
cleared. -/
theorem entries_exact_two :
    let map : List E820Entry := [⟨0x1800, 0x2C00, 1, 0⟩, ⟨0x2000000000, 0x1000, 1, 0⟩]
    (∀ f, (map.foldl e820EntryApply samplePmm).used f =
      if f < maxFrames.toNat ∧ ∃ e ∈ map, e.UsableFrame f then false else samplePmm.used f) ∧
      (map.foldl e820EntryApply samplePmm).gPhysCeiling.toNat = 0x2000001000 := by
  obtain ⟨hbits, hceil⟩ := entries_exact [⟨0x1800, 0x2C00, 1, 0⟩, ⟨0x2000000000, 0x1000, 1, 0⟩]
    samplePmm (by simp [NoWrap])
  exact ⟨hbits, hceil.trans (by decide)⟩

/-! ## Overlapping descriptors -/

/-- The frame and the range of the descriptor share a byte. -/
def E820Entry.Touches (r : E820Entry) (f : Nat) : Prop :=
  ∃ x, r.base.toNat ≤ x ∧ x < r.limit ∧ f * 4096 ≤ x ∧ x < (f + 1) * 4096

theorem touches_iff :
    r.Touches f ↔ 0 < r.length.toNat ∧ r.base.toNat / 4096 ≤ f ∧ f < (r.limit + 4095) / 4096 := by
  unfold E820Entry.Touches E820Entry.limit
  constructor
  · rintro ⟨x, hlo, hhi, hlo', hhi'⟩
    exact ⟨by omega, by omega, by omega⟩
  · rintro ⟨hlen, hlo, hhi⟩
    exact ⟨max r.base.toNat (f * 4096), by omega, by omega, by omega, by omega⟩

/-- No whole page of `e` below `MAX_FRAMES` is a page of `r`. -/
def E820Entry.PagesApart (e r : E820Entry) : Prop :=
  r.length.toNat = 0 ∨ min e.endFrame maxFrames.toNat ≤ e.startFrame ∨
    min e.endFrame maxFrames.toNat ≤ r.base.toNat / 4096 ∨ (r.limit + 4095) / 4096 ≤ e.startFrame

theorem pagesApart_iff (htype : e.type = 1) : e.PagesApart r ↔ ∀ f, r.Touches f → ¬ e.Frees f := by
  unfold E820Entry.PagesApart
  constructor
  · rintro hapart f htouch ⟨-, hlo, hhi, hmax⟩
    rw [touches_iff] at htouch
    omega
  · intro h
    by_contra hmeet
    have hlen : 0 < r.length.toNat := by omega
    have hspan : r.base.toNat / 4096 < (r.limit + 4095) / 4096 := by
      unfold E820Entry.limit
      omega
    -- the first page that both have
    refine h (max e.startFrame (r.base.toNat / 4096)) (touches_iff.mpr ⟨hlen, ?_, ?_⟩)
      ⟨htype, ?_, ?_, ?_⟩
    · exact Nat.le_max_right _ _
    · omega
    · exact Nat.le_max_left _ _
    · omega
    · omega

/-- After the loop no frame is clear that a descriptor of another type than 1 touches. -/
def ReservedKept (map : List E820Entry) (p : Pmm) : Prop :=
  ∀ r ∈ map, r.type ≠ 1 → ∀ f < coveredFrames, r.Touches f →
    (map.foldl e820EntryApply p).used f = true

/-- A reserved descriptor keeps its frames just when no usable descriptor has a whole page of it. -/
theorem reservedKept_iff (map : List E820Entry) {p : Pmm}
    (hall : ∀ f < coveredFrames, p.used f = true) :
    ReservedKept map p ↔
      ∀ r ∈ map, r.type ≠ 1 → ∀ e ∈ map, e.type = 1 → e.PagesApart r := by
  have hcov := coveredFrames_eq
  have hmax := maxFrames_toNat
  have hkept (f : Nat) (hf : f < coveredFrames) :
      (map.foldl e820EntryApply p).used f = true ↔ ∀ e ∈ map, ¬ e.Frees f := by
    rw [used_entries, hall f hf]
    simp
  constructor
  · intro h r hr hrtype e he htype
    rw [pagesApart_iff htype]
    intro f htouch hfrees
    have hf : f < coveredFrames := by
      have := hfrees.2.2.2
      omega
    exact (hkept f hf).mp (h r hr hrtype f hf htouch) e he hfrees
  · intro h r hr hrtype f hf htouch
    rw [hkept f hf]
    intro e he hfrees
    exact (pagesApart_iff hfrees.1).mp (h r hr hrtype e he hfrees.1) f htouch hfrees

/-- A bitmap in which every frame is marked. -/
def markedPmm : Pmm := ⟨0, fun _ => BitVec.allOnes 64⟩

theorem markedPmm_used (f : Nat) : markedPmm.used f = true := by
  have hbit : f % 64 < 64 := Nat.mod_lt f (by omega)
  rw [markedPmm, Pmm.used, BitArray.bit, BitVec.getLsbD_allOnes, decide_eq_true hbit]

/-- A reserved page next to usable memory. -/
theorem reservedKept_iff_apart :
    ReservedKept [⟨0x100000, 0x1000, 2, 0⟩, ⟨0x101000, 0x1000, 1, 0⟩] markedPmm := by
  refine (reservedKept_iff _ fun f _ => markedPmm_used f).mpr ?_
  simp [E820Entry.PagesApart, E820Entry.startFrame, E820Entry.endFrame, E820Entry.limit]

/-- A reserved page inside usable memory that stands after it in the map. -/
theorem reservedKept_overlap :
    ¬ ∀ (map : List E820Entry) (p : Pmm), (∀ e ∈ map, e.limit < 2 ^ 64) →
      (∀ f < coveredFrames, p.used f = true) → ReservedKept map p := by
  intro h
  have hkept := h [⟨0x101000, 0x1000, 2, 0⟩, ⟨0x100000, 0x3000, 1, 0⟩] markedPmm
    (by simp [E820Entry.limit]) fun f _ => markedPmm_used f
  rw [reservedKept_iff _ fun f _ => markedPmm_used f] at hkept
  simp [E820Entry.PagesApart, E820Entry.startFrame, E820Entry.endFrame, E820Entry.limit] at hkept

/-! ## Descriptors with any contents -/

/-- The loop clears no bit but those of usable frames, and no frame that it clears is above the
ceiling. -/
def ClearsUsable (map : List E820Entry) (p : Pmm) : Prop :=
  ∀ f, p.used f = true → (map.foldl e820EntryApply p).used f = false →
    (∃ e ∈ map, e.UsableFrame f) ∧
      (f + 1) * 4096 ≤ (map.foldl e820EntryApply p).gPhysCeiling.toNat

/-- Where the ends wrap and the start does not, the range is empty. -/
theorem E820Entry.Frees.usable (hbase : e.base.toNat ≤ 2 ^ 64 - 4096) (h : e.Frees f) : e.UsableFrame f := by
  obtain ⟨htype, hlo, hhi, -⟩ := h
  have hlen := e.length.isLt
  unfold E820Entry.startFrame at hlo
  unfold E820Entry.endFrame at hhi
  rw [Nat.mod_eq_of_lt (by omega)] at hlo
  by_cases hwrap : e.base.toNat + e.length.toNat < 2 ^ 64
  · rw [Nat.mod_eq_of_lt hwrap] at hhi
    exact ⟨htype, by omega, by omega⟩
  · omega

/-- The rounding of the start wraps when the base is in the last page, and the entry then frees
every frame below its end. -/
theorem frees_of_last_page (hbase : 2 ^ 64 - 4096 < e.base.toNat) :
    e.Frees f ↔ e.type = 1 ∧ f < e.endFrame ∧ f < maxFrames.toNat := by
  have hlt := e.base.isLt
  have hstart : e.startFrame = 0 := by
    unfold E820Entry.startFrame
    omega
  unfold E820Entry.Frees
  rw [hstart]
  simp

/-- The loop clears usable frames only, except for usable descriptors whose base lies in the last page
of the address space. -/
theorem clearsUsable_iff (map : List E820Entry) (p : Pmm) :
    ClearsUsable map p ↔
      ∀ e ∈ map, e.type = 1 → 2 ^ 64 - 4096 < e.base.toNat →
        ∀ f, f < e.endFrame → f < maxFrames.toNat → p.used f = true →
          ∃ e' ∈ map, e'.UsableFrame f := by
  have hcleared (f : Nat) (hused : p.used f = true) :
      (map.foldl e820EntryApply p).used f = false ↔ ∃ e ∈ map, e.Frees f := by
    rw [used_entries, hused]
    simp
  constructor
  · intro h e he htype hbase f hend hmax hused
    have hfrees : e.Frees f := (frees_of_last_page hbase).mpr ⟨htype, hend, hmax⟩
    exact (h f hused ((hcleared f hused).mpr ⟨e, he, hfrees⟩)).1
  · intro h f hused hclear
    obtain ⟨e, he, hfrees⟩ := (hcleared f hused).mp hclear
    constructor
    · by_cases hbase : e.base.toNat ≤ 2 ^ 64 - 4096
      · exact ⟨e, he, hfrees.usable hbase⟩
      · obtain ⟨htype, hend, hmax⟩ := (frees_of_last_page (by omega)).mp hfrees
        exact h e he htype (by omega) f hend hmax hused
    · have hsum := le_ceiling p he
      have hend := hfrees.2.2.1
      unfold E820Entry.endFrame at hend
      rw [BitVec.toNat_add] at hsum
      omega

/-- One empty descriptor in the last byte of the address space frees all memory. -/
theorem clearsUsable_last_byte :
    ¬ ClearsUsable [⟨0xFFFFFFFFFFFFFFFF, 0, 1, 0⟩] markedPmm := by
  rw [clearsUsable_iff]
  intro h
  obtain ⟨e, he, -, hlo, -⟩ := h _ List.mem_cons_self rfl (by decide) 0 (by decide) (by decide)
    (markedPmm_used 0)
  cases List.mem_singleton.mp he
  exact absurd hlo (by decide)

/-! ## Maps with the same descriptors -/

section

variable {map' : List E820Entry} {p' : Pmm}

attribute [ext] Pmm

theorem pmmInitFromMap_ceiling (map : List E820Entry) (p : Pmm) :
    (pmmInitFromMap map p).gPhysCeiling = (map.foldl e820EntryApply (bitmapFill p)).gPhysCeiling := by
  rw [pmmInitFromMap, frameBitmapSetRange_ceiling]

theorem ceiling_le_of_subset (hmem : ∀ e ∈ map, e ∈ map')
    (hceil : p.gPhysCeiling.toNat ≤ p'.gPhysCeiling.toNat) :
    (map.foldl e820EntryApply p).gPhysCeiling.toNat ≤
      (map'.foldl e820EntryApply p').gPhysCeiling.toNat :=
  (ceiling_le_iff map p _).mpr
    ⟨hceil.trans (ceiling_mono map' p'), fun e he => le_ceiling p' (hmem e he)⟩

/-- Neither the order of the descriptors nor how often one stands in the map matters. -/
theorem ceiling_congr (hmem : ∀ e, e ∈ map ↔ e ∈ map') (hceil : p.gPhysCeiling = p'.gPhysCeiling) :
    (pmmInitFromMap map p).gPhysCeiling = (pmmInitFromMap map' p').gPhysCeiling := by
  have hstart : (bitmapFill p).gPhysCeiling = (bitmapFill p').gPhysCeiling := by
    rw [bitmapFill_ceiling, bitmapFill_ceiling, hceil]
  rw [pmmInitFromMap_ceiling, pmmInitFromMap_ceiling]
  apply BitVec.eq_of_toNat_eq
  apply Nat.le_antisymm
  · exact ceiling_le_of_subset (fun e he => (hmem e).mp he) (congrArg _ hstart).le
  · exact ceiling_le_of_subset (fun e he => (hmem e).mpr he) (congrArg _ hstart).ge

theorem used_congr (hmem : ∀ e, e ∈ map ↔ e ∈ map') (p p' : Pmm) (hf : f < coveredFrames) :
    (pmmInitFromMap map p).used f = (pmmInitFromMap map' p').used f := by
  rw [used_pmmInitFromMap, used_pmmInitFromMap, used_bitmapFill hf, used_bitmapFill hf]
  simp only [hmem]

/-- A second run finds the ceiling where the first left it. -/
theorem pmmInitFromMap_twice (map : List E820Entry) (p : Pmm) :
    pmmInitFromMap map (pmmInitFromMap map p) = pmmInitFromMap map p := by
  have hbits : (pmmInitFromMap map (pmmInitFromMap map p)).gFrameBitmap =
      (pmmInitFromMap map p).gFrameBitmap := by
    apply BitArray.ext_bit
    intro f
    by_cases hf : f < coveredFrames
    · exact used_congr (fun _ => Iff.rfl) _ _ hf
    · exact used_pmmInitFromMap_past map _ (Nat.le_of_not_lt hf)
  have hceil : (pmmInitFromMap map (pmmInitFromMap map p)).gPhysCeiling =
      (pmmInitFromMap map p).gPhysCeiling := by
    rw [pmmInitFromMap_ceiling map (pmmInitFromMap map p)]
    have hstart := congrArg BitVec.toNat (bitmapFill_ceiling (pmmInitFromMap map p))
    apply BitVec.eq_of_toNat_eq
    apply Nat.le_antisymm
    · refine (ceiling_le_iff map _ _).mpr ⟨hstart.le, fun e he => ?_⟩
      rw [pmmInitFromMap_ceiling]
      exact le_ceiling (bitmapFill p) he
    · exact hstart.ge.trans (ceiling_mono map (bitmapFill (pmmInitFromMap map p)))
  exact Pmm.ext hceil hbits

/-- Maps with the same descriptors leave the same bitmap and the same ceiling, and a second run with
the same map changes nothing. -/
theorem pmmInitFromMap_same {map map' : List E820Entry} (hmem : ∀ e, e ∈ map ↔ e ∈ map') {p p' : Pmm}
    (hceil : p.gPhysCeiling = p'.gPhysCeiling) :
    (∀ w < bitmapBytes.toNat,
      (pmmInitFromMap map p).gFrameBitmap w = (pmmInitFromMap map' p').gFrameBitmap w) ∧
      pmmHighestAddressGet (pmmInitFromMap map p) = pmmHighestAddressGet (pmmInitFromMap map' p') ∧
      pmmInitFromMap map (pmmInitFromMap map p) = pmmInitFromMap map p := by
  refine ⟨fun w hw => BitArray.word_eq fun f hf => ?_, ?_, pmmInitFromMap_twice map p⟩
  · refine used_congr hmem p p' ?_
    rw [bitmapBytes_toNat] at hw
    rw [coveredFrames_eq]
    omega
  · rw [pmmHighestAddressGet, pmmHighestAddressGet]
    exact ceiling_congr hmem hceil

/-- Two overlapping descriptors, of which one wraps, in another order and with one of them twice. -/
theorem pmmInitFromMap_same_swapped :
    let a : E820Entry := ⟨0x4000000, 0x3000, 1, 0⟩
    let b : E820Entry := ⟨0xFFFFFFFFFFFFFFFF, 0x4002001, 1, 0⟩
    pmmHighestAddressGet (pmmInitFromMap [a, b] samplePmm) =
      pmmHighestAddressGet (pmmInitFromMap [b, a, b] markedPmm) := by
  intro a b
  have hmem : ∀ e, e ∈ [a, b] ↔ e ∈ [b, a, b] := fun e => by
    simp only [List.mem_cons, List.not_mem_nil, or_false]
    tauto
  have hceil : samplePmm.gPhysCeiling = markedPmm.gPhysCeiling := rfl
  exact (pmmInitFromMap_same hmem hceil).2.1

end

end BootKernel
