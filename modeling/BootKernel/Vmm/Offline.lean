import BootKernel.Vmm.Demand
import BootKernel.Vmm.Restore

/-!
# The early mapper and the late one

`vmm_page_map_internal` is `vmm_page_map` for the time before the direct map: it reaches tables at their physical
addresses, does not look at what the allocator returns, and flushes nothing. Where the allocator has frames, the
two build the same tables, and the early one fails to allocate exactly where the late one gives up.
-/

namespace BootKernel

open Radix

/-- A page that is to be mapped. -/
structure PageMapping where
  vaddr : BitVec 64
  paddr : BitVec 64
  flags : BitVec 64

/-- `vmm_page_map` for one page after the other, with the conjunction of its results. -/
def mapPages (root : Nat) : List PageMapping → Machine → Bool × Machine
  | [], m => (true, m)
  | p :: ps, m =>
      let (ok, m) := vmmPageMap (frameAddr root) p.vaddr p.paddr p.flags m
      let (oks, m) := mapPages root ps m
      (ok && oks, m)

def mapPagesInternal (root : Nat) : List PageMapping → Machine → Machine :=
  fun ps m => ps.foldl (fun m p => vmmPageMapInternal (frameAddr root) p.vaddr p.paddr p.flags m) m

section
variable {n root : Nat} {va : BitVec 64} {shifts : List Nat} {m m₂ : Machine}

/-! ## The walkers -/

theorem Machine.enterNew_core (hcore : m.toCore = m₂.toCore) (n : Nat) (i : Fin 512) (g : Nat) :
    (m.enterNew n i g).toCore = (m₂.enterNew n i g).toCore := by
  have hnew (m : Machine) : (m.enterNew n i g).toCore =
      ⟨linkTable m.toCore.mem n i g, frameBitmapSet m.toCore.pmm (BitVec.ofNat 64 g)⟩ := rfl
  rw [hnew, hnew, hcore]

/-- On the same tables and bitmap the walkers end at the same table, or both find no frame. -/
theorem walkers_agree (va : BitVec 64) (shifts : List Nat) (hn : n < 2 ^ 51) (hcore : m.toCore = m₂.toCore) :
    (∃ t m' m₂', vmmPteGetLoop true va shifts (frameAddr n) m = (some (frameAddr t), m') ∧
      Descent true va shifts n m t m' ∧
      vmmPteGetOfflineLoop true va shifts (frameAddr n) m₂ = (some (frameAddr t), m₂') ∧
      m'.toCore = m₂'.toCore ∧ m₂'.failures = m₂.failures) ∨
    (vmmPteGetLoop true va shifts (frameAddr n) m).1 = none ∧
      m₂.failures < (vmmPteGetOfflineLoop true va shifts (frameAddr n) m₂).2.failures := by
  induction shifts generalizing n m m₂ with
  | nil => exact Or.inl ⟨n, m, m₂, rfl, .here, rfl, hcore, rfl⟩
  | cons shift shifts ih =>
      have hentry : tableEntry m₂.mem n (vaIndex va shift) = tableEntry m.mem n (vaIndex va shift) := by
        rw [hcore]
      by_cases hpres : tableEntry m.mem n (vaIndex va shift) &&& pagePresent = 0
      · have hpmm : m₂.pmm = m.pmm := congrArg Core.pmm hcore.symm
        rcases (vmmPteGetLoop_absent hn hpres : (true = false ∧ _) ∨ _) with
          ⟨hcreate, -⟩ | ⟨-, hfull, hstop⟩ | ⟨-, g, htaken, hgo⟩
        · cases hcreate
        · rcases vmmPteGetOfflineLoop_absent hn (hentry ▸ hpres) with ⟨-, hfail⟩ | ⟨g, htaken, -⟩
          · exact Or.inr ⟨congrArg Prod.fst hstop, hfail⟩
          · rw [hpmm] at htaken
            exact absurd rfl (htaken.ne_of_used (hfull g htaken.lt))
        · have hlt := htaken.lt
          rcases vmmPteGetOfflineLoop_absent hn (hentry ▸ hpres) with ⟨hfull, -⟩ | ⟨g', htaken', hgo'⟩
          · rw [hpmm] at hfull
            exact absurd rfl (htaken.ne_of_used (hfull g hlt))
          · rw [hpmm] at htaken'
            obtain rfl := htaken.unique htaken'
            have hone : Descent true va [shift] n m₂ g (m₂.enterNew n (vaIndex va shift) g) :=
              .enter rfl (hentry ▸ hpres) (hpmm ▸ htaken) .here
            have hsame : (m₂.enterNew n (vaIndex va shift) g).failures = m₂.failures := hone.failures_eq
            rw [hgo, hgo', ← hsame]
            rcases ih (show g < 2 ^ 51 by omega) (Machine.enterNew_core hcore n (vaIndex va shift) g) with
              ⟨t, m', m₂', heq, hd, heq₂, hend⟩ | hfail
            · exact Or.inl ⟨t, m', m₂', heq, .enter rfl hpres htaken hd, heq₂, hend⟩
            · exact Or.inr hfail
      · have hlt := entryFrame_lt (tableEntry m.mem n (vaIndex va shift))
        have hsame : ((m₂.readEntry n (vaIndex va shift)).emit
            (.follow (tableEntry m.mem n (vaIndex va shift)))).failures = m₂.failures := by
          rw [Machine.failures_emit (by simp), Machine.failures_readEntry]
        rw [vmmPteGetLoop_present hn hpres, vmmPteGetOfflineLoop_present hn (hentry ▸ hpres), hentry, ← hsame]
        have hcore' : ((m.readEntry n (vaIndex va shift)).emit
              (.follow (tableEntry m.mem n (vaIndex va shift)))).toCore =
            ((m₂.readEntry n (vaIndex va shift)).emit
              (.follow (tableEntry m.mem n (vaIndex va shift)))).toCore := hcore
        rcases ih (show entryFrame (tableEntry m.mem n (vaIndex va shift)) < 2 ^ 51 by omega) hcore' with
          ⟨t, m', m₂', heq, hd, heq₂, hend⟩ | hfail
        · exact Or.inl ⟨t, m', m₂', heq, .follow hpres hd, heq₂, hend⟩
        · exact Or.inr hfail

/-! ## One page -/

/-- The late mapper succeeds, and the early one does the same to tables and bitmap, or both lack a frame. -/
theorem vmmPageMapInternal_agree (ht : PageTree m.toCore root) (hlow : LowTables root m.toCore)
    (hzero : m.pmm.used 0 = true) (hnot : ¬ Reaches (slots m.mem) root 0) (hps : WalksToPt m.mem root va)
    (hcore : m.toCore = m₂.toCore) (paddr flags : BitVec 64) :
    ((vmmPageMap (frameAddr root) va paddr flags m).1 = true ∧
      (vmmPageMap (frameAddr root) va paddr flags m).2.toCore =
        (vmmPageMapInternal (frameAddr root) va paddr flags m₂).toCore ∧
      (vmmPageMapInternal (frameAddr root) va paddr flags m₂).failures = m₂.failures) ∨
    ((vmmPageMap (frameAddr root) va paddr flags m).1 = false ∧
      m₂.failures < (vmmPageMapInternal (frameAddr root) va paddr flags m₂).failures) := by
  have hroot := ht.root_lt
  rcases walkers_agree va (levelsShift.take 3) (show root < 2 ^ 51 by omega) hcore with
    ⟨t, m', m₂', heq, hd, heq₂, hend, hsame⟩ | ⟨hnone, hfail⟩
  · left
    obtain ⟨hgrow, -, hpt⟩ := hd.grow [] [vaIndex va 12] ht rfl hps rfl (by decide)
    have hlt := hlow.grow ht hgrow t ⟨_, hpt⟩
    have hne : t ≠ 0 := by
      rintro rfl
      exact (hgrow.not_table ht hzero hnot).2 ⟨_, hpt⟩
    have hptr := hhdm_entryPtr_ne_zero hlt va
    simp only [Window.base] at hptr
    have hstore := m'.store64_entry .hhdm (show t < 2 ^ 51 by omega) va 12 (pageEntry paddr flags)
    simp only [Window.base, pageEntry] at hstore
    have hmap : vmmPageMap (frameAddr root) va paddr flags m =
        (true, invlpg va (m'.setEntry t (vaIndex va 12) (pageEntry paddr flags))) := by
      simp only [vmmPageMap, vmmPteGet, heq, hptr, ↓reduceIte, hstore, pageEntry]
    rw [vmmPageMapInternal_of_walk paddr flags heq₂ (by omega) hne, hmap]
    refine ⟨rfl, ?_, (Machine.failures_setEntry _).trans hsame⟩
    change { m'.toCore with mem := setEntry m'.toCore.mem t (vaIndex va 12) (pageEntry paddr flags) } = _
    rw [hend]
    rfl
  · right
    rw [vmmPageMapInternal_failures]
    refine ⟨?_, hfail⟩
    rw [vmmPageMap, vmmPteGet]
    revert hnone
    cases vmmPteGetLoop true va (levelsShift.take 3) (frameAddr root) m with
    | mk found m' =>
        rintro rfl
        rfl

/-! ## One page after the other -/

/-- A tree to which pages can be added, of which none lies in a large page. -/
structure Mappable (root : Nat) (ps : List PageMapping) (c : Core) : Prop where
  tree : PageTree c root
  low : LowTables root c
  zero_used : c.pmm.used 0 = true
  zero_not_table : ¬ Reaches (slots c.mem) root 0
  walksToPt : ∀ p ∈ ps, WalksToPt c.mem root p.vaddr

theorem Mappable.pageMap {p : PageMapping} {ps : List PageMapping} (h : Mappable root (p :: ps) m.toCore)
    (hok : (vmmPageMap (frameAddr root) p.vaddr p.paddr p.flags m).1 = true) :
    Mappable root ps (vmmPageMap (frameAddr root) p.vaddr p.paddr p.flags m).2.toCore := by
  have hps := h.walksToPt p List.mem_cons_self
  obtain ⟨htree, hlow, -, hwalk⟩ := vmmPageMap_walk h.tree hps h.low hok
  obtain ⟨-, hused, hnot⟩ := vmmPageMap_not_table p.paddr p.flags h.tree hps h.zero_used h.zero_not_table
  refine ⟨htree, hlow, hused, hnot, fun q hq d e he => ?_⟩
  rw [hwalk] at he
  split at he
  case isTrue =>
    cases he
    rfl
  case isFalse => exact h.walksToPt q (List.mem_cons_of_mem p hq) d e he

theorem mapPagesInternal_failures (ps : List PageMapping) (m : Machine) :
    m.failures ≤ (mapPagesInternal root ps m).failures := by
  induction ps generalizing m with
  | nil => exact Nat.le_refl _
  | cons p ps ih =>
      refine Nat.le_trans ?_ (ih (vmmPageMapInternal (frameAddr root) p.vaddr p.paddr p.flags m))
      rw [vmmPageMapInternal_failures]
      exact vmmPteGetOfflineLoop_failures _ _ _ _ _

theorem mapPages_core (ps : List PageMapping) (h : Mappable root ps m.toCore) (hcore : m.toCore = m₂.toCore) :
    ((mapPages root ps m).1 = true ↔ (mapPagesInternal root ps m₂).failures = m₂.failures) ∧
      ((mapPages root ps m).1 = true → (mapPages root ps m).2.toCore = (mapPagesInternal root ps m₂).toCore) := by
  induction ps generalizing m m₂ with
  | nil => exact ⟨iff_of_true rfl rfl, fun _ => hcore⟩
  | cons p ps ih =>
      have hrest : (vmmPageMapInternal (frameAddr root) p.vaddr p.paddr p.flags m₂).failures ≤
          (mapPagesInternal root ps (vmmPageMapInternal (frameAddr root) p.vaddr p.paddr p.flags m₂)).failures :=
        mapPagesInternal_failures ps _
      have hcons : mapPagesInternal root (p :: ps) m₂ =
          mapPagesInternal root ps (vmmPageMapInternal (frameAddr root) p.vaddr p.paddr p.flags m₂) := rfl
      rw [hcons, mapPages]
      rcases vmmPageMapInternal_agree h.tree h.low h.zero_used h.zero_not_table
          (h.walksToPt p List.mem_cons_self) hcore p.paddr p.flags with ⟨hok, hsame, hfails⟩ | ⟨hno, hfails⟩
      · have hmap := ih (h.pageMap hok) hsame
        rw [hfails] at hmap
        simp only [hok, Bool.true_and]
        exact hmap
      · simp only [hno, Bool.false_and, Bool.false_eq_true, false_iff, false_implies, and_true]
        omega

/-- For every list of pages outside the large ones the calls of `vmm_page_map` all succeed exactly if none of
`vmm_page_map_internal` fails to allocate, and then leave the same tables and the same bitmap. -/
theorem mapPages_agree (ps : List PageMapping) (h : Mappable root ps m.toCore) :
    ((mapPages root ps m).1 = true ↔ (mapPagesInternal root ps m).failures = m.failures) ∧
      ((mapPages root ps m).1 = true → (mapPages root ps m).2.toCore = (mapPagesInternal root ps m).toCore) :=
  mapPages_core ps h rfl

end

/-- One page in the tree of one cleared table. -/
theorem mapPages_agree_one :
    (mapPages 0x4000 [⟨0x1000, 0x5000, pageWritable⟩] (zeroTree fourFreePmm)).2.toCore =
      (mapPagesInternal 0x4000 [⟨0x1000, 0x5000, pageWritable⟩] (zeroTree fourFreePmm)).toCore := by
  obtain ⟨htree, hlow, hdesc, -⟩ := fourFree_tree
  refine (mapPages_agree _ ⟨htree, hlow, ?_, ?_, fun p _ => fourFree_walksToPt p.vaddr⟩).2 ?_
  · exact (fourFreePmm_used 0).trans (by decide)
  · rintro ⟨q, hq⟩
    by_cases hne : q = []
    · subst hne
      cases hq
    · rw [hdesc q hne] at hq
      cases hq
  · simp only [mapPages, fourFree_map, Bool.and_self]

end BootKernel
