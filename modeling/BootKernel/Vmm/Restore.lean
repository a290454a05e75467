import BootKernel.Vmm.Supply
import BootKernel.Vmm.Unmap
import BootKernel.Pmm.Theorems

/-!
# Allocating a page and freeing it again

The pair of calls leaves the tables that it has created, and nothing else. A page that is not mapped is
freed without effect, since its entry is zero and frame 0 is reserved.
-/

namespace BootKernel

open Radix

/-- The tables that the tree of `m'` has and that of `m` has not. -/
def newTables (m m' : Machine) : Set Nat :=
  {f | Reaches (slots m'.mem) (rootFrame m') f ∧ ¬ Reaches (slots m.mem) (rootFrame m) f}

/-- Every page is mapped as before. -/
def SameWalks (m m' : Machine) : Prop :=
  ∀ va, walk m'.mem (rootFrame m') va = walk m.mem (rootFrame m) va

/-- What allocating and freeing do to the other pages and to the bitmap. -/
structure PagesRestored (ceiling : BitVec 64) (m : Machine) : Prop where
  alloc_free : ∀ va flags flags', OutsideHhdm ceiling va → flags &&& pageAddrMask = 0 →
    walk m.mem (rootFrame m) va = none → (VmmCall.pageAlloc va flags).Succeeds m →
      SameWalks m (vmmRun m [.pageAlloc va flags, .pageFree va flags']) ∧
      {f | (vmmRun m [.pageAlloc va flags, .pageFree va flags']).pmm.used f = false} =
        {f | m.pmm.used f = false} \ newTables m (vmmRun m [.pageAlloc va flags, .pageFree va flags'])
  free_idle : ∀ va flags, OutsideHhdm ceiling va → walk m.mem (rootFrame m) va = none →
    SameWalks m (vmmPageFree va flags m) ∧ (vmmPageFree va flags m).pmm = m.pmm
  free_twice : ∀ va flags flags', OutsideHhdm ceiling va →
    SameWalks (vmmPageFree va flags m) (vmmRun m [.pageFree va flags, .pageFree va flags']) ∧
      (vmmRun m [.pageFree va flags, .pageFree va flags']).pmm = (vmmPageFree va flags m).pmm

/-- The tree and the bitmap as `vmm_init` and the calls leave them. -/
structure InOrder (k root : Nat) (c : Core) : Prop where
  apart : Apart k root c
  low : LowTables root c
  reserved : ReservedUsed c.pmm

/-! ## The calls keep the order -/

section
variable {k root g t : Nat} {c c' : Core} {va v : BitVec 64}

/-- What growing takes from the bitmap are the new tables. -/
theorem Grow.used_iff (hgrow : Grow root c c') (ht : PageTree c root) (f : Nat) :
    c'.pmm.used f = true ↔ c.pmm.used f = true ∨ Reaches (slots c'.mem) root f := by
  induction hgrow with
  | refl => exact ⟨Or.inl, fun h => h.elim id (ht.used f)⟩
  | tail hprev hstep ih =>
      have hprev' := (ht.grow hprev).tree
      cases hstep with
      | @mk p n i g hp hlen hempty hfree hg =>
          have hlink := hprev'.link hp hlen hempty hfree hg
          rw [used_set (by omega), Bool.or_eq_true, decide_eq_true_iff, ih]
          constructor
          · rintro (rfl | hused | ⟨q, hq⟩)
            · exact Or.inr ⟨p ++ [i], (hlink.descend _ _).mpr (Or.inr ⟨rfl, rfl⟩)⟩
            · exact Or.inl hused
            · exact Or.inr ⟨q, (hlink.descend q f).mpr (Or.inl hq)⟩
          · rintro (hused | ⟨q, hq⟩)
            · exact Or.inr (Or.inl hused)
            · rcases (hlink.descend q f).mp hq with hold | ⟨-, rfl⟩
              · exact Or.inr (Or.inr ⟨q, hold⟩)
              · exact Or.inl rfl

theorem LowTables.setPage (h : LowTables root c) (ht : PageTree c root)
    (hend : descend (slots c.mem) 0 root (ptPath va) = some t) :
    LowTables root { c with mem := setEntry c.mem t (vaIndex va 12) v } := by
  intro f hf
  rw [ht.setPage_reaches hend v] at hf
  exact h f hf

theorem inOrder_rules : PageRules k root (InOrder k root) (Loose root) where
  tree h := h.apart.tree
  walksToPt h := h.apart.walksToPt
  take h htaken := by
    have hlt := htaken.lt
    obtain ⟨hapart, hloose⟩ := h.apart.take htaken
    exact ⟨⟨hapart, h.low, fun f hf => used_set_of_used (by omega) (h.reserved f hf)⟩, hloose⟩
  grow h hgrow := ⟨h.apart.grow hgrow, h.low.grow h.apart.tree hgrow, fun f hf => hgrow.used (h.reserved f hf)⟩
  grow_spare h hs := hs.grow h.apart.tree
  mapPage h hs hend hv := ⟨h.apart.mapPage hs hend hv, h.low.setPage h.apart.tree hend, h.reserved⟩
  freePage h hend := ⟨h.apart.freePage hend, h.low.setPage h.apart.tree hend, h.reserved.free _⟩

end

section
variable {k g t : Nat} {m : Machine} {va flags : BitVec 64}

theorem vmmRun_inOrder (calls : List VmmCall) (h : InOrder k (rootFrame m) m.toCore)
    (hcalls : ∀ c ∈ calls, c.Owning k) :
    InOrder k (rootFrame (vmmRun m calls)) (vmmRun m calls).toCore := by
  induction calls generalizing m with
  | nil => exact h
  | cons c calls ih =>
      obtain ⟨hcr3, hcall⟩ := inOrder_rules.call h (hcalls c List.mem_cons_self)
      have hroot : rootFrame (vmmCall m c) = rootFrame m := congrArg entryFrame hcr3
      exact ih (hroot.symm ▸ hcall) fun d hd => hcalls d (List.mem_cons_of_mem c hd)

/-! ## One call of `vmm_page_free` -/

theorem vmmPageFree_none (flags : BitVec 64) (ht : PageTree m.toCore (rootFrame m))
    (hps : WalksToPt m.mem (rootFrame m) va) (hnone : descend (slots m.mem) 0 (rootFrame m) (ptPath va) = none) :
    (vmmPageFree va flags m).toCore = m.toCore ∧ rootFrame (vmmPageFree va flags m) = rootFrame m := by
  obtain ⟨m', heq, hcore, hcr3⟩ := vmmPageUnmap_none (some 0) ht hps hnone
  rw [vmmPageFree, vmmPml4Get_eq, heq]
  exact ⟨hcore, congrArg entryFrame hcr3⟩

/-- With a page table its entry is cleared, and the frame that it names is freed. -/
theorem vmmPageFree_pt (flags : BitVec 64) (ht : PageTree m.toCore (rootFrame m))
    (hlow : LowTables (rootFrame m) m.toCore) (hps : WalksToPt m.mem (rootFrame m) va)
    (hend : descend (slots m.mem) 0 (rootFrame m) (ptPath va) = some t) :
    (vmmPageFree va flags m).toCore =
      { mem := setEntry m.mem t (vaIndex va 12) 0
        pmm := pmmFrameFree (BitVec.ofNat 64 (entryFrame (tableEntry m.mem t (vaIndex va 12)))) m.pmm } ∧
      rootFrame (vmmPageFree va flags m) = rootFrame m := by
  obtain ⟨m', heq, hcore, hcr3⟩ := vmmPageUnmap_pt (some 0) ht hlow hps hend
  rw [vmmPageFree, vmmPml4Get_eq, heq]
  have hfreed (idx : BitVec 64) :
      (m'.frameFree idx).toCore = { m'.toCore with pmm := pmmFrameFree idx m'.toCore.pmm } := rfl
  simp only [Option.map_some, entry_shiftRight, hfreed, hcore]
  exact ⟨trivial, congrArg entryFrame hcr3⟩

/-- A page that is not mapped is freed without effect. -/
theorem InOrder.free_idle (h : InOrder k (rootFrame m) m.toCore) (flags : BitVec 64) (hva : ¬ hhdmSlot va < k)
    (hunmapped : walk m.mem (rootFrame m) va = none) :
    SameWalks m (vmmPageFree va flags m) ∧ (vmmPageFree va flags m).pmm = m.pmm := by
  have ht := h.apart.tree
  have hps := h.apart.walksToPt hva
  cases hend : descend (slots m.mem) 0 (rootFrame m) (ptPath va) with
  | none =>
      obtain ⟨hcore, hroot⟩ := vmmPageFree_none flags ht hps hend
      refine ⟨fun vb => ?_, congrArg Core.pmm hcore⟩
      rw [hroot, hcore]
  | some t =>
      have habs : tableEntry m.mem t (vaIndex va 12) &&& pagePresent = 0 := by
        by_contra hpres
        rw [walk_of_pt hend hpres] at hunmapped
        cases hunmapped
      -- the entry is zero, so the frame that it names is reserved
      have hzero : tableEntry m.mem t (vaIndex va 12) = 0 := h.apart.clean _ t _ (ptPath_length va) hend habs
      obtain ⟨hcore, hroot⟩ := vmmPageFree_pt flags ht h.low hps hend
      rw [hzero, pmmFrameFree_reserved (by decide)] at hcore
      refine ⟨fun vb => ?_, by rw [hcore]⟩
      rw [hroot, hcore, vmmPageUnmap_walk ht hend, ite_eq_right_iff]
      intro hpath
      rw [walk, hpath]
      exact hunmapped.symm

theorem InOrder.free_unmaps (h : InOrder k (rootFrame m) m.toCore) (flags : BitVec 64) (hva : ¬ hhdmSlot va < k) :
    walk (vmmPageFree va flags m).mem (rootFrame (vmmPageFree va flags m)) va = none := by
  have ht := h.apart.tree
  have hps := h.apart.walksToPt hva
  cases hend : descend (slots m.mem) 0 (rootFrame m) (ptPath va) with
  | none =>
      obtain ⟨hcore, hroot⟩ := vmmPageFree_none flags ht hps hend
      rw [hroot, hcore]
      exact walk_none_of_pt hps hend
  | some t =>
      obtain ⟨hcore, hroot⟩ := vmmPageFree_pt flags ht h.low hps hend
      rw [hroot, hcore, vmmPageUnmap_walk ht hend, if_pos rfl]

/-! ## The pair of calls -/

/-- A frame that is taken before the tree grows and given back afterwards: the new tables remain. -/
theorem Grow.used_freed {c₀ c : Core} {root : Nat} (ht : PageTree c₀ root) (htaken : Machine.Taken c₀.pmm g)
    (hres : pmmReservedFrames.toNat ≤ g)
    (hgrow : Grow root { c₀ with pmm := frameBitmapSet c₀.pmm (BitVec.ofNat 64 g) } c) (f : Nat) :
    (pmmFrameFree (BitVec.ofNat 64 g) c.pmm).used f = true ↔
      c₀.pmm.used f = true ∨ Reaches (slots c.mem) root f := by
  have hlt := htaken.lt
  have hle : pmmReservedFrames ≤ BitVec.ofNat 64 g := by
    rw [BitVec.le_def, frameIdx_toNat (by omega)]
    exact hres
  have hset : (frameBitmapSet c₀.pmm (BitVec.ofNat 64 g)).used g = true := by
    rw [used_set (by omega)]
    simp
  obtain ⟨-, hout⟩ := hgrow.not_table (ht.taken htaken) hset (ht.fresh htaken.free)
  rw [pmmFrameFree_unreserved hle, used_frameBitmapClear, frameIdx_toNat (by omega)]
  by_cases hfg : f = g
  · subst hfg
    simp [htaken.free, hout]
  · have hused := hgrow.used_iff (ht.taken htaken) f
    rw [used_set (by omega), decide_eq_false hfg, Bool.false_or] at hused
    rw [decide_eq_false hfg, Bool.not_false, Bool.true_and, hused]

/-- After the pair of calls the tree has grown, the entry of the page has been written and cleared, and the frame
that it named has been freed. -/
theorem InOrder.alloc_free_core (h : InOrder k (rootFrame m) m.toCore) (flags' : BitVec 64) (hva : ¬ hhdmSlot va < k)
    (hflags : flags &&& pageAddrMask = 0) (hok : (VmmCall.pageAlloc va flags).Succeeds m) :
    ∃ (g : Nat) (c : Core) (t : Nat), Machine.Taken m.pmm g ∧
      Grow (rootFrame m) { m.toCore with pmm := frameBitmapSet m.pmm (BitVec.ofNat 64 g) } c ∧
      descend (slots c.mem) 0 (rootFrame m) (ptPath va) = some t ∧
      (vmmRun m [.pageAlloc va flags, .pageFree va flags']).toCore =
        { mem := setEntry (setEntry c.mem t (vaIndex va 12) (pageEntry (frameAddr g) flags)) t (vaIndex va 12) 0
          pmm := pmmFrameFree (BitVec.ofNat 64 g) c.pmm } ∧
      rootFrame (vmmRun m [.pageAlloc va flags, .pageFree va flags']) = rootFrame m := by
  have ht := h.apart.tree
  obtain ⟨g, c, t, htaken, hgrow, hend, hcr3, hcore⟩ := vmmPageAlloc_success ht (h.apart.walksToPt hva) hok
  have hlt := htaken.lt
  have hgrown := (ht.taken htaken).grow hgrow
  -- the state between the calls
  obtain ⟨-, h₁⟩ := inOrder_rules.pageAlloc h hva hflags
  have hroot₁ : rootFrame (vmmPageAlloc va flags m).2 = rootFrame m := congrArg entryFrame hcr3
  have hend₁ : descend (slots (vmmPageAlloc va flags m).2.mem) 0 (rootFrame m) (ptPath va) = some t := by
    rw [hcore, hgrown.tree.setEntry_descend hend (entrySlot_pt_ne_node (ptPath_length va) _)
      (entrySlot_pt_ne_node (ptPath_length va) _), hend]
  have hentry : tableEntry (vmmPageAlloc va flags m).2.mem t (vaIndex va 12) = pageEntry (frameAddr g) flags := by
    rw [hcore]
    exact tableEntry_store64_same _ _ _ _
  rw [← hroot₁] at h₁ hend₁
  obtain ⟨hcore₂, hroot₂⟩ := vmmPageFree_pt flags' h₁.apart.tree h₁.low (h₁.apart.walksToPt hva) hend₁
  rw [hentry, entryFrame_pageEntry (by omega) hflags, hcore] at hcore₂
  exact ⟨g, c, t, htaken, hgrow, hend, hcore₂, hroot₂.trans hroot₁⟩

/-- Allocating a page and freeing it leaves the new tables, and nothing else. -/
theorem InOrder.alloc_free (h : InOrder k (rootFrame m) m.toCore) (flags' : BitVec 64) (hva : ¬ hhdmSlot va < k)
    (hflags : flags &&& pageAddrMask = 0) (hunmapped : walk m.mem (rootFrame m) va = none)
    (hok : (VmmCall.pageAlloc va flags).Succeeds m) :
    SameWalks m (vmmRun m [.pageAlloc va flags, .pageFree va flags']) ∧
      {f | (vmmRun m [.pageAlloc va flags, .pageFree va flags']).pmm.used f = false} =
        {f | m.pmm.used f = false} \ newTables m (vmmRun m [.pageAlloc va flags, .pageFree va flags']) := by
  have ht := h.apart.tree
  obtain ⟨g, c, t, htaken, hgrow, hend, hcore, hroot⟩ := h.alloc_free_core flags' hva hflags hok
  have hgrown := (ht.taken htaken).grow hgrow
  obtain ⟨htree₁, hwalk₁⟩ := hgrown.tree.setPage hend (pageEntry (frameAddr g) flags)
  have hend₁ : descend (slots (setEntry c.mem t (vaIndex va 12) (pageEntry (frameAddr g) flags))) 0 (rootFrame m)
      (ptPath va) = some t := by
    rw [hgrown.tree.setEntry_descend hend (entrySlot_pt_ne_node (ptPath_length va) _)
      (entrySlot_pt_ne_node (ptPath_length va) _), hend]
  constructor
  · intro vb
    have hgone := (htree₁.setPage hend₁ 0).2 vb
    rw [if_pos (by decide : (0 : BitVec 64) &&& pagePresent = 0), hwalk₁] at hgone
    rw [hroot, hcore, hgone]
    by_cases hpath : vaPath vb = vaPath va
    · rw [if_pos hpath, walk, hpath]
      exact hunmapped.symm
    · rw [if_neg hpath, if_neg hpath]
      exact hgrown.lookup _
  · ext f
    have hused := hgrow.used_freed ht htaken (htaken.le h.reserved) f
    have hreach := (htree₁.setPage_reaches (f := f) hend₁ 0).trans
      (hgrown.tree.setPage_reaches (f := f) hend (pageEntry (frameAddr g) flags))
    have hold : Reaches (slots m.mem) (rootFrame m) f → m.pmm.used f = true := ht.used f
    simp only [newTables, Set.mem_sdiff, Set.mem_ofPred_eq, hroot, hcore, hreach, ← Bool.not_eq_true, hused]
    constructor
    · intro hfree
      exact ⟨fun hm => hfree (Or.inl hm), fun hnew => hfree (Or.inr hnew.1)⟩
    · rintro ⟨hfree, hnew⟩ (hm | htable)
      · exact hfree hm
      · exact hnew ⟨htable, fun hm => hfree (hold hm)⟩

/-- In order, and with a direct map that does not wrap, the calls restore what they should. -/
theorem InOrder.restored {ceiling : BitVec 64} (h : InOrder (gibCount ceiling) (rootFrame m) m.toCore)
    (hceil : ceiling.toNat ≤ 2 ^ 47) : PagesRestored ceiling m where
  alloc_free _ _ flags' hva hflags hunmapped hok := h.alloc_free flags' (hva.not_slot hceil) hflags hunmapped hok
  free_idle _ flags hva hunmapped := h.free_idle flags (hva.not_slot hceil) hunmapped
  free_twice va flags flags' hva := by
    have hslot := hva.not_slot hceil
    have hfree : InOrder (gibCount ceiling) (rootFrame (vmmPageFree va flags m)) (vmmPageFree va flags m).toCore := by
      obtain ⟨hcr3, hfree⟩ := inOrder_rules.pageFree flags h hslot
      rw [rootFrame, hcr3]
      exact hfree
    exact hfree.free_idle flags' hslot (h.free_unmaps flags hslot)

end

/-! ## After `vmm_init` -/

section
variable {c₀ : Core} {root k fuel : Nat} {env : BootEnv} {m m' : Machine}

/-- One turn of `vmm_hhdm_create` makes a table of a frame of the allocator only. -/
theorem vmmPage1gbMapOffline_low (va paddr flags : BitVec 64) (h : HhdmTree c₀ root k m.toCore)
    (hlow : LowTables root m.toCore)
    (hgo : (vmmPage1gbMapOffline (frameAddr root) va paddr flags m).1 = true) :
    LowTables root (vmmPage1gbMapOffline (frameAddr root) va paddr flags m).2.toCore := by
  have hroot := h.tree.root_lt
  have hcases := @vmmPage1gbMapOffline_cases root va paddr flags m (by omega)
  rcases hcases with ⟨m₁, heq, -⟩ | ⟨m₁, n, heq, hpres, hn, -, hcore⟩
  · rw [heq] at hgo
    cases hgo
  · obtain ⟨h₁, hlow₁⟩ : HhdmTree c₀ root k m₁.toCore ∧ LowTables root m₁.toCore := by
      rcases hcore with hcore | ⟨habs, g, htaken, hcore⟩
      · rw [hcore]
        exact ⟨h, hlow⟩
      · have hempty : slots m.mem 0 root (vaIndex va 39) = .empty := entrySlot_empty habs
        have hstep : LinkStep root m.toCore (m.createTable root (vaIndex va 39) g).toCore :=
          .mk (p := []) rfl (by decide) hempty htaken.free htaken.lt
        rw [hcore]
        exact ⟨h.link hempty htaken.free htaken.lt, hlow.grow h.tree (.single hstep)⟩
    have hdesc := h₁.descend_root hpres
    rw [hn] at hdesc
    rw [heq]
    rintro f ⟨q, hq⟩
    rw [Machine.setEntry, Machine.emit, h₁.tree.setEntry_descend hdesc (h₁.pdpt_ne_node hdesc)
      fun f hs => hugeEntry_ps _ _ (entrySlot_eq_node.mp hs).2.2.1] at hq
    exact hlow₁ f ⟨q, hq⟩

theorem vmmHhdmCreate_low (hstart : HhdmTree c₀ root 0 m.toCore) (hlow : LowTables root m.toCore)
    (hceil : (pmmHighestAddressGet m.pmm).toNat ≤ 2 ^ 47)
    (hrun : vmmHhdmCreate fuel (frameAddr root) m = some (true, m')) : LowTables root m'.toCore := by
  rw [vmmHhdmCreate] at hrun
  generalize pmmHighestAddressGet m.pmm = c at hceil hrun
  refine Loop.forStep_rule_of_eq
    (fun p (s : Machine) => HhdmTree c₀ root (p / 2 ^ 30) s.toCore ∧ p % 2 ^ 30 = 0 ∧ LowTables root s.toCore)
    (fun r (s : Machine) => r = true → LowTables root s.toCore)
    (by rw [gibSize_toNat]; omega) (by rw [gibSize_toNat]; omega) ?_ (fun _ _ _ hs _ => hs.2.2)
    ⟨hstart, rfl, hlow⟩ hrun rfl
  rintro p s hlt ⟨htree, haligned, hs⟩
  have hlt' := BitVec.lt_def.mp hlt
  have hnext : (p.toNat + 2 ^ 30) / 2 ^ 30 = p.toNat / 2 ^ 30 + 1 := by omega
  obtain ⟨r, s', heq, hpost⟩ := vmmPage1gbMapOffline_step (p := p) htree (by omega) (by omega)
  have hturn := vmmPage1gbMapOffline_low (p + hhdmOffset) p (pageWritable ||| pageNx) htree hs
  rw [heq] at hturn
  rw [heq, gibSize_toNat, hnext]
  cases r with
  | false => exact fun habs => Bool.noConfusion habs
  | true => exact ⟨hpost.1, by omega, hturn rfl⟩

theorem initRules_low (hceil : (pmmHighestAddressGet m.pmm).toNat ≤ 2 ^ 47) : InitRules fuel m LowTables where
  direct {root m₁ m₂} htaken hcore hrun := by
    have hstart : HhdmTree (rootCore m.toCore root) root 0 m₁.toCore := by
      rw [hcore]
      exact HhdmTree.start htaken
    refine vmmHhdmCreate_low hstart ?_ ?_ hrun
    · rintro f ⟨q, hq⟩
      rw [hcore, rootCore_descend htaken] at hq
      exact hq.2 ▸ htaken.lt
    · rw [hcore, rootCore_ceiling]
      exact hceil
  grow ht hgrow h := h.grow ht hgrow
  setPage ht hend h := h.setPage ht hend

theorem vmmInit_inOrder {map : List E820Entry} {p : Pmm} (hpmm : m.pmm = pmmInit map env.image p)
    (hplaced : env.Placed (pmmHighestAddressGet m.pmm)) (hfuel : 2 ^ 64 ≤ fuel)
    (hinit : vmmInit fuel env m = some (true, m')) :
    InOrder (gibCount (pmmHighestAddressGet m.pmm)) (rootFrame m') m'.toCore := by
  have hapart := vmmInit_apart hpmm hplaced hfuel hinit
  obtain ⟨root, htaken, hcr3, hboot, hlow⟩ :=
    (initRules_low hplaced.ceiling).built hpmm hplaced hfuel hinit
  have hlt := htaken.lt
  have hroot : rootFrame m' = root := by
    rw [rootFrame, hcr3, entryFrame_frameAddr (by omega)]
  refine ⟨hapart, hroot ▸ hlow, fun f hf => hboot.confined.used f ?_⟩
  rw [rootCore]
  refine used_set_of_used (by omega) ?_
  rw [hpmm]
  exact pmmInit_reservedUsed map env.image p f hf

end

/-- With a ceiling of at most 2^47, in every state that calls reach after `vmm_init`, allocating and freeing
restore what they should. -/
theorem vmmRun_pagesRestored (map : List E820Entry) (p : Pmm) (env : BootEnv) (m m' : Machine) (fuel : Nat)
    (calls : List VmmCall) (hpmm : m.pmm = pmmInit map env.image p)
    (himage : env.image.kernelEnd.toNat ≤ 64 * 2 ^ 20) (hwindow : 256 * 1024 ≤ env.rsp.toNat)
    (hstack : env.rsp.toNat ≤ 0x700000) (hceil : (pmmHighestAddressGet m.pmm).toNat ≤ 2 ^ 47)
    (hfuel : 2 ^ 64 ≤ fuel) (hinit : vmmInit fuel env m = some (true, m'))
    (hcalls : ∀ c ∈ calls, c.PageCall (pmmHighestAddressGet m.pmm)) :
    PagesRestored (pmmHighestAddressGet m.pmm) (vmmRun m' calls) :=
  (vmmRun_inOrder calls (vmmInit_inOrder hpmm ⟨himage, hwindow, hstack, hceil⟩ hfuel hinit)
    fun c hc => (hcalls c hc).owning hceil).restored hceil

theorem vmmRun_pagesRestored_ram :
    ∃ m', vmmInit (2 ^ 64) sampleEnv (ramMachine [] fun _ => 0) = some (true, m') ∧
      PagesRestored 0x80000000 (vmmRun m' [samplePage]) := by
  have hpmm : (ramMachine [] fun _ => 0).pmm = pmmInit [ramEntry] sampleEnv.image fullPmm := ramMachine_pmm
  have hplaced : sampleEnv.Placed (pmmHighestAddressGet (ramMachine [] fun _ => 0).pmm) := ramMachine_placed _
  have hceiling : pmmHighestAddressGet (ramMachine [] fun _ => 0).pmm = 0x80000000 := ramMachine_highest _
  obtain ⟨m', hinit⟩ := vmmInit_succeeds hpmm hplaced (Nat.le_refl (2 ^ 64))
  refine ⟨m', hinit, ?_⟩
  rw [← hceiling]
  refine vmmRun_pagesRestored [ramEntry] fullPmm sampleEnv _ m' (2 ^ 64) [samplePage] hpmm (by decide)
    (by decide) (by decide) hplaced.ceiling (Nat.le_refl _) hinit (List.forall_mem_singleton.mpr ?_)
  rw [hceiling]
  exact samplePage_pageCall

/-! ## Whatever the tables are -/

section
variable {create : Bool} {va : BitVec 64} {shift n t f root : Nat} {shifts : List Nat} {i j : Fin 512} {m m' : Machine}

theorem Descent.lt (hd : Descent create va shifts n m t m') (hn : n < 2 ^ 51) : t < 2 ^ 51 := by
  induction hd with
  | here => exact hn
  | @follow shift _ n m _ _ _ _ ih =>
      have hlt := entryFrame_lt (tableEntry m.mem n (vaIndex va shift))
      exact ih (by omega)
  | enter _ _ htaken _ ih =>
      have hlt := htaken.lt
      exact ih (by omega)

theorem Descent.cr3 (hd : Descent create va shifts n m t m') : m'.cr3 = m.cr3 := by
  induction hd with
  | here => rfl
  | follow _ _ ih => exact ih
  | enter _ _ _ _ ih => exact ih

/-- A descent does not touch a present entry in a frame that is in use. -/
theorem Descent.kept (hd : Descent create va shifts n m t m') (hused : m.pmm.used f = true)
    (hpres : tableEntry m.mem f j &&& pagePresent ≠ 0) : tableEntry m'.mem f j = tableEntry m.mem f j := by
  induction hd with
  | here => rfl
  | follow _ _ ih => exact ih hused hpres
  | @enter shift _ n m _ _ g _ habs htaken _ ih =>
      have hlt := htaken.lt
      have hslot : ¬ (f = n ∧ j = vaIndex va shift) := by
        rintro ⟨rfl, rfl⟩
        exact hpres habs
      have hsame : tableEntry (m.enterNew n (vaIndex va shift) g).mem f j = tableEntry m.mem f j :=
        (tableEntry_store64_ne hslot).trans (tableEntry_zeroFrame_ne (htaken.ne_of_used hused))
      have hstill : (m.enterNew n (vaIndex va shift) g).pmm.used f = true := used_set_of_used (by omega) hused
      exact (ih hstill (by rw [hsame]; exact hpres)).trans hsame

theorem Descent.linked (hd : Descent create va (shift :: shifts) n m t m') (hused : m.pmm.used n = true) :
    tableEntry m'.mem n (vaIndex va shift) &&& pagePresent ≠ 0 := by
  cases hd with
  | follow hpres hrest =>
      rw [hrest.kept hused hpres]
      exact hpres
  | @enter _ _ _ _ _ _ g _ _ htaken hrest =>
      have hlt := htaken.lt
      have hnew : tableEntry (m.enterNew n (vaIndex va shift) g).mem n (vaIndex va shift) = linkEntry g :=
        tableEntry_store64_same _ _ _ _
      have hstill : (m.enterNew n (vaIndex va shift) g).pmm.used n = true := used_set_of_used (by omega) hused
      have hpres : tableEntry (m.enterNew n (vaIndex va shift) g).mem n (vaIndex va shift) &&& pagePresent ≠ 0 := by
        rw [hnew]
        exact linkEntry_present g
      rw [hrest.kept hstill hpres]
      exact hpres

/-- A pointer to another slot than the first is not null. -/
theorem hhdm_entryPtr_ne_zero_of_slot (ht : t < 2 ^ 51) (hidx : (vaIndex va 12 : Nat) ≠ 0) :
    entryPtr (Window.hhdm.base (frameAddr t)) ((va >>> 12) &&& 0x1FF) ≠ 0 := by
  intro hzero
  have hphys := Window.hhdm.phys_entryPtr ht (index_toNat va 12)
  have hlt := (vaIndex va 12).isLt
  have hbase : Window.hhdm.phys 0 = 2 ^ 47 := by decide
  rw [hzero, hbase] at hphys
  omega

/-- With frames for the tables `vmm_page_map` succeeds and leaves a link in the root. -/
theorem vmmPageMap_linked (paddr flags : BitVec 64) (hroot : root < 2 ^ 51) (hused : m.pmm.used root = true)
    (hroom : Room m.pmm 3) (hidx : (vaIndex va 12 : Nat) ≠ 0) (hslot : vaIndex va 39 ≠ vaIndex va 12) :
    (vmmPageMap (frameAddr root) va paddr flags m).1 = true ∧
      (vmmPageMap (frameAddr root) va paddr flags m).2.cr3 = m.cr3 ∧
      tableEntry (vmmPageMap (frameAddr root) va paddr flags m).2.mem root (vaIndex va 39) &&& pagePresent ≠ 0 ∧
      ∀ f j, m.pmm.used f = true → j ≠ vaIndex va 12 → tableEntry m.mem f j &&& pagePresent ≠ 0 →
        tableEntry (vmmPageMap (frameAddr root) va paddr flags m).2.mem f j = tableEntry m.mem f j := by
  rcases vmmPteGetLoop_descent true va (levelsShift.take 3) m hroot with
    ⟨t, m', heq, hd⟩ | ⟨above, shift, below, t, m₁, m', hsplit, hd, -, hstuck, -⟩
  · have hlt := hd.lt hroot
    have hmap : vmmPageMap (frameAddr root) va paddr flags m =
        (true, invlpg va (m'.setEntry t (vaIndex va 12) (pageEntry paddr flags))) := by
      have hget : vmmPteGet (frameAddr root) va true m =
          (entryPtr (Window.hhdm.base (frameAddr t)) ((va >>> 12) &&& 0x1FF), m') := by
        rw [vmmPteGet, heq]
        rfl
      simp only [vmmPageMap, hget, if_neg (hhdm_entryPtr_ne_zero_of_slot hlt hidx),
        Machine.store64_entry .hhdm hlt, pageEntry]
    have hkept : ∀ f j, j ≠ vaIndex va 12 → tableEntry (m'.setEntry t (vaIndex va 12) (pageEntry paddr flags)).mem f j =
        tableEntry m'.mem f j := fun f j hj => tableEntry_store64_ne fun h => hj h.2
    rw [hmap]
    refine ⟨rfl, hd.cr3, ?_, fun f j hf hj hpres => (hkept f j hj).trans (hd.kept hf hpres)⟩
    have hlinked := hd.linked hused
    rw [← hkept root _ hslot] at hlinked
    exact hlinked
  · have hlen := congrArg List.length hsplit
    simp only [List.length_take, List.length_append, List.length_cons, levelsShift, List.length_nil] at hlen
    have hroom₁ : Room m₁.pmm 1 := hd.room (hroom.mono (by omega))
    cases hstuck with
    | absent hcreate => cases hcreate
    | full _ hfull => exact absurd hfull hroom₁.not_full

/-- `vmm_page_free` writes at most the slot of the page in one table. -/
theorem vmmPageFree_kept (flags : BitVec 64) (hj : j ≠ vaIndex va 12) :
    (vmmPageFree va flags m).cr3 = m.cr3 ∧ tableEntry (vmmPageFree va flags m).mem f j = tableEntry m.mem f j := by
  have hlow : rootFrame m < 2 ^ 40 := entryFrame_lt m.cr3
  have hroot : rootFrame m < 2 ^ 51 := by omega
  rcases vmmPteGetLoop_descent false va (levelsShift.take 3) m hroot with
    ⟨t, m', heq, hd⟩ | ⟨above, shift, below, t, m₁, m', hsplit, hd, -, hstuck, heq⟩
  · have hlt := hd.lt hroot
    have hget : vmmPteGet (frameAddr (rootFrame m)) va false m =
        (entryPtr (Window.hhdm.base (frameAddr t)) ((va >>> 12) &&& 0x1FF), m') := by
      rw [vmmPteGet, heq]
      rfl
    have hcore := hd.core_eq
    by_cases hnull : entryPtr (Window.hhdm.base (frameAddr t)) ((va >>> 12) &&& 0x1FF) = 0
    · have hunmap : vmmPageUnmap (frameAddr (rootFrame m)) va (some 0) m = (false, some 0, m') := by
        simp only [vmmPageUnmap, hget, hnull, ↓reduceIte]
      rw [vmmPageFree, vmmPml4Get_eq, hunmap]
      exact ⟨hd.cr3, by rw [hcore]⟩
    · have hload := m'.load64_entry .hhdm hlt va 12
      have hunmap : vmmPageUnmap (frameAddr (rootFrame m)) va (some 0) m =
          (true, some (tableEntry m'.mem t (vaIndex va 12) &&& pageAddrMask),
            invlpg va ((m'.readEntry t (vaIndex va 12)).setEntry t (vaIndex va 12) 0)) := by
        simp only [vmmPageUnmap, hget, hnull, ↓reduceIte, hload, Machine.store64_entry .hhdm hlt, Machine.readEntry]
      have hsame : tableEntry (setEntry m'.mem t (vaIndex va 12) 0) f j = tableEntry m.mem f j := by
        rw [hcore]
        exact tableEntry_store64_ne fun h => hj h.2
      rw [vmmPageFree, vmmPml4Get_eq, hunmap]
      exact ⟨hd.cr3, hsame⟩
  · have hunmap : vmmPageUnmap (frameAddr (rootFrame m)) va (some 0) m = (false, some 0, m') := by
      simp only [vmmPageUnmap, vmmPteGet, heq, ↓reduceIte]
    obtain ⟨hcore, hcr3⟩ := hstuck.core_eq
    rw [vmmPageFree, vmmPml4Get_eq, hunmap]
    exact ⟨hcr3.trans hd.cr3, by rw [hcore, hd.core_eq]⟩

theorem vmmPageAlloc_linked (flags : BitVec 64) (hused : m.pmm.used (rootFrame m) = true) (hroom : Room m.pmm 4)
    (hidx : (vaIndex va 12 : Nat) ≠ 0) (hslot : vaIndex va 39 ≠ vaIndex va 12) :
    (VmmCall.pageAlloc va flags).Succeeds m ∧ (vmmPageAlloc va flags m).2.cr3 = m.cr3 ∧
      tableEntry (vmmPageAlloc va flags m).2.mem (rootFrame m) (vaIndex va 39) &&& pagePresent ≠ 0 ∧
      ∀ f j, m.pmm.used f = true → j ≠ vaIndex va 12 → tableEntry m.mem f j &&& pagePresent ≠ 0 →
        tableEntry (vmmPageAlloc va flags m).2.mem f j = tableEntry m.mem f j := by
  have hlow : rootFrame m < 2 ^ 40 := entryFrame_lt m.cr3
  rcases vmmPageAlloc_cases va flags m with ⟨-, hfull⟩ | ⟨g, m₁, htaken, hframe, hcr3, hcore, hcall⟩
  · exact absurd hfull hroom.not_full
  · have hlt := htaken.lt
    have hroot : rootFrame m₁ = rootFrame m := congrArg entryFrame hcr3
    have hstill : ∀ f, m.pmm.used f = true → m₁.pmm.used f = true := by
      intro f hf
      rw [hcore]
      exact used_set_of_used (by omega) hf
    have hroom₁ : Room m₁.pmm 3 := by
      rw [hcore]
      exact hroom.taken htaken
    obtain ⟨hmapped, hcr3', hlinked, hkept⟩ := vmmPageMap_linked (frameAddr g) flags
      (show rootFrame m < 2 ^ 51 by omega) (hstill _ hused) hroom₁ hidx hslot
    rw [hcall]
    refine ⟨?_, hcr3'.trans hcr3, hlinked, fun f j hf hj hpres => ?_⟩
    · rw [VmmCall.Succeeds, hframe, vmmPml4Get_eq, hroot]
      exact ⟨frameAddr_ne_invalid g, hmapped⟩
    · have hmem : m₁.mem = m.mem := by rw [hcore]
      rw [hkept f j (hstill f hf) hj (by rw [hmem]; exact hpres), hmem]

/-- Whatever the other entries say, the pair of calls leaves the link in the root behind. -/
theorem vmmRun_alloc_free_kept (flags flags' : BitVec 64) (hused : m.pmm.used (rootFrame m) = true)
    (hroom : Room m.pmm 4) (hidx : (vaIndex va 12 : Nat) ≠ 0) (hslot : vaIndex va 39 ≠ vaIndex va 12) :
    (VmmCall.pageAlloc va flags).Succeeds m ∧
      rootFrame (vmmRun m [.pageAlloc va flags, .pageFree va flags']) = rootFrame m ∧
      tableEntry (vmmRun m [.pageAlloc va flags, .pageFree va flags']).mem (rootFrame m) (vaIndex va 39) &&&
        pagePresent ≠ 0 ∧
      ∀ depth f g j, m.pmm.used f = true → j ≠ vaIndex va 12 → slots m.mem depth f j = .node g →
        slots (vmmRun m [.pageAlloc va flags, .pageFree va flags']).mem depth f j = .node g := by
  obtain ⟨hok, hcr3, hlinked, hkept⟩ := vmmPageAlloc_linked flags hused hroom hidx hslot
  have hrun : vmmRun m [.pageAlloc va flags, .pageFree va flags'] =
      vmmPageFree va flags' (vmmPageAlloc va flags m).2 := rfl
  rw [hrun]
  obtain ⟨hroot, hroot_kept⟩ := vmmPageFree_kept (m := (vmmPageAlloc va flags m).2) (f := rootFrame m) flags' hslot
  refine ⟨hok, congrArg entryFrame (hroot.trans hcr3), by rw [hroot_kept]; exact hlinked,
    fun depth f g j hf hj hnode => ?_⟩
  obtain ⟨-, hfree_kept⟩ := vmmPageFree_kept (m := (vmmPageAlloc va flags m).2) (f := f) flags' hj
  rw [slots, hfree_kept, hkept f j hf hj (entrySlot_eq_node.mp hnode).1]
  exact hnode

end

/-! ## Where the direct map wraps -/

/-- Memory in which the page at 2^47 names the second frame above 64 MiB in every word, and the page at
7 MiB names the first, which becomes the root. -/
def rootMemory : Memory := fillFrame (fillFrame (fun _ => 0) 0x700 0x4000001) (2 ^ 35) 0x4001001

/-- A walk that comes back to the root. -/
theorem ptPath_to_root {mem : Memory} (hlink : slots mem 0 0x4000 256 = .node 0x4001)
    (hpage : slots mem 1 0x4001 256 = .node 0x700) (hself : slots mem 2 0x700 0 = .node 0x4000) :
    descend (slots mem) 0 0x4000 (ptPath 0xFFFF804000001000) = some 0x4000 := by
  have hpath : ptPath 0xFFFF804000001000 = [256, 256, 0] := by decide
  rw [hpath]
  simp only [descend, hlink, hpage, hself]

/-- On a machine whose map reserves a range at 2^47, a page of the direct map is walked through the root, and
allocating and freeing a page elsewhere leaves it mapped. -/
theorem vmmInit_wrap_not_restored :
    ∃ m', vmmInit (2 ^ 64) sampleEnv (ramMachine [highEntry] rootMemory) = some (true, m') ∧
      ¬ PagesRestored (pmmHighestAddressGet (ramMachine [highEntry] rootMemory).pmm) (vmmRun m' []) := by
  have hhigh : ∀ i, tableEntry rootMemory (2 ^ 35) i = 0x4001001 := fun i => by
    rw [rootMemory, tableEntry_fillFrame]
  obtain ⟨m', heq, -, h⟩ := vmmInit_wrapped hhigh
  obtain ⟨hused, hused₁, hused₂⟩ := h.used
  refine ⟨m', heq, fun hrestored => ?_⟩
  have hrestored : PagesRestored (pmmHighestAddressGet (ramMachine [highEntry] rootMemory).pmm) m' := hrestored
  have h39 : vaIndex 0x8000002000 39 = 1 := by decide
  have h12 : vaIndex 0x8000002000 12 = 2 := by decide
  have hself : slots m'.mem 2 0x700 0 = .node 0x4000 := by
    rw [slots, h.kept, rootMemory, tableEntry_fillFrame_ne (by decide), tableEntry_fillFrame]
    decide
  -- before the calls the page is not mapped, and neither is the one that is allocated
  have hbefore : walk m'.mem 0x4000 0xFFFF804000001000 = none :=
    walk_of_pt_absent (ptPath_to_root h.link h.page hself) h.absent
  have hunmapped : walk m'.mem (rootFrame m') 0x8000002000 = none := by
    have hpath : vaPath 0x8000002000 = [1, 0, 0, 2] := by decide
    have hempty : slots m'.mem 0 0x4000 1 = .empty := entrySlot_empty h.absent
    rw [h.root, walk, hpath]
    simp only [lookup, hempty]
  obtain ⟨hok, hroot, hlinked, hkept⟩ := @vmmRun_alloc_free_kept 0x8000002000 m' pageWritable 0
    (h.root ▸ hused) h.room (by rw [h12]; decide) (by rw [h39, h12]; decide)
  have houtside : OutsideHhdm (pmmHighestAddressGet (ramMachine [highEntry] rootMemory).pmm) 0x8000002000 := by
    refine ⟨Or.inl (by decide), fun hin => ?_⟩
    have hlow : (0x8000002000 : BitVec 64).toNat < hhdmOffset.toNat := by decide
    omega
  have hwalk := (hrestored.alloc_free 0x8000002000 pageWritable 0 houtside (by decide) hunmapped hok).1
    0xFFFF804000001000
  generalize vmmRun m' [.pageAlloc 0x8000002000 pageWritable, .pageFree 0x8000002000 0] = m₃
    at hroot hlinked hkept hwalk
  rw [h.root] at hroot hlinked hwalk
  rw [h39] at hlinked
  -- the links of the walk are the ones that were there, and the entry in the root is the new link
  have hafter := walk_of_pt (ptPath_to_root (hkept _ _ _ _ hused (by rw [h12]; decide) h.link)
    (hkept _ _ _ _ hused₁ (by rw [h12]; decide) h.page) (hkept _ _ _ _ hused₂ (by rw [h12]; decide) hself)) hlinked
  rw [hroot, hbefore, hafter] at hwalk
  cases hwalk

end BootKernel
