import BootKernel.Vmm.Orphans
import BootKernel.Vmm.Supply
import BootKernel.Vmm.Tlb.Lemmas

/-!
# What the TLB holds

A run of page calls leaves nothing in the TLB that differs from the tables, and gives no frame back that the
TLB still knows.
-/

namespace BootKernel

open Radix CachedWalk

/-- What holds of a run, with the TLB that it ends with. -/
structure TlbKept (ceiling : BitVec 64) (seen : List (Event × Machine × Tlb)) (m : Machine) (c : Tlb) : Prop where
  coherent : Coherent tlbWalk m c
  freed : ∀ idx mf cf, (.free idx, mf, cf) ∈ seen → pmmReservedFrames ≤ idx →
    ∀ va e, (va, e) ∈ cf → OutsideHhdm ceiling va → ¬ Refers e idx.toNat

/-- The same of all runs of the calls that begin with an empty TLB, after each of the calls. -/
def TlbSafe (ceiling : BitVec 64) (m : Machine) (calls : List VmmCall) : Prop :=
  ∀ pre, pre <+: calls → ∀ seen m' c, TlbRun m ∅ pre seen m' c → TlbKept ceiling seen m' c

/-! ## Runs -/

section
variable {k : Nat} {m m' : Machine} {c c' : Tlb} {calls : List VmmCall} {seen : List (Event × Machine × Tlb)}

/-- The TLB does not change what the calls do. -/
theorem TlbRun.machine_eq (h : TlbRun m c calls seen m' c') : m' = vmmRun m calls := by
  induction h with
  | nil => rfl
  | cons hcall _ ih =>
      have hrun := hcall.run_eq
      rw [Paging.call_run] at hrun
      cases hrun
      exact ih

theorem TlbRun.exists_run (m : Machine) (c : Tlb) (calls : List VmmCall) :
    ∃ seen c', TlbRun m c calls seen (vmmRun m calls) c' := by
  induction calls generalizing m c with
  | nil => exact ⟨[], c, .nil⟩
  | cons call calls ih =>
      obtain ⟨seen, c₁, hexec, -⟩ := Exec.of_run tlbWalk flushed (Paging.call call) m c
      rw [Paging.call_run] at hexec
      obtain ⟨seen', c', hrest⟩ := ih (vmmCall m call) c₁
      exact ⟨seen ++ seen', c', .cons hexec hrest⟩

/-- Each call starts and ends with a TLB that holds current walks only. -/
theorem TlbRun.sound (h : TlbRun m c calls seen m' c') (hapart : Apart k (rootFrame m) m.toCore)
    (hcalls : ∀ call ∈ calls, call.Owning k ∧ Canonical call.vaddr) (hc : Coherent tlbWalk m c) :
    Coherent tlbWalk m' c' ∧ ∀ o ∈ seen, ∃ D, FreeSafe k o.1 D o.2.1 ∧ CoherentOff tlbWalk D o.2.1 o.2.2 := by
  induction h with
  | nil => exact ⟨hc, nofun⟩
  | @cons m c call seen m₁ c₁ calls seen' m' c' hcall hrest ih =>
      obtain ⟨hown, hcanon⟩ := hcalls call List.mem_cons_self
      obtain ⟨⟨D, rfl, hc₁⟩, hseen⟩ := (Paging.call_safe hapart hown hcanon).sound hc hcall
      have hrun := hcall.run_eq
      rw [Paging.call_run] at hrun
      cases hrun
      obtain ⟨hcr3, hapart₁⟩ := apart_rules.call hapart hown
      have hroot : rootFrame (vmmCall m call) = rootFrame m := congrArg entryFrame hcr3
      obtain ⟨hend, hseen'⟩ := ih (hroot.symm ▸ hapart₁)
        (fun d hd => hcalls d (List.mem_cons_of_mem call hd)) hc₁
      refine ⟨hend, fun o ho => ?_⟩
      rcases List.mem_append.mp ho with ho | ho
      · exact hseen o ho
      · exact hseen' o ho

end

/-! ## After `vmm_init` -/

theorem VmmCall.PageCall.canonical {ceiling : BitVec 64} {c : VmmCall} (h : c.PageCall ceiling) :
    Canonical c.vaddr := by
  cases c with
  | pageMap _ _ _ => exact h.elim
  | pageUnmap _ _ => exact h.elim
  | pageAlloc va flags => exact h.1.1
  | pageFree va flags => exact And.left h

/-- Calls without address bits in their flags leave the TLB coherent and give back frames that it has
forgotten. -/
theorem vmmRun_tlbSafe (map : List E820Entry) (p : Pmm) (env : BootEnv) (m m' : Machine) (fuel : Nat)
    (calls : List VmmCall) (hpmm : m.pmm = pmmInit map env.image p)
    (hplaced : env.Placed (pmmHighestAddressGet m.pmm)) (hfuel : 2 ^ 64 ≤ fuel)
    (hinit : vmmInit fuel env m = some (true, m'))
    (hcalls : ∀ c ∈ calls, c.PageCall (pmmHighestAddressGet m.pmm)) :
    TlbSafe (pmmHighestAddressGet m.pmm) m' calls := by
  have hceil := hplaced.ceiling
  intro pre hpre seen m'' c hrun
  have howning : ∀ call ∈ pre, call.Owning (gibCount (pmmHighestAddressGet m.pmm)) ∧ Canonical call.vaddr := by
    intro call hcall
    have hpage := hcalls call (hpre.subset hcall)
    exact ⟨hpage.owning hceil, hpage.canonical⟩
  obtain ⟨hcoherent, hseen⟩ := hrun.sound (vmmInit_apart hpmm hplaced hfuel hinit) howning nofun
  refine ⟨hcoherent, fun idx mf cf hfree hres va e hcached hva => ?_⟩
  obtain ⟨D, hsafe, hoff⟩ := hseen _ hfree
  obtain ⟨rfl, hwalks⟩ := hsafe hres
  exact hwalks va e (hoff (va, e) hcached (Set.notMem_empty va)) (hva.not_slot hceil)

theorem vmmRun_tlbSafe_ram :
    ∃ m', vmmInit (2 ^ 64) sampleEnv (ramMachine [] fun _ => 0) = some (true, m') ∧
      ∃ seen c, TlbRun m' ∅ [samplePage, .pageFree 0x40000000 0] seen
          (vmmRun m' [samplePage, .pageFree 0x40000000 0]) c ∧
        TlbKept 0x80000000 seen (vmmRun m' [samplePage, .pageFree 0x40000000 0]) c := by
  have hpmm : (ramMachine [] fun _ => 0).pmm = pmmInit [ramEntry] sampleEnv.image fullPmm := ramMachine_pmm
  have hceiling : pmmHighestAddressGet (ramMachine [] fun _ => 0).pmm = 0x80000000 := ramMachine_highest _
  have hplaced : sampleEnv.Placed (pmmHighestAddressGet (ramMachine [] fun _ => 0).pmm) := ramMachine_placed _
  obtain ⟨m', hinit⟩ := vmmInit_succeeds hpmm hplaced (Nat.le_refl (2 ^ 64))
  obtain ⟨seen, c, hrun⟩ := TlbRun.exists_run m' ∅ [samplePage, .pageFree 0x40000000 0]
  have hfree : VmmCall.PageCall 0x80000000 (.pageFree 0x40000000 0) := ⟨Or.inl (by decide), by decide⟩
  have hcalls : ∀ c ∈ [samplePage, .pageFree 0x40000000 0],
      c.PageCall (pmmHighestAddressGet (ramMachine [] fun _ => 0).pmm) := by
    rw [hceiling]
    exact List.forall_mem_cons.mpr ⟨samplePage_pageCall, List.forall_mem_singleton.mpr hfree⟩
  have hsafe := vmmRun_tlbSafe [ramEntry] fullPmm sampleEnv _ m' (2 ^ 64) _ hpmm hplaced (Nat.le_refl _) hinit hcalls
  rw [hceiling] at hsafe
  exact ⟨m', hinit, seen, c, hrun, hsafe _ (List.prefix_refl _) _ _ _ hrun⟩

/-! ## Flags with address bits -/

/-- A tree of the kernel with frames to take, all of them in the bitmap. -/
structure Stocked (ceiling : BitVec 64) (j : Nat) (m : Machine) : Prop where
  kernel : KernelTree ceiling (rootFrame m) m.toCore
  covered : ∀ f < 2 ^ 30, m.pmm.used f = false → f < coveredFrames
  room : Room m.pmm j

section
variable {ceiling va flags : BitVec 64} {j : Nat} {m : Machine}

/-- With four free frames in a row, whatever the flags are, a page is mapped. -/
theorem Stocked.pageAlloc (h : Stocked ceiling (3 + j + 1) m) (hva : OutsideHhdm ceiling va)
    (flags : BitVec 64) :
    rootFrame (vmmCall m (.pageAlloc va flags)) = rootFrame m ∧
      Stocked ceiling j (vmmCall m (.pageAlloc va flags)) ∧
      ∃ g < coveredFrames, ∀ vb, walk (vmmCall m (.pageAlloc va flags)).mem (rootFrame m) vb =
        if vaPath vb = vaPath va then some (3, pageEntry (frameAddr g) flags)
        else walk m.mem (rootFrame m) vb := by
  have htree := h.kernel.tree
  have hps := h.kernel.small va hva
  obtain ⟨hok, hroom, hlow⟩ := vmmPageAlloc_room htree hps flags h.kernel.low h.room
  obtain ⟨g, htaken, htree₁, hwalk⟩ := vmmPageAlloc_walk htree hps hok
  obtain ⟨g', c, t, htaken', hgrow, -, hcr3, hcore⟩ := vmmPageAlloc_success htree hps hok
  have hlt := htaken'.lt
  have hroot : rootFrame (vmmCall m (.pageAlloc va flags)) = rootFrame m := congrArg entryFrame hcr3
  refine ⟨hroot, ⟨?_, fun f hf hfree => ?_, hroom⟩, g, h.covered g htaken.lt htaken.free, hwalk⟩
  · rw [hroot]
    refine ⟨htree₁, hlow, fun vb hvb d e hd => ?_⟩
    have hvb' := (hwalk vb).symm.trans hd
    split at hvb'
    · cases hvb'
      rfl
    · exact h.kernel.small vb hvb d e hvb'
  · refine h.covered f hf ?_
    rw [Bool.eq_false_iff]
    intro hold
    have hused : c.pmm.used f = true := hgrow.used (used_set_of_used (by omega) hold)
    simp only [vmmCall, hcore] at hfree
    cases hused.symm.trans hfree

/-- Two pages whose entries name one frame because of the flags: the frame is given back with the first while
the second is still in the TLB. -/
theorem Stocked.not_tlbSafe {vb : BitVec 64} {f : Nat} (h : Stocked ceiling 8 m) (ha : OutsideHhdm ceiling va)
    (hb : OutsideHhdm ceiling vb) (hpage : va.toNat / 4096 ≠ vb.toNat / 4096)
    (hflags : ∀ g < coveredFrames, entryFrame (pageEntry (frameAddr g) flags) = f)
    (hres : pmmReservedFrames.toNat ≤ f) :
    ¬ TlbSafe ceiling m [.pageAlloc va flags, .pageAlloc vb flags, .pageFree va 0] := by
  have hpath : vaPath va ≠ vaPath vb := fun heq => hpage (hb.1.page_eq ha.1 heq)
  obtain ⟨hroot₁, h₁, g₁, hg₁, hwalk₁⟩ := h.pageAlloc (j := 4) ha flags
  obtain ⟨seen₁, c₁, hexec₁, -⟩ := Exec.of_run tlbWalk flushed (Paging.call (.pageAlloc va flags)) m ∅
  rw [Paging.call_run] at hexec₁
  generalize vmmCall m (.pageAlloc va flags) = m₁ at hroot₁ h₁ hwalk₁ hexec₁
  obtain ⟨hroot₂, h₂, g₂, hg₂, hwalk₂⟩ := h₁.pageAlloc (j := 0) hb flags
  obtain ⟨seen₂, c₂, hexec₂, -⟩ := Exec.of_run tlbWalk flushed (Paging.call (.pageAlloc vb flags)) m₁ c₁
  rw [Paging.call_run] at hexec₂
  generalize vmmCall m₁ (.pageAlloc vb flags) = m₂ at hroot₂ h₂ hwalk₂ hexec₂
  rw [← hroot₁] at hwalk₁
  rw [← hroot₂] at hwalk₁ hwalk₂
  -- the walks of both pages, and the entry of the first
  have hfirst : walk m₂.mem (rootFrame m₂) va = some (3, pageEntry (frameAddr g₁) flags) := by
    rw [hwalk₂, if_neg hpath, hwalk₁, if_pos rfl]
  have hsecond : tlbWalk m₂ vb = some (3, pageEntry (frameAddr g₂) flags) := by
    rw [tlbWalk, if_pos hb.1, hwalk₂, if_pos rfl]
  obtain ⟨t, hend, hentry⟩ := pt_of_walk hfirst
  have hlow := h₂.kernel.low t ⟨_, hend⟩
  obtain ⟨l, hl, hevents⟩ := Paging.vmmPageFree_labels 0 h₂.kernel.tree (h₂.kernel.small va ha) hend hlow
  rw [hentry, hflags g₁ hg₁] at hevents
  -- the second page is looked up before the first is freed
  obtain ⟨seen₃, c₃, hexec₃, hlabels, hkept⟩ := Exec.of_run tlbWalk flushed (Paging.call (.pageFree va 0)) m₂
    (insert (vb, 3, pageEntry (frameAddr g₂) flags) c₂)
  rw [Paging.call_run] at hexec₃
  have hsteps : seen₃.map Prod.fst = l ++ [.invlpg va, .free (BitVec.ofNat 64 f)] := hlabels.trans hevents
  have hout : ∀ x ∈ (Paging.call (.pageFree va 0)).labels m₂, vb ∉ flushed x := by
    intro x hx
    rw [← hlabels, hsteps] at hx
    simp only [List.mem_append, List.mem_cons, List.not_mem_nil, or_false] at hx
    rcases hx with hx | rfl | rfl
    · rw [(hl x hx).flushed]
      exact Set.notMem_empty vb
    · exact fun hflush => hpage hflush.2.symm
    · exact Set.notMem_empty vb
  obtain ⟨-, hcached⟩ := hkept _ (Set.mem_insert _ _) hout
  obtain ⟨⟨x, mf, cf⟩, hseen, hevent⟩ : ∃ o ∈ seen₃, o.1 = .free (BitVec.ofNat 64 f) := by
    rw [← List.mem_map (f := Prod.fst), hsteps]
    simp
  cases hevent
  have hf : f < 2 ^ 40 := hflags g₁ hg₁ ▸ entryFrame_lt _
  have hidx : (BitVec.ofNat 64 f).toNat = f := frameIdx_toNat (by omega)
  intro hsafe
  have hrun := TlbRun.cons hexec₁ (.cons hexec₂ (.cons (.fill hsecond hexec₃) .nil))
  refine (hsafe _ (List.prefix_refl _) _ _ _ hrun).freed (BitVec.ofNat 64 f) mf cf (by simp [hseen]) ?_ vb _
    (hcached _ hseen) hb ?_
  · rw [BitVec.le_def, hidx]
    exact hres
  · simp [Refers, hidx, hflags g₂ hg₂]

end

/-- After `pmm_init` and `vmm_init`, when nothing is free behind the bitmap. -/
theorem vmmInit_stocked {map : List E820Entry} {p : Pmm} {env : BootEnv} {m m' : Machine} {fuel j : Nat}
    (hpmm : m.pmm = pmmInit map env.image p) (hpast : ∀ f, coveredFrames ≤ f → p.used f = true)
    (hplaced : env.Placed (pmmHighestAddressGet m.pmm)) (hfuel : 2 ^ 64 ≤ fuel)
    (hinit : vmmInit fuel env m = some (true, m')) (hroom : Room m'.pmm j) :
    Stocked (pmmHighestAddressGet m.pmm) j m' := by
  have hcov := coveredFrames_eq
  have hapart := vmmInit_apart hpmm hplaced hfuel hinit
  obtain ⟨root, htaken, hcr3, hboot⟩ := vmmInit_bootTree hpmm hplaced hfuel hinit
  have hlt := htaken.lt
  have hroot : rootFrame m' = root := by
    rw [rootFrame, hcr3, entryFrame_frameAddr (by omega)]
  have hfree : ∀ f, (rootCore m.toCore root).pmm.used f = false → f < coveredFrames := by
    intro f hf
    by_contra hge
    have hused : (rootCore m.toCore root).pmm.used f = true := by
      rw [rootCore]
      refine used_set_of_used (by omega) ?_
      rw [hpmm, used_pmmInit_past map env.image p (by omega), hpast f (by omega), Bool.or_true]
    cases hused.symm.trans hf
  refine ⟨⟨hapart.tree, fun f hf => ?_, fun va hva => hapart.walksToPt (hva.not_slot hplaced.ceiling)⟩,
    fun f _ hf => hfree f ?_, hroom⟩
  · rw [hroot] at hf
    rcases hboot.confined.fresh f hf with rfl | hf
    · exact hlt
    · have hlow := hfree f hf
      omega
  · rw [Bool.eq_false_iff]
    intro hused
    cases (hboot.confined.used f hused).symm.trans hf

/-- Memory from 2 GiB up to 512 GiB, the end of what the bitmap covers. -/
def farEntry : E820Entry := ⟨0x80000000, 0x7F80000000, 1, 0⟩

/-- Flags that hold the address of the last page of it. -/
def farFlags : BitVec 64 := 0x7FFFFFF003

theorem entryFrame_farFlags {g : Nat} (hg : g < coveredFrames) :
    entryFrame (pageEntry (frameAddr g) farFlags) = 2 ^ 27 - 1 := by
  have hcov := coveredFrames_eq
  have hentry : pageEntry (frameAddr g) farFlags &&& pageAddrMask = 0x7FFFFFF000 := by
    apply BitVec.eq_of_getLsbD_eq
    intro i hi
    have hmask : ∀ i < 64, pageAddrMask.getLsbD i = decide (12 ≤ i ∧ i < 52) := by decide
    have hflags : ∀ i < 64, 12 ≤ i → (farFlags ||| pagePresent).getLsbD i = decide (i < 39) := by decide
    have hframe : ∀ i < 64, (0x7FFFFFF000 : BitVec 64).getLsbD i = decide (12 ≤ i ∧ i < 39) := by decide
    rw [pageEntry, BitVec.or_assoc, frameAddr_and_mask (by omega), BitVec.getLsbD_and, BitVec.getLsbD_or, hmask i hi,
      hframe i hi]
    by_cases hlow : i < 12
    · simp [Nat.not_le.mpr hlow]
    · rw [hflags i hi (by omega)]
      by_cases hmid : i < 39
      · simp [hmid, show i < 52 by omega]
      · have hlt : (frameAddr g).toNat < 2 ^ i := by
          rw [frameAddr_toNat (by omega)]
          calc g * 4096 < 2 ^ 39 := by omega
            _ ≤ 2 ^ i := Nat.pow_le_pow_right (by omega) (by omega)
        have hzero : (frameAddr g).getLsbD i = false := Nat.testBit_lt_two_pow hlt
        simp [hzero, hmid]
  rw [entryFrame, hentry]
  decide

theorem farMachine_noWrap : NoWrap [ramEntry, farEntry] := by
  simp [NoWrap, ramEntry, farEntry]

/-- Two pages are allocated with these flags, and the first is freed. -/
def farCalls : List VmmCall :=
  [.pageAlloc 0x40000000 farFlags, .pageAlloc 0x40001000 farFlags, .pageFree 0x40000000 0]

/-- The flags are not masked, so that both entries name the last page, which goes back to the pool while the
TLB still holds the second. -/
theorem vmmRun_tlb_stale :
    ∃ m', vmmInit (2 ^ 64) sampleEnv (ramMachine [farEntry] fun _ => 0) = some (true, m') ∧
      (∀ c ∈ farCalls, OutsideHhdm (pmmHighestAddressGet (ramMachine [farEntry] fun _ => 0).pmm) c.vaddr) ∧
      ¬ TlbSafe (pmmHighestAddressGet (ramMachine [farEntry] fun _ => 0).pmm) m' farCalls := by
  have hpmm : (ramMachine [farEntry] fun _ => 0).pmm = pmmInit [ramEntry, farEntry] sampleEnv.image fullPmm :=
    ramMachine_pmm
  have hceiling : pmmHighestAddressGet (ramMachine [farEntry] fun _ => 0).pmm = 0x8000000000 := ramMachine_ceiling
  have hplaced : sampleEnv.Placed (pmmHighestAddressGet (ramMachine [farEntry] fun _ => 0).pmm) := by
    rw [hceiling]
    exact sampleEnv_placed (by decide)
  have hroom : Room (ramMachine [farEntry] fun _ => 0).pmm
      (bootFrames sampleEnv (pmmHighestAddressGet (ramMachine [farEntry] fun _ => 0).pmm) + 8) := by
    rw [hceiling]
    exact ramMachine_room farMachine_noWrap (by decide)
  have hceil := hplaced.ceiling
  obtain ⟨m', hinit⟩ := vmmInit_succeeds hpmm hplaced (Nat.le_refl (2 ^ 64))
  obtain ⟨-, hroomy⟩ := vmmInit_roomy sampleEnv_low (by omega) hroom hinit
  have hstocked := vmmInit_stocked hpmm (fun f _ => used_fullPmm f) hplaced (Nat.le_refl _) hinit hroomy.room
  have hfirst : OutsideHhdm 0x8000000000 0x40000000 := ⟨Or.inl (by decide), by decide⟩
  have hsecond : OutsideHhdm 0x8000000000 0x40001000 := ⟨Or.inl (by decide), by decide⟩
  rw [hceiling] at hstocked ⊢
  refine ⟨m', hinit, ?_, hstocked.not_tlbSafe hfirst hsecond (by decide) (fun _ => entryFrame_farFlags) (by decide)⟩
  simp only [farCalls, List.forall_mem_cons, VmmCall.vaddr, List.not_mem_nil, false_implies, implies_true, and_true]
  exact ⟨hfirst, hsecond, hfirst⟩

end BootKernel
