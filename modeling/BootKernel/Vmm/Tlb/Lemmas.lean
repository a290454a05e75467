import BootKernel.Vmm.Lemmas.Room
import BootKernel.Vmm.Tlb.Defs

/-!
# Which steps change a walk

The walker changes none: it clears frames that no table refers to, and links them as empty tables. The
entry of a page is seen by the walks of that page alone.
-/

namespace BootKernel

open Radix CachedWalk

section
variable {root n g : Nat} {m m' : Machine} {va : BitVec 64} {i : Fin 512}

theorem tlbWalk_congr (hcr3 : m'.cr3 = m.cr3)
    (hwalk : ∀ va, walk m'.mem (rootFrame m) va = walk m.mem (rootFrame m) va) :
    tlbWalk m' = tlbWalk m := by
  funext va
  simp only [tlbWalk, rootFrame, hcr3]
  rw [← rootFrame, hwalk va]

theorem walk_of_tlbWalk {e : Nat × BitVec 64} (h : tlbWalk m va = some e) :
    Canonical va ∧ walk m.mem (rootFrame m) va = some e := by
  rw [tlbWalk] at h
  split at h
  · rename_i hva
    exact ⟨hva, h⟩
  · cases h

/-- A frame that no table refers to can hold anything. -/
theorem walk_of_unreached {mem mem' : Memory} (hg : ¬ Reaches (slots mem) root g)
    (hmem : ∀ x, x / 4096 ≠ g → mem' x = mem x) (va : BitVec 64) : walk mem' root va = walk mem root va := by
  have hsame : ∀ d f j, Reaches (slots mem) root f → slots mem' d f j = slots mem d f j := by
    intro d f j hf
    have hfg : f ≠ g := fun h => hg (h ▸ hf)
    have hentry : tableEntry mem' f j = tableEntry mem f j := by
      have hj := j.isLt
      apply Memory.load64_congr
      intro x hlo hhi
      exact hmem x (by omega)
    rw [slots, slots, hentry]
  exact (congr_reaches hsame _).2

/-! ## The walker -/

/-- The events that neither return a frame nor flush anything. -/
def Ordinary : Event → Prop
  | .free _ => False
  | .invlpg _ => False
  | .cr3 _ => False
  | _ => True

theorem Paging.zero_steady (hg : g < 2 ^ 51) (hout : ¬ Reaches (slots m.mem) (rootFrame m) g) :
    Steady tlbWalk Ordinary (zero .hhdm (vmmPhysToVirt (frameAddr g)) 4096) m := by
  refine Steady.forM (fun s => s.cr3 = m.cr3 ∧ ∀ x, x / 4096 ≠ g → s.mem x = m.mem x)
    ⟨rfl, fun _ _ => rfl⟩ fun i hi s hs => ?_
  have hbytes : (4096 : BitVec 64).toNat = 4096 := by decide
  rw [hbytes, List.mem_range'_1] at hi
  obtain ⟨hcr3, hmem⟩ := hs
  have hphys := Window.hhdm.phys_base hg (show i < 4096 by omega)
  have hnext : ∀ x, x / 4096 ≠ g →
      (s.store8 .hhdm (vmmPhysToVirt (frameAddr g) + BitVec.ofNat 64 i) 0).mem x = m.mem x := by
    intro x hx
    rw [← hmem x hx]
    simp only [Window.base] at hphys
    simp only [Machine.store8, Machine.emit, Memory.store8, hphys]
    exact if_neg (by omega)
  have hwalk : ∀ {s' : Machine}, s'.cr3 = m.cr3 → (∀ x, x / 4096 ≠ g → s'.mem x = m.mem x) →
      tlbWalk s' = tlbWalk m := fun hcr3 hmem => tlbWalk_congr hcr3 (walk_of_unreached hout hmem)
  refine ⟨Steady.op trivial ?_, hcr3, hnext⟩
  rw [hwalk hcr3 hmem]
  exact hwalk hcr3 hnext

theorem tlbWalk_zero (hg : g < 2 ^ 51) (hout : ¬ Reaches (slots m.mem) (rootFrame m) g) :
    tlbWalk (zero .hhdm (vmmPhysToVirt (frameAddr g)) 4096 m) = tlbWalk m := by
  have hzero := Machine.zero_frame .hhdm hg m
  simp only [Window.base] at hzero
  rw [hzero]
  exact tlbWalk_congr rfl (walk_of_unreached hout fun x hx => if_neg hx)

theorem tlbWalk_enterNew {p : List (Fin 512)} (ht : PageTree m.toCore (rootFrame m))
    (hp : descend (slots m.mem) 0 (rootFrame m) p = some n) (hlen : p.length < 3)
    (hempty : slots m.mem p.length n i = .empty) (htaken : Machine.Taken m.pmm g) :
    tlbWalk (m.enterNew n i g) = tlbWalk m :=
  tlbWalk_congr rfl fun _ => (ht.link hp hlen hempty htaken.free htaken.lt).lookup _

theorem Paging.vmmPteGetLoop_steady (create : Bool) {shifts : List Nat} (pre rest : List (Fin 512))
    (ht : PageTree m.toCore (rootFrame m)) (hp : descend (slots m.mem) 0 (rootFrame m) pre = some n)
    (hps : WalksToPt m.mem (rootFrame m) va) (hpath : vaPath va = pre ++ shifts.map (vaIndex va) ++ rest)
    (hlen : pre.length + shifts.length ≤ 3) :
    Steady tlbWalk Ordinary (vmmPteGetLoop create va shifts (frameAddr n)) m := by
  induction shifts generalizing pre n m with
  | nil => exact trivial
  | cons shift shifts ih =>
      simp only [List.length_cons] at hlen
      have hn : n < 2 ^ 51 := by
        have hlt := ht.reaches_lt ⟨pre, hp⟩
        omega
      have hpath' : vaPath va = pre ++ [vaIndex va shift] ++ shifts.map (vaIndex va) ++ rest := by
        simpa using hpath
      have hload := m.load64_entry .hhdm hn va shift
      simp only [Window.base] at hload
      rw [vmmPteGetLoop]
      refine Steady.bind (Steady.op trivial rfl) ?_
      rw [load64_run, hload]
      by_cases hpres : tableEntry m.mem n (vaIndex va shift) &&& pagePresent = 0
      · have hempty : slots m.mem pre.length n (vaIndex va shift) = .empty := entrySlot_empty hpres
        cases create with
        | false =>
            simp only [hpres, ↓reduceIte, Bool.not_false]
            exact trivial
        | true =>
            simp only [hpres, ↓reduceIte, Bool.not_true, Bool.false_eq_true]
            refine Steady.bind (Steady.op trivial rfl) ?_
            rw [frameAlloc_run]
            rcases (m.readEntry n (vaIndex va shift)).frameAlloc_cases with ⟨hfail, -⟩ | ⟨g, htaken, hok⟩
            · rw [Machine.readEntry] at hfail
              simp only [hfail, ↓reduceIte]
              exact trivial
            · have hlt := htaken.lt
              have hg : g < 2 ^ 51 := by omega
              have hnew := Machine.createTable_eq .hhdm hn hg va shift (m.readEntry n (vaIndex va shift))
              have hmask : linkEntry g &&& pageAddrMask = frameAddr g := linkEntry_and_mask (by omega)
              have hgrown := ht.grow (.single (.mk hp (by omega) hempty htaken.free hlt))
              have hlink := (ht.link hp (by omega) hempty htaken.free hlt).descend (pre ++ [vaIndex va shift]) g
              have hwalk := tlbWalk_enterNew ht hp (by omega) hempty htaken
              rw [linkEntry] at hmask
              rw [Machine.readEntry] at hok hnew
              simp only [Window.base] at hnew
              simp only [hok, frameAddr_ne_invalid, ↓reduceIte, hmask]
              refine Steady.bind (Paging.zero_steady hg (ht.fresh htaken.free)) ?_
              rw [zero_run]
              refine Steady.bind (Steady.op trivial ?_) ?_
              · dsimp only
                rw [hnew, tlbWalk_zero hg]
                · exact hwalk
                · exact ht.fresh htaken.free
              rw [store64_run, hnew]
              refine Steady.bind (Steady.op trivial rfl) ?_
              rw [follow_run]
              exact ih (pre ++ [vaIndex va shift]) hgrown.tree (hlink.mpr (Or.inr ⟨rfl, rfl⟩)) (hps.grow hgrown) hpath'
                (by simp only [List.length_append, List.length_singleton]; omega)
      · have hnode := hps.follow (by simpa using hpath) (by omega) hp hpres
        simp only [hpres, ↓reduceIte, and_pageAddrMask]
        refine Steady.bind (Steady.op trivial rfl) ?_
        exact ih (pre ++ [vaIndex va shift]) ht hnode hps hpath'
          (by simp only [List.length_append, List.length_singleton]; omega)

theorem Paging.vmmPteGet_steady (create : Bool) (ht : PageTree m.toCore (rootFrame m))
    (hps : WalksToPt m.mem (rootFrame m) va) :
    Steady tlbWalk Ordinary (vmmPteGet (frameAddr (rootFrame m)) va create) m := by
  have hloop : Steady tlbWalk Ordinary
      (vmmPteGetLoop create va (levelsShift.take 3) (frameAddr (rootFrame m))) m :=
    vmmPteGetLoop_steady create [] [vaIndex va 12] ht rfl hps rfl (by decide)
  rw [vmmPteGet]
  refine hloop.bind ?_
  split <;> exact trivial

/-! ## The entry of a page -/

/-- Canonical addresses with one path lie in one page. -/
theorem Canonical.page_eq {vb : BitVec 64} (ha : Canonical va) (hb : Canonical vb) (hpath : vaPath vb = vaPath va) :
    vb.toNat / 4096 = va.toNat / 4096 := by
  rw [vaPath_inj] at hpath
  rcases ha with ha | ha
  · rcases hb with hb | hb <;> omega
  · rcases hb with hb | hb <;> omega

/-- `invlpg` flushes all that a write to the entry of a page puts out of date. -/
theorem changedKeys_setEntry {t : Nat} (ht : PageTree m.toCore (rootFrame m))
    (hend : descend (slots m.mem) 0 (rootFrame m) (ptPath va) = some t) (hva : Canonical va) (v : BitVec 64) :
    changedKeys tlbWalk m (m.setEntry t (vaIndex va 12) v) ⊆ flushed (.invlpg va) := by
  intro vb hchanged
  by_cases hvb : Canonical vb
  · by_cases hpath : vaPath vb = vaPath va
    · exact ⟨hva, hva.page_eq hvb hpath⟩
    · refine absurd ?_ hchanged
      have hwalk := (ht.setPage hend v).2 vb
      rw [if_neg hpath] at hwalk
      simp only [tlbWalk, hvb, ↓reduceIte]
      exact hwalk
  · refine absurd ?_ hchanged
    simp only [tlbWalk, hvb, ↓reduceIte]

/-- What the return of a frame has to meet: nothing is out of date, and no walk outside the direct map refers to
the frame. -/
def FreeSafe (k : Nat) : Event → Set (BitVec 64) → Machine → Prop
  | .free idx, D, m => pmmReservedFrames ≤ idx → D = ∅ ∧
      ∀ va e, tlbWalk m va = some e → ¬ hhdmSlot va < k → ¬ Refers e idx.toNat
  | _, _, _ => True

theorem Ordinary.freeSafe {k : Nat} (x : Event) (m : Machine) (hx : Ordinary x) : FreeSafe k x ∅ m := by
  cases x with
  | free idx => exact hx.elim
  | _ => exact trivial

theorem Ordinary.flushed {x : Event} (hx : Ordinary x) : flushed x = ∅ := by
  cases x with
  | invlpg va => exact hx.elim
  | cr3 value => exact hx.elim
  | _ => rfl

/-- Writing the entry of a page, with the invalidation that follows. -/
theorem Paging.setPage_safe {α : Type} {k t : Nat} {v : BitVec 64} {rest : Paging α}
    {Q : α → Set (BitVec 64) → Machine → Prop} (ht : PageTree m.toCore (rootFrame m))
    (hend : descend (slots m.mem) 0 (rootFrame m) (ptPath va) = some t) (hva : Canonical va)
    (hrest : Safe tlbWalk flushed (FreeSafe k) rest ∅ (BootKernel.invlpg va (m.setEntry t (vaIndex va 12) v)) Q) :
    Safe tlbWalk flushed (FreeSafe k) (do
      store64 .hhdm (entryPtr (vmmPhysToVirt (frameAddr t)) ((va >>> 12) &&& 0x1FF)) v
      invlpg va
      rest) ∅ m Q := by
  have hlt := ht.reaches_lt ⟨_, hend⟩
  have hstore := m.store64_entry .hhdm (show t < 2 ^ 51 by omega) va 12 v
  simp only [Window.base] at hstore
  have hchanged := changedKeys_setEntry ht hend hva v
  refine Safe.bind (Safe.op trivial ?_)
  refine Safe.bind (Safe.op trivial ?_)
  dsimp only
  rw [hstore]
  convert hrest using 1
  rw [Set.sdiff_eq_empty]
  refine Set.union_subset ?_ fun vb hvb => absurd rfl hvb
  simpa [flushed] using hchanged

/-! ## The calls -/

section
variable {k : Nat} {flags : BitVec 64}

theorem Paging.vmmPageMap_safe (paddr flags : BitVec 64) (ht : PageTree m.toCore (rootFrame m))
    (hps : WalksToPt m.mem (rootFrame m) va) (hva : Canonical va) :
    Safe tlbWalk flushed (FreeSafe k) (vmmPageMap (frameAddr (rootFrame m)) va paddr flags) ∅ m
      fun _ D _ => D = ∅ := by
  obtain ⟨pte, m₁, heq, hgrow, hcr3, -, hpte⟩ := vmmPteGet_spec true ht hps
  have hroot : rootFrame m₁ = rootFrame m := congrArg entryFrame hcr3
  rw [vmmPageMap]
  refine Safe.bind ((vmmPteGet_steady true ht hps).safe Ordinary.freeSafe ?_)
  rw [vmmPteGet_run, heq]
  by_cases hnull : pte = 0
  · simp only [hnull, ↓reduceIte]
    exact rfl
  · obtain hzero | ⟨t, hlt, hend, rfl⟩ := hpte
    · exact absurd hzero hnull
    · simp only [hnull, ↓reduceIte]
      rw [← hroot] at hend
      exact setPage_safe (hroot.symm ▸ (ht.grow hgrow).tree) hend hva rfl

theorem Paging.vmmPageUnmap_safe (ht : PageTree m.toCore (rootFrame m))
    (hps : WalksToPt m.mem (rootFrame m) va) (hva : Canonical va) :
    Safe tlbWalk flushed (FreeSafe k) (vmmPageUnmap (frameAddr (rootFrame m)) va (some 0)) ∅ m
      fun _ D _ => D = ∅ := by
  obtain ⟨pte, m₁, heq, hgrow, hcr3, -, hpte⟩ := vmmPteGet_spec false ht hps
  have hroot : rootFrame m₁ = rootFrame m := congrArg entryFrame hcr3
  rw [vmmPageUnmap]
  refine Safe.bind ((vmmPteGet_steady false ht hps).safe Ordinary.freeSafe ?_)
  rw [vmmPteGet_run, heq]
  by_cases hnull : pte = 0
  · simp only [hnull, ↓reduceIte]
    exact rfl
  · obtain hzero | ⟨t, hlt, hend, rfl⟩ := hpte
    · exact absurd hzero hnull
    · simp only [hnull, ↓reduceIte]
      rw [← hroot] at hend
      have hread : Steady tlbWalk Ordinary
          (load64 .hhdm (entryPtr (Window.hhdm.base (frameAddr t)) ((va >>> 12) &&& 0x1FF))) m₁ := Steady.op trivial rfl
      refine Safe.bind (Safe.bind (hread.safe Ordinary.freeSafe ?_))
      exact setPage_safe (hroot.symm ▸ (ht.grow hgrow).tree) hend hva rfl

/-- No walk outside the direct map refers to the frame of a page whose entry has been cleared. -/
theorem Apart.not_refers {root f : Nat} {c : Core} (h : Apart k root c) (hs : Loose root c f)
    {vb : BitVec 64} {e : Nat × BitVec 64} (hwalk : walk c.mem root vb = some e) (hvb : ¬ hhdmSlot vb < k) :
    ¬ Refers e f := by
  obtain ⟨d, e⟩ := e
  obtain rfl := h.walksToPt hvb d e hwalk
  intro hrefers
  refine hs.not_leaf vb e hwalk ?_
  simpa [Refers] using hrefers.symm

theorem Paging.vmmPageFree_safe (flags : BitVec 64) (h : Apart k (rootFrame m) m.toCore)
    (hva : ¬ hhdmSlot va < k) (hcanon : Canonical va) :
    Safe tlbWalk flushed (FreeSafe k) (vmmPageFree va flags) ∅ m fun _ D _ => D = ∅ := by
  rw [vmmPageFree]
  refine Safe.bind ?_
  change Safe tlbWalk flushed (FreeSafe k) (vmmPageUnmap (BootKernel.vmmPml4Get m) va (some 0) >>= _) ∅ m _
  rw [vmmPml4Get_eq]
  refine Safe.bind ((vmmPageUnmap_safe h.tree (h.walksToPt hva) hcanon).run.mono ?_)
  rintro r D s ⟨rfl, hrun⟩
  obtain ⟨m₁, hcore, hcr3, hunmap⟩ := vmmPageUnmap_cases h.tree (h.walksToPt hva)
  rw [vmmPageUnmap_run] at hrun
  rcases hunmap with heq | ⟨t, hend, heq⟩
  · rw [heq] at hrun
    cases hrun
    exact rfl
  · rw [heq] at hrun
    cases hrun
    obtain ⟨hclear, hloose⟩ := h.clearPage hend
    have hlt := entryFrame_lt (tableEntry m.mem t (vaIndex va 12))
    have hroot : rootFrame m₁ = rootFrame m := congrArg entryFrame hcr3
    refine Safe.op ?_ (changedKeys_same rfl)
    rw [entry_shiftRight]
    intro hres
    rw [reserved_le_entryFrame] at hres
    refine ⟨rfl, fun vb e hwalk hvb => ?_⟩
    rw [frameIdx_toNat (by omega)]
    have hwalk' : walk (m₁.setEntry t (vaIndex va 12) 0).mem (rootFrame m₁) vb = some e := (walk_of_tlbWalk hwalk).2
    have hmem : m₁.mem = m.mem := congrArg Core.mem hcore
    rw [Machine.setEntry, Machine.emit, hmem, hroot] at hwalk'
    exact hclear.not_refers (hloose _ (h.clean.walk_of_reserved hend hres) hres) hwalk' hvb

theorem Paging.vmmPageAlloc_safe (h : Apart k (rootFrame m) m.toCore) (hva : ¬ hhdmSlot va < k)
    (hcanon : Canonical va) :
    Safe tlbWalk flushed (FreeSafe k) (vmmPageAlloc va flags) ∅ m fun _ D _ => D = ∅ := by
  have halloc : Steady tlbWalk Ordinary frameAlloc m := Steady.op trivial rfl
  rw [vmmPageAlloc]
  refine Safe.bind (halloc.safe Ordinary.freeSafe ?_)
  rw [frameAlloc_run]
  rcases m.frameAlloc_cases with ⟨hfail, -⟩ | ⟨g, htaken, hok⟩
  · simp only [hfail, ↓reduceIte]
    exact rfl
  · obtain ⟨m₁, hm₁⟩ : ∃ m₁ : Machine, m₁ =
      { m with pmm := frameBitmapSet m.pmm (BitVec.ofNat 64 g) }.emit (.alloc (frameAddr g)) := ⟨_, rfl⟩
    have h₁ : Apart k (rootFrame m₁) m₁.toCore := by
      rw [hm₁]
      exact (h.take htaken).1
    simp only [hok, frameAddr_ne_invalid, ↓reduceIte, ← hm₁]
    refine Safe.bind ?_
    change Safe tlbWalk flushed (FreeSafe k)
      (vmmPageMap (BootKernel.vmmPml4Get m₁) va (frameAddr g) flags >>= _) ∅ m₁ _
    rw [vmmPml4Get_eq]
    refine Safe.bind ((vmmPageMap_safe _ flags h₁.tree (h₁.walksToPt hva) hcanon).mono ?_)
    rintro r D s rfl
    cases r <;> exact rfl

theorem Paging.call_safe {c : VmmCall} (h : Apart k (rootFrame m) m.toCore) (hc : c.Owning k)
    (hcanon : Canonical c.vaddr) :
    Safe tlbWalk flushed (FreeSafe k) (call c) ∅ m fun _ D _ => D = ∅ := by
  cases c with
  | pageMap _ _ _ => exact hc.elim
  | pageUnmap _ _ => exact hc.elim
  | pageAlloc va flags => exact Safe.bind (vmmPageAlloc_safe h hc.1 hcanon)
  | pageFree va flags => exact vmmPageFree_safe flags h hc hcanon

end

/-! ## The events of freeing a page -/

section
variable {t : Nat}

/-- Unmapping a page whose table is there: the events, and the address that is returned. -/
theorem Paging.vmmPageUnmap_found (ht : PageTree m.toCore (rootFrame m)) (hps : WalksToPt m.mem (rootFrame m) va)
    (hend : descend (slots m.mem) 0 (rootFrame m) (ptPath va) = some t) (hlow : t < 2 ^ 30) :
    (∃ l, (∀ x ∈ l, Ordinary x) ∧
      (vmmPageUnmap (frameAddr (rootFrame m)) va (some 0)).labels m = l ++ [.invlpg va]) ∧
    ((vmmPageUnmap (frameAddr (rootFrame m)) va (some 0)).run m).1 =
      (true, some (tableEntry m.mem t (vaIndex va 12) &&& pageAddrMask)) := by
  obtain ⟨pte, m₁, heq, -, -, hcore, -⟩ := vmmPteGet_spec false ht hps
  have hpte := vmmPteGet_found false ht hps hend
  rw [heq] at hpte
  simp only at hpte
  have hnull : pte ≠ 0 := by
    rw [hpte]
    exact hhdm_entryPtr_ne_zero hlow va
  have hload : (m₁.load64 .hhdm pte).1 = tableEntry m.mem t (vaIndex va 12) := by
    rw [hpte, m₁.load64_entry .hhdm (show t < 2 ^ 51 by omega), hcore rfl]
  have hwalker := (vmmPteGet_steady false ht hps).labels
  rw [vmmPageUnmap, Prog.labels_bind, Prog.run_bind, vmmPteGet_run, heq]
  simp only [hnull, ↓reduceIte]
  refine ⟨⟨(vmmPteGet (frameAddr (rootFrame m)) va false).labels m ++
    [.load (Window.hhdm.phys pte), .store (Window.hhdm.phys pte)], fun x hx => ?_, ?_⟩, ?_⟩
  · rcases List.mem_append.mp hx with hx | hx
    · exact hwalker x hx
    · simp only [List.mem_cons, List.not_mem_nil, or_false] at hx
      rcases hx with rfl | rfl <;> exact trivial
  · rw [List.append_assoc]
    rfl
  · rw [← hload]
    rfl

/-- Freeing it gives back the frame that the entry names, after the invalidation. -/
theorem Paging.vmmPageFree_labels (flags : BitVec 64) (ht : PageTree m.toCore (rootFrame m))
    (hps : WalksToPt m.mem (rootFrame m) va)
    (hend : descend (slots m.mem) 0 (rootFrame m) (ptPath va) = some t) (hlow : t < 2 ^ 30) :
    ∃ l, (∀ x ∈ l, Ordinary x) ∧ (vmmPageFree va flags).labels m =
      l ++ [.invlpg va, .free (BitVec.ofNat 64 (entryFrame (tableEntry m.mem t (vaIndex va 12))))] := by
  obtain ⟨⟨l, hl, hlabels⟩, hrun⟩ := vmmPageUnmap_found ht hps hend hlow
  refine ⟨l, hl, ?_⟩
  have hpml4 : vmmPml4Get.labels m = [] := rfl
  rw [vmmPageFree, Prog.labels_bind, hpml4, vmmPml4Get_run, vmmPml4Get_eq, Prog.labels_bind, hlabels, hrun,
    ← entry_shiftRight]
  simp only [List.nil_append, List.append_assoc]
  rfl

end

end

end BootKernel
