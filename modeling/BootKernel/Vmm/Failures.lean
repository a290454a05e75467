import BootKernel.Vmm.Lemmas.Boot

/-!
# Allocations that fail during `vmm_init`

Up to `vmm_kernel_map` every allocation is tested: a failed one makes `vmm_init` return 0, and until
then only frames that have been obtained are written. The walker of `vmm_kernel_map` does not test, so
what the caller learns depends on where the frames run out.
-/

namespace BootKernel

/-! ## What the events may be -/

/-- Only frames obtained from the allocator are written, and CR3 is not loaded. -/
structure Obtaining (events : List Event) : Prop where
  stores : ∀ pa, .store pa ∈ events → .alloc (frameAddr (pa / 4096)) ∈ events
  noCr3 : ∀ v, .cr3 v ∉ events

/-- Events that write nothing but one of the frames obtained. -/
def WritesFrame (f : Nat) (events : List Event) : Prop :=
  ∀ e ∈ events, (∀ pa, e = .store pa → pa / 4096 = f) ∧ ∀ v, e ≠ .cr3 v

section
variable {events tail : List Event} {f : Nat}

theorem Obtaining.append (h : Obtaining events) (htail : WritesFrame f tail)
    (hf : .alloc (frameAddr f) ∈ events ++ tail) : Obtaining (events ++ tail) := by
  constructor
  · intro pa hpa
    rcases List.mem_append.mp hpa with hold | hnew
    · exact List.mem_append_left _ (h.stores pa hold)
    · rw [(htail _ hnew).1 pa rfl]
      exact hf
  · intro v hv
    rcases List.mem_append.mp hv with hold | hnew
    · exact h.noCr3 v hold
    · exact (htail _ hnew).2 v rfl

theorem WritesFrame.zeroEvents (g k : Nat) (hk : k ≤ 4096) : WritesFrame g (Machine.zeroEvents g k) := by
  intro e he
  obtain ⟨off, hoff, rfl⟩ := List.mem_map.mp he
  have hlt := List.mem_range.mp hoff
  refine ⟨fun pa hpa => ?_, nofun⟩
  cases hpa
  omega

theorem WritesFrame.entry (n : Nat) (i : Fin 512) : WritesFrame n [.store (n * 4096 + 8 * i)] := by
  intro e he
  have hi := i.isLt
  obtain rfl := List.mem_singleton.mp he
  refine ⟨fun pa hpa => ?_, nofun⟩
  cases hpa
  omega

theorem Obtaining.of_quiet (h : ∀ e ∈ events, (∀ pa, e ≠ .store pa) ∧ ∀ v, e ≠ .cr3 v) : Obtaining events :=
  ⟨fun pa hpa => absurd rfl ((h _ hpa).1 pa), fun v hv => absurd rfl ((h _ hv).2 v)⟩

theorem WritesFrame.of_quiet (h : ∀ e ∈ tail, (∀ pa, e ≠ .store pa) ∧ ∀ v, e ≠ .cr3 v) : WritesFrame f tail :=
  fun e he => ⟨fun pa hpa => absurd hpa ((h e he).1 pa), (h e he).2⟩

end

/-- What a call of `vmm_init` owes its caller when an allocation has failed: it returns 0, leaves CR3
alone, and has written only frames that it obtained. -/
def InitFailsCleanly (fuel : Nat) (env : BootEnv) (m : Machine) : Prop :=
  ∀ r m', vmmInit fuel env m = some (r, m') → ∃ events, m'.trace = m.trace ++ events ∧
    (.alloc pmmInvalidFrame ∈ events → r = false ∧ m'.cr3 = m.cr3 ∧ Obtaining events)

/-- No allocation fails once `vmm_kernel_map` has been entered. -/
def KernelMapRoomy (fuel : Nat) (env : BootEnv) (m : Machine) : Prop :=
  ∀ m₁ m₂, m.frameAlloc.1 ≠ pmmInvalidFrame →
    vmmHhdmCreate fuel m.frameAlloc.1 (zero .identity m.frameAlloc.1 4096 m.frameAlloc.2) = some (true, m₁) →
    vmmKernelMap fuel env m.frameAlloc.1 m₁ = some m₂ → m₂.failures = m₁.failures

/-! ## The early tables -/

/-- The state of `vmm_init` between its first allocation and `vmm_kernel_map`: what the root links are
other frames that have been obtained. -/
structure EarlyTables (m₀ : Machine) (root : Nat) (events : List Event) (m : Machine) : Prop where
  trace : m.trace = m₀.trace ++ events
  cr3 : m.cr3 = m₀.cr3
  root_lt : root < 2 ^ 30
  root_used : m.pmm.used root = true
  root_obtained : .alloc (frameAddr root) ∈ events
  pdpt : ∀ i, tableEntry m.mem root i &&& pagePresent ≠ 0 → entryFrame (tableEntry m.mem root i) ≠ root ∧
    .alloc (frameAddr (entryFrame (tableEntry m.mem root i))) ∈ events
  writes : Obtaining events
  noFailure : .alloc pmmInvalidFrame ∉ events

section
variable {m₀ m : Machine} {root : Nat} {events : List Event} {va paddr flags : BitVec 64}

theorem EarlyTables.emit (h : EarlyTables m₀ root events m) {e : Event}
    (he : ∀ f, WritesFrame f [e]) (hok : e ≠ .alloc pmmInvalidFrame) :
    EarlyTables m₀ root (events ++ [e]) (m.emit e) where
  trace := by rw [Machine.emit, h.trace, List.append_assoc]
  cr3 := h.cr3
  root_lt := h.root_lt
  root_used := h.root_used
  root_obtained := List.mem_append_left _ h.root_obtained
  pdpt := fun i hi => ⟨(h.pdpt i hi).1, List.mem_append_left _ (h.pdpt i hi).2⟩
  writes := h.writes.append (he root) (List.mem_append_left _ h.root_obtained)
  noFailure := by
    rw [List.mem_append, List.mem_singleton, not_or]
    exact ⟨h.noFailure, hok.symm⟩

theorem EarlyTables.readEntry (h : EarlyTables m₀ root events m) (n : Nat) (i : Fin 512) :
    EarlyTables m₀ root (events ++ [.load (n * 4096 + 8 * i)]) (m.readEntry n i) :=
  h.emit (fun _ => .of_quiet (by simp)) nofun

theorem EarlyTables.setEntry {n : Nat} {v : BitVec 64} (h : EarlyTables m₀ root events m) (i : Fin 512)
    (hne : n ≠ root) (hn : .alloc (frameAddr n) ∈ events) :
    EarlyTables m₀ root (events ++ [.store (n * 4096 + 8 * i)]) (m.setEntry n i v) where
  trace := by
    rw [Machine.setEntry, Machine.emit]
    simp only [h.trace, List.append_assoc]
  cr3 := h.cr3
  root_lt := h.root_lt
  root_used := h.root_used
  root_obtained := List.mem_append_left _ h.root_obtained
  pdpt := by
    intro j hj
    have hsame : tableEntry (m.setEntry n i v).mem root j = tableEntry m.mem root j :=
      tableEntry_store64_ne fun hroot => hne hroot.1.symm
    rw [hsame] at hj ⊢
    exact ⟨(h.pdpt j hj).1, List.mem_append_left _ (h.pdpt j hj).2⟩
  writes := h.writes.append (.entry n i) (List.mem_append_left _ hn)
  noFailure := by
    rw [List.mem_append, List.mem_singleton, not_or]
    exact ⟨h.noFailure, by simp⟩

theorem EarlyTables.createTable {g : Nat} (h : EarlyTables m₀ root events m) (i : Fin 512)
    (htaken : Machine.Taken m.pmm g) :
    EarlyTables m₀ root (events ++ (.alloc (frameAddr g) :: Machine.zeroEvents g 4096 ++
      [.store (root * 4096 + 8 * i)])) (m.createTable root i g) := by
  have hlt := htaken.lt
  have hne : g ≠ root := by
    rintro rfl
    have hfree := htaken.free
    rw [h.root_used] at hfree
    cases hfree
  have hobtained : Obtaining (events ++ (.alloc (frameAddr g) :: Machine.zeroEvents g 4096)) := by
    rw [← List.singleton_append, ← List.append_assoc]
    exact (h.writes.append (f := root) (.of_quiet (by simp)) (List.mem_append_left _ h.root_obtained)).append
      (.zeroEvents g 4096 (Nat.le_refl _)) (by simp)
  refine ⟨?_, h.cr3, h.root_lt, ?_, List.mem_append_left _ h.root_obtained, ?_, ?_, ?_⟩
  · simp only [Machine.createTable, h.trace, List.append_assoc, List.cons_append]
  · rw [Machine.createTable, used_frameBitmapSet, h.root_used, Bool.or_true]
  · intro j hj
    by_cases hij : j = i
    · subst hij
      have hnew : tableEntry (m.createTable root j g).mem root j = linkEntry g :=
        tableEntry_store64_same _ _ _ _
      rw [hnew, entryFrame_linkEntry (by omega)]
      exact ⟨hne, by simp⟩
    · have hold : tableEntry (m.createTable root i g).mem root j = tableEntry m.mem root j :=
        (tableEntry_store64_ne fun hroot => hij hroot.2).trans (tableEntry_zeroFrame_ne hne.symm)
      rw [hold] at hj ⊢
      exact ⟨(h.pdpt j hj).1, List.mem_append_left _ (h.pdpt j hj).2⟩
  · rw [← List.append_assoc]
    exact hobtained.append (.entry root i) (by simp [h.root_obtained])
  · simp [h.noFailure, Machine.zeroEvents, (frameAddr_ne_invalid g).symm]

theorem EarlyTables.writeHuge (h : EarlyTables m₀ root events m)
    (hpres : tableEntry m.mem root (vaIndex va 39) &&& pagePresent ≠ 0) :
    ∃ events', EarlyTables m₀ root events' (m.writeHuge root va paddr flags) := by
  have hfollow := (h.readEntry root (vaIndex va 39)).emit
    (e := .follow (tableEntry m.mem root (vaIndex va 39))) (fun _ => .of_quiet (by simp)) nofun
  obtain ⟨hne, hobtained⟩ := hfollow.pdpt (vaIndex va 39) hpres
  exact ⟨_, hfollow.setEntry (vaIndex va 30) hne hobtained⟩

theorem vmmPage1gbMapOffline_early (h : EarlyTables m₀ root events m) :
    if (vmmPage1gbMapOffline (frameAddr root) va paddr flags m).1 then
      ∃ events', EarlyTables m₀ root events' (vmmPage1gbMapOffline (frameAddr root) va paddr flags m).2
    else ∃ events', (vmmPage1gbMapOffline (frameAddr root) va paddr flags m).2.trace = m₀.trace ++ events' ∧
      (vmmPage1gbMapOffline (frameAddr root) va paddr flags m).2.cr3 = m₀.cr3 ∧ Obtaining events' := by
  have hlt := h.root_lt
  have hread := h.readEntry root (vaIndex va 39)
  by_cases hpres : tableEntry m.mem root (vaIndex va 39) &&& pagePresent = 0
  · rcases vmmPage1gbMapOffline_absent va paddr flags
      (show root < 2 ^ 51 by omega) hpres with ⟨-, heq⟩ | ⟨g, htaken, heq⟩
    · rw [heq]
      refine ⟨_ ++ [.alloc pmmInvalidFrame], ?_, h.cr3, hread.writes.append (f := root)
        (.of_quiet (by simp)) (List.mem_append_left _ hread.root_obtained)⟩
      simp only [Machine.emit, hread.trace, List.append_assoc]
    · have hnew := hread.createTable (vaIndex va 39) htaken
      have hlinked : tableEntry ((m.readEntry root (vaIndex va 39)).createTable root (vaIndex va 39) g).mem
          root (vaIndex va 39) = linkEntry g := tableEntry_store64_same _ _ _ _
      rw [heq]
      exact hnew.writeHuge (hlinked.symm ▸ linkEntry_present g)
  · rw [vmmPage1gbMapOffline_present (show root < 2 ^ 51 by omega) hpres]
    exact hread.writeHuge hpres

theorem vmmHhdmCreate_early {fuel : Nat} {r : Bool} {m' : Machine} (h : EarlyTables m₀ root events m)
    (hloop : vmmHhdmCreate fuel (frameAddr root) m = some (r, m')) :
    if r then ∃ events', EarlyTables m₀ root events' m'
    else ∃ events', m'.trace = m₀.trace ++ events' ∧ m'.cr3 = m₀.cr3 ∧ Obtaining events' :=
  Loop.forStep_invariant (fun s => ∃ events', EarlyTables m₀ root events' s)
    (fun r s => if r then ∃ events', EarlyTables m₀ root events' s
      else ∃ events', s.trace = m₀.trace ++ events' ∧ s.cr3 = m₀.cr3 ∧ Obtaining events')
    (fun _ _ ⟨_, hs⟩ => vmmPage1gbMapOffline_early hs) (fun _ hs => hs) ⟨events, h⟩ hloop

theorem EarlyTables.start (htaken : Machine.Taken m.pmm root) :
    EarlyTables m root (.alloc (frameAddr root) :: Machine.zeroEvents root 4096) (m.takeRoot root) where
  trace := rfl
  cr3 := rfl
  root_lt := htaken.lt
  root_used := by
    have hlt := htaken.lt
    rw [Machine.takeRoot, used_frameBitmapSet, frameIdx_toNat (by omega)]
    simp
  root_obtained := List.mem_cons_self
  pdpt := by
    intro i hi
    rw [Machine.takeRoot, tableEntry_zeroFrame_self] at hi
    exact absurd (by decide) hi
  writes := by
    rw [← List.singleton_append]
    exact (Obtaining.of_quiet (by simp)).append (.zeroEvents root 4096 (Nat.le_refl _)) (by simp)
  noFailure := by simp [Machine.zeroEvents, (frameAddr_ne_invalid root).symm]

end

/-! ## `vmm_kernel_map` -/

section
variable {m : Machine}

theorem store64_trace_extends (w : Window) (ptr v : BitVec 64) (m : Machine) :
    m.trace <+: (m.store64 w ptr v).trace := List.prefix_append _ _

theorem zero_trace_extends (w : Window) (addr bytes : BitVec 64) (m : Machine) :
    m.trace <+: (zero w addr bytes m).trace :=
  Loop.forRange_rule (fun _ (s : Machine) => m.trace <+: s.trace) (Nat.zero_le _) (List.prefix_refl _)
    fun _ _ _ _ ih => ih.trans (List.prefix_append _ _)

theorem vmmPteGetOfflineLoop_trace_extends (create : Bool) (va : BitVec 64) (shifts : List Nat)
    (table : BitVec 64) (m : Machine) :
    m.trace <+: (vmmPteGetOfflineLoop create va shifts table m).2.trace := by
  induction shifts generalizing table m with
  | nil => exact List.prefix_refl _
  | cons shift shifts ih =>
      simp only [vmmPteGetOfflineLoop]
      split
      · split
        · exact List.prefix_append _ _
        · refine List.IsPrefix.trans ?_ (ih _ _)
          refine List.IsPrefix.trans ?_ (List.prefix_append _ _)
          refine List.IsPrefix.trans ?_ (store64_trace_extends _ _ _ _)
          refine List.IsPrefix.trans ?_ (zero_trace_extends _ _ _ _)
          exact (List.prefix_append m.trace _).trans (List.prefix_append _ _)
      · refine List.IsPrefix.trans ?_ (ih _ _)
        exact (List.prefix_append m.trace _).trans (List.prefix_append _ _)

theorem vmmPageMapInternal_trace_extends (pml4Virt va paddr flags : BitVec 64) (m : Machine) :
    m.trace <+: (vmmPageMapInternal pml4Virt va paddr flags m).trace := by
  have hloop := vmmPteGetOfflineLoop_trace_extends true va (levelsShift.take 3) pml4Virt m
  rw [vmmPageMapInternal, vmmPteGetOffline]
  generalize vmmPteGetOfflineLoop true va (levelsShift.take 3) pml4Virt m = r at hloop ⊢
  rcases r with ⟨_ | table, m'⟩
  · exact hloop
  · simp only
    split
    · exact hloop.trans (store64_trace_extends _ _ _ _)
    · exact hloop

theorem vmmKernelMap_trace_extends {fuel : Nat} {env : BootEnv} {pml4Virt : BitVec 64} {m' : Machine}
    (h : vmmKernelMap fuel env pml4Virt m = some m') : m.trace <+: m'.trace := by
  have hloop : ∀ {bound start : BitVec 64} {addr : BitVec 64 → BitVec 64} {s : Machine} {r : Bool × Machine},
      Loop.forStep bound pageSize (fun i s =>
        (true, vmmPageMapInternal pml4Virt (addr i) (addr i) pageWritable s)) fuel start s = some r →
          s.trace <+: r.2.trace := by
    intro bound start addr s r hrun
    refine Loop.forStep_invariant (fun t : Machine => s.trace <+: t.trace)
      (fun _ (t : Machine) => s.trace <+: t.trace) ?_ (fun _ ht => ht) (List.prefix_refl _) hrun
    intro i t ht
    rw [if_pos rfl]
    exact ht.trans (vmmPageMapInternal_trace_extends _ _ _ _ _)
  simp only [vmmKernelMap] at h
  split at h
  · cases h
  · rename_i hloop₁
    split at h
    · cases h
    · rename_i hloop₂
      cases h
      exact (hloop hloop₁).trans (hloop hloop₂)

end

/-! ## `vmm_init` -/

section
variable {fuel : Nat} {env : BootEnv} {m m' : Machine} {r : Bool}

/-- Once `vmm_kernel_map` has been entered the result is 1. -/
theorem vmmInit_of_kernelMap {m₁ m₂ : Machine} (halloc : m.frameAlloc.1 ≠ pmmInvalidFrame)
    (hhhdm : vmmHhdmCreate fuel m.frameAlloc.1 (zero .identity m.frameAlloc.1 4096 m.frameAlloc.2) =
      some (true, m₁)) (hkernel : vmmKernelMap fuel env m.frameAlloc.1 m₁ = some m₂) :
    vmmInit fuel env m = some (true, vmmPml4Load m.frameAlloc.1 m₂) := by
  simp only [vmmInit, halloc, ↓reduceIte, hhhdm, hkernel]

/-- Before `vmm_kernel_map` failures are reported; afterwards `vmm_init` returns 1 whatever happens. -/
theorem vmmInit_early (h : vmmInit fuel env m = some (r, m')) :
    (r = false ∧ ∃ events, m'.trace = m.trace ++ events ∧ m'.cr3 = m.cr3 ∧ Obtaining events) ∨
    ∃ root m₁ m₂ events, m.frameAlloc.1 = frameAddr root ∧ EarlyTables m root events m₁ ∧
      vmmHhdmCreate fuel m.frameAlloc.1 (zero .identity m.frameAlloc.1 4096 m.frameAlloc.2) =
        some (true, m₁) ∧
      vmmKernelMap fuel env m.frameAlloc.1 m₁ = some m₂ ∧ r = true ∧
      m' = vmmPml4Load (frameAddr root) m₂ := by
  rcases frameAlloc_root m with ⟨hfail, -⟩ | ⟨root, htaken, hroot, hclear⟩
  · simp only [vmmInit, hfail, ↓reduceIte] at h
    cases h
    exact Or.inl ⟨rfl, _, rfl, rfl, .of_quiet (by simp)⟩
  · have hstart := EarlyTables.start htaken
    rw [hroot] at hclear ⊢
    simp only [vmmInit, hroot, frameAddr_ne_invalid, ↓reduceIte, hclear] at h
    rw [hclear]
    split at h
    · cases h
    · rename_i m₁ hhhdm
      cases h
      exact Or.inl ⟨rfl, vmmHhdmCreate_early hstart hhhdm⟩
    · rename_i m₁ hhhdm
      obtain ⟨events, hearly⟩ := vmmHhdmCreate_early hstart hhhdm
      split at h
      · cases h
      · rename_i m₂ hkernel
        cases h
        exact Or.inr ⟨root, m₁, m₂, events, rfl, hearly, hhhdm, hkernel, rfl, rfl⟩

/-- A failure is reported cleanly exactly if none happens in `vmm_kernel_map`. -/
theorem initFailsCleanly_iff_roomy : InitFailsCleanly fuel env m ↔ KernelMapRoomy fuel env m := by
  constructor
  · intro hclean m₁ m₂ halloc hhhdm hkernel
    have hinit := vmmInit_of_kernelMap halloc hhhdm hkernel
    obtain ⟨events, htrace, hfail⟩ := hclean _ _ hinit
    rcases vmmInit_early hinit with ⟨hr, -⟩ | ⟨root, m₁', m₂', early, -, hearly, hhhdm', hkernel', -, -⟩
    · cases hr
    · rw [hhhdm] at hhhdm'
      cases hhhdm'
      rw [hkernel] at hkernel'
      cases hkernel'
      obtain ⟨late, hlate⟩ := vmmKernelMap_trace_extends hkernel
      by_contra hne
      have hmem : .alloc pmmInvalidFrame ∈ late := by
        by_contra hnot
        refine hne ?_
        rw [Machine.failures, Machine.failures, ← hlate, List.count_append,
          List.count_eq_zero.mpr hnot, Nat.add_zero]
      have hall : events = early ++ late ++ [.cr3 m.frameAlloc.1] := by
        refine List.append_right_injective m.trace ?_
        simp only
        rw [← htrace, vmmPml4Load, Machine.emit]
        simp only [← hlate, hearly.trace, List.append_assoc]
      have hr := (hfail (by rw [hall]; simp [hmem])).1
      cases hr
  · intro hroomy r m' hinit
    rcases vmmInit_early hinit with ⟨hr, events, htrace, hcr3, hwrites⟩ |
      ⟨root, m₁, m₂, early, hroot, hearly, hhhdm, hkernel, -, rfl⟩
    · exact ⟨events, htrace, fun _ => ⟨hr, hcr3, hwrites⟩⟩
    · obtain ⟨late, hlate⟩ := vmmKernelMap_trace_extends hkernel
      have hsame := hroomy m₁ m₂ (hroot ▸ frameAddr_ne_invalid root) hhhdm hkernel
      have hnot : .alloc pmmInvalidFrame ∉ late := by
        rw [Machine.failures, Machine.failures, ← hlate, List.count_append] at hsame
        exact List.count_eq_zero.mp (by omega)
      refine ⟨early ++ late ++ [.cr3 (frameAddr root)], ?_, fun hmem => ?_⟩
      · rw [vmmPml4Load, Machine.emit]
        simp only [← hlate, hearly.trace, List.append_assoc]
      · simp [hearly.noFailure, hnot] at hmem

end

end BootKernel
