import BootKernel.Vmm.Calls
import BootKernel.Vmm.Lemmas.Walkers

/-!
# What a call reads and writes

The trace of a call shows which entries the walk has followed, and so which frames it has taken for
tables. A call is safe when it follows no entry with the PS bit and touches nothing but these frames.
Nothing is assumed of the memory here.
-/

namespace BootKernel

open Radix

/-! ## Safe events -/

/-- The walk has taken the frame for a table. -/
def TableOf (root : Nat) (evs : List Event) (f : Nat) : Prop :=
  f = root ∨ ∃ e, .follow e ∈ evs ∧ entryFrame e = f

structure SafeEvents (root : Nat) (evs : List Event) : Prop where
  follow : ∀ e, .follow e ∈ evs → e &&& psBit = 0
  load : ∀ pa, .load pa ∈ evs → TableOf root evs (pa / 4096)
  store : ∀ pa, .store pa ∈ evs → TableOf root evs (pa / 4096)

/-- The event follows nothing and touches no other frame. -/
def Event.Within (f : Nat) : Event → Prop
  | .load pa => pa / 4096 = f
  | .store pa => pa / 4096 = f
  | .follow _ => False
  | _ => True

section
variable {n t : Nat} {e : BitVec 64} {evs evs' : List Event}

theorem TableOf.append (h : TableOf n evs t) (evs' : List Event) : TableOf n (evs ++ evs') t := by
  rcases h with rfl | ⟨e, he, hf⟩
  · exact Or.inl rfl
  · exact Or.inr ⟨e, List.mem_append_left _ he, hf⟩

theorem TableOf.follow (h : TableOf (entryFrame e) evs t) (pre : List Event) :
    TableOf n (pre ++ .follow e :: evs) t := by
  rcases h with rfl | ⟨e', he', hf⟩
  · exact Or.inr ⟨e, by simp, rfl⟩
  · exact Or.inr ⟨e', by simp [he'], hf⟩

theorem SafeEvents.nil (n : Nat) : SafeEvents n [] := ⟨nofun, nofun, nofun⟩

theorem SafeEvents.append (h : SafeEvents n evs) (ht : TableOf n evs t)
    (hwithin : ∀ ev ∈ evs', ev.Within t) : SafeEvents n (evs ++ evs') := by
  refine ⟨fun e he => ?_, fun pa hpa => ?_, fun pa hpa => ?_⟩
  · rcases List.mem_append.mp he with he | he
    · exact h.follow e he
    · exact (hwithin _ he).elim
  · rcases List.mem_append.mp hpa with hpa | hpa
    · exact (h.load pa hpa).append _
    · have hframe : pa / 4096 = t := hwithin _ hpa
      exact hframe ▸ ht.append _
  · rcases List.mem_append.mp hpa with hpa | hpa
    · exact (h.store pa hpa).append _
    · have hframe : pa / 4096 = t := hwithin _ hpa
      exact hframe ▸ ht.append _

theorem SafeEvents.silent_append (h : SafeEvents n evs) (hsilent : ∀ f, ∀ ev ∈ evs', ev.Within f) :
    SafeEvents n (evs' ++ evs) := by
  have htable : ∀ f, TableOf n evs f → TableOf n (evs' ++ evs) f := by
    rintro f (rfl | ⟨e, he, hf⟩)
    · exact Or.inl rfl
    · exact Or.inr ⟨e, List.mem_append_right _ he, hf⟩
  refine ⟨fun e he => ?_, fun pa hpa => ?_, fun pa hpa => ?_⟩
  · rcases List.mem_append.mp he with he | he
    · exact (hsilent 0 _ he).elim
    · exact h.follow e he
  · rcases List.mem_append.mp hpa with hpa | hpa
    · exact Or.inl (hsilent n _ hpa)
    · exact htable _ (h.load pa hpa)
  · rcases List.mem_append.mp hpa with hpa | hpa
    · exact Or.inl (hsilent n _ hpa)
    · exact htable _ (h.store pa hpa)

theorem SafeEvents.follow_cons (h : SafeEvents (entryFrame e) evs) (hps : e &&& psBit = 0)
    (hwithin : ∀ ev ∈ evs', ev.Within n ∨ ev.Within (entryFrame e)) :
    SafeEvents n (evs' ++ .follow e :: evs) := by
  have hself : TableOf n (evs' ++ .follow e :: evs) (entryFrame e) :=
    TableOf.follow (Or.inl rfl) evs'
  refine ⟨fun e' he' => ?_, fun pa hpa => ?_, fun pa hpa => ?_⟩
  · rcases List.mem_append.mp he' with he' | he'
    · exact (hwithin _ he').elim False.elim False.elim
    · rcases List.mem_cons.mp he' with heq | he'
      · cases heq
        exact hps
      · exact h.follow e' he'
  · rcases List.mem_append.mp hpa with hpa | hpa
    · rcases hwithin _ hpa with hframe | hframe
      · exact Or.inl hframe
      · exact hframe.symm ▸ hself
    · rcases List.mem_cons.mp hpa with heq | hpa
      · cases heq
      · exact (h.load pa hpa).follow evs'
  · rcases List.mem_append.mp hpa with hpa | hpa
    · rcases hwithin _ hpa with hframe | hframe
      · exact Or.inl hframe
      · exact hframe.symm ▸ hself
    · rcases List.mem_cons.mp hpa with heq | hpa
      · cases heq
      · exact (h.store pa hpa).follow evs'

end

/-! ## Descents that meet no large page -/

/-- What a walk meets from a table on: no leaf above the last level, or a table that is fresh and has
at most a link to itself. -/
def ClearBelow (mem : Memory) (depth n : Nat) (path : List (Fin 512)) : Prop :=
  (∀ d e, lookup (slots mem) depth n path = some (d, e) → d = 3) ∨
  (n < 2 ^ 40 ∧ ∀ i, tableEntry mem n i &&& pagePresent = 0 ∨ tableEntry mem n i = linkEntry n)

section
variable {mem : Memory} {depth n g : Nat} {i : Fin 512} {path : List (Fin 512)}

/-- A present entry on such a walk has no PS bit, and the walk goes on in the same way. -/
theorem ClearBelow.follow (h : ClearBelow mem depth n (i :: path)) (hdepth : depth < 3)
    (hpres : tableEntry mem n i &&& pagePresent ≠ 0) :
    tableEntry mem n i &&& psBit = 0 ∧
      ClearBelow mem (depth + 1) (entryFrame (tableEntry mem n i)) path := by
  rcases h with hps | ⟨hn, hfresh⟩
  · cases hs : slots mem depth n i with
    | empty => exact absurd (entrySlot_eq_empty.mp hs) hpres
    | leaf e =>
        have hd := hps depth e (by simp only [lookup, hs])
        omega
    | node f =>
        obtain ⟨-, -, hbit, hframe⟩ := entrySlot_eq_node.mp hs
        refine ⟨hbit, Or.inl fun d e hl => hps d e ?_⟩
        simp only [lookup, hs]
        rw [← hframe]
        exact hl
  · rcases hfresh i with habs | hlink
    · exact absurd habs hpres
    · rw [hlink, entryFrame_linkEntry hn]
      exact ⟨linkEntry_ps n, Or.inr ⟨hn, hfresh⟩⟩

/-- A table that has just been created and linked, into whatever table. -/
theorem clearBelow_linkTable (hg : g < 2 ^ 40) :
    ClearBelow (linkTable mem n i g) depth g path := by
  refine Or.inr ⟨hg, fun j => ?_⟩
  by_cases hself : g = n ∧ j = i
  · obtain ⟨rfl, rfl⟩ := hself
    exact Or.inr (tableEntry_store64_same _ _ _ _)
  · left
    rw [linkTable, tableEntry_store64_ne hself, tableEntry_zeroFrame_self]
    decide

end

theorem within_zeroEvents (g k : Nat) (hk : k ≤ 4096) : ∀ ev ∈ Machine.zeroEvents g k, ev.Within g := by
  intro ev hev
  obtain ⟨off, hoff, rfl⟩ := List.mem_map.mp hev
  have hlt := List.mem_range.mp hoff
  simp only [Event.Within]
  omega

theorem within_slot (n : Nat) (i : Fin 512) : (n * 4096 + 8 * i) / 4096 = n := by
  have hi := i.isLt
  omega

section
variable {create : Bool} {va : BitVec 64} {shifts : List Nat} {n t : Nat} {m m' : Machine}

theorem Descent.safe (depth : Nat) (rest : List (Fin 512)) (hd : Descent create va shifts n m t m')
    (hclear : ClearBelow m.mem depth n (shifts.map (vaIndex va) ++ rest))
    (hlen : depth + shifts.length ≤ 3) :
    ∃ evs, m'.trace = m.trace ++ evs ∧ SafeEvents n evs ∧ TableOf n evs t := by
  induction hd generalizing depth with
  | here => exact ⟨[], (List.append_nil _).symm, .nil _, Or.inl rfl⟩
  | @follow shift shifts n m t m' hpres _ ih =>
      simp only [List.length_cons] at hlen
      obtain ⟨hps, hnext⟩ := hclear.follow (by omega) hpres
      obtain ⟨evs, htrace, hsafe, ht⟩ := ih _ hnext (by omega)
      refine ⟨[.load (n * 4096 + 8 * vaIndex va shift)] ++
        .follow (tableEntry m.mem n (vaIndex va shift)) :: evs, ?_, hsafe.follow_cons hps ?_, ht.follow _⟩
      · rw [htrace]
        simp [Machine.readEntry, Machine.emit]
      · simp [Event.Within, within_slot]
  | @enter shift shifts n m t m' g _ _ htaken _ ih =>
      simp only [List.length_cons] at hlen
      have hg := htaken.lt
      have hframe : entryFrame (linkEntry g) = g := entryFrame_linkEntry (by omega)
      have hnext : ClearBelow (m.enterNew n (vaIndex va shift) g).mem (depth + 1) g
          (shifts.map (vaIndex va) ++ rest) := clearBelow_linkTable (by omega)
      obtain ⟨evs, htrace, hsafe, ht⟩ := ih _ hnext (by omega)
      rw [← hframe] at hsafe ht
      refine ⟨(.load (n * 4096 + 8 * vaIndex va shift) :: .alloc (frameAddr g) ::
        Machine.zeroEvents g 4096 ++ [.store (n * 4096 + 8 * vaIndex va shift)]) ++
          .follow (linkEntry g) :: evs, ?_, hsafe.follow_cons (linkEntry_ps g) ?_, ht.follow _⟩
      · rw [htrace]
        simp [Machine.enterNew, Machine.createTable, Machine.readEntry, Machine.emit]
      · rw [hframe]
        intro ev hev
        simp only [List.cons_append, List.mem_cons, List.mem_append, List.not_mem_nil, or_false] at hev
        rcases hev with rfl | rfl | hev | rfl
        · exact Or.inl (within_slot _ _)
        · exact Or.inl trivial
        · exact Or.inr (within_zeroEvents g 4096 (Nat.le_refl _) ev hev)
        · exact Or.inl (within_slot _ _)

theorem Stuck.within {i : Fin 512} (h : Stuck create m n i m') :
    ∃ evs, m'.trace = m.trace ++ evs ∧ ∀ ev ∈ evs, ev.Within n := by
  cases h with
  | absent _ => exact ⟨[.load (n * 4096 + 8 * i)], rfl, by simp [Event.Within, within_slot]⟩
  | full _ _ =>
      refine ⟨[.load (n * 4096 + 8 * i), .alloc pmmInvalidFrame], ?_, ?_⟩
      · simp [Machine.readEntry, Machine.emit]
      · simp [Event.Within, within_slot]

end

/-! ## The online walker -/

section
variable {root : Nat} {va : BitVec 64} {m : Machine}

theorem TableOf.lt {evs : List Event} {t : Nat} (h : TableOf root evs t) (hroot : root < 2 ^ 40) :
    t < 2 ^ 40 := by
  rcases h with rfl | ⟨e, _, rfl⟩
  · exact hroot
  · exact entryFrame_lt e

/-- The pointer that the walker returns is null, or points into one of the tables. -/
def PointsInto (root : Nat) (evs : List Event) (pte : BitVec 64) : Prop :=
  pte = 0 ∨ TableOf root evs (Window.hhdm.phys pte / 4096)

/-- When the walk meets no large page, the walker touches only tables. -/
theorem vmmPteGet_safe (create : Bool) (hroot : root < 2 ^ 40) (hps : WalksToPt m.mem root va) :
    ∃ evs, (vmmPteGet (frameAddr root) va create m).2.trace = m.trace ++ evs ∧
      SafeEvents root evs ∧ PointsInto root evs (vmmPteGet (frameAddr root) va create m).1 := by
  rcases vmmPteGetLoop_descent create va (levelsShift.take 3) m (show root < 2 ^ 51 by omega) with
    ⟨t, m', heq, hd⟩ | ⟨above, shift, below, t, m₁, m', hsplit, hd, -, hstuck, heq⟩
  · obtain ⟨evs, htrace, hsafe, ht⟩ :=
      hd.safe 0 [vaIndex va 12] (Or.inl hps) (by decide)
    have hlt := ht.lt hroot
    have hget : vmmPteGet (frameAddr root) va create m =
        (entryPtr (Window.hhdm.base (frameAddr t)) ((va >>> 12) &&& 0x1FF), m') := by
      rw [vmmPteGet, heq]
      rfl
    refine ⟨evs, by rw [hget]; exact htrace, hsafe, Or.inr ?_⟩
    rw [hget]
    simp only [Window.phys_entryPtr .hhdm (show t < 2 ^ 51 by omega) (index_toNat va 12), within_slot]
    exact ht
  · obtain ⟨hpath, hlen⟩ : vaPath va = above.map (vaIndex va) ++
        (vaIndex va shift :: below.map (vaIndex va) ++ [vaIndex va 12]) ∧ above.length ≤ 3 := by
      have hlength := congrArg List.length hsplit
      simp only [List.length_take, List.length_append, List.length_cons, levelsShift,
        List.length_nil] at hlength
      rw [vaPath_eq_ptPath, ptPath, hsplit]
      exact ⟨by simp, by omega⟩
    rw [WalksToPt, walk, hpath] at hps
    obtain ⟨evs, htrace, hsafe, ht⟩ := hd.safe 0 _ (Or.inl hps) (by omega)
    obtain ⟨evs', htrace', hwithin⟩ := hstuck.within
    have hget : vmmPteGet (frameAddr root) va create m = (0, m') := by rw [vmmPteGet, heq]
    refine ⟨evs ++ evs', ?_, hsafe.append ht hwithin, Or.inl ?_⟩
    · rw [hget, htrace', htrace, List.append_assoc]
    · rw [hget]

theorem Descent.trace_extends {create : Bool} {shifts : List Nat} {n t : Nat} {m' : Machine}
    (hd : Descent create va shifts n m t m') : m.trace <+: m'.trace := by
  induction hd with
  | here => exact List.prefix_refl _
  | follow _ _ ih =>
      refine List.IsPrefix.trans ?_ ih
      simp [Machine.readEntry, Machine.emit]
  | enter _ _ _ _ ih =>
      refine List.IsPrefix.trans ?_ ih
      simp [Machine.enterNew, Machine.createTable, Machine.readEntry, Machine.emit]

theorem vmmPteGetLoop_trace_extends (create : Bool) (va : BitVec 64) (shifts : List Nat) {n : Nat}
    (m : Machine) (hn : n < 2 ^ 51) :
    m.trace <+: (vmmPteGetLoop create va shifts (frameAddr n) m).2.trace := by
  rcases vmmPteGetLoop_descent create va shifts m hn with
    ⟨t, m', heq, hd⟩ | ⟨above, shift, below, t, m₁, m', -, hd, -, hstuck, heq⟩
  · rw [heq]
    exact hd.trace_extends
  · obtain ⟨evs, htrace, -⟩ := hstuck.within
    rw [heq]
    exact hd.trace_extends.trans ⟨evs, htrace.symm⟩

/-- When the walk of the processor ends in a leaf above the last level, the walker follows it. -/
theorem vmmPteGetLoop_follows (create : Bool) (shifts : List Nat) {depth n d : Nat} {j : Fin 512}
    {e : BitVec 64} (hn : n < 2 ^ 51) (hlen : depth + shifts.length = 3)
    (hl : lookup (slots m.mem) depth n (shifts.map (vaIndex va) ++ [j]) = some (d, e)) (hd : d ≠ 3) :
    ∃ evs, (vmmPteGetLoop create va shifts (frameAddr n) m).2.trace = m.trace ++ evs ∧
      .follow e ∈ evs ∧ e &&& psBit ≠ 0 := by
  induction shifts generalizing depth n m with
  | nil =>
      simp only [List.length_nil, Nat.add_zero] at hlen
      simp only [List.map_nil, List.nil_append, lookup] at hl
      split at hl
      · cases hl
      · cases hl
      · cases hl
        exact absurd hlen hd
  | cons shift shifts ih =>
      simp only [List.length_cons] at hlen
      simp only [List.map_cons, List.cons_append, lookup] at hl
      cases hs : slots m.mem depth n (vaIndex va shift) with
      | empty =>
          rw [hs] at hl
          cases hl
      | node f =>
          rw [hs] at hl
          obtain ⟨hpres, -, -, hframe⟩ := entrySlot_eq_node.mp hs
          have hlt := entryFrame_lt (tableEntry m.mem n (vaIndex va shift))
          rw [vmmPteGetLoop_present hn hpres, hframe]
          obtain ⟨evs, htrace, hmem, hps⟩ := ih (n := f) (m := (m.readEntry n (vaIndex va shift)).emit
            (.follow (tableEntry m.mem n (vaIndex va shift)))) (by omega) (by omega) hl
          refine ⟨[.load (n * 4096 + 8 * vaIndex va shift),
            .follow (tableEntry m.mem n (vaIndex va shift))] ++ evs, ?_, by simp [hmem], hps⟩
          rw [htrace]
          simp [Machine.readEntry, Machine.emit]
      | leaf l =>
          rw [hs] at hl
          cases hl
          obtain ⟨hpres, hleaf, rfl⟩ := entrySlot_eq_leaf.mp hs
          rw [vmmPteGetLoop_present hn hpres]
          have hlt := entryFrame_lt (tableEntry m.mem n (vaIndex va shift))
          obtain ⟨evs, htrace⟩ := vmmPteGetLoop_trace_extends create va shifts
            ((m.readEntry n (vaIndex va shift)).emit
              (.follow (tableEntry m.mem n (vaIndex va shift))))
            (show entryFrame (tableEntry m.mem n (vaIndex va shift)) < 2 ^ 51 by omega)
          refine ⟨[.load (n * 4096 + 8 * vaIndex va shift),
            .follow (tableEntry m.mem n (vaIndex va shift))] ++ evs, ?_, by simp, ?_⟩
          · rw [← htrace]
            simp [Machine.readEntry, Machine.emit]
          · exact hleaf.resolve_left (by omega)

theorem vmmPteGet_follows (create : Bool) (hroot : root < 2 ^ 40) (hps : ¬ WalksToPt m.mem root va) :
    ∃ evs e, (vmmPteGet (frameAddr root) va create m).2.trace = m.trace ++ evs ∧ .follow e ∈ evs ∧
      e &&& psBit ≠ 0 := by
  simp only [WalksToPt, not_forall] at hps
  obtain ⟨d, e, hwalk, hd⟩ := hps
  obtain ⟨evs, htrace, hmem, hbit⟩ := vmmPteGetLoop_follows create (levelsShift.take 3)
    (show root < 2 ^ 51 by omega) rfl hwalk hd
  refine ⟨evs, e, ?_, hmem, hbit⟩
  rw [← htrace, vmmPteGet]
  rcases vmmPteGetLoop create va (levelsShift.take 3) (frameAddr root) m with ⟨_ | table, m'⟩ <;> rfl

/-! ## Calls -/

/-- What a call does after the walk: it touches nothing but the slot that the pointer names. -/
def AtPointer (pte : BitVec 64) (tail : List Event) : Prop :=
  ∀ f, (pte = 0 ∨ Window.hhdm.phys pte / 4096 = f) → ∀ ev ∈ tail, ev.Within f

/-- A call that walks, and then touches at most the slot, is safe exactly when the walk meets no
large page. -/
theorem safeEvents_iff {m₀ m' : Machine} {create : Bool} {pre tail : List Event}
    (hroot : root < 2 ^ 40) (hmem : m₀.mem = m.mem) (hpre : m₀.trace = m.trace ++ pre)
    (hsilent : ∀ f, ∀ ev ∈ pre, ev.Within f)
    (htrace : m'.trace = (vmmPteGet (frameAddr root) va create m₀).2.trace ++ tail)
    (htail : AtPointer (vmmPteGet (frameAddr root) va create m₀).1 tail) :
    (∃ evs, m'.trace = m.trace ++ evs ∧ SafeEvents root evs) ↔ WalksToPt m.mem root va := by
  constructor
  · rintro ⟨evs, heq, hsafe⟩
    by_contra hps
    rw [← hmem] at hps
    obtain ⟨evs', e, hwalk, hfollow, hbit⟩ := vmmPteGet_follows create hroot hps
    rw [htrace, hwalk, hpre, List.append_assoc, List.append_assoc] at heq
    have hevs := List.append_cancel_left heq
    exact hbit (hsafe.follow e (hevs ▸ by simp [hfollow]))
  · intro hps
    rw [← hmem] at hps
    obtain ⟨evs, hwalk, hsafe, hpoints⟩ := vmmPteGet_safe create hroot hps
    have hevs : SafeEvents root (evs ++ tail) := by
      rcases hpoints with hnull | htable
      · exact hsafe.append (Or.inl rfl) (htail root (Or.inl hnull))
      · exact hsafe.append htable (htail _ (Or.inr rfl))
    refine ⟨pre ++ (evs ++ tail), ?_, ?_⟩
    · rw [htrace, hwalk, hpre, List.append_assoc, List.append_assoc]
    · exact hevs.silent_append hsilent

end

section
variable {m : Machine}

theorem vmmPageMap_trace (pml4Phys va paddr flags : BitVec 64) (m : Machine) :
    ∃ tail, (vmmPageMap pml4Phys va paddr flags m).2.trace =
        (vmmPteGet pml4Phys va true m).2.trace ++ tail ∧
      AtPointer (vmmPteGet pml4Phys va true m).1 tail := by
  rw [vmmPageMap]
  rcases vmmPteGet pml4Phys va true m with ⟨pte, m'⟩
  by_cases hnull : pte = 0
  · exact ⟨[], by simp [hnull], fun _ _ _ h => absurd h List.not_mem_nil⟩
  · refine ⟨[.store (Window.hhdm.phys pte), .invlpg va], ?_, ?_⟩
    · simp only [if_neg hnull]
      simp [invlpg, Machine.store64, Machine.emit]
    · rintro f (h | rfl)
      · exact absurd h hnull
      · simp [Event.Within]

theorem vmmPageUnmap_trace (pml4Phys va : BitVec 64) (out : Option (BitVec 64)) (m : Machine) :
    ∃ tail, (vmmPageUnmap pml4Phys va out m).2.2.trace =
        (vmmPteGet pml4Phys va false m).2.trace ++ tail ∧
      AtPointer (vmmPteGet pml4Phys va false m).1 tail := by
  rw [vmmPageUnmap]
  rcases vmmPteGet pml4Phys va false m with ⟨pte, m'⟩
  by_cases hnull : pte = 0
  · exact ⟨[], by simp [hnull], fun _ _ _ h => absurd h List.not_mem_nil⟩
  · cases out with
    | none =>
        refine ⟨[.store (Window.hhdm.phys pte), .invlpg va], ?_, ?_⟩
        · simp only [if_neg hnull]
          simp [invlpg, Machine.store64, Machine.emit]
        · rintro f (h | rfl)
          · exact absurd h hnull
          · simp [Event.Within]
    | some _ =>
        refine ⟨[.load (Window.hhdm.phys pte), .store (Window.hhdm.phys pte), .invlpg va], ?_, ?_⟩
        · simp only [if_neg hnull]
          simp [invlpg, Machine.store64, Machine.load64, Machine.emit]
        · rintro f (h | rfl)
          · exact absurd h hnull
          · simp [Event.Within]

/-- What a call adds to the trace is safe. -/
def SafeCall (m : Machine) (c : VmmCall) : Prop :=
  ∃ evs, (vmmCall m c).trace = m.trace ++ evs ∧ SafeEvents (rootFrame m) evs

/-- The call does not reach a walk, because the page itself cannot be allocated. -/
def VmmCall.NoPage (m : Machine) : VmmCall → Prop
  | .pageAlloc _ _ => (pmmFrameAlloc m.pmm).1 = pmmInvalidFrame
  | _ => False

/-- A call is safe exactly when the processor's walk of its address meets no large page, or there is
no walk. -/
theorem safeCall_iff (m : Machine) (c : VmmCall) :
    SafeCall m c ↔ WalksToPt m.mem (rootFrame m) c.vaddr ∨ c.NoPage m := by
  have hroot : rootFrame m < 2 ^ 40 := entryFrame_lt m.cr3
  cases c with
  | pageMap va paddr flags =>
      obtain ⟨tail, htrace, htail⟩ := vmmPageMap_trace (frameAddr (rootFrame m)) va paddr flags m
      simp only [VmmCall.NoPage, or_false, SafeCall, vmmCall, vmmPml4Get_eq]
      exact safeEvents_iff hroot rfl (List.append_nil _).symm (fun _ => nofun) htrace htail
  | pageUnmap va wants =>
      obtain ⟨tail, htrace, htail⟩ := vmmPageUnmap_trace (frameAddr (rootFrame m)) va
        (if wants then some 0 else none) m
      simp only [VmmCall.NoPage, or_false, SafeCall, vmmCall, vmmPml4Get_eq]
      exact safeEvents_iff hroot rfl (List.append_nil _).symm (fun _ => nofun) htrace htail
  | pageAlloc va flags =>
      have hpml4 : vmmPml4Get m.frameAlloc.2 = frameAddr (rootFrame m) := by
        rw [vmmPml4Get_eq, rootFrame, m.frameAlloc_cr3, rootFrame]
      have hframe : m.frameAlloc = ((pmmFrameAlloc m.pmm).1, m.frameAlloc.2) := rfl
      by_cases hfail : (pmmFrameAlloc m.pmm).1 = pmmInvalidFrame
      · refine iff_of_true ⟨[.alloc (pmmFrameAlloc m.pmm).1], ?_, ?_⟩ (Or.inr hfail)
        · rw [vmmCall, vmmPageAlloc, hframe]
          simp only [if_pos hfail]
          rfl
        · exact ⟨by simp, by simp, by simp⟩
      · obtain ⟨tail, htrace, htail⟩ := vmmPageMap_trace (frameAddr (rootFrame m)) va
          (pmmFrameAlloc m.pmm).1 flags m.frameAlloc.2
        have hcall : (vmmCall m (.pageAlloc va flags)).trace =
            (vmmPageMap (frameAddr (rootFrame m)) va (pmmFrameAlloc m.pmm).1 flags
              m.frameAlloc.2).2.trace := by
          rw [vmmCall, vmmPageAlloc, hframe]
          simp only [if_neg hfail, hpml4]
          split <;> rfl
        rw [← hcall] at htrace
        simp only [VmmCall.NoPage, hfail, or_false, SafeCall]
        exact safeEvents_iff hroot m.frameAlloc_mem m.frameAlloc_trace (by simp [Event.Within]) htrace
          htail
  | pageFree va flags =>
      obtain ⟨tail, htrace, htail⟩ := vmmPageUnmap_trace (frameAddr (rootFrame m)) va (some 0) m
      obtain ⟨tail', htrace', hsilent⟩ : ∃ tail', (vmmCall m (.pageFree va flags)).trace =
          (vmmPageUnmap (frameAddr (rootFrame m)) va (some 0) m).2.2.trace ++ tail' ∧
            ∀ f, ∀ ev ∈ tail', ev.Within f := by
        rw [vmmCall, vmmPageFree, vmmPml4Get_eq]
        split
        · rename_i addr m' hunmap
          rw [hunmap]
          exact ⟨[.free (addr >>> pageShift)], rfl, by simp [Event.Within]⟩
        · rename_i m' _ hunmap
          rw [hunmap]
          exact ⟨[], (List.append_nil _).symm, fun _ => nofun⟩
      simp only [VmmCall.NoPage, or_false, SafeCall]
      rw [htrace, List.append_assoc] at htrace'
      refine safeEvents_iff hroot rfl (List.append_nil _).symm (fun _ => nofun) htrace'
        fun f hf ev hev => ?_
      rcases List.mem_append.mp hev with hev | hev
      · exact htail f hf ev hev
      · exact hsilent f ev hev

end

end BootKernel
