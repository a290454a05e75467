import BootKernel.Vmm.Lemmas.Tables

/-!
# What the machine does for the paging code

Each access that the walkers make, as its effect on tables: reading or writing an entry through a
window, and taking, clearing and linking a fresh frame. Failed allocations are counted in the trace.
-/

namespace BootKernel

/-! ## Pointers -/

/-- The pointer that reaches a physical address. -/
def Window.base : Window → BitVec 64 → BitVec 64
  | .identity, pa => pa
  | .hhdm, pa => vmmPhysToVirt pa

section
variable {f off : Nat} {i : Fin 512}

theorem Window.phys_base (w : Window) (hf : f < 2 ^ 51) (hoff : off < 4096) :
    w.phys (w.base (frameAddr f) + BitVec.ofNat 64 off) = f * 4096 + off := by
  have hnat : (frameAddr f + BitVec.ofNat 64 off).toNat = f * 4096 + off := by
    rw [BitVec.toNat_add, frameAddr_toNat (by omega), frameIdx_toNat (by omega)]
    omega
  cases w with
  | identity => exact hnat
  | hhdm =>
      rw [← hnat, Window.phys, Window.base, virtToPhys, vmmPhysToVirt]
      congr 1
      rw [BitVec.add_assoc, BitVec.add_comm hhdmOffset, ← BitVec.add_assoc, BitVec.add_sub_cancel]

theorem Window.phys_entryPtr (w : Window) (hf : f < 2 ^ 51) {idx : BitVec 64} (hidx : idx.toNat = i) :
    w.phys (entryPtr (w.base (frameAddr f)) idx) = f * 4096 + 8 * i := by
  have hi := i.isLt
  have hoff : 8 * idx = BitVec.ofNat 64 (8 * i) := by
    apply BitVec.eq_of_toNat_eq
    have height : (8 : BitVec 64).toNat = 8 := by decide
    rw [BitVec.toNat_mul, hidx, height, frameIdx_toNat (by omega), Nat.mod_eq_of_lt (by omega)]
  rw [entryPtr, hoff, w.phys_base hf (by omega)]

/-- Early pointers into tables are null for the frame 0 alone. -/
theorem entryPtr_ne_zero (hf : f < 2 ^ 51) (hne : f ≠ 0) {idx : BitVec 64} (hidx : idx.toNat = i) :
    entryPtr (frameAddr f) idx ≠ 0 := by
  intro h
  have hnat : (entryPtr (frameAddr f) idx).toNat = f * 4096 + 8 * i :=
    Window.identity.phys_entryPtr hf hidx
  rw [h] at hnat
  have hzero : (0 : BitVec 64).toNat = 0 := rfl
  omega

end

/-- The address part of an entry is the address of the frame that it points to. -/
theorem and_pageAddrMask (e : BitVec 64) : e &&& pageAddrMask = frameAddr (entryFrame e) := by
  have hlt := entryFrame_lt e
  apply BitVec.eq_of_toNat_eq
  rw [and_pageAddrMask_toNat, frameAddr_toNat (by omega)]

namespace Machine

/-! ## Entries -/

section
variable {n : Nat}

theorem load64_entry (w : Window) (hn : n < 2 ^ 51) (va : BitVec 64) (shift : Nat) (m : Machine) :
    m.load64 w (entryPtr (w.base (frameAddr n)) ((va >>> shift) &&& 0x1FF)) =
      (tableEntry m.mem n (vaIndex va shift), m.emit (.load (n * 4096 + 8 * vaIndex va shift))) := by
  rw [load64, w.phys_entryPtr hn (index_toNat va shift)]
  rfl

/-- The machine after slot `i` of the table `n` has been written. -/
def setEntry (m : Machine) (n : Nat) (i : Fin 512) (v : BitVec 64) : Machine :=
  { m with mem := BootKernel.setEntry m.mem n i v }.emit (.store (n * 4096 + 8 * i))

theorem store64_entry (w : Window) (hn : n < 2 ^ 51) (va : BitVec 64) (shift : Nat) (v : BitVec 64)
    (m : Machine) :
    m.store64 w (entryPtr (w.base (frameAddr n)) ((va >>> shift) &&& 0x1FF)) v =
      m.setEntry n (vaIndex va shift) v := by
  rw [store64, w.phys_entryPtr hn (index_toNat va shift)]
  rfl

end

/-! ## Fresh tables -/

/-- The stores that clear the first `k` bytes of a frame. -/
def zeroEvents (g k : Nat) : List Event := (List.range k).map fun off => .store (g * 4096 + off)

/-- The memory after the first `k` bytes of a frame have been cleared. -/
def zeroPrefix (mem : Memory) (g k : Nat) : Memory :=
  fun x => if g * 4096 ≤ x ∧ x < g * 4096 + k then 0 else mem x

theorem zeroPrefix_zero (mem : Memory) (g : Nat) : zeroPrefix mem g 0 = mem := by
  funext x
  exact if_neg (by omega)

theorem store8_zeroPrefix (mem : Memory) (g k : Nat) :
    (zeroPrefix mem g k).store8 (g * 4096 + k) 0 = zeroPrefix mem g (k + 1) := by
  funext x
  simp only [Memory.store8, zeroPrefix]
  by_cases hx : x = g * 4096 + k
  · rw [if_pos hx, if_pos (by omega)]
  · rw [if_neg hx]
    congr 1
    exact propext (by omega)

theorem zeroPrefix_page (mem : Memory) (g : Nat) : zeroPrefix mem g 4096 = zeroFrame mem g := by
  funext x
  rw [zeroPrefix, zeroFrame]
  congr 1
  exact propext (by omega)

theorem zero_upTo (w : Window) {g k : Nat} (hg : g < 2 ^ 51) (hk : k ≤ 4096) (m : Machine) :
    Loop.forRange 0 k (fun i m => m.store8 w (w.base (frameAddr g) + BitVec.ofNat 64 i) 0) m =
      { m with mem := zeroPrefix m.mem g k, trace := m.trace ++ zeroEvents g k } := by
  induction k with
  | zero =>
      rw [Loop.forRange_empty (Nat.le_refl 0), zeroPrefix_zero, zeroEvents, List.range_zero,
        List.map_nil, List.append_nil]
  | succ k ih =>
      rw [Loop.forRange_succ (by omega), ih (by omega), store8, w.phys_base hg (by omega),
        store8_zeroPrefix]
      simp only [emit, zeroEvents, List.range_succ, List.map_append, List.map_cons, List.map_nil,
        List.append_assoc]

theorem zero_frame (w : Window) {g : Nat} (hg : g < 2 ^ 51) (m : Machine) :
    zero w (w.base (frameAddr g)) 4096 m =
      { m with mem := zeroFrame m.mem g, trace := m.trace ++ zeroEvents g 4096 } := by
  have hbytes : (4096 : BitVec 64).toNat = 4096 := by decide
  rw [zero, hbytes, zero_upTo w hg (by omega), zeroPrefix_page]

/-- The machine after the frame `g` has been taken, cleared and linked into slot `i` of `n`. -/
def createTable (m : Machine) (n : Nat) (i : Fin 512) (g : Nat) : Machine :=
  { m with
    mem := linkTable m.mem n i g
    pmm := frameBitmapSet m.pmm (BitVec.ofNat 64 g)
    trace := m.trace ++ .alloc (frameAddr g) :: zeroEvents g 4096 ++ [.store (n * 4096 + 8 * i)] }

theorem frameAlloc_mem (m : Machine) : m.frameAlloc.2.mem = m.mem := rfl

theorem frameAlloc_cr3 (m : Machine) : m.frameAlloc.2.cr3 = m.cr3 := rfl

theorem frameAlloc_trace (m : Machine) :
    m.frameAlloc.2.trace = m.trace ++ [.alloc (pmmFrameAlloc m.pmm).1] := rfl

/-- The frame that an allocation takes: the first free one of those it looks at. -/
structure Taken (p : Pmm) (g : Nat) : Prop where
  lt : g < 2 ^ 30
  free : p.used g = false
  first : ∀ f < g, p.used f = true

theorem Taken.ne_of_used {p : Pmm} {f g : Nat} (h : Taken p g) (hf : p.used f = true) : f ≠ g := by
  rintro rfl
  cases h.free.symm.trans hf

theorem Taken.le {p : Pmm} {g n : Nat} (h : Taken p g) (hn : ∀ f < n, p.used f = true) : n ≤ g := by
  by_contra hlt
  exact h.ne_of_used (hn g (Nat.lt_of_not_le hlt)) rfl

theorem Taken.unique {p : Pmm} {g g' : Nat} (h : Taken p g) (h' : Taken p g') : g = g' := by
  have hle : ∀ {g g'}, Taken p g → Taken p g' → ¬ g < g' := by
    intro g g' h h' hlt
    have hused := h'.first g hlt
    rw [h.free] at hused
    cases hused
  have h₁ := hle h h'
  have h₂ := hle h' h
  omega

theorem frameAlloc_cases (m : Machine) :
    (m.frameAlloc = (pmmInvalidFrame, m.emit (.alloc pmmInvalidFrame)) ∧
      ∀ f < 2 ^ 30, m.pmm.used f = true) ∨
    ∃ g, Taken m.pmm g ∧ m.frameAlloc = (frameAddr g,
      { m with pmm := frameBitmapSet m.pmm (BitVec.ofNat 64 g) }.emit (.alloc (frameAddr g))) := by
  have hscan := scannedFrames_eq
  rcases pmmFrameAlloc_cases m.pmm with ⟨hfail, hfull⟩ | ⟨g, hg, hfree, hmin, hok⟩
  · rw [hscan] at hfull
    exact Or.inl ⟨by rw [frameAlloc, hfail], hfull⟩
  · rw [hscan] at hg
    exact Or.inr ⟨g, ⟨hg, hfree, hmin⟩, by rw [frameAlloc, hok]⟩

/-- Clearing a frame that was just taken and linking it is `createTable`. -/
theorem createTable_eq (w : Window) {n g : Nat} (hn : n < 2 ^ 51) (hg : g < 2 ^ 51) (va : BitVec 64)
    (shift : Nat) (m : Machine) :
    (zero w (w.base (frameAddr g)) 4096
        ({ m with pmm := frameBitmapSet m.pmm (BitVec.ofNat 64 g) }.emit (.alloc (frameAddr g)))).store64 w
          (entryPtr (w.base (frameAddr n)) ((va >>> shift) &&& 0x1FF))
          (frameAddr g ||| pagePresent ||| pageWritable) =
      m.createTable n (vaIndex va shift) g := by
  rw [store64_entry w hn, zero_frame w hg]
  simp only [createTable, setEntry, emit, BootKernel.setEntry, linkTable, linkEntry,
    List.append_assoc, List.cons_append, List.nil_append]

/-! ## Failed allocations -/

/-- How many allocations have failed. -/
def failures (m : Machine) : Nat := m.trace.count (.alloc pmmInvalidFrame)

section
variable {n g : Nat} {i : Fin 512} {v : BitVec 64}

theorem failures_emit {e : Event} (he : e ≠ .alloc pmmInvalidFrame) (m : Machine) :
    (m.emit e).failures = m.failures := by
  simp [failures, emit, he]

theorem failures_emit_fail (m : Machine) :
    (m.emit (.alloc pmmInvalidFrame)).failures = m.failures + 1 := by
  simp [failures, emit]

theorem failures_le_emit (m : Machine) (e : Event) : m.failures ≤ (m.emit e).failures := by
  simp only [failures, emit, List.count_append]
  omega

theorem count_zeroEvents (g k : Nat) : (zeroEvents g k).count (.alloc pmmInvalidFrame) = 0 := by
  simp [List.count_eq_zero, zeroEvents]

@[simp] theorem failures_setEntry (m : Machine) : (m.setEntry n i v).failures = m.failures := by
  rw [setEntry, failures_emit (by simp)]
  rfl

@[simp] theorem failures_createTable (m : Machine) : (m.createTable n i g).failures = m.failures := by
  simp [failures, createTable, List.count_append, count_zeroEvents, frameAddr_ne_invalid]

theorem failures_store64 (w : Window) (ptr : BitVec 64) (m : Machine) :
    (m.store64 w ptr v).failures = m.failures := by
  rw [store64, failures_emit (by simp)]
  rfl

theorem failures_zero (w : Window) (addr bytes : BitVec 64) (m : Machine) :
    (zero w addr bytes m).failures = m.failures :=
  Loop.forRange_preserves failures (fun _ m => by rw [store8, failures_emit (by simp)]; rfl) _ _ m

theorem failures_le_frameAlloc (m : Machine) : m.failures ≤ m.frameAlloc.2.failures :=
  failures_le_emit _ _

end

end Machine

end BootKernel
