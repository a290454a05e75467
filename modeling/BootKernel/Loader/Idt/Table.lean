import BootKernel.Loader.Idt.Defs
import BootKernel.Loader.Theorems

/-!
# The interrupt descriptor table

The gates that `idt_init` writes are read back by the processor, also after the loader has filled the memory of the
kernel. A vector that has no handler arrives at the one for a general protection fault.
-/

namespace BootKernel

open LongMode

section
variable {sym : LoaderSymbols} {ram : Memory} {v w : BitVec 8} {i x : Nat}

/-! ## Gates -/

theorem extractLsb'_of_bits {n l start : Nat} {x : BitVec n} {y : BitVec l}
    (h : ∀ k < l, x.getLsbD (start + k) = y.getLsbD k) : x.extractLsb' start l = y := by
  apply BitVec.eq_of_getLsbD_eq
  intro k hk
  simp only [BitVec.getLsbD_extractLsb', hk, decide_true, Bool.true_and, h k hk]

theorem idtGate_bit (addr : BitVec 64) (selector : BitVec 16) (istIndex typeAttr : BitVec 8) (k : Nat) :
    (idtGate addr selector istIndex typeAttr).getLsbD k =
      if k < 16 then addr.getLsbD k
      else if k < 32 then selector.getLsbD (k - 16)
      else if k < 40 then (istIndex &&& 0x7).getLsbD (k - 32)
      else if k < 48 then typeAttr.getLsbD (k - 40)
      else if k < 96 then addr.getLsbD (k - 32)
      else false := by
  unfold idtGate
  rw [BitVec.getLsbD_append, BitVec.getLsbD_append, BitVec.getLsbD_append, BitVec.getLsbD_append,
    BitVec.getLsbD_append, BitVec.getLsbD_append]
  simp only [BitVec.getLsbD_setWidth, BitVec.getLsbD_ushiftRight, Nat.sub_sub, Nat.reduceAdd]
  grind

/-- What the processor takes from the fields of `idt_gate_t`. -/
theorem decode_idtGate (addr : BitVec 64) (selector : BitVec 16) (istIndex typeAttr : BitVec 8) :
    Gate.decode (idtGate addr selector istIndex typeAttr) =
      { offset := addr
        selector := selector
        ist := istIndex.setWidth 3
        kind := typeAttr.extractLsb' 0 4
        segment := typeAttr.getLsbD 4
        dpl := typeAttr.extractLsb' 5 2
        present := typeAttr.getLsbD 7 } := by
  simp only [Gate.decode, Gate.mk.injEq]
  refine ⟨?_, extractLsb'_of_bits fun k hk => ?_, extractLsb'_of_bits fun k hk => ?_,
    extractLsb'_of_bits fun k hk => ?_, idtGate_bit _ _ _ _ 44, extractLsb'_of_bits fun k hk => ?_,
    idtGate_bit _ _ _ _ 47⟩
  · -- the address is cut into three fields
    apply BitVec.eq_of_getLsbD_eq
    intro k hk
    rw [BitVec.getLsbD_append, BitVec.getLsbD_append]
    simp only [BitVec.getLsbD_extractLsb', idtGate_bit]
    grind
  · rw [idtGate_bit]
    grind
  · have hmask : ∀ k < 8, (7 : BitVec 8).getLsbD k = decide (k < 3) := by decide
    rw [idtGate_bit, BitVec.getLsbD_setWidth, BitVec.getLsbD_and]
    grind
  · rw [idtGate_bit, BitVec.getLsbD_extractLsb']
    grind
  · rw [idtGate_bit, BitVec.getLsbD_extractLsb']
    grind

/-- The gate of a vector with a handler. -/
def handlerGate (sym : LoaderSymbols) (v : BitVec 8) : Gate where
  offset := sym.isr v
  selector := kernelCs
  ist := 0
  kind := interruptGate
  segment := false
  dpl := 0
  present := true

theorem decode_handler (sym : LoaderSymbols) (v : BitVec 8) :
    Gate.decode (idtGate (sym.isr v) kernelCs 0 idtAttrIntgate) = handlerGate sym v := by
  rw [decode_idtGate]
  simp only [handlerGate, Gate.mk.injEq, true_and]
  decide

/-! ## The table -/

/-- What is in the slot of a vector. -/
def idtSlot (sym : LoaderSymbols) (v : BitVec 8) : BitVec 128 :=
  if idtVectors.contains v then idtGate (sym.isr v) kernelCs 0 idtAttrIntgate else 0

theorem idtSlot_eq (sym : LoaderSymbols) (v : BitVec 8) :
    idtSlot sym v = if v ∈ idtVectors then idtGate (sym.isr v) kernelCs 0 idtAttrIntgate else 0 := by
  simp only [idtSlot, List.contains_iff_mem]

def TableIn (sym : LoaderSymbols) (ram : Memory) : Prop :=
  ∀ v : BitVec 8, load128 ram (sym.idt + 16 * v.toNat) = idtSlot sym v

/-- What the linker script and the kernel's place promise. -/
structure LoaderSymbols.Linked (sym : LoaderSymbols) : Prop where
  zeroed : sym.bssStart ≤ sym.idt ∧ sym.idt + 256 * 16 ≤ sym.bssEnd
  apart : sym.idt + 256 * 16 ≤ kernelBase ∨ kernelBase + 256 * 512 ≤ sym.idt
  distinct : ∀ v ∈ idtVectors, ∀ w ∈ idtVectors, sym.isr v = sym.isr w → v = w

def linkedSymbols : LoaderSymbols where
  bssStart := 0x214E0
  bssEnd := 0x224E0
  idt := 0x214E0
  isr v := 0x20B00 + 64 * v.setWidth 64

theorem linkedSymbols_linked : linkedSymbols.Linked where
  zeroed := by decide
  apart := .inl (by decide)
  distinct := by decide

theorem idtGateSet_byte (idt : Nat) (addr : BitVec 64) (selector : BitVec 16) (istIndex typeAttr : BitVec 8)
    (hi : i < 16) :
    idtGateSet idt v addr selector istIndex typeAttr ram (idt + 16 * w.toNat + i) =
      if w = v then (idtGate addr selector istIndex typeAttr).extractLsb' (8 * i) 8
      else ram (idt + 16 * w.toNat + i) := by
  rw [idtGateSet]
  by_cases hw : w = v
  · subst hw
    rw [if_pos rfl, Memory.storeBytes_apply _ _ _ _ hi]
  · have hne : w.toNat ≠ v.toNat := fun h => hw (BitVec.eq_of_toNat_eq h)
    rw [if_neg hw, Memory.storeBytes_outside _ _ _ _ (by omega)]

/-- Each gate stays in its own slot. -/
theorem idtGates_byte (sym : LoaderSymbols) (vs : List (BitVec 8)) (ram : Memory) (w : BitVec 8) (hi : i < 16) :
    vs.foldl (fun ram vec => idtGateSet sym.idt vec (sym.isr vec) kernelCs 0 idtAttrIntgate ram) ram
        (sym.idt + 16 * w.toNat + i) =
      if w ∈ vs then (idtGate (sym.isr w) kernelCs 0 idtAttrIntgate).extractLsb' (8 * i) 8
      else ram (sym.idt + 16 * w.toNat + i) := by
  induction vs generalizing ram with
  | nil => rfl
  | cons v vs ih =>
      rw [List.foldl_cons, ih, idtGateSet_byte _ _ _ _ _ hi]
      by_cases hvs : w ∈ vs
      · rw [if_pos hvs, if_pos (List.mem_cons_of_mem _ hvs)]
      · rw [if_neg hvs]
        by_cases hw : w = v
        · subst hw
          rw [if_pos rfl, if_pos List.mem_cons_self]
        · rw [if_neg hw, if_neg (by simp [hw, hvs])]

theorem fill_outside (v : BitVec 8) (ram : Memory) {lo hi : Nat} (hx : x < lo ∨ hi ≤ x) :
    Loop.forRange lo hi (fun p ram => Memory.store8 ram p v) ram x = ram x := by
  by_cases hle : lo ≤ hi
  · refine Loop.forRange_rule (fun _ (ram' : Memory) => ram' x = ram x) hle rfl fun p ram' hlo hhi ih => ?_
    rw [← ih, Memory.store8, if_neg (by omega)]
  · rw [Loop.forRange_empty (by omega)]

/-- What is in front of the zeroed section stays. -/
theorem LoaderSymbols.Linked.before (h : sym.Linked) (m : Pc) (hx : x < sym.bssStart) (hx' : x < kernelBase) :
    (m.filled sym).store.ram x = m.store.ram x := by
  obtain ⟨hlo, -⟩ := h.zeroed
  have hgates : ∀ (vs : List (BitVec 8)) (ram : Memory),
      vs.foldl (fun ram vec => idtGateSet sym.idt vec (sym.isr vec) kernelCs 0 idtAttrIntgate ram) ram x = ram x := by
    intro vs
    induction vs with
    | nil => exact fun _ => rfl
    | cons v vs ih =>
        intro ram
        rw [List.foldl_cons, ih, idtGateSet, Memory.storeBytes_outside _ _ _ _ (.inl (by omega))]
  rw [Pc.filled, Pc.setRam_ram, fill_outside _ _ (.inl hx')]
  refine (hgates idtVectors _).trans ?_
  rw [Pc.setRam_ram, fill_outside _ _ (.inl hx)]

/-- The bytes of the table after the loader has filled the memory. -/
theorem LoaderSymbols.Linked.slot (h : sym.Linked) (m : Pc) (v : BitVec 8) (hi : i < 16) :
    (m.filled sym).store.ram (sym.idt + 16 * v.toNat + i) = (idtSlot sym v).extractLsb' (8 * i) 8 := by
  obtain ⟨hlo, hhi⟩ := h.zeroed
  have hapart := h.apart
  have hv := v.isLt
  obtain ⟨n, hn⟩ : ∃ n, sym.bssEnd = sym.bssStart + n := ⟨sym.bssEnd - sym.bssStart, by omega⟩
  have hzero : Loop.forRange sym.bssStart sym.bssEnd (fun p ram => Memory.store8 ram p 0) m.store.ram
      (sym.idt + 16 * v.toNat + i) = 0 := by
    have hfill := fill_ram 0 m.store.ram sym.bssStart n (i := sym.idt + 16 * v.toNat + i - sym.bssStart) (by omega)
    rw [← hn, Nat.add_sub_cancel' (by omega)] at hfill
    exact hfill
  rw [Pc.filled, Pc.setRam_ram, fill_outside _ _ (by omega)]
  refine (idtGates_byte sym idtVectors _ v hi).trans ?_
  rw [Pc.setRam_ram, hzero, idtSlot_eq]
  by_cases hmem : v ∈ idtVectors
  · rw [if_pos hmem, if_pos hmem]
  · rw [if_neg hmem, if_neg hmem]
    exact BitVec.extractLsb'_zero.symm

/-- The table is what the processor is to find. -/
theorem LoaderSymbols.Linked.table (h : sym.Linked) (m : Pc) : TableIn sym (m.filled sym).store.ram :=
  fun v => load128_eq_of_bytes fun _ hi => h.slot m v hi

/-! ## Delivery -/

theorem gateOf_table (h : TableIn sym ram) (v : BitVec 8) (external : Bool) :
    gateOf ⟨256 * 16 - 1, sym.idt, gdt⟩ ram v external =
      if v ∈ idtVectors then .ok (handlerGate sym v) else .error (generalProtection, gateCode v external) := by
  have hlimit : ¬ (256 * 16 - 1 : BitVec 16).toNat < 16 * v.toNat + 15 := by
    have hv := v.isLt
    have h4095 : (256 * 16 - 1 : BitVec 16).toNat = 4095 := rfl
    omega
  have hsegment : checkSegment ⟨256 * 16 - 1, sym.idt, gdt⟩ kernelCs external = .ok () := by
    cases external with
    | false | true => rfl
  rw [gateOf, if_neg hlimit, h v, idtSlot_eq]
  by_cases hmem : v ∈ idtVectors
  · simp only [if_pos hmem, decode_handler]
    rw [if_neg (by simp [handlerGate])]
    simp only [handlerGate, hsegment]
    rfl
  · simp only [if_neg hmem]
    exact if_pos (by decide)

/-- Every vector comes to a handler. -/
theorem deliver_table (h : TableIn sym ram) (v : BitVec 8) (code : Option (BitVec 64)) (external : Bool) :
    deliver ⟨256 * 16 - 1, sym.idt, gdt⟩ ram v code external =
      if v ∈ idtVectors then some ⟨v, code, handlerGate sym v⟩
      else some ⟨generalProtection, some (gateCode v external), handlerGate sym generalProtection⟩ := by
  have hgate := gateOf_table h v external
  by_cases hmem : v ∈ idtVectors
  · rw [if_pos hmem] at hgate ⊢
    exact deliver_ok hgate code
  · rw [if_neg hmem] at hgate ⊢
    have hgeneral : gateOf ⟨256 * 16 - 1, sym.idt, gdt⟩ ram generalProtection true =
        .ok (handlerGate sym generalProtection) := by
      rw [gateOf_table h, if_pos (by decide)]
    have hclass : contributory v = false := by
      have hsub : ∀ w ∈ ([0, 10, 11, 12, 13] : List (BitVec 8)), w ∈ idtVectors := by decide
      exact decide_eq_false fun hc => hmem (hsub v hc)
    have hdouble : v ≠ doubleFault := fun hv => hmem (hv ▸ by decide)
    have hpage : v ≠ pageFault := fun hv => hmem (hv ▸ by decide)
    exact deliver_fault hgate hdouble hclass hpage hgeneral code

end

/-! ## While the loader uses the disk -/

section
variable {α α' : Type} {dev : Pc → BitVec 16 → BitVec 8} {e : AtaEvent} {es : List AtaEvent}

def IsRead (e : AtaEvent) : Prop := ∃ port buf n, e = .insw port buf n

abbrev NoReads (p : Poll α) : Prop := PortProgram.Only (fun _ => True) (fun e => ¬ IsRead e) p

theorem noReads_of_noBlocks {p : Poll α} (h : NoBlocks p) : NoReads p :=
  PortProgram.Only.mono h (fun _ hf => hf) fun _ he hr => he (.inl hr)

theorem perform_write_ram {s : Store} {buf : AtaBuffer} {n : Nat} : (s.perform (.toDisk buf n)).ram = s.ram := by
  cases buf with
  | identify => rfl
  | ram a =>
      simp only [Store.perform]
      split
      · rfl
      · rfl

theorem step_ram (h : ¬ IsRead e) (t : Taskfile) (s : Store) : ((t.step e).2.foldl Store.perform s).ram = s.ram := by
  cases e with
  | inb port v => rfl
  | outb port v =>
      have hquiet : ∀ e ∈ ([.outb port v] : List AtaEvent), ¬ IsBlock e := by simp [IsBlock]
      have hdecode : (t.decode ([.outb port v] : List AtaEvent)).2 = (t.step (.outb port v)).2 :=
        List.append_nil _
      rw [← hdecode]
      exact (perform_decode_quiet hquiet t s).1
  | insw port buf n => exact absurd ⟨port, buf, n, rfl⟩ h
  | outsw port buf n =>
      by_cases hport : port = ataRegData
      · simp only [Taskfile.step, hport, ↓reduceIte, List.foldl_cons, List.foldl_nil]
        exact perform_write_ram
      · simp only [Taskfile.step, hport, ↓reduceIte, List.foldl_nil]

theorem effects_ram (h : ∀ e ∈ es, ¬ IsRead e) (m : Pc) :
    ((pcBoard dev).effects es m).store.ram = m.store.ram ∧ ((pcBoard dev).effects es m).idtr = m.idtr := by
  induction es generalizing m with
  | nil => exact ⟨rfl, rfl⟩
  | cons e es ih =>
      obtain ⟨hram, hidtr⟩ := ih (fun e he => h e (List.mem_cons_of_mem _ he)) ((pcBoard dev).effect e m)
      exact ⟨hram.trans (step_ram (h e List.mem_cons_self) _ _), hidtr⟩

/-- A program that keeps the memory and the table register of the machine. -/
def KeepsMemory (dev : Pc → BitVec 16 → BitVec 8) (p : PortProgram.Prog AtaBuffer Pc α) : Prop :=
  ∀ m, ((pcBoard dev).run p m).2.store.ram = m.store.ram ∧ ((pcBoard dev).run p m).2.idtr = m.idtr

theorem KeepsMemory.lift {p : Poll α} (h : NoReads p) : KeepsMemory dev p.lift := by
  intro m
  obtain ⟨es, hruns, heffects⟩ := (pcBoard dev).run_lift p m
  rw [heffects]
  exact effects_ram (h.runs hruns) m

theorem KeepsMemory.ret (a : α) : KeepsMemory dev (.ret a) := fun _ => ⟨rfl, rfl⟩

theorem KeepsMemory.bind {p : PortProgram.Prog AtaBuffer Pc α} {k : α → PortProgram.Prog AtaBuffer Pc α'}
    (h : KeepsMemory dev p) (hk : ∀ a, KeepsMemory dev (k a)) : KeepsMemory dev (p >>= k) := by
  intro m
  rw [PortProgram.Board.run_bind]
  obtain ⟨hram, hidtr⟩ := hk ((pcBoard dev).run p m).1 ((pcBoard dev).run p m).2
  exact ⟨hram.trans (h m).1, hidtr.trans (h m).2⟩

theorem noReads_write48 (n : Nat) (lba ptr : BitVec 64) :
    NoReads (ataDiskPoll ataSelect48 ataCmdWriteSectorsExt ataBlockOut n lba ptr) := by
  have hidle : NoReads ataWaitIdle := noReads_of_noBlocks (noBlocks_waitIdle _)
  have hcontrol : NoReads ataControlReads := noReads_of_noBlocks noBlocks_controlReads
  have hdrq (k : Nat) : NoReads (ataWaitDrqLoop k) := by
    induction k with
    | zero => trivial
    | succ k ih =>
        exact fun v => ⟨by simp [IsRead], .ite trivial (.ite ih (.ite trivial (.ite trivial ih)))⟩
  have hselect (lba : BitVec 64) : NoReads (ataSelect48 lba) := by
    have hlow : NoReads (do
        PortProgram.outb ataRegSeccount 1
        PortProgram.outb ataRegLbaLow (lba.setWidth 8)
        PortProgram.outb ataRegLbaMid ((lba >>> 8).setWidth 8)
        PortProgram.outb ataRegLbaHigh ((lba >>> 16).setWidth 8)
        ataControlReads) := by
      refine ⟨by simp [IsRead], by simp [IsRead], by simp [IsRead], by simp [IsRead], hcontrol⟩
    refine ⟨by simp [IsRead], hcontrol.bind fun _ => ?_⟩
    exact ⟨by simp [IsRead], by simp [IsRead], by simp [IsRead], by simp [IsRead], hlow⟩
  induction n generalizing lba ptr with
  | zero => exact hidle.bind fun idle => .ite trivial trivial
  | succ n ih =>
      refine hidle.bind fun idle => .ite ?_ trivial
      refine (hselect lba).bind fun _ => ⟨by simp [IsRead], hcontrol.bind fun _ => ?_⟩
      exact (hdrq _).bind fun drq => .ite ⟨by simp [IsRead], ih _ _⟩ trivial

/-- However the loader ends, the memory is as it was filled, and the table is loaded. -/
theorem kmain_memory {sym : LoaderSymbols} {fuel : Nat} {m m' : Pc} {r : KmainEnd}
    (h : (pcBoard dev).run (kmain sym fuel) m = (r, m')) :
    m'.store.ram = (m.filled sym).store.ram ∧ m'.idtr = (256 * 16 - 1, sym.idt) := by
  have hwrite : KeepsMemory dev (PortProgram.Prog.lift
      (ataDiskWrite48Poll kernelLba (BitVec.ofNat 64 kernelBase) kernelSectors)) :=
    .lift (noReads_write48 _ _ _)
  have hdisk : KeepsMemory dev (kmainDisk fuel) := by
    refine (KeepsMemory.lift (noReads_of_noBlocks (noBlocks_initUntil fuel))).bind fun ready => ?_
    cases ready with
    | false => exact .ret _
    | true =>
        refine hwrite.bind fun success => ?_
        cases success with
        | false | true => exact .ret _
  have hkeeps := hdisk (m.filled sym)
  rw [← run_kmain, h] at hkeeps
  exact hkeeps

end

end BootKernel
