import BootKernel.Ata.Poll.Trace
import BootKernel.Lib.Interleaving
import BootKernel.Loader.Defs

/-!
# What the kernel loader leaves in memory and on the disk

The loader is meant to read the kernel from the disk, but it writes the bytes that it has filled the
memory with over the sectors of the kernel.
-/

namespace BootKernel

open PortProgram

section

variable {dev : Pc → BitVec 16 → BitVec 8} {m : Pc} {es : List AtaEvent} {s : Store} {q : AtaIo}

/-! ## What the accesses do -/

theorem effects_store (dev : Pc → BitVec 16 → BitVec 8) (es : List AtaEvent) (m : Pc) :
    ((pcBoard dev).effects es m).store = (m.taskfile.decode es).2.foldl Store.perform m.store := by
  induction es generalizing m with
  | nil => rfl
  | cons e es ih =>
      refine (ih _).trans ?_
      simp only [Taskfile.decode, List.foldl_append]
      rfl

theorem perform_decode_quiet (h : ∀ e ∈ es, ¬ IsBlock e) (t : Taskfile) (s : Store) :
    ((t.decode es).2.foldl Store.perform s).ram = s.ram ∧
      ((t.decode es).2.foldl Store.perform s).disk = s.disk := by
  induction es generalizing t s with
  | nil => exact ⟨rfl, rfl⟩
  | cons e es ih =>
      have hone : ((t.step e).2.foldl Store.perform s).ram = s.ram ∧
          ((t.step e).2.foldl Store.perform s).disk = s.disk := by
        cases e with
        | inb port v => exact ⟨rfl, rfl⟩
        | outb port v =>
            have hcommand : ((t.command v).foldl Store.perform s).ram = s.ram ∧
                ((t.command v).foldl Store.perform s).disk = s.disk := by
              unfold Taskfile.command
              split
              · split
                · exact ⟨rfl, rfl⟩
                · exact ⟨rfl, rfl⟩
              · exact ⟨rfl, rfl⟩
            rcases t.step_outb (β := AtaBuffer) port v with hnone | hcmd
            · rw [hnone]
              exact ⟨rfl, rfl⟩
            · rw [hcmd]
              exact hcommand
        | insw port buf n => exact absurd (.inl ⟨port, buf, n, rfl⟩) (h _ List.mem_cons_self)
        | outsw port buf n => exact absurd (.inr ⟨port, buf, n, rfl⟩) (h _ List.mem_cons_self)
      obtain ⟨hram, hdisk⟩ := ih (fun e he => h e (List.mem_cons_of_mem _ he)) (t.step e).1
        ((t.step e).2.foldl Store.perform s)
      simp only [Taskfile.decode, List.foldl_append]
      exact ⟨hram.trans hone.1, hdisk.trans hone.2⟩

/-! ## The initialisation moves no block -/

abbrev NoBlocks {α : Type} (p : Poll α) : Prop := Only (fun _ => True) (fun e => ¬ IsBlock e) p

theorem noBlocks_controlReads : NoBlocks ataControlReads := by
  simp [Only, IsBlock, ataControlReads]

theorem noBlocks_waitIdle (n : Nat) : NoBlocks (ataWaitIdleLoop n) := by
  induction n with
  | zero => trivial
  | succ n ih =>
      exact fun v => ⟨by simp [IsBlock], .ite trivial (.ite ih (.ite trivial (.ite ih trivial)))⟩

theorem noBlocks_initLoop (n : Nat) : NoBlocks (ataInitLoop n) := by
  induction n with
  | zero => trivial
  | succ n ih =>
      exact fun v => ⟨by simp [IsBlock], .ite trivial (.ite ih (.ite trivial (.ite ih trivial)))⟩

theorem noBlocks_init : NoBlocks ataInit := by
  have hrest : NoBlocks ataInitRest := by
    refine noBlocks_controlReads.bind fun _ => ⟨by simp [IsBlock], ?_⟩
    refine noBlocks_controlReads.bind fun _ => ?_
    refine (noBlocks_waitIdle _).bind fun idle => .ite ?_ trivial
    exact fun v => ⟨by simp [IsBlock], .ite trivial (.ite trivial trivial)⟩
  refine ⟨by simp [IsBlock], by simp [IsBlock], ?_⟩
  refine noBlocks_controlReads.bind fun _ => ?_
  exact (noBlocks_initLoop _).bind fun ready => .ite hrest trivial

theorem noBlocks_initUntil (fuel : Nat) : NoBlocks (ataInitUntil fuel) := by
  induction fuel with
  | zero => trivial
  | succ fuel ih => exact noBlocks_init.bind fun done => .ite trivial ih

/-! ## What a write moves -/

/-- The command and the block for one sector copy 512 bytes. -/
theorem perform_write_sector {k : Nat} (hop : q.op = .write48)
    (haddr : (q.addr + BitVec.ofNat 64 (512 * k)).toNat = q.addr.toNat + 512 * k) :
    ([q.command k, q.transfer k].foldl Store.perform s).ram = s.ram ∧
      ([q.command k, q.transfer k].foldl Store.perform s).disk =
        s.disk.storeBytes (512 * (q.lba.toNat + k)) 512 fun i => s.ram (q.addr.toNat + 512 * k + i) := by
  have htransfer : q.transfer k = .toDisk (.ram (q.addr + BitVec.ofNat 64 (512 * k))) 256 := by
    rw [AtaIo.transfer, hop]
    exact if_neg (by decide)
  have hcommand : q.command k = .command ataCmdWriteSectorsExt (q.lba.toNat + k) 1 := by
    rw [AtaIo.command, hop]
    rfl
  rw [htransfer, hcommand]
  refine ⟨rfl, ?_⟩
  rw [← haddr]
  rfl

/-- The sectors of a write, one after the other: the memory stays, and the disk holds a copy of it. -/
theorem perform_served_write (hop : q.op = .write48) {n : Nat}
    (haddr : q.addr.toNat + 512 * n < 2 ^ 64) :
    ((q.served n).foldl Store.perform s).ram = s.ram ∧
      ((q.served n).foldl Store.perform s).disk =
        s.disk.storeBytes (512 * q.lba.toNat) (512 * n) fun i => s.ram (q.addr.toNat + i) := by
  induction n with
  | zero =>
      refine ⟨rfl, funext fun x => ?_⟩
      rw [Memory.storeBytes, if_neg (by omega)]
      rfl
  | succ n ih =>
      obtain ⟨hram, hdisk⟩ := ih (by omega)
      have hptr : (q.addr + BitVec.ofNat 64 (512 * n)).toNat = q.addr.toNat + 512 * n := by
        rw [BitVec.toNat_add, BitVec.toNat_ofNat, Nat.add_mod_mod, Nat.mod_eq_of_lt (by omega)]
      rw [q.served_succ, List.foldl_append]
      obtain ⟨hram', hdisk'⟩ :=
        perform_write_sector (s := (q.served n).foldl Store.perform s) hop hptr
      refine ⟨hram'.trans hram, hdisk'.trans (funext fun x => ?_)⟩
      rw [hram, hdisk]
      simp only [Memory.storeBytes]
      by_cases hx : 512 * (q.lba.toNat + n) ≤ x ∧ x < 512 * (q.lba.toNat + n) + 512
      · rw [if_pos hx, if_pos (by omega)]
        exact congrArg s.ram (by omega)
      · rw [if_neg hx]
        by_cases hx' : 512 * q.lba.toNat ≤ x ∧ x < 512 * q.lba.toNat + 512 * n
        · rw [if_pos hx', if_pos (by omega)]
        · rw [if_neg hx', if_neg (by omega)]

/-! ## The program -/

/-- The machine after everything that the loader does before it touches the disk. -/
def Pc.filled (sym : LoaderSymbols) (m : Pc) : Pc :=
  (idtInit sym (m.setRam (Loop.forRange sym.bssStart sym.bssEnd fun p ram => ram.store8 p 0))).setRam
    (Loop.forRange kernelBase (kernelBase + 256 * 512) fun p ram => ram.store8 p 0xCC)

theorem fill_ram (v : BitVec 8) (ram : Memory) (lo n : Nat) {i : Nat} (hi : i < n) :
    Loop.forRange lo (lo + n) (fun p ram => ram.store8 p v) ram (lo + i) = v := by
  have hfill : ∀ x, lo ≤ x → x < lo + n →
      Loop.forRange lo (lo + n) (fun p ram => Memory.store8 ram p v) ram x = v := by
    refine Loop.forRange_rule (fun p (ram : Memory) => ∀ x, lo ≤ x → x < p → ram x = v)
      (Nat.le_add_right lo n)
      (fun x hlo hhi => absurd hlo (by omega)) fun p ram _ _ ih x hx hx' => ?_
    simp only [Memory.store8]
    by_cases hp : x = p
    · rw [if_pos hp]
    · rw [if_neg hp]
      exact ih x hx (by omega)
  exact hfill (lo + i) (Nat.le_add_right lo i) (by omega)

theorem Pc.setRam_ram (m : Pc) (f : Memory → Memory) : (m.setRam f).store.ram = f m.store.ram := rfl

theorem Pc.setRam_disk (m : Pc) (f : Memory → Memory) : (m.setRam f).store.disk = m.store.disk := rfl

theorem Pc.setRam_trace (m : Pc) (f : Memory → Memory) : (m.setRam f).trace = m.trace := rfl

theorem idtInit_trace (sym : LoaderSymbols) (m : Pc) : (idtInit sym m).trace = m.trace := rfl

theorem Pc.filled_trace (sym : LoaderSymbols) (m : Pc) : (m.filled sym).trace = m.trace := by
  rw [Pc.filled, Pc.setRam_trace, idtInit_trace, Pc.setRam_trace]

theorem Pc.filled_ram (sym : LoaderSymbols) (m : Pc) {i : Nat} (hi : i < 256 * 512) :
    (m.filled sym).store.ram (kernelBase + i) = 0xCC := by
  rw [Pc.filled, Pc.setRam_ram]
  exact fill_ram 0xCC _ kernelBase (256 * 512) hi

/-- What the loader does after it has filled the memory. -/
def kmainDisk (fuel : Nat) : Prog AtaBuffer Pc KmainEnd := do
  if ← (ataInitUntil fuel).lift then
    if ← (ataDiskWrite48Poll kernelLba (BitVec.ofNat 64 kernelBase) kernelSectors).lift then
      return .returned
    else
      return .halted
  else
    return .initialising

theorem run_kmain (sym : LoaderSymbols) (fuel : Nat) (m : Pc) :
    (pcBoard dev).run (kmain sym fuel) m = (pcBoard dev).run (kmainDisk fuel) (m.filled sym) := by
  rw [kmain, Board.run_store, Board.run_store, Board.run_store]
  rfl

theorem initUntil_store (dev : Pc → BitVec 16 → BitVec 8) (fuel : Nat) (m : Pc) :
    ((pcBoard dev).run (ataInitUntil fuel).lift m).2.store.ram = m.store.ram ∧
      ((pcBoard dev).run (ataInitUntil fuel).lift m).2.store.disk = m.store.disk := by
  obtain ⟨es, hruns, heffects⟩ := (pcBoard dev).run_lift (ataInitUntil fuel) m
  rw [heffects, effects_store]
  exact perform_decode_quiet ((noBlocks_initUntil fuel).runs hruns) _ _

/-- The transfer of `kmain`. -/
abbrev kernelIo : AtaIo := ⟨.write48, kernelLba, BitVec.ofNat 64 kernelBase, kernelSectors⟩

/-- A transfer that succeeds has copied all sectors. -/
theorem write_store {m m' : Pc}
    (h : (pcBoard dev).run
      (ataDiskWrite48Poll kernelLba (BitVec.ofNat 64 kernelBase) kernelSectors).lift m = (true, m')) :
    m'.store.ram = m.store.ram ∧
      m'.store.disk = m.store.disk.storeBytes (512 * 2048) (512 * 256) fun i =>
        m.store.ram (kernelBase + i) := by
  obtain ⟨es, hruns, heffects⟩ := (pcBoard dev).run_lift
    (ataDiskWrite48Poll kernelLba (BitVec.ofNat 64 kernelBase) kernelSectors) m
  rw [h] at hruns heffects
  have hrun : kernelIo.PollRun 0 es true :=
    PollTransfer.runs (r := .write48 kernelLba (BitVec.ofNat 64 kernelBase) kernelSectors) hruns
  obtain ⟨n, waits, -, -, hdone, hdecode⟩ := hrun.accesses
  obtain ⟨rfl, rfl⟩ := hdone rfl
  have hserved : (m.taskfile.decode es).2 = kernelIo.served 256 := by
    have ht := hdecode m.taskfile
    rw [kernelIo.reached_eq (by decide) (Nat.le_refl _)] at ht
    exact ht.trans (List.append_nil _)
  have hstore : m'.store = (kernelIo.served 256).foldl Store.perform m.store := by
    rw [show m' = _ from heffects, effects_store, hserved]
  rw [hstore]
  exact perform_served_write (q := kernelIo) rfl (by decide)

/-- When the loader returns, the memory is as it was filled, and the sectors of the kernel hold a copy
of it. -/
theorem kmain_returned {sym : LoaderSymbols} {fuel : Nat} {m' : Pc}
    (h : (pcBoard dev).run (kmain sym fuel) m = (.returned, m')) :
    m'.store.ram = (m.filled sym).store.ram ∧
      m'.store.disk = m.store.disk.storeBytes (512 * 2048) (512 * 256) fun i =>
        (m.filled sym).store.ram (kernelBase + i) := by
  rw [run_kmain, kmainDisk, Board.run_bind] at h
  obtain ⟨hram, hdisk⟩ := initUntil_store dev fuel (m.filled sym)
  generalize (pcBoard dev).run (ataInitUntil fuel).lift (m.filled sym) = r at h hram hdisk
  obtain ⟨ready, m₁⟩ := r
  cases ready with
  | false => cases h
  | true =>
      simp only [if_true] at h
      rw [Board.run_bind] at h
      rcases hwrite : (pcBoard dev).run
        (ataDiskWrite48Poll kernelLba (BitVec.ofNat 64 kernelBase) kernelSectors).lift m₁
        with ⟨success, m₂⟩
      rw [hwrite] at h
      cases success with
      | false => cases h
      | true =>
          cases h
          obtain ⟨hram', hdisk'⟩ := write_store hwrite
          have hram₁ : m₁.store.ram = (m.filled sym).store.ram := hram
          have hdisk₁ : m₁.store.disk = m.store.disk := hdisk.trans (Pc.setRam_disk _ _)
          refine ⟨hram'.trans hram₁, ?_⟩
          rw [hdisk', hram₁, hdisk₁]

end

/-! ## The loaded kernel -/

/-- The memory of the kernel holds what was on its sectors, and the disk is as it was. -/
def Loaded (m m' : Pc) : Prop :=
  (∀ i < 256 * 512, m'.store.ram (kernelBase + i) = m.store.disk (512 * 2048 + i)) ∧
    m'.store.disk = m.store.disk

/-- The kernel is loaded only if its sectors hold the bytes that the loader fills the memory with. -/
theorem kmain_loads_iff {dev : Pc → BitVec 16 → BitVec 8} {sym : LoaderSymbols} {fuel : Nat}
    {m m' : Pc} (h : (pcBoard dev).run (kmain sym fuel) m = (.returned, m')) :
    Loaded m m' ↔ ∀ i < 256 * 512, m.store.disk (512 * 2048 + i) = 0xCC := by
  obtain ⟨hram, hdisk⟩ := kmain_returned h
  constructor
  · intro hloaded i hi
    rw [← hloaded.1 i hi, hram, Pc.filled_ram sym m hi]
  · intro hfill
    refine ⟨fun i hi => by rw [hfill i hi, hram, Pc.filled_ram sym m hi], ?_⟩
    rw [hdisk]
    funext x
    rw [Memory.storeBytes]
    split
    · obtain ⟨i, rfl⟩ : ∃ i, x = 512 * 2048 + i := ⟨x - 512 * 2048, by omega⟩
      have hi : i < 256 * 512 := by omega
      rw [Nat.add_sub_cancel_left, Pc.filled_ram sym m hi, hfill i hi]
    · rfl

/-! ## A drive that is always ready -/

/-- Whether the drive offers a block: a write command came after the last block. -/
def offers (trace : List AtaEvent) : Bool :=
  trace.foldl (fun b e => match e with
    | .inb _ _ => b
    | .outb port v => port == ataRegCommand && v == ataCmdWriteSectorsExt
    | _ => false) false

def servingDrive (m : Pc) (_ : BitVec 16) : BitVec 8 := if offers m.trace then 0x58 else 0x50

/-- On a ready drive that offers a block or not, the program returns `a` and leaves it so. -/
def Ends {α : Type} (p : Poll α) (b : Bool) (a : α) (b' : Bool) : Prop :=
  ∀ m : Pc, offers m.trace = b → ∃ m', (pcBoard servingDrive).run p.lift m = (a, m') ∧ offers m'.trace = b'

section

variable {α α' : Type} {b b' b'' : Bool} {a : α} {a' : α'}

theorem Ends.ret (a : α) (b : Bool) : Ends (.ret a) b a b := fun m hm => ⟨m, rfl, hm⟩

theorem Ends.inb {port : BitVec 16} {k : BitVec 8 → Poll α}
    (h : Ends (k (if b then 0x58 else 0x50)) b a b') : Ends (.inb port k) b a b' := by
  intro m hm
  obtain ⟨m', hrun, hoffers⟩ := h ((pcBoard servingDrive).effect (.inb port (servingDrive m port)) m)
    (by simpa [pcBoard, offers, List.foldl_append] using hm)
  refine ⟨m', Eq.trans ?_ hrun, hoffers⟩
  rw [← hm]
  rfl

theorem Ends.outb {port : BitVec 16} {v : BitVec 8} {k : Poll α}
    (h : Ends k (port == ataRegCommand && v == ataCmdWriteSectorsExt) a b') :
    Ends (.outb port v k) b a b' := by
  intro m hm
  exact h ((pcBoard servingDrive).effect (.outb port v) m)
    (by simp [pcBoard, offers, List.foldl_append])

theorem Ends.outsw {port : BitVec 16} {buf : AtaBuffer} {n : BitVec 32} {k : Poll α}
    (h : Ends k false a b') : Ends (.outsw port buf n k) b a b' := by
  intro m hm
  exact h ((pcBoard servingDrive).effect (.outsw port buf n) m)
    (by simp [pcBoard, offers, List.foldl_append])

theorem Ends.bind {p : Poll α} {k : α → Poll α'} (h : Ends p b a b') (hk : Ends (k a) b' a' b'') :
    Ends (p >>= k) b a' b'' := by
  intro m hm
  obtain ⟨m₁, hrun₁, h₁⟩ := h m hm
  obtain ⟨m₂, hrun₂, h₂⟩ := hk m₁ h₁
  refine ⟨m₂, ?_, h₂⟩
  rw [Prog.lift_bind, Board.run_bind, hrun₁]
  exact hrun₂

end

theorem ends_controlReads (b : Bool) : Ends ataControlReads b () b :=
  .inb (.inb (.inb (.inb (.ret () b))))

theorem ends_waitIdle (n : Nat) (hn : n ≠ 0) : Ends (ataWaitIdleLoop n) false true false := by
  cases n with
  | zero => exact absurd rfl hn
  | succ n => exact .inb (.ret true false)

theorem ends_waitDrq (n : Nat) (hn : n ≠ 0) : Ends (ataWaitDrqLoop n) true true true := by
  cases n with
  | zero => exact absurd rfl hn
  | succ n => exact .inb (.ret true true)

theorem ends_initLoop (n : Nat) (hn : n ≠ 0) : Ends (ataInitLoop n) false true false := by
  cases n with
  | zero => exact absurd rfl hn
  | succ n => exact .inb (.ret true false)

theorem ends_init : Ends ataInit false true false := by
  have hrest : Ends ataInitRest false true false := by
    refine (ends_controlReads _).bind (.outb ?_)
    refine (ends_controlReads _).bind ?_
    refine (ends_waitIdle _ (by decide)).bind ?_
    exact .inb (.ret true false)
  refine .outb (.outb ?_)
  refine (ends_controlReads _).bind ?_
  exact (ends_initLoop _ (by decide)).bind hrest

theorem ends_write48 (n : Nat) (lba ptr : BitVec 64) :
    Ends (ataDiskPoll ataSelect48 ataCmdWriteSectorsExt ataBlockOut n lba ptr) false true false := by
  induction n generalizing lba ptr with
  | zero => exact (ends_waitIdle _ (by decide)).bind (.ret true false)
  | succ n ih =>
      have hselect : Ends (ataSelect48 lba) false () false :=
        .outb ((ends_controlReads _).bind
          (.outb (.outb (.outb (.outb (.outb (.outb (.outb (.outb (ends_controlReads _))))))))))
      refine (ends_waitIdle _ (by decide)).bind (hselect.bind (.outb ?_))
      refine (ends_controlReads _).bind ((ends_waitDrq _ (by decide)).bind ?_)
      exact .outsw (ih _ _)

theorem kmain_ends (sym : LoaderSymbols) (m : Pc) (hm : offers m.trace = false) :
    ∃ m', (pcBoard servingDrive).run (kmain sym 1) m = (.returned, m') := by
  have hinit : Ends (ataInitUntil 1) false true false := ends_init.bind (.ret true false)
  have hwrite := ends_write48 kernelSectors.toNat kernelLba (BitVec.ofNat 64 kernelBase)
  obtain ⟨m₁, hrun₁, h₁⟩ := hinit (m.filled sym) (by rw [Pc.filled_trace, hm])
  obtain ⟨m₂, hrun₂, -⟩ := hwrite m₁ h₁
  refine ⟨m₂, ?_⟩
  rw [run_kmain, kmainDisk, Board.run_bind, hrun₁]
  simp only [if_true]
  rw [Board.run_bind, ataDiskWrite48Poll, hrun₂]
  rfl

/-! ## Two disks -/

/-- A machine with an idle drive, whose disk holds `v` in every byte. -/
def diskOf (v : BitVec 8) : Pc where
  store := ⟨fun _ => 0, fun _ => v, none⟩
  idtr := (0, 0)
  taskfile := ⟨0, ⟨0, 0⟩, ⟨0, 0⟩, ⟨0, 0⟩, ⟨0, 0⟩⟩
  trace := []

def noSymbols : LoaderSymbols := ⟨0, 0, 0, fun _ => 0⟩

/-- A disk that is full of the fill byte: the kernel is loaded. -/
theorem kmain_loads_filled :
    ∃ m', (pcBoard servingDrive).run (kmain noSymbols 1) (diskOf 0xCC) = (.returned, m') ∧
      (Loaded (diskOf 0xCC) m' ↔ ∀ i < 256 * 512, (diskOf 0xCC).store.disk (512 * 2048 + i) = 0xCC) ∧
      Loaded (diskOf 0xCC) m' := by
  obtain ⟨m', hrun⟩ := kmain_ends noSymbols (diskOf 0xCC) rfl
  have hiff := kmain_loads_iff hrun
  exact ⟨m', hrun, hiff, hiff.mpr fun _ _ => rfl⟩

/-- An empty disk: the loader returns, and what it has written to the disk is not a kernel. -/
theorem kmain_writes_empty :
    ¬ ∀ (dev : Pc → BitVec 16 → BitVec 8) (sym : LoaderSymbols) (fuel : Nat) (m m' : Pc),
      (pcBoard dev).run (kmain sym fuel) m = (.returned, m') → Loaded m m' := by
  intro h
  obtain ⟨m', hrun⟩ := kmain_ends noSymbols (diskOf 0) rfl
  obtain ⟨hmem, -⟩ := h _ _ _ _ _ hrun
  have hzero := hmem 0 (by decide)
  rw [Nat.add_zero, ← Nat.add_zero kernelBase, (kmain_returned hrun).1,
    Pc.filled_ram noSymbols (diskOf 0) (by decide)] at hzero
  exact absurd hzero (by decide)

end BootKernel
