import BootKernel.Io.Theorems
import BootKernel.Loader.Defs

/-!
# The wrappers and the drive

The drivers are programs whose accesses to the ports are one step each. Here the drive gives and takes its words
one by one behind the ports, and a call of a wrapper does to it what the access does, but for the number of words.
-/

namespace BootKernel

open PortProgram X86

/-! ## The drive behind the ports -/

/-- The disk, the command that it carries out, and its registers. -/
structure DriveSide where
  disk : Memory
  running : Option BlockCommand
  taskfile : Taskfile

namespace DriveSide

/-- Byte `i` of the words that come next. -/
def byte (d : DriveSide) (i : Nat) : BitVec 8 :=
  match d.running with
  | some ⟨false, pos, left⟩ => if i < left then d.disk (pos + i) else ataStatusFloating
  | _ => ataStatusFloating

/-- The drive has given `n` words. -/
def given (d : DriveSide) (n : Nat) : DriveSide :=
  match d.running with
  | some ⟨false, pos, left⟩ => { d with running := some ⟨false, pos + 2 * n, left - 2 * n⟩ }
  | _ => d

/-- The drive has taken `n` words, with the bytes `f`. -/
def taken (d : DriveSide) (n : Nat) (f : Nat → BitVec 8) : DriveSide :=
  match d.running with
  | some ⟨true, pos, left⟩ =>
      { d with
        disk := d.disk.storeBytes pos (min (2 * n) left) f
        running := some ⟨true, pos + 2 * n, left - 2 * n⟩ }
  | _ => d

/-- The memory, and what the drive holds. -/
def store (d : DriveSide) (ram : Memory) : Store := ⟨ram, d.disk, d.running⟩

def write8 (port : BitVec 16) (v : BitVec 8) (d : DriveSide) : DriveSide :=
  let (t, ds) := d.taskfile.step (.outb port v : AtaEvent)
  let s := ds.foldl Store.perform (d.store fun _ => 0)
  ⟨s.disk, s.running, t⟩

end DriveSide

/-- A drive that answers `dev` to reads of its registers. -/
def driveDevice (dev : BitVec 16 → DriveSide → BitVec 8) : Device DriveSide where
  read8 port d := (dev port d, d)
  write8 := DriveSide.write8
  read16 port d :=
    if port = ataRegData then (d.byte 1 ++ d.byte 0, d.given 1) else (ataStatusFloating ++ ataStatusFloating, d)
  write16 port w d := if port = ataRegData then d.taken 1 (wordBytes [w]) else d

/-! ## Word by word -/

namespace DriveSide

variable (d : DriveSide)

theorem given_zero : d.given 0 = d := by
  obtain ⟨disk, running, taskfile⟩ := d
  rcases running with _ | ⟨_ | _, pos, left⟩
  · rfl
  · rfl
  · rfl

theorem taken_zero (f : Nat → BitVec 8) : d.taken 0 f = d := by
  obtain ⟨disk, running, taskfile⟩ := d
  rcases running with _ | ⟨_ | _, pos, left⟩
  · rfl
  · rfl
  · simp only [taken, Nat.mul_zero, Nat.zero_min, Memory.storeBytes_zero]
    rfl

theorem given_succ (n : Nat) : (d.given 1).given n = d.given (n + 1) := by
  obtain ⟨disk, running, taskfile⟩ := d
  rcases running with _ | ⟨_ | _, pos, left⟩
  · rfl
  · simp only [given, DriveSide.mk.injEq, Option.some.injEq, BlockCommand.mk.injEq, true_and, and_true]
    omega
  · rfl

theorem byte_given (i : Nat) : (d.given 1).byte i = d.byte (2 + i) := by
  obtain ⟨disk, running, taskfile⟩ := d
  rcases running with _ | ⟨_ | _, pos, left⟩
  · rfl
  · simp only [given, byte]
    by_cases hi : 2 + i < left
    · rw [if_pos hi, if_pos (by omega)]
      exact congrArg disk (by omega)
    · rw [if_neg hi, if_neg (by omega)]
  · rfl

theorem taken_congr {n : Nat} {f g : Nat → BitVec 8} (h : ∀ i < 2 * n, f i = g i) : d.taken n f = d.taken n g := by
  obtain ⟨disk, running, taskfile⟩ := d
  rcases running with _ | ⟨_ | _, pos, left⟩
  · rfl
  · rfl
  · simp only [taken]
    rw [Memory.storeBytes_congr _ _ _ _ fun i hi => h i (by omega)]

theorem taken_succ (n : Nat) (f : Nat → BitVec 8) :
    (d.taken 1 f).taken n (fun i => f (2 + i)) = d.taken (n + 1) f := by
  obtain ⟨disk, running, taskfile⟩ := d
  rcases running with _ | ⟨_ | _, pos, left⟩
  · rfl
  · rfl
  · simp only [taken, DriveSide.mk.injEq, Option.some.injEq, BlockCommand.mk.injEq, true_and, and_true]
    refine ⟨?_, by omega⟩
    by_cases hleft : 2 ≤ left
    · rw [Nat.mul_one, Nat.min_eq_left hleft, Memory.storeBytes_append]
      exact congrArg (disk.storeBytes pos · f) (by omega)
    · rw [show min (2 * n) (left - 2 * 1) = 0 by omega, Memory.storeBytes_zero]
      exact congrArg (disk.storeBytes pos · f) (by omega)

end DriveSide

section
variable {dev : BitVec 16 → DriveSide → BitVec 8}

theorem reads_data (n : Nat) (d : DriveSide) :
    ((driveDevice dev).reads ataRegData n d).2 = d.given n ∧
      ∀ i < 2 * n, wordBytes ((driveDevice dev).reads ataRegData n d).1 i = d.byte i := by
  induction n generalizing d with
  | zero => exact ⟨d.given_zero.symm, fun i hi => absurd hi (by omega)⟩
  | succ n ih =>
      obtain ⟨hdrive, hbytes⟩ := ih (d.given 1)
      have hreads : (driveDevice dev).reads ataRegData (n + 1) d =
          ((d.byte 1 ++ d.byte 0) :: ((driveDevice dev).reads ataRegData n (d.given 1)).1,
            ((driveDevice dev).reads ataRegData n (d.given 1)).2) := by
        simp only [Device.reads, driveDevice, ↓reduceIte]
      rw [hreads]
      refine ⟨hdrive.trans (d.given_succ n), fun i hi => ?_⟩
      by_cases hlow : i < 2
      · rw [← wordBytes_head _ hlow]
        exact extract_word d.byte hlow
      · obtain ⟨j, rfl⟩ := Nat.exists_eq_add_of_le (Nat.le_of_not_lt hlow)
        rw [wordBytes_cons, hbytes j (by omega), d.byte_given]

theorem writes_data (n : Nat) (ram : Memory) (a : Nat) (d : DriveSide) :
    (driveDevice dev).writes ataRegData (loadWords ram a n) d = d.taken n fun i => ram (a + i) := by
  induction n generalizing a d with
  | zero => exact (d.taken_zero _).symm
  | succ n ih =>
      have hone : (driveDevice dev).write16 ataRegData (load16 ram a) d = d.taken 1 fun i => ram (a + i) := by
        simp only [driveDevice, ↓reduceIte]
        refine d.taken_congr fun i hi => ?_
        rw [← wordBytes_head [] (by omega)]
        exact extract_word (fun i => ram (a + i)) (by omega)
      rw [loadWords_succ, Device.writes, List.foldl_cons, ← Device.writes, hone, ih,
        ← d.taken_succ n fun i => ram (a + i)]
      simp only [Nat.add_assoc]

theorem store_fromDisk (d : DriveSide) (ram : Memory) (a : BitVec 64) (n : Nat) :
    (d.store ram).perform (.fromDisk (.ram a) n) =
      (d.given n).store (ram.storeBytes a.toNat (2 * n) d.byte) := by
  obtain ⟨disk, running, taskfile⟩ := d
  rcases running with _ | ⟨_ | _, pos, left⟩
  · rfl
  · rfl
  · rfl

theorem store_toDisk (d : DriveSide) (ram : Memory) (a : BitVec 64) (n : Nat) :
    (d.store ram).perform (.toDisk (.ram a) n) = (d.taken n fun i => ram (a.toNat + i)).store ram := by
  obtain ⟨disk, running, taskfile⟩ := d
  rcases running with _ | ⟨_ | _, pos, left⟩
  · rfl
  · rfl
  · rfl

theorem given_taskfile (d : DriveSide) (n : Nat) : (d.given n).taskfile = d.taskfile := by
  unfold DriveSide.given
  split
  · rfl
  · rfl

theorem taken_taskfile (d : DriveSide) (n : Nat) (f : Nat → BitVec 8) : (d.taken n f).taskfile = d.taskfile := by
  unfold DriveSide.taken
  split
  · rfl
  · rfl

end

/-! ## Calls as accesses -/

/-- The access as the wrappers make it, which move more words than they are asked for. -/
def DiskAccess.moved {β : Type} : DiskAccess β → DiskAccess β
  | .fromDisk buf words => .fromDisk buf (movedWords ataRegData (BitVec.ofNat 64 words))
  | .toDisk buf words => .toDisk buf (movedWords ataRegData (BitVec.ofNat 64 words))
  | d => d

def Store.move (s : Store) (d : DiskAccess AtaBuffer) : Store := s.perform d.moved

/-- The access that a call stands for. The drivers make none of words outside the string instructions. -/
def IoCall.access (dev : BitVec 16 → DriveSide → BitVec 8) (s : State DriveSide) : IoCall → Option AtaEvent
  | .inb => some (.inb (ioPort s) (dev (ioPort s) s.dev))
  | .outb => some (.outb (ioPort s) (low8 (s.regs .rsi)))
  | .insw => some (.insw (ioPort s) (.ram (s.regs .rsi)) ((s.regs .rdx).setWidth 32))
  | .outsw => some (.outsw (ioPort s) (.ram (s.regs .rsi)) ((s.regs .rdx).setWidth 32))
  | .inw | .outw => none

/-- The string instructions are used on the data register, with a count of 32 bits. -/
def IoCall.OnData (s : State DriveSide) (c : IoCall) : Prop :=
  (c = .insw ∨ c = .outsw) → ioPort s = ataRegData ∧ (s.regs .rdx).toNat < 2 ^ 32

section
variable {dev : BitVec 16 → DriveSide → BitVec 8} {s : State DriveSide}

theorem command_store (t : Taskfile) (v : BitVec 8) (d : DriveSide) (ram ram' : Memory) :
    (t.command v).foldl Store.move (d.store ram) =
      { (t.command v).foldl Store.perform (d.store ram') with ram := ram } := by
  unfold Taskfile.command
  split
  · split
    · rfl
    · rfl
  · rfl

theorem outb_store (t : Taskfile) (port : BitVec 16) (v : BitVec 8) (d : DriveSide) (ram ram' : Memory) :
    (t.step (.outb port v)).2.foldl Store.move (d.store ram) =
      { (t.step (.outb port v)).2.foldl Store.perform (d.store ram') with ram := ram } := by
  rcases t.step_outb (β := AtaBuffer) port v with h | h
  · rw [h]
    rfl
  · rw [h]
    exact command_store t v d ram ram'

/-- The words that a call moves, from the count that the driver gives. -/
theorem ioWords_data (hport : ioPort s = ataRegData) (hcount : (s.regs .rdx).toNat < 2 ^ 32) :
    ioWords s = movedWords ataRegData (BitVec.ofNat 64 ((s.regs .rdx).setWidth 32 : BitVec 32).toNat) := by
  have hlow : ((s.regs .rdx).setWidth 32 : BitVec 32).toNat = (s.regs .rdx).toNat := by
    rw [BitVec.toNat_setWidth, Nat.mod_eq_of_lt hcount]
  rw [ioWords, hport, hlow, BitVec.ofNat_toNat, BitVec.setWidth_eq]

/-- What a call does to the memory and the drive is what its access does. -/
theorem access_effect (c : IoCall) (hdata : c.OnData s) {e : AtaEvent} (he : c.access dev s = some e) :
    (c.effect (driveDevice dev) s).dev.taskfile = (s.dev.taskfile.step e).1 ∧
      (c.effect (driveDevice dev) s).dev.store (c.effect (driveDevice dev) s).ram =
        (s.dev.taskfile.step e).2.foldl Store.move (s.dev.store s.ram) := by
  cases c with
  | inw | outw => cases he
  | inb =>
      cases he
      exact ⟨rfl, rfl⟩
  | outb =>
      cases he
      exact ⟨rfl, (outb_store _ _ _ _ _ _).symm⟩
  | insw =>
      cases he
      obtain ⟨hport, hcount⟩ := hdata (.inl rfl)
      obtain ⟨hdrive, hbytes⟩ := @reads_data dev (ioWords s) s.dev
      simp only [IoCall.effect, hport, hdrive, Taskfile.step, ↓reduceIte, List.foldl_cons, List.foldl_nil]
      refine ⟨given_taskfile _ _, ?_⟩
      rw [Store.move, DiskAccess.moved, ← ioWords_data hport hcount, store_fromDisk,
        Memory.storeBytes_congr _ _ _ _ hbytes]
  | outsw =>
      cases he
      obtain ⟨hport, hcount⟩ := hdata (.inr rfl)
      simp only [IoCall.effect, hport, writes_data, Taskfile.step, ↓reduceIte, List.foldl_cons, List.foldl_nil]
      refine ⟨taken_taskfile _ _ _, ?_⟩
      rw [Store.move, DiskAccess.moved, ← ioWords_data hport hcount, store_toDisk]

/-- A call on the drive does what the access does that it stands for in the drivers, to the drive and to all memory
that the caller uses, and returns what the access has read. -/
theorem access_returned (c : IoCall) (irq : Bool) (hc : c.Callable s) (hdata : c.OnData s) {e : AtaEvent}
    (he : c.access dev s = some e) :
    let s' := (driveDevice dev).run (c.code irq) s
    let x := (s.dev.taskfile.step e).2.foldl Store.move (s.dev.store s.ram)
    s'.dev = ⟨x.disk, x.running, (s.dev.taskfile.step e).1⟩ ∧
      (∀ a, a < (s.regs .rsp).toNat - 24 ∨ (s.regs .rsp).toNat ≤ a → s'.ram a = x.ram a) ∧
      ∀ port v, e = .inb port v → s'.regs .rax = v.setWidth 64 := by
  have hret := c.returned irq (driveDevice dev) s hc
  obtain ⟨htask, hstore⟩ := access_effect c hdata he
  refine ⟨?_, fun a ha => ?_, fun port v hv => hret.result _ ?_⟩
  · rw [hret.dev, ← htask, ← hstore]
    rfl
  · rw [hret.ram a ha, ← hstore]
    rfl
  · cases c with
    | inb =>
        cases he
        cases hv
        rfl
    | outb | insw | outsw =>
        cases he
        cases hv
    | inw | outw => cases he

end

/-- The code of every wrapper, on any device, does what the wrapper is for and returns to its caller with the
registers that it keeps. On the drive the wrappers that the drivers call do what the accesses of the drivers do. -/
theorem ioCall_access (c : IoCall) (irq : Bool) :
    (∀ {δ : Type} (D : Device δ) (s : State δ), c.Callable s → c.Returned irq D s (D.run (c.code irq) s)) ∧
      ∀ (dev : BitVec 16 → DriveSide → BitVec 8) (s : State DriveSide) (e : AtaEvent),
        c.Callable s → c.OnData s → c.access dev s = some e →
        let s' := (driveDevice dev).run (c.code irq) s
        let x := (s.dev.taskfile.step e).2.foldl Store.move (s.dev.store s.ram)
        s'.dev = ⟨x.disk, x.running, (s.dev.taskfile.step e).1⟩ ∧
          (∀ a, a < (s.regs .rsp).toNat - 24 ∨ (s.regs .rsp).toNat ≤ a → s'.ram a = x.ram a) ∧
          ∀ port v, e = .inb port v → s'.regs .rax = v.setWidth 64 :=
  ⟨fun D s hc => c.returned irq D s hc, fun _ _ _ hc hdata he => access_returned c irq hc hdata he⟩

/-- A call that asks for the words of one sector, to the address 0x8000. -/
def sectorCall : State DriveSide where
  regs
    | .rdi => 0x1F0
    | .rsi => 0x8000
    | .rdx => 256
    | .rsp => 0x7000
    | _ => 0
  df := false
  rip := 0
  ram _ := 0
  dev := ⟨fun _ => 7, some ⟨false, 512 * 5, 512⟩, ⟨0, ⟨0, 0⟩, ⟨0, 0⟩, ⟨0, 0⟩, ⟨0, 0⟩⟩⟩

/-- The sector is read, and the call also overwrites bytes behind it. -/
theorem ioCall_access_sector :
    let s' := (driveDevice fun _ _ => 0x58).run (IoCall.insw.code true) sectorCall
    s'.ram (0x8000 + 511) = 7 ∧ s'.ram (0x8000 + 512) = ataStatusFloating ∧ s'.regs .rdx = 256 := by
  have hcall : IoCall.insw.Callable sectorCall := ⟨by decide, by decide, by decide⟩
  obtain ⟨hreturned, haccess⟩ := ioCall_access .insw true
  obtain ⟨-, hram, -⟩ := haccess (fun _ _ => 0x58) sectorCall _ hcall (fun _ => ⟨by decide, by decide⟩) rfl
  refine ⟨(hram _ (.inr (by decide))).trans ?_, (hram _ (.inr (by decide))).trans ?_, ?_⟩
  · decide
  · decide
  · exact (hreturned _ sectorCall hcall).kept .rdx (by decide) (by decide)

/-! ## The words that are moved -/

/-- The string instructions move the words that they are asked for only if the count ends in the port. -/
theorem movedWords_eq_iff (port : BitVec 16) (count : BitVec 64) :
    movedWords port count = count.toNat ↔ low16 count = port := by
  rw [movedWords, setLow16_toNat]
  have hlow : (low16 count).toNat = count.toNat % 2 ^ 16 := BitVec.toNat_setWidth 16 count
  rw [← BitVec.toNat_inj, hlow]
  omega

end BootKernel
