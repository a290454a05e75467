import BootKernel.Ata.Poll.Defs
import BootKernel.Ata.Taskfile
import BootKernel.Lib.Loop
import BootKernel.Lib.Memory
import BootKernel.Lib.PortMachine

/-!
# The kernel loader

The program of `kernelLoader/main.c` and `kernelLoader/idt.c` on a machine with memory and a disk.
The drive carries out each command that it is given; what it answers to each read is left open.
-/

namespace BootKernel

open PortProgram

/-! ## The machine -/

/-- The command that moves words between the disk and the memory, with the bytes that it has left. -/
structure BlockCommand where
  write : Bool
  pos : Nat
  left : Nat
deriving DecidableEq, Repr

/-- The memory and the disk, each byte by byte. -/
structure Store where
  ram : Memory
  disk : Memory
  running : Option BlockCommand

/-- The block command that a command starts. -/
def blockCommand (code : BitVec 8) (lba sectors : Nat) : Option BlockCommand :=
  if code = ataCmdReadSectors ∨ code = ataCmdReadSectorsExt then
    some ⟨false, 512 * lba, 512 * sectors⟩
  else if code = ataCmdWriteSectors ∨ code = ataCmdWriteSectorsExt then
    some ⟨true, 512 * lba, 512 * sectors⟩
  else none

/-- What an access to the disk does. Words that the drive does not provide float, and words that it
does not expect are dropped. -/
def Store.perform (s : Store) : DiskAccess AtaBuffer → Store
  | .command code lba sectors => { s with running := blockCommand code lba sectors }
  | .unaddressed _ => { s with running := none }
  | .fromDisk (.ram a) words =>
      match s.running with
      | some ⟨false, pos, left⟩ =>
          { s with
            ram := s.ram.storeBytes a.toNat (2 * words) fun i =>
              if i < left then s.disk (pos + i) else ataStatusFloating
            running := some ⟨false, pos + 2 * words, left - 2 * words⟩ }
      | _ => { s with ram := s.ram.storeBytes a.toNat (2 * words) fun _ => ataStatusFloating }
  | .toDisk (.ram a) words =>
      match s.running with
      | some ⟨true, pos, left⟩ =>
          { s with
            disk := s.disk.storeBytes pos (min (2 * words) left) fun i => s.ram (a.toNat + i)
            running := some ⟨true, pos + 2 * words, left - 2 * words⟩ }
      | _ => s
  | .fromDisk .identify _ => s
  | .toDisk .identify _ => s

structure Pc where
  store : Store
  /-- The limit and the base of the interrupt descriptor table. -/
  idtr : BitVec 16 × Nat
  taskfile : Taskfile
  trace : List AtaEvent

/-- The machine with a drive that answers `dev`. -/
def pcBoard (dev : Pc → BitVec 16 → BitVec 8) : Board AtaBuffer Pc where
  answer port m := dev m port
  effect e m :=
    { m with
      store := (m.taskfile.step e).2.foldl Store.perform m.store
      taskfile := (m.taskfile.step e).1
      trace := m.trace ++ [e] }

def Pc.setRam (m : Pc) (f : Memory → Memory) : Pc :=
  { m with store := { m.store with ram := f m.store.ram } }

/-! ## Interrupt descriptors -/

/-- What the linker puts where: the zeroed section, the table `idt`, and the handler of each vector
that has one. -/
structure LoaderSymbols where
  bssStart : Nat
  bssEnd : Nat
  idt : Nat
  isr : BitVec 8 → BitVec 64

def kernelCs : BitVec 16 := 0x18
def idtAttrIntgate : BitVec 8 := 0x8E

/-- The sixteen bytes of a gate, the first field in the lowest ones. -/
def idtGate (addr : BitVec 64) (selector : BitVec 16) (istIndex typeAttr : BitVec 8) : BitVec 128 :=
  (0 : BitVec 32) ++ ((addr >>> 32).setWidth 32 : BitVec 32) ++ ((addr >>> 16).setWidth 16 : BitVec 16) ++
    typeAttr ++ (istIndex &&& 0x7) ++ selector ++ (addr.setWidth 16 : BitVec 16)

def idtGateSet (idt : Nat) (vec : BitVec 8) (addr : BitVec 64) (selector : BitVec 16)
    (istIndex typeAttr : BitVec 8) (ram : Memory) : Memory :=
  ram.storeBytes (idt + 16 * vec.toNat) 16 fun i =>
    (idtGate addr selector istIndex typeAttr).extractLsb' (8 * i) 8

/-- The vectors that get a handler. -/
def idtVectors : List (BitVec 8) :=
  [0, 1, 2, 5, 6, 7, 8, 9, 10, 11, 12, 13, 14, 16, 17, 18, 19, 20, 21]

def idtInit (sym : LoaderSymbols) (m : Pc) : Pc :=
  { m.setRam fun ram => idtVectors.foldl
      (fun ram vec => idtGateSet sym.idt vec (sym.isr vec) kernelCs 0 idtAttrIntgate ram) ram with
    idtr := (256 * 16 - 1, sym.idt) }

/-! ## The program -/

/-- How `kmain` ends: it returns, it stays in its last loop, or it is still in the loop before. -/
inductive KmainEnd where
  | returned
  | halted
  | initialising
deriving DecidableEq, Repr

/-- `while (!ata_init()) continue;`, for at most `fuel` turns. -/
def ataInitUntil : Nat → Poll Bool
  | 0 => return false
  | fuel + 1 => do
      if ← ataInit then return true else ataInitUntil fuel

def kernelBase : Nat := 0x00400000
def kernelLba : BitVec 64 := 2048
def kernelSectors : BitVec 32 := 256

def kmain (sym : LoaderSymbols) (fuel : Nat) : Prog AtaBuffer Pc KmainEnd := do
  store fun m => m.setRam (Loop.forRange sym.bssStart sym.bssEnd fun p ram => ram.store8 p 0)
  store (idtInit sym)
  store fun m => m.setRam
    (Loop.forRange kernelBase (kernelBase + 256 * 512) fun p ram => ram.store8 p 0xCC)
  if ← (ataInitUntil fuel).lift then
    if ← (ataDiskWrite48Poll kernelLba (BitVec.ofNat 64 kernelBase) kernelSectors).lift then
      return .returned
    else
      return .halted
  else
    return .initialising

end BootKernel
