import BootKernel.Pmm.Defs
import BootKernel.Lib.Memory

/-!
# The machine under the paging code

Physical memory, the allocator's variables, CR3, and a trace of what the code did to the hardware.
A pointer reaches physical memory through a window: before the load of CR3 pointers are physical
addresses, and after it the tables are reached through the higher-half direct map, which is taken to
map every table.
-/

namespace BootKernel

inductive Event where
  | load (pa : Nat)
  | store (pa : Nat)
  | follow (entry : BitVec 64)
  | alloc (frame : BitVec 64)
  | free (frameIdx : BitVec 64)
  | invlpg (vaddr : BitVec 64)
  | cr3 (value : BitVec 64)
deriving DecidableEq, Repr

/-- The part of the machine that the page tables and the allocator live in. -/
structure Core where
  mem : Memory
  pmm : Pmm

structure Machine extends Core where
  cr3 : BitVec 64
  trace : List Event

inductive Window where
  | identity
  | hhdm

def vmmPhysToVirt (phys : BitVec 64) : BitVec 64 := phys + hhdmOffset

def virtToPhys (virt : BitVec 64) : BitVec 64 := virt - hhdmOffset

/-- The physical address that a pointer stands for. -/
def Window.phys : Window → BitVec 64 → Nat
  | .identity, ptr => ptr.toNat
  | .hhdm, ptr => (virtToPhys ptr).toNat

namespace Machine

def emit (m : Machine) (e : Event) : Machine := { m with trace := m.trace ++ [e] }

/-- Reading `*(uint64_t*)ptr`. -/
def load64 (m : Machine) (w : Window) (ptr : BitVec 64) : BitVec 64 × Machine :=
  (m.mem.load64 (w.phys ptr), m.emit (.load (w.phys ptr)))

/-- Writing `*(uint64_t*)ptr`. -/
def store64 (m : Machine) (w : Window) (ptr v : BitVec 64) : Machine :=
  { m with mem := m.mem.store64 (w.phys ptr) v }.emit (.store (w.phys ptr))

/-- Writing `*(uint8_t*)ptr`. -/
def store8 (m : Machine) (w : Window) (ptr : BitVec 64) (v : BitVec 8) : Machine :=
  { m with mem := m.mem.store8 (w.phys ptr) v }.emit (.store (w.phys ptr))

def frameAlloc (m : Machine) : BitVec 64 × Machine :=
  ((pmmFrameAlloc m.pmm).1,
    { m with pmm := (pmmFrameAlloc m.pmm).2 }.emit (.alloc (pmmFrameAlloc m.pmm).1))

def frameFree (m : Machine) (frameIdx : BitVec 64) : Machine :=
  { m with pmm := pmmFrameFree frameIdx m.pmm }.emit (.free frameIdx)

end Machine

end BootKernel
