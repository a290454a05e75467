import BootKernel.Ata.Registers
import BootKernel.Lib.PortProgram
import Mathlib.Algebra.Order.Ring.Nat

/-!
# What the drive is told

The drive's side of the registers. The sector count and the three address registers keep the last two
bytes written to them: a command with an address of 48 bits uses both, one with an address of 28 bits
uses the last one, and takes the top four bits from the drive select register.
-/

namespace BootKernel

open PortProgram

variable {β : Type}

/-- A register with the byte written last and the one before it. -/
structure Latch where
  low : BitVec 8
  high : BitVec 8
deriving DecidableEq, Repr

def Latch.write (r : Latch) (v : BitVec 8) : Latch := ⟨v, r.low⟩

structure Taskfile where
  driveSel : BitVec 8
  seccount : Latch
  lbaLow : Latch
  lbaMid : Latch
  lbaHigh : Latch
deriving DecidableEq, Repr

/-- A command as the drive understands it, or a transfer of words. A command is `unaddressed` unless
the master drive and a sector address are selected. -/
inductive DiskAccess (β : Type) where
  | command (code : BitVec 8) (lba : Nat) (sectors : Nat)
  | unaddressed (code : BitVec 8)
  | fromDisk (buf : β) (words : Nat)
  | toDisk (buf : β) (words : Nat)
deriving DecidableEq, Repr

/-- The sector address of a command; the inner `none` is for a command that addresses no sector. -/
def DiskAccess.address? : DiskAccess β → Option (Option Nat)
  | .command _ lba _ => some (some lba)
  | .unaddressed _ => some none
  | .fromDisk _ _ => none
  | .toDisk _ _ => none

/-- The sector addresses of the commands in turn. -/
def addresses (ds : List (DiskAccess β)) : List (Option Nat) := ds.filterMap DiskAccess.address?

theorem addresses_append (ds ds' : List (DiskAccess β)) :
    addresses (ds ++ ds') = addresses ds ++ addresses ds' := List.filterMap_append

/-- The commands that take an address of 48 bits. -/
def isExt (code : BitVec 8) : Bool := code == ataCmdReadSectorsExt || code == ataCmdWriteSectorsExt

namespace Taskfile

/-- The drive select register asks for the master drive and for a sector address. -/
def selectsMasterLba (t : Taskfile) : Bool := t.driveSel &&& 0x50 == 0x40

def lba28 (t : Taskfile) : Nat :=
  t.lbaLow.low.toNat + 2 ^ 8 * t.lbaMid.low.toNat + 2 ^ 16 * t.lbaHigh.low.toNat +
    2 ^ 24 * (t.driveSel &&& 0x0F).toNat

def lba48 (t : Taskfile) : Nat :=
  t.lbaLow.low.toNat + 2 ^ 8 * t.lbaMid.low.toNat + 2 ^ 16 * t.lbaHigh.low.toNat +
    2 ^ 24 * t.lbaLow.high.toNat + 2 ^ 32 * t.lbaMid.high.toNat + 2 ^ 40 * t.lbaHigh.high.toNat

/-- The command that a write of `code` to the command register starts. A count of zero stands for the
largest one. -/
def command (t : Taskfile) (code : BitVec 8) : List (DiskAccess β) :=
  if t.selectsMasterLba then
    if isExt code then
      let n := t.seccount.low.toNat + 2 ^ 8 * t.seccount.high.toNat
      [.command code t.lba48 (if n = 0 then 2 ^ 16 else n)]
    else
      let n := t.seccount.low.toNat
      [.command code t.lba28 (if n = 0 then 2 ^ 8 else n)]
  else [.unaddressed code]

/-- What one access to the ports means to the drive. -/
def step (t : Taskfile) : Event β → Taskfile × List (DiskAccess β)
  | .inb _ _ => (t, [])
  | .outb port v =>
      if port = ataRegDriveSel then ({ t with driveSel := v }, [])
      else if port = ataRegSeccount then ({ t with seccount := t.seccount.write v }, [])
      else if port = ataRegLbaLow then ({ t with lbaLow := t.lbaLow.write v }, [])
      else if port = ataRegLbaMid then ({ t with lbaMid := t.lbaMid.write v }, [])
      else if port = ataRegLbaHigh then ({ t with lbaHigh := t.lbaHigh.write v }, [])
      else if port = ataRegCommand then (t, t.command v)
      else (t, [])
  | .insw port buf n => (t, if port = ataRegData then [.fromDisk buf n.toNat] else [])
  | .outsw port buf n => (t, if port = ataRegData then [.toDisk buf n.toNat] else [])

/-- A write to a register starts a command or none. -/
theorem step_outb (t : Taskfile) (port : BitVec 16) (v : BitVec 8) :
    (t.step (.outb port v : Event β)).2 = [] ∨ (t.step (.outb port v : Event β)).2 = t.command v := by
  by_cases h : port = ataRegCommand
  · subst h
    exact .inr rfl
  · left
    unfold step
    repeat' split
    all_goals simp_all

/-- The accesses to the disk in a list of accesses to the ports, and the registers after it. -/
def decode (t : Taskfile) : List (Event β) → Taskfile × List (DiskAccess β)
  | [] => (t, [])
  | e :: es =>
      let (t₁, ds) := t.step e
      let (t₂, ds') := t₁.decode es
      (t₂, ds ++ ds')

theorem decode_append (t : Taskfile) (es es' : List (Event β)) :
    t.decode (es ++ es') =
      (((t.decode es).1.decode es').1, (t.decode es).2 ++ ((t.decode es).1.decode es').2) := by
  induction es generalizing t with
  | nil => rfl
  | cons e es ih => simp only [List.cons_append, decode, ih, List.append_assoc]

/-- Reads of the registers mean nothing to the drive. -/
theorem decode_reads {es : List (Event β)} (h : ∀ e ∈ es, ∃ port v, e = .inb port v)
    (t : Taskfile) : t.decode es = (t, []) := by
  induction es with
  | nil => rfl
  | cons e es ih =>
      obtain ⟨port, v, rfl⟩ := h e List.mem_cons_self
      simp only [decode, step, ih fun e he => h e (List.mem_cons_of_mem _ he), List.nil_append]

end Taskfile

end BootKernel
