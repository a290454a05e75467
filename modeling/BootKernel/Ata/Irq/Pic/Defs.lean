import BootKernel.Ata.Irq.Drive
import BootKernel.Lib.Pic8259

/-!
# The interrupt controllers

`remap_pic`, `unmask_irq` and `setup_ata_irq` of `kernel/ata_driver_irq.c`, and the driver with a drive whose
interrupt goes through the two controllers to the processor. The drive is wired to input 6 of the slave.
-/

namespace BootKernel

open PortProgram Pic8259

def pic1Data : BitVec 16 := 0x21
def pic2Data : BitVec 16 := 0xA1

def picIcw1Init : BitVec 8 := 0x10
def picIcw1Icw4 : BitVec 8 := 0x01
def picIcw48086 : BitVec 8 := 0x01
def picRemapMaster : BitVec 8 := 0x20
def picRemapSlave : BitVec 8 := 0x28
def picIrqCascade : BitVec 8 := 2

/-- The vector that the header says `irq14_ata` is installed at. -/
def irq14Vector : BitVec 8 := 46

/-! ## The functions -/

def picIoWait : Ata Unit := outb 0x80 0

def remapPic (masterOffset slaveOffset : BitVec 8) : Ata Unit := do
  let masterMask ← inb pic1Data
  let slaveMask ← inb pic2Data
  outb pic1Cmd (picIcw1Init ||| picIcw1Icw4)
  picIoWait
  outb pic2Cmd (picIcw1Init ||| picIcw1Icw4)
  picIoWait
  outb pic1Data masterOffset
  picIoWait
  outb pic2Data slaveOffset
  picIoWait
  outb pic1Data 0x04
  picIoWait
  outb pic2Data 0x02
  picIoWait
  outb pic1Data picIcw48086
  picIoWait
  outb pic2Data picIcw48086
  picIoWait
  outb pic1Data masterMask
  outb pic2Data slaveMask

/-- The mask without the bit `n`. -/
def clearMask (mask : BitVec 8) (n : Nat) : BitVec 8 := mask &&& ~~~(((1 : BitVec 32) <<< n).setWidth 8)

def unmaskIrq (irq : BitVec 8) : Ata Unit := do
  if irq < 8 then
    let mask ← inb pic1Data
    outb pic1Data (clearMask mask irq.toNat)
  else
    let mask2 ← inb pic2Data
    outb pic2Data (clearMask mask2 (irq - 8).toNat)
    let mask1 ← inb pic1Data
    outb pic1Data (clearMask mask1 picIrqCascade.toNat)

def setupAtaIrq : Ata Unit := do
  remapPic picRemapMaster picRemapSlave
  unmaskIrq picIrqAtaPrimary

/-! ## The ports -/

/-- What a read of a port of the controllers gives. Only their masks are read. -/
def picRead (p : Pair) (port : BitVec 16) : Option (BitVec 8) :=
  if port = pic1Data then some p.master.imr else if port = pic2Data then some p.slave.imr else none

def picWrite (p : Pair) (port : BitVec 16) (v : BitVec 8) : Pair :=
  if port = pic1Cmd then p.onMaster (·.writeCommand v)
  else if port = pic1Data then p.onMaster (·.writeData v)
  else if port = pic2Cmd then p.onSlave (·.writeCommand v)
  else if port = pic2Data then p.onSlave (·.writeData v)
  else p

/-- The input of the slave that the drive is wired to. -/
def ataInput : Fin 8 := 6

/-- The drive, and the controllers whose input follows its interrupt. -/
def wire (x : Drive × Pair) : Drive × Pair := (x.1, x.2.onSlave (·.setLine ataInput x.1.intrq))

def wiredPorts (S : DriveStatus) : Ports AtaBuffer (Drive × Pair) where
  inb port x :=
    match picRead x.2 port with
    | some v => (v, wire x)
    | none =>
        let r := (drivePorts S).inb port x.1
        (r.1, wire (r.2, x.2))
  outb port v x := wire ((drivePorts S).outb port v x.1, picWrite x.2 port v)
  insw port buf n x := wire ((drivePorts S).insw port buf n x.1, x.2)
  outsw port buf n x := wire ((drivePorts S).outsw port buf n x.1, x.2)

/-! ## All together -/

structure WiredJoint where
  ctx : AtaContext
  drive : Drive
  pic : Pair
  /-- The interrupts that no handler was installed for. -/
  strays : List (Option (BitVec 8))

inductive WiredAction where
  | tick
  | interrupt
  | device
  /-- Another device changes its input. -/
  | masterLine (n : Fin 8) (level : Bool)
  | slaveLine (n : Fin 8) (level : Bool)
deriving DecidableEq, Repr

def WiredJoint.joint (s : WiredJoint) : Joint := ⟨s.ctx, s.drive⟩

def wiredExec (S : DriveStatus) (p : Ata Unit) (s : WiredJoint) : WiredJoint :=
  let x := exec (wiredPorts S) p s.ctx (s.drive, s.pic)
  { s with ctx := x.2.1, drive := x.2.2.1, pic := x.2.2.2 }

/-- The processor is interrupted only when the master says so, and runs the handler of the vector that it gets. -/
def wiredStep (S : DriveStatus) (s : WiredJoint) : WiredAction → WiredJoint
  | .tick => wiredExec S tickAta s
  | .interrupt =>
      if s.pic.int then
        let (vector, pic) := s.pic.acknowledge
        if vector = some irq14Vector then wiredExec S irq14Ata { s with pic := pic }
        else { s with pic := pic, strays := s.strays ++ [vector] }
      else s
  | .device =>
      let x := wire (s.drive.advance, s.pic)
      { s with drive := x.1, pic := x.2 }
  | .masterLine n level => if n = 2 then s else { s with pic := s.pic.onMaster (·.setLine n level) }
  | .slaveLine n level => if n = ataInput then s else { s with pic := s.pic.onSlave (·.setLine n level) }

/-- The function of a request is called on the machine. -/
def wiredBegin (S : DriveStatus) (s : WiredJoint) (r : AtaRequest) : Bool × WiredJoint :=
  let x := exec (wiredPorts S) r.begin s.ctx (s.drive, s.pic)
  (x.1, { s with ctx := x.2.1, drive := x.2.2.1, pic := x.2.2.2 })

/-- An action, or a call of the function of a request. -/
inductive DriverMove (α : Type) where
  | begin (r : AtaRequest)
  | act (a : α)
deriving DecidableEq, Repr

def wiredMove (S : DriveStatus) (s : WiredJoint) : DriverMove WiredAction → WiredJoint
  | .begin r => (wiredBegin S s r).2
  | .act a => wiredStep S s a

def wiredRun (S : DriveStatus) (s : WiredJoint) (ms : List (DriverMove WiredAction)) : WiredJoint :=
  ms.foldl (wiredMove S) s

/-! ## Without the controllers -/

/-- What an action is without the controllers. -/
def WiredAction.joint? : WiredAction → Option JointAction
  | .tick => some .tick
  | .interrupt => some .irq14
  | .device => some .device
  | .masterLine _ _ | .slaveLine _ _ => none

def DriverMove.joint? : DriverMove WiredAction → Option (DriverMove JointAction)
  | .begin r => some (.begin r)
  | .act a => a.joint?.map .act

def jointMove (S : DriveStatus) (s : Joint) : DriverMove JointAction → Joint
  | .begin r =>
      let x := exec (drivePorts S) r.begin s.ctx s.drive
      ⟨x.2.1, x.2.2⟩
  | .act a => jointStep S s a

def jointMoves (S : DriveStatus) (s : Joint) (ms : List (DriverMove JointAction)) : Joint := ms.foldl (jointMove S) s

end BootKernel
