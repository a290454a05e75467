import BootKernel.Ata.Irq.Defs

/-!
# The polling disk driver

The functions of `kernelLoader/atadriver.c`. They keep no state of their own, so that what they do is
the accesses to the ports and the result. The four transfers are one loop, which selects a sector,
writes a command and moves a block in each turn.
-/

namespace BootKernel

open PortProgram

def ataCtrlIrqDisable : BitVec 8 := 0x02
def ataCmdSetMultiple : BitVec 8 := 0xC6

abbrev Poll := Prog AtaBuffer Unit

/-- The value of a status register that nothing drives. -/
def ataStatusFloating : BitVec 8 := 0xFF

/-- The test `st & (ATA_SR_ERR | ATA_SR_DF)`. -/
def ataStatusHasError (st : BitVec 8) : Bool := st &&& (ataSrErr ||| ataSrDf) != 0

/-- The test `st & ATA_SR_DRDY`. -/
def ataStatusIsDrdy (st : BitVec 8) : Bool := st &&& ataSrDrdy != 0

/-! ## Waiting -/

def ataStatusGet : Poll (BitVec 8) := inb ataRegStatus

/-- `for (int i = 0; i < 4; i++) inb(ATA_REG_CONTROL);` -/
def ataControlReads : Poll Unit := do
  let _ ← inb ataRegControl
  let _ ← inb ataRegControl
  let _ ← inb ataRegControl
  let _ ← inb ataRegControl
  return

def ataWaitIdleLoop : Nat → Poll Bool
  | 0 => return false
  | timeout + 1 => do
      let status ← ataStatusGet
      if status = ataStatusFloating then
        return false
      else if ataStatusIsBusy status then
        ataWaitIdleLoop timeout
      else if ataStatusHasError status then
        return false
      else if !ataStatusIsDrdy status then
        ataWaitIdleLoop timeout
      else
        return true

def ataWaitIdle : Poll Bool := ataWaitIdleLoop 100000000

def ataWaitDrqLoop : Nat → Poll Bool
  | 0 => return false
  | timeout + 1 => do
      let status ← ataStatusGet
      if status = ataStatusFloating then
        return false
      else if ataStatusIsBusy status then
        ataWaitDrqLoop timeout
      else if ataStatusHasError status then
        return false
      else if ataStatusHasDrq status then
        return true
      else
        ataWaitDrqLoop timeout

def ataWaitDrq : Poll Bool := ataWaitDrqLoop 10000000

/-! ## Initialisation -/

/-- The loop in `ata_init`. It returns `false` where the function returns 0, and `true` where the loop
ends, which is on a ready drive and when the counter has run out. -/
def ataInitLoop : Nat → Poll Bool
  | 0 => return true
  | timeout + 1 => do
      let status ← ataStatusGet
      if status = ataStatusFloating then
        return false
      else if ataStatusIsBusy status then
        ataInitLoop timeout
      else if ataStatusHasError status then
        return false
      else if !ataStatusIsDrdy status then
        ataInitLoop timeout
      else
        return true

/-- What `ata_init` does after its loop. -/
def ataInitRest : Poll Bool := do
  ataControlReads
  outb ataRegCommand ataCmdSetMultiple
  ataControlReads
  if ← ataWaitIdle then
    let status ← ataStatusGet
    if ataStatusHasError status then
      return false
    else if ataStatusHasDrq status then
      return false
    else
      return true
  else
    return false

def ataInit : Poll Bool := do
  outb ataRegControl ataCtrlIrqDisable
  outb ataRegDriveSel ataDhLbaMaster
  ataControlReads
  if ← ataInitLoop 10000000 then ataInitRest else return false

/-! ## Transfers -/

def ataLba28Set (lba : BitVec 32) : Poll Unit := do
  outb ataRegLbaLow (lba.setWidth 8)
  outb ataRegLbaMid ((lba >>> 8).setWidth 8)
  outb ataRegLbaHigh ((lba >>> 16).setWidth 8)
  outb ataRegDriveSel ((0xE0 ||| ((lba >>> 24) &&& 0x0F)).setWidth 8)
  ataControlReads

def ataLba48Set (lba : BitVec 64) (sectorCount : BitVec 32) : Poll Unit := do
  let (countHigh, countLow) : BitVec 8 × BitVec 8 :=
    if sectorCount = 65536 then (0, 0)
    else ((sectorCount >>> 8).setWidth 8, (sectorCount &&& 0xFF).setWidth 8)
  outb ataRegDriveSel 0xE0
  ataControlReads
  outb ataRegSeccount countHigh
  outb ataRegLbaLow ((lba >>> 24).setWidth 8)
  outb ataRegLbaMid ((lba >>> 32).setWidth 8)
  outb ataRegLbaHigh ((lba >>> 40).setWidth 8)
  outb ataRegSeccount countLow
  outb ataRegLbaLow (lba.setWidth 8)
  outb ataRegLbaMid ((lba >>> 8).setWidth 8)
  outb ataRegLbaHigh ((lba >>> 16).setWidth 8)
  ataControlReads

/-- The loop of a transfer. `select` writes the address registers and the sector count, and `move` moves
the words of a block. -/
def ataDiskPoll {w : Nat} (select : BitVec w → Poll Unit) (cmd : BitVec 8)
    (move : BitVec 64 → Poll Unit) : Nat → BitVec w → BitVec 64 → Poll Bool
  | 0, _, _ => do
      if ← ataWaitIdle then return true else return false
  | sectorCount + 1, lba, ptr => do
      if ← ataWaitIdle then
        select lba
        outb ataRegCommand cmd
        ataControlReads
        if ← ataWaitDrq then
          move ptr
          -- `ptr` points to words of two bytes
          ataDiskPoll select cmd move sectorCount (lba + 1) (ptr + 512)
        else
          return false
      else
        return false

/-- The registers that a command with an address of 28 bits needs. -/
def ataSelect28 (lba : BitVec 32) : Poll Unit := do
  ataLba28Set lba
  outb ataRegSeccount 1

def ataSelect48 (lba : BitVec 64) : Poll Unit := ataLba48Set lba 1

def ataBlockIn (ptr : BitVec 64) : Poll Unit := insw ataRegData (.ram ptr) 256

def ataBlockOut (ptr : BitVec 64) : Poll Unit := outsw ataRegData (.ram ptr) 256

def ataDiskWrite28Poll (lba : BitVec 32) (addr : BitVec 64) (sectorCount : BitVec 32) : Poll Bool :=
  ataDiskPoll ataSelect28 ataCmdWriteSectors ataBlockOut sectorCount.toNat lba addr

def ataDiskRead28Poll (lba : BitVec 32) (addr : BitVec 64) (sectorCount : BitVec 32) : Poll Bool :=
  ataDiskPoll ataSelect28 ataCmdReadSectors ataBlockIn sectorCount.toNat lba addr

def ataDiskWrite48Poll (lba : BitVec 64) (addr : BitVec 64) (sectorCount : BitVec 32) : Poll Bool :=
  ataDiskPoll ataSelect48 ataCmdWriteSectorsExt ataBlockOut sectorCount.toNat lba addr

def ataDiskRead48Poll (lba : BitVec 64) (addr : BitVec 64) (sectorCount : BitVec 32) : Poll Bool :=
  ataDiskPoll ataSelect48 ataCmdReadSectorsExt ataBlockIn sectorCount.toNat lba addr

/-- The transfers that the kernel loader can ask for. -/
inductive PollTransfer where
  | read28 (lba : BitVec 32) (addr : BitVec 64) (sectorCount : BitVec 32)
  | write28 (lba : BitVec 32) (addr : BitVec 64) (sectorCount : BitVec 32)
  | read48 (lba : BitVec 64) (addr : BitVec 64) (sectorCount : BitVec 32)
  | write48 (lba : BitVec 64) (addr : BitVec 64) (sectorCount : BitVec 32)
deriving DecidableEq, Repr

def PollTransfer.prog : PollTransfer → Poll Bool
  | .read28 lba addr n => ataDiskRead28Poll lba addr n
  | .write28 lba addr n => ataDiskWrite28Poll lba addr n
  | .read48 lba addr n => ataDiskRead48Poll lba addr n
  | .write48 lba addr n => ataDiskWrite48Poll lba addr n

end BootKernel
