import Mathlib.Data.Nat.Notation

/-!
# The registers of the disk drive

The constants that the two disk drivers share, and the tests that they make on a status byte.
-/

namespace BootKernel

def ataSrBsy : BitVec 8 := 0x80
def ataSrDrdy : BitVec 8 := 0x40
def ataSrDf : BitVec 8 := 0x20
def ataSrDrq : BitVec 8 := 0x08
def ataSrErr : BitVec 8 := 0x01

def ataRegData : BitVec 16 := 0x1F0
def ataRegSeccount : BitVec 16 := 0x1F2
def ataRegLbaLow : BitVec 16 := 0x1F3
def ataRegLbaMid : BitVec 16 := 0x1F4
def ataRegLbaHigh : BitVec 16 := 0x1F5
def ataRegDriveSel : BitVec 16 := 0x1F6
def ataRegCommand : BitVec 16 := 0x1F7
def ataRegStatus : BitVec 16 := 0x1F7
def ataRegControl : BitVec 16 := 0x3F6

def ataCmdReadSectors : BitVec 8 := 0x20
def ataCmdWriteSectors : BitVec 8 := 0x30
def ataCmdReadSectorsExt : BitVec 8 := 0x24
def ataCmdWriteSectorsExt : BitVec 8 := 0x34

def ataStatusIsBad (st : BitVec 8) : Bool := st == 0xFF || st &&& (ataSrErr ||| ataSrDf) != 0

/-- The test `st & ATA_SR_DRQ`. -/
def ataStatusHasDrq (st : BitVec 8) : Bool := st &&& ataSrDrq != 0

/-- The test `st & ATA_SR_BSY`. -/
def ataStatusIsBusy (st : BitVec 8) : Bool := st &&& ataSrBsy != 0

end BootKernel
