import BootKernel.Ata.Registers
import BootKernel.Lib.PortProgram

/-!
# The interrupt driven disk driver

The state machine of `kernel/ata_driver_irq.c`. Every access to the ports and every assignment to the
context is an operation of its own. The fields `irq_fired` and `last_status` are volatile, so each
use of them is a load of its own too.
-/

namespace BootKernel

open PortProgram

def ataCtrlIrqEnable : BitVec 8 := 0x00
def ataDhLbaMaster : BitVec 8 := 0xE0
def ataCmdIdentify : BitVec 8 := 0xEC

def pic1Cmd : BitVec 16 := 0x20
def pic2Cmd : BitVec 16 := 0xA0
def picCmdEoi : BitVec 8 := 0x20
def picIrqAtaPrimary : BitVec 8 := 14

/-! ## The context -/

inductive AtaOp where
  | none | init28 | init48 | read28 | write28 | read48 | write48
deriving DecidableEq, Repr

inductive AtaStep where
  | idle
  | initSelect | initIdentifyCmd | initIdentifyWait | initIdentifyXfer | initSetmultCmd
  | initSetmultWait | initDone | initFail
  | ioIssueSelect | ioIssueTaskfile | ioIssueBatch | ioWaitIrq | ioXferBlock | ioWaitDone | ioDone
  | ioFail
deriving DecidableEq, Repr

/-- Where a block of words goes or comes from: the array `identify` of the context, or an address. -/
inductive AtaBuffer where
  | identify
  | ram (addr : BitVec 64)
deriving DecidableEq, Repr

structure AtaContext where
  irqFired : Bool
  lastStatus : BitVec 8
  op : AtaOp
  step : AtaStep
  delay400 : Nat
  lba : BitVec 64
  sectorsLeft : BitVec 32
  batchLeft : BitVec 32
  ptr : BitVec 64
deriving DecidableEq, Repr

abbrev Ata := Prog AtaBuffer AtaContext
abbrev AtaEvent := Event AtaBuffer

/-- The initial value of `g_ata_ctx`. -/
def gAtaCtx : AtaContext where
  irqFired := false
  lastStatus := 0
  op := .none
  step := .idle
  delay400 := 0
  lba := 0
  sectorsLeft := 0
  batchLeft := 0
  ptr := 0

def ataAltStatusReadOnce : Ata (BitVec 8) := inb ataRegControl

def sendEoi (irq : BitVec 8) : Ata Unit := do
  if 8 ≤ irq then outb pic2Cmd picCmdEoi
  outb pic1Cmd picCmdEoi

def setStep (step : AtaStep) : Ata Unit := store fun c => { c with step := step }

/-! ## Delay, interrupt and queries -/

def ataDelay400nsStart : Ata Unit := store fun c => { c with delay400 := 4 }

def ataDelay400nsTick : Ata Bool := do
  if (← load (·.delay400)) = 0 then
    return true
  else
    let _ ← inb ataRegControl
    store fun c => { c with delay400 := c.delay400 - 1 }
    return (← load (·.delay400)) = 0

def irq14Ata : Ata Unit := do
  let st ← inb ataRegStatus
  store fun c => { c with lastStatus := st }
  store fun c => { c with irqFired := true }
  sendEoi picIrqAtaPrimary

def isAtaIrqBusy (c : AtaContext) : Bool :=
  !(c.step = .idle ∨ c.step = .initDone ∨ c.step = .initFail ∨ c.step = .ioDone ∨ c.step = .ioFail)

def ataIrqFlagsReset : Ata Unit := do
  store fun c => { c with irqFired := false }
  store fun c => { c with lastStatus := 0 }

def ataRequestStateReset : Ata Unit := do
  store fun c => { c with delay400 := 0 }
  ataIrqFlagsReset

/-! ## Requests -/

/-- The body that the two functions that begin an initialisation share. -/
def beginInit (op : AtaOp) : Ata Bool := do
  if (← load (·.step)) ≠ .idle then
    return false
  else
    store fun c => { c with op := op }
    setStep .initSelect
    ataRequestStateReset
    return true

def beginInitAta28Irq : Ata Bool := beginInit .init28
def beginInitAta48Irq : Ata Bool := beginInit .init48

/-- The body that the four functions that begin a transfer share. -/
def beginIo (op : AtaOp) (lba : BitVec 64) (addr : BitVec 64) (sectorCount : BitVec 32) :
    Ata Bool := do
  if (← load (·.step)) ≠ .idle ∨ sectorCount = 0 then
    return false
  else
    store fun c => { c with op := op }
    setStep .ioIssueSelect
    store fun c => { c with lba := lba }
    store fun c => { c with sectorsLeft := sectorCount }
    store fun c => { c with batchLeft := 0 }
    store fun c => { c with ptr := addr }
    ataRequestStateReset
    return true

def beginReadFromDiskAta28Irq (lba : BitVec 32) (addr : BitVec 64) (sectorCount : BitVec 32) :
    Ata Bool := beginIo .read28 (lba.setWidth 64) addr sectorCount

def beginWriteToDiskAta28Irq (lba : BitVec 32) (addr : BitVec 64) (sectorCount : BitVec 32) :
    Ata Bool := beginIo .write28 (lba.setWidth 64) addr sectorCount

def beginReadFromDiskAta48Irq (lba : BitVec 64) (addr : BitVec 64) (sectorCount : BitVec 32) :
    Ata Bool := beginIo .read48 lba addr sectorCount

def beginWriteToDiskAta48Irq (lba : BitVec 64) (addr : BitVec 64) (sectorCount : BitVec 32) :
    Ata Bool := beginIo .write48 lba addr sectorCount

def ataFinishIo (success : Bool) : Ata Unit := do
  setStep (if success then .ioDone else .ioFail)
  store fun c => { c with op := .none }

def ataFinishInit (success : Bool) : Ata Unit := do
  setStep (if success then .initDone else .initFail)
  store fun c => { c with op := .none }

/-! ## Initialisation -/

def ataInitSelectHandle : Ata Unit := do
  outb ataRegControl ataCtrlIrqEnable
  outb ataRegDriveSel ataDhLbaMaster
  ataDelay400nsStart
  setStep .initIdentifyCmd

def ataInitIdentifyCmdHandle : Ata Unit := do
  outb ataRegSeccount 0
  outb ataRegLbaLow 0
  outb ataRegLbaMid 0
  outb ataRegLbaHigh 0
  outb ataRegCommand ataCmdIdentify
  ataIrqFlagsReset
  setStep .initIdentifyWait

def ataInitIdentifyWaitHandle : Ata Unit := do
  if ← load (·.irqFired) then
    store fun c => { c with irqFired := false }
    let st ← load (·.lastStatus)
    if ataStatusIsBad st then
      ataFinishInit false
    else if ataStatusHasDrq st then
      setStep .initIdentifyXfer
    else
      let st ← ataAltStatusReadOnce
      if ataStatusIsBad st then
        ataFinishInit false
      else if ataStatusHasDrq st then
        setStep .initIdentifyXfer

def ataInitIdentifyXferHandle : Ata Unit := do
  insw ataRegData .identify 256
  ataFinishInit true

def ataInitTick : Ata Unit := do
  match ← load (·.step) with
  | .initSelect => ataInitSelectHandle
  | .initIdentifyCmd => ataInitIdentifyCmdHandle
  | .initIdentifyWait => ataInitIdentifyWaitHandle
  | .initIdentifyXfer => ataInitIdentifyXferHandle
  | _ => return

/-! ## Transfers -/

def ataIoIssueSelectHandle : Ata Unit := do
  let c ← load id
  if c.op = .read28 ∨ c.op = .write28 then
    let lba28 : BitVec 32 := c.lba.setWidth 32
    let top4 : BitVec 8 := ((lba28 >>> 24) &&& 0x0F).setWidth 8
    outb ataRegDriveSel (ataDhLbaMaster ||| top4)
  else
    outb ataRegDriveSel ataDhLbaMaster
  ataDelay400nsStart
  setStep .ioIssueTaskfile

def ataIoIssueTaskfileHandle : Ata Unit := do
  if (← load (·.sectorsLeft)) = 0 then
    ataFinishIo true
  else
    store fun c => { c with batchLeft := 1 }
    let c ← load id
    if c.op = .read28 ∨ c.op = .write28 then
      let lba28 : BitVec 32 := c.lba.setWidth 32
      outb ataRegSeccount 1
      outb ataRegLbaLow (lba28.setWidth 8)
      outb ataRegLbaMid ((lba28 >>> 8).setWidth 8)
      outb ataRegLbaHigh ((lba28 >>> 16).setWidth 8)
      outb ataRegCommand (if c.op = .read28 then ataCmdReadSectors else ataCmdWriteSectors)
    else
      outb ataRegSeccount 0
      outb ataRegLbaLow ((c.lba >>> 24).setWidth 8)
      outb ataRegLbaMid ((c.lba >>> 32).setWidth 8)
      outb ataRegLbaHigh ((c.lba >>> 40).setWidth 8)
      outb ataRegSeccount 1
      outb ataRegLbaLow (c.lba.setWidth 8)
      outb ataRegLbaMid ((c.lba >>> 8).setWidth 8)
      outb ataRegLbaHigh ((c.lba >>> 16).setWidth 8)
      outb ataRegCommand (if c.op = .read48 then ataCmdReadSectorsExt else ataCmdWriteSectorsExt)
    ataIrqFlagsReset
    setStep .ioWaitIrq

/-- What `ata_io_wait_irq_handle` does with the status it has got. -/
def ataIoWaitIrqExamine (st : BitVec 8) : Ata Unit := do
  if ataStatusIsBad st then
    ataFinishIo false
  else if ataStatusHasDrq st then
    setStep .ioXferBlock
  else if (← load (·.batchLeft)) = 0 then
    if (← load (·.sectorsLeft)) = 0 then
      ataFinishIo true
    else
      setStep .ioIssueSelect
  else
    let st ← ataAltStatusReadOnce
    if ataStatusIsBad st then
      ataFinishIo false
    else if ataStatusHasDrq st then
      setStep .ioXferBlock

def ataIoWaitIrqHandle : Ata Unit := do
  if ← load (·.irqFired) then
    store fun c => { c with irqFired := false }
    ataIoWaitIrqExamine (← load (·.lastStatus))
  else if (← load (·.batchLeft)) ≠ 0 then
    return
  else
    ataIoWaitIrqExamine (← ataAltStatusReadOnce)

def ataIoXferBlockHandle : Ata Unit := do
  let c ← load id
  let n : BitVec 32 := if c.batchLeft < 1 then c.batchLeft else 1
  if n = 0 then
    setStep .ioWaitIrq
  else
    let wordCount : BitVec 32 := n * 256
    if c.op = .read28 ∨ c.op = .read48 then
      insw ataRegData (.ram c.ptr) wordCount
    else
      outsw ataRegData (.ram c.ptr) wordCount
    -- `ptr` points to words of two bytes
    store fun c => { c with ptr := c.ptr + 2 * wordCount.setWidth 64 }
    store fun c => { c with lba := c.lba + n.setWidth 64 }
    store fun c => { c with batchLeft := c.batchLeft - n }
    store fun c => { c with sectorsLeft := c.sectorsLeft - n }
    setStep .ioWaitIrq

def ataIoTick : Ata Unit := do
  match ← load (·.step) with
  | .ioIssueSelect => ataIoIssueSelectHandle
  | .ioIssueTaskfile => ataIoIssueTaskfileHandle
  | .ioWaitIrq => ataIoWaitIrqHandle
  | .ioXferBlock => ataIoXferBlockHandle
  | _ => return

/-- The part of `tick_ata` after the delay. -/
def ataDispatch : Ata Unit := do
  let c ← load id
  if c.op = .init28 ∨ c.op = .init48 then ataInitTick else ataIoTick

def tickAta : Ata Unit := do
  if (← load (·.delay400)) ≠ 0 then
    let _ ← ataDelay400nsTick
    if (← load (·.delay400)) ≠ 0 then
      return
    else
      ataDispatch
  else
    ataDispatch

/-! ## Runs -/

inductive AtaRequest where
  | init28
  | init48
  | read28 (lba : BitVec 32) (addr : BitVec 64) (sectorCount : BitVec 32)
  | write28 (lba : BitVec 32) (addr : BitVec 64) (sectorCount : BitVec 32)
  | read48 (lba : BitVec 64) (addr : BitVec 64) (sectorCount : BitVec 32)
  | write48 (lba : BitVec 64) (addr : BitVec 64) (sectorCount : BitVec 32)
deriving DecidableEq, Repr

/-- The function that begins a request. -/
def AtaRequest.begin : AtaRequest → Ata Bool
  | .init28 => beginInitAta28Irq
  | .init48 => beginInitAta48Irq
  | .read28 lba addr n => beginReadFromDiskAta28Irq lba addr n
  | .write28 lba addr n => beginWriteToDiskAta28Irq lba addr n
  | .read48 lba addr n => beginReadFromDiskAta48Irq lba addr n
  | .write48 lba addr n => beginWriteToDiskAta48Irq lba addr n

/-- What happens to the driver: the kernel calls a function of it, or the drive interrupts. -/
inductive AtaAction where
  | begin (r : AtaRequest)
  | tick
  | irq14
deriving DecidableEq, Repr

def AtaAction.prog : AtaAction → Ata Unit
  | .begin r => do let _ ← r.begin; return
  | .tick => tickAta
  | .irq14 => irq14Ata

/-- The context, and all accesses to the ports so far. -/
structure AtaState where
  ctx : AtaContext
  trace : List AtaEvent
deriving DecidableEq, Repr

/-- An action in one go, with a drive that answers `dev`. -/
def ataStep (dev : Answer AtaBuffer) (s : AtaState) (a : AtaAction) : AtaState :=
  let r := exec (traced dev) a.prog s.ctx s.trace
  ⟨r.2.1, r.2.2⟩

/-- What the begin function of a request returns, and the state after it. -/
def ataBegin (dev : Answer AtaBuffer) (s : AtaState) (r : AtaRequest) : Bool × AtaState :=
  let x := exec (traced dev) r.begin s.ctx s.trace
  (x.1, ⟨x.2.1, x.2.2⟩)

def ataRun (dev : Answer AtaBuffer) (s : AtaState) (as : List AtaAction) : AtaState :=
  as.foldl (ataStep dev) s

def ataStart : AtaState := ⟨gAtaCtx, []⟩

end BootKernel
