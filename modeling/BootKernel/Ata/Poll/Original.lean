import BootKernel.Ata.Poll.Defs

/-!
# The polling driver before it was rewritten

The functions of `kernelLoader/ata_driver.c`, of which `atadriver.c` is a copy with other names. The
two files are compared function by function: they make the same accesses, except that one register
write is missing in the initialisation of the copy.
-/

namespace BootKernel

open PortProgram

/-! ## The functions -/

def getStatusATA : Poll (BitVec 8) := inb ataRegStatus

def waitForIdleATALoop : Nat → Poll Bool
  | 0 => return false
  | timeout + 1 => do
      let status ← getStatusATA
      if status = ataStatusFloating then
        return false
      else if ataStatusIsBusy status then
        waitForIdleATALoop timeout
      else if ataStatusHasError status then
        return false
      else if !ataStatusIsDrdy status then
        waitForIdleATALoop timeout
      else
        return true

def waitForIdleATA : Poll Bool := waitForIdleATALoop 100000000

def waitForDRQATALoop : Nat → Poll Bool
  | 0 => return false
  | timeout + 1 => do
      let status ← getStatusATA
      if status = ataStatusFloating then
        return false
      else if ataStatusIsBusy status then
        waitForDRQATALoop timeout
      else if ataStatusHasError status then
        return false
      else if ataStatusHasDrq status then
        return true
      else
        waitForDRQATALoop timeout

def waitForDRQATA : Poll Bool := waitForDRQATALoop 10000000

def initializeATALoop : Nat → Poll Bool
  | 0 => return true
  | timeout + 1 => do
      let status ← getStatusATA
      if status = ataStatusFloating then
        return false
      else if ataStatusIsBusy status then
        initializeATALoop timeout
      else if ataStatusHasError status then
        return false
      else if !ataStatusIsDrdy status then
        initializeATALoop timeout
      else
        return true

/-- What `initializeATA` does after its loop. -/
def initializeATARest : Poll Bool := do
  ataControlReads
  outb ataRegSeccount 16
  outb ataRegCommand ataCmdSetMultiple
  ataControlReads
  if ← waitForIdleATA then
    let st ← getStatusATA
    if ataStatusHasError st then
      return false
    else if ataStatusHasDrq st then
      return false
    else
      return true
  else
    return false

def initializeATA : Poll Bool := do
  outb ataRegControl ataCtrlIrqDisable
  outb ataRegDriveSel ataDhLbaMaster
  ataControlReads
  if ← initializeATALoop 10000000 then initializeATARest else return false

def setupLBADest28 (lba : BitVec 32) : Poll Unit := do
  outb ataRegLbaLow (lba.setWidth 8)
  outb ataRegLbaMid ((lba >>> 8).setWidth 8)
  outb ataRegLbaHigh ((lba >>> 16).setWidth 8)
  outb ataRegDriveSel ((0xE0 ||| ((lba >>> 24) &&& 0x0F)).setWidth 8)
  ataControlReads

def setupLBADest48 (lba : BitVec 64) (sectorCount : BitVec 32) : Poll Unit := do
  let (countHigh, countLow) : BitVec 8 × BitVec 8 :=
    if sectorCount = 65536 then (0, 0)
    else ((sectorCount >>> 8).setWidth 8, (sectorCount &&& 0xFF).setWidth 8)
  outb ataRegDriveSel 0xE0
  ataControlReads
  outb ataRegSeccount countHigh
  outb ataRegLbaLow ((lba >>> 24).setWidth 8)
  outb ataRegLbaMid ((lba >>> 32).setWidth 8)
  outb ataRegLbaHigh ((lba >>> 40).setWidth 8)
  outb ataRegSeccount countLow
  outb ataRegLbaLow (lba.setWidth 8)
  outb ataRegLbaMid ((lba >>> 8).setWidth 8)
  outb ataRegLbaHigh ((lba >>> 16).setWidth 8)
  ataControlReads

/-- The loop of a transfer. -/
def diskATA {w : Nat} (setup : BitVec w → Poll Unit) (cmd : BitVec 8)
    (move : BitVec 64 → Poll Unit) : Nat → BitVec w → BitVec 64 → Poll Bool
  | 0, _, _ => do
      if ← waitForIdleATA then return true else return false
  | sectorCount + 1, lba, ptr => do
      if ← waitForIdleATA then
        setup lba
        outb ataRegCommand cmd
        ataControlReads
        if ← waitForDRQATA then
          move ptr
          diskATA setup cmd move sectorCount (lba + 1) (ptr + 512)
        else
          return false
      else
        return false

def setupATA28 (lba : BitVec 32) : Poll Unit := do
  setupLBADest28 lba
  outb ataRegSeccount 1

def setupATA48 (lba : BitVec 64) : Poll Unit := setupLBADest48 lba 1

def writeToDiskATA28 (lba : BitVec 32) (addr : BitVec 64) (sectorCount : BitVec 32) : Poll Bool :=
  diskATA setupATA28 ataCmdWriteSectors (fun ptr => outsw ataRegData (.ram ptr) 256)
    sectorCount.toNat lba addr

def readFromDiskATA28 (lba : BitVec 32) (addr : BitVec 64) (sectorCount : BitVec 32) : Poll Bool :=
  diskATA setupATA28 ataCmdReadSectors (fun ptr => insw ataRegData (.ram ptr) 256)
    sectorCount.toNat lba addr

def writeToDiskATA48 (lba : BitVec 64) (addr : BitVec 64) (sectorCount : BitVec 32) : Poll Bool :=
  diskATA setupATA48 ataCmdWriteSectorsExt (fun ptr => outsw ataRegData (.ram ptr) 256)
    sectorCount.toNat lba addr

def readFromDiskATA48 (lba : BitVec 64) (addr : BitVec 64) (sectorCount : BitVec 32) : Poll Bool :=
  diskATA setupATA48 ataCmdReadSectorsExt (fun ptr => insw ataRegData (.ram ptr) 256)
    sectorCount.toNat lba addr

/-! ## The calls of the two files -/

/-- The functions that both files have, with their arguments. -/
inductive PollCall where
  | waitIdle
  | waitDrq
  | init
  | lba28Set (lba : BitVec 32)
  | lba48Set (lba : BitVec 64) (sectorCount : BitVec 32)
  | transfer (r : PollTransfer)
deriving DecidableEq, Repr

/-- The function of `atadriver.c`, with its result if it has one. -/
def PollCall.rewritten : PollCall → Poll (Option Bool)
  | .waitIdle => do return some (← ataWaitIdle)
  | .waitDrq => do return some (← ataWaitDrq)
  | .init => do return some (← ataInit)
  | .lba28Set lba => do ataLba28Set lba; return none
  | .lba48Set lba n => do ataLba48Set lba n; return none
  | .transfer r => do return some (← r.prog)

/-- The function of `ata_driver.c`. -/
def PollCall.original : PollCall → Poll (Option Bool)
  | .waitIdle => do return some (← waitForIdleATA)
  | .waitDrq => do return some (← waitForDRQATA)
  | .init => do return some (← initializeATA)
  | .lba28Set lba => do setupLBADest28 lba; return none
  | .lba48Set lba n => do setupLBADest48 lba n; return none
  | .transfer (.read28 lba addr n) => do return some (← readFromDiskATA28 lba addr n)
  | .transfer (.write28 lba addr n) => do return some (← writeToDiskATA28 lba addr n)
  | .transfer (.read48 lba addr n) => do return some (← readFromDiskATA48 lba addr n)
  | .transfer (.write48 lba addr n) => do return some (← writeToDiskATA48 lba addr n)

/-- The two functions make the same accesses to the ports and return the same. -/
def SameAccesses (dev : Answer AtaBuffer) (t : List AtaEvent) (f : PollCall) : Prop :=
  exec (traced dev) f.rewritten () t = exec (traced dev) f.original () t

/-! ## The functions that are the same -/

theorem waitForIdleATALoop_eq (n : Nat) : waitForIdleATALoop n = ataWaitIdleLoop n := by
  induction n with
  | zero => rfl
  | succ n ih => simp only [waitForIdleATALoop, ataWaitIdleLoop, getStatusATA, ataStatusGet, ih]

theorem waitForIdleATA_eq : waitForIdleATA = ataWaitIdle := waitForIdleATALoop_eq _

theorem waitForDRQATALoop_eq (n : Nat) : waitForDRQATALoop n = ataWaitDrqLoop n := by
  induction n with
  | zero => rfl
  | succ n ih => simp only [waitForDRQATALoop, ataWaitDrqLoop, getStatusATA, ataStatusGet, ih]

theorem waitForDRQATA_eq : waitForDRQATA = ataWaitDrq := waitForDRQATALoop_eq _

theorem initializeATALoop_eq (n : Nat) : initializeATALoop n = ataInitLoop n := by
  induction n with
  | zero => rfl
  | succ n ih => simp only [initializeATALoop, ataInitLoop, getStatusATA, ataStatusGet, ih]

theorem diskATA_eq {w : Nat} (setup : BitVec w → Poll Unit) (cmd : BitVec 8)
    (move : BitVec 64 → Poll Unit) (n : Nat) (lba : BitVec w) (ptr : BitVec 64) :
    diskATA setup cmd move n lba ptr = ataDiskPoll setup cmd move n lba ptr := by
  induction n generalizing lba ptr with
  | zero => simp only [diskATA, ataDiskPoll, waitForIdleATA_eq]
  | succ n ih => simp only [diskATA, ataDiskPoll, waitForIdleATA_eq, waitForDRQATA_eq, ih]

theorem PollCall.original_eq {f : PollCall} (h : f ≠ .init) : f.original = f.rewritten := by
  cases f with
  | waitIdle => simp only [original, rewritten, waitForIdleATA_eq]
  | waitDrq => simp only [original, rewritten, waitForDRQATA_eq]
  | init => exact absurd rfl h
  | lba28Set lba => rfl
  | lba48Set lba n => rfl
  | transfer r =>
      cases r with
      | read28 lba addr n => exact congrArg (· >>= _) (diskATA_eq _ _ _ _ _ _)
      | write28 lba addr n => exact congrArg (· >>= _) (diskATA_eq _ _ _ _ _ _)
      | read48 lba addr n => exact congrArg (· >>= _) (diskATA_eq _ _ _ _ _ _)
      | write48 lba addr n => exact congrArg (· >>= _) (diskATA_eq _ _ _ _ _ _)

/-! ## The initialisation -/

/-- The statuses on which the loop of `ata_init` makes the function return 0. -/
def InitRefuses (st : BitVec 8) : Prop :=
  st = ataStatusFloating ∨ ataStatusIsBusy st = false ∧ ataStatusHasError st = true

/-- The statuses on which it reads the status again. -/
def InitWaits (st : BitVec 8) : Prop :=
  st ≠ ataStatusFloating ∧
    (ataStatusIsBusy st = true ∨ ataStatusHasError st = false ∧ ataStatusIsDrdy st = false)

/-- The accesses that `ata_init` makes before its loop, after the accesses `t`. -/
def initPrelude (dev : Answer AtaBuffer) (t : List AtaEvent) : List AtaEvent :=
  readings dev ataRegControl
    (t ++ [.outb ataRegControl ataCtrlIrqDisable] ++ [.outb ataRegDriveSel ataDhLbaMaster]) 4

/-- The drive refuses before the counter of the loop in `ata_init` has run out. -/
def InitRefused (dev : Answer AtaBuffer) (t : List AtaEvent) : Prop :=
  ∃ k < 10000000, InitRefuses (reading dev ataRegStatus (initPrelude dev t) k) ∧
    ∀ j < k, InitWaits (reading dev ataRegStatus (initPrelude dev t) j)

/-- The first status that is looked at decides, or the loop goes on with the others. -/
theorem exists_first_succ {P Q : Nat → Prop} {n : Nat} :
    (∃ k < n + 1, P k ∧ ∀ j < k, Q j) ↔
      P 0 ∨ Q 0 ∧ ∃ k < n, P (k + 1) ∧ ∀ j < k, Q (j + 1) := by
  constructor
  · rintro ⟨k, hk, hp, hq⟩
    cases k with
    | zero => exact .inl hp
    | succ k =>
        exact .inr ⟨hq 0 (Nat.succ_pos k), k, Nat.lt_of_succ_lt_succ hk, hp,
          fun j hj => hq (j + 1) (Nat.succ_lt_succ hj)⟩
  · rintro (hp | ⟨hq, k, hk, hp, hqs⟩)
    · exact ⟨0, Nat.succ_pos n, hp, fun j hj => absurd hj (Nat.not_lt_zero j)⟩
    · refine ⟨k + 1, Nat.succ_lt_succ hk, hp, fun j hj => ?_⟩
      cases j with
      | zero => exact hq
      | succ j => exact hqs j (Nat.lt_of_succ_lt_succ hj)

theorem ataInitLoop_false_iff (dev : Answer AtaBuffer) (n : Nat) (t : List AtaEvent) :
    (exec (traced dev) (ataInitLoop n) () t).1 = false ↔
      ∃ k < n, InitRefuses (reading dev ataRegStatus t k) ∧
        ∀ j < k, InitWaits (reading dev ataRegStatus t j) := by
  induction n generalizing t with
  | zero => simp [ataInitLoop, exec]
  | succ n ih =>
      rw [exists_first_succ]
      simp only [reading_succ]
      rw [← ih]
      generalize hst : reading dev ataRegStatus t 0 = st
      have hdev : dev t ataRegStatus = st := hst
      simp only [ataInitLoop, ataStatusGet, inb, inb_bind, ret_bind, exec, traced, hdev]
      by_cases hfloat : st = ataStatusFloating
      · simp [hfloat, exec, InitRefuses]
      · cases hbusy : ataStatusIsBusy st with
        | true => simp [hfloat, hbusy, InitRefuses, InitWaits]
        | false =>
            cases herr : ataStatusHasError st with
            | true => simp [hfloat, hbusy, herr, exec, InitRefuses]
            | false =>
                cases hrdy : ataStatusIsDrdy st with
                | true => simp [hfloat, hbusy, herr, hrdy, exec, InitRefuses, InitWaits]
                | false => simp [hfloat, hbusy, herr, hrdy, InitRefuses, InitWaits]

/-- After its loop the rewritten function writes the command at once, and the original one the sector
count before it. -/
theorem initRest_ne (dev : Answer AtaBuffer) (t : List AtaEvent) :
    exec (traced dev) ataInitRest () t ≠ exec (traced dev) initializeATARest () t := by
  have hnew : ∃ es, (exec (traced dev) ataInitRest () t).2.2 =
      readings dev ataRegControl t 4 ++ .outb ataRegCommand ataCmdSetMultiple :: es := by
    obtain ⟨es, -, hes⟩ := exec_traced dev (do
      ataControlReads
      if ← ataWaitIdle then
        let status ← ataStatusGet
        if ataStatusHasError status then return false
        else if ataStatusHasDrq status then return false
        else return true
      else return false) ()
      (readings dev ataRegControl t 4 ++ [.outb ataRegCommand ataCmdSetMultiple])
    exact ⟨es, hes.trans (List.append_cons _ _ es).symm⟩
  have hold : ∃ es, (exec (traced dev) initializeATARest () t).2.2 =
      readings dev ataRegControl t 4 ++ .outb ataRegSeccount 16 :: es := by
    obtain ⟨es, -, hes⟩ := exec_traced dev (do
      outb ataRegCommand ataCmdSetMultiple
      ataControlReads
      if ← waitForIdleATA then
        let st ← getStatusATA
        if ataStatusHasError st then return false
        else if ataStatusHasDrq st then return false
        else return true
      else return false) ()
      (readings dev ataRegControl t 4 ++ [.outb ataRegSeccount 16])
    exact ⟨es, hes.trans (List.append_cons _ _ es).symm⟩
  intro h
  obtain ⟨es, hes⟩ := hnew
  obtain ⟨es', hes'⟩ := hold
  rw [h, hes'] at hes
  have hhead := List.append_cancel_left hes
  simp [ataRegSeccount, ataRegCommand] at hhead

theorem init_same_iff (dev : Answer AtaBuffer) (t : List AtaEvent) :
    exec (traced dev) ataInit () t = exec (traced dev) initializeATA () t ↔ InitRefused dev t := by
  have hnew : exec (traced dev) ataInit () t = exec (traced dev) (do
      if ← ataInitLoop 10000000 then ataInitRest else return false) () (initPrelude dev t) := rfl
  have hold : exec (traced dev) initializeATA () t = exec (traced dev) (do
      if ← ataInitLoop 10000000 then initializeATARest else return false) () (initPrelude dev t) := by
    rw [← initializeATALoop_eq]
    rfl
  rw [hnew, hold, exec_bind, exec_bind, InitRefused, ← ataInitLoop_false_iff]
  generalize exec (traced dev) (ataInitLoop 10000000) () (initPrelude dev t) = r
  obtain ⟨b, s, t₂⟩ := r
  cases b with
  | false => simp
  | true => simpa using initRest_ne dev t₂

end BootKernel
