import BootKernel.Ata.Irq.Defs

/-!
# What the actions can do

One relation lists everything that a tick can do. It is derived from the text of the driver once, and
the invariants of the driver are derived from it.
-/

namespace BootKernel

open PortProgram

/-! ## The steps of the state machine -/

def AtaContext.Initialising (c : AtaContext) : Prop := c.op = .init28 ∨ c.op = .init48

def AtaContext.finishIo (c : AtaContext) (success : Bool) : AtaContext :=
  { c with step := if success then .ioDone else .ioFail, op := .none }

def AtaContext.finishInit (c : AtaContext) (success : Bool) : AtaContext :=
  { c with step := if success then .initDone else .initFail, op := .none }

def AtaContext.hit (c : AtaContext) (st : BitVec 8) : AtaContext :=
  { c with irqFired := true, lastStatus := st }

def identifyTaskfile : List AtaEvent :=
  [.outb ataRegSeccount 0, .outb ataRegLbaLow 0, .outb ataRegLbaMid 0, .outb ataRegLbaHigh 0,
    .outb ataRegCommand ataCmdIdentify]

/-- The operations whose commands take an address of 28 bits. -/
def AtaOp.Short (op : AtaOp) : Prop := op = .read28 ∨ op = .write28

instance (op : AtaOp) : Decidable op.Short := inferInstanceAs (Decidable (_ ∨ _))

def AtaOp.Reads (op : AtaOp) : Prop := op = .read28 ∨ op = .read48

instance (op : AtaOp) : Decidable op.Reads := inferInstanceAs (Decidable (_ ∨ _))

def selectValue (op : AtaOp) (lba : BitVec 64) : BitVec 8 :=
  if op.Short then ataDhLbaMaster ||| (((lba.setWidth 32 : BitVec 32) >>> 24) &&& 0x0F).setWidth 8
  else ataDhLbaMaster

def ioTaskfile (op : AtaOp) (lba : BitVec 64) : List AtaEvent :=
  if op.Short then
    [.outb ataRegSeccount 1,
      .outb ataRegLbaLow ((lba.setWidth 32 : BitVec 32).setWidth 8),
      .outb ataRegLbaMid (((lba.setWidth 32 : BitVec 32) >>> 8).setWidth 8),
      .outb ataRegLbaHigh (((lba.setWidth 32 : BitVec 32) >>> 16).setWidth 8),
      .outb ataRegCommand (if op = .read28 then ataCmdReadSectors else ataCmdWriteSectors)]
  else
    [.outb ataRegSeccount 0,
      .outb ataRegLbaLow ((lba >>> 24).setWidth 8),
      .outb ataRegLbaMid ((lba >>> 32).setWidth 8),
      .outb ataRegLbaHigh ((lba >>> 40).setWidth 8),
      .outb ataRegSeccount 1,
      .outb ataRegLbaLow (lba.setWidth 8),
      .outb ataRegLbaMid ((lba >>> 8).setWidth 8),
      .outb ataRegLbaHigh ((lba >>> 16).setWidth 8),
      .outb ataRegCommand (if op = .read48 then ataCmdReadSectorsExt else ataCmdWriteSectorsExt)]

def blockTransfer (op : AtaOp) (ptr : BitVec 64) (wordCount : BitVec 32) : AtaEvent :=
  if op.Reads then .insw ataRegData (.ram ptr) wordCount else .outsw ataRegData (.ram ptr) wordCount

/-- What happens after a status without an error and without data has been seen in a wait step, and
the alternate status is read too. -/
inductive SecondLook (fail xfer c : AtaContext) : List AtaEvent → AtaContext → Prop where
  | bad {v} : ataStatusIsBad v = true → SecondLook fail xfer c [.inb ataRegControl v] fail
  | drq {v} : ataStatusIsBad v = false → ataStatusHasDrq v = true →
      SecondLook fail xfer c [.inb ataRegControl v] xfer
  | none {v} : ataStatusIsBad v = false → ataStatusHasDrq v = false →
      SecondLook fail xfer c [.inb ataRegControl v] c

inductive IdentifyLook (c : AtaContext) (st : BitVec 8) : List AtaEvent → AtaContext → Prop where
  | bad : ataStatusIsBad st = true → IdentifyLook c st [] (c.finishInit false)
  | drq : ataStatusIsBad st = false → ataStatusHasDrq st = true →
      IdentifyLook c st [] { c with step := .initIdentifyXfer }
  | again {es c'} : ataStatusIsBad st = false → ataStatusHasDrq st = false →
      SecondLook (c.finishInit false) { c with step := .initIdentifyXfer } c es c' →
      IdentifyLook c st es c'

inductive IoLook (c : AtaContext) (st : BitVec 8) : List AtaEvent → AtaContext → Prop where
  | bad : ataStatusIsBad st = true → IoLook c st [] (c.finishIo false)
  | drq : ataStatusIsBad st = false → ataStatusHasDrq st = true →
      IoLook c st [] { c with step := .ioXferBlock }
  | done : ataStatusIsBad st = false → ataStatusHasDrq st = false → c.batchLeft = 0 →
      c.sectorsLeft = 0 → IoLook c st [] (c.finishIo true)
  | next : ataStatusIsBad st = false → ataStatusHasDrq st = false → c.batchLeft = 0 →
      c.sectorsLeft ≠ 0 → IoLook c st [] { c with step := .ioIssueSelect }
  | again {es c'} : ataStatusIsBad st = false → ataStatusHasDrq st = false → c.batchLeft ≠ 0 →
      SecondLook (c.finishIo false) { c with step := .ioXferBlock } c es c' → IoLook c st es c'

/-- What the handler of the current step does. -/
inductive HandleStep (c : AtaContext) : List AtaEvent → AtaContext → Prop where
  | initSelect : c.Initialising → c.step = .initSelect →
      HandleStep c [.outb ataRegControl ataCtrlIrqEnable, .outb ataRegDriveSel ataDhLbaMaster]
        { c with delay400 := 4, step := .initIdentifyCmd }
  | identifyCmd : c.Initialising → c.step = .initIdentifyCmd →
      HandleStep c identifyTaskfile
        { c with irqFired := false, lastStatus := 0, step := .initIdentifyWait }
  | identifyQuiet : c.Initialising → c.step = .initIdentifyWait → c.irqFired = false →
      HandleStep c [] c
  | identifyWait {es c'} : c.Initialising → c.step = .initIdentifyWait → c.irqFired = true →
      IdentifyLook { c with irqFired := false } c.lastStatus es c' → HandleStep c es c'
  | identifyXfer : c.Initialising → c.step = .initIdentifyXfer →
      HandleStep c [.insw ataRegData .identify 256] (c.finishInit true)
  | ioSelect : ¬ c.Initialising → c.step = .ioIssueSelect →
      HandleStep c [.outb ataRegDriveSel (selectValue c.op c.lba)]
        { c with delay400 := 4, step := .ioIssueTaskfile }
  | ioNothing : ¬ c.Initialising → c.step = .ioIssueTaskfile → c.sectorsLeft = 0 →
      HandleStep c [] (c.finishIo true)
  | ioTaskfile : ¬ c.Initialising → c.step = .ioIssueTaskfile → c.sectorsLeft ≠ 0 →
      HandleStep c (ioTaskfile c.op c.lba)
        { c with batchLeft := 1, irqFired := false, lastStatus := 0, step := .ioWaitIrq }
  | ioQuiet : ¬ c.Initialising → c.step = .ioWaitIrq → c.irqFired = false → c.batchLeft ≠ 0 →
      HandleStep c [] c
  | ioFired {es c'} : ¬ c.Initialising → c.step = .ioWaitIrq → c.irqFired = true →
      IoLook { c with irqFired := false } c.lastStatus es c' → HandleStep c es c'
  | ioPolled {v es c'} : ¬ c.Initialising → c.step = .ioWaitIrq → c.irqFired = false →
      c.batchLeft = 0 → IoLook c v es c' → HandleStep c (.inb ataRegControl v :: es) c'
  | ioEmptyBlock : ¬ c.Initialising → c.step = .ioXferBlock → c.batchLeft = 0 →
      HandleStep c [] { c with step := .ioWaitIrq }
  | ioXfer : ¬ c.Initialising → c.step = .ioXferBlock → c.batchLeft ≠ 0 →
      HandleStep c [blockTransfer c.op c.ptr 256]
        { c with
          ptr := c.ptr + 512, lba := c.lba + 1, batchLeft := c.batchLeft - 1,
          sectorsLeft := c.sectorsLeft - 1, step := .ioWaitIrq }
  | initIgnored : c.Initialising → c.step ∉ [.initSelect, .initIdentifyCmd, .initIdentifyWait,
      .initIdentifyXfer] → HandleStep c [] c
  | ioIgnored : ¬ c.Initialising → c.step ∉ [.ioIssueSelect, .ioIssueTaskfile, .ioWaitIrq,
      .ioXferBlock] → HandleStep c [] c

inductive TickStep (c : AtaContext) : List AtaEvent → AtaContext → Prop where
  | delay {v} : 1 < c.delay400 →
      TickStep c [.inb ataRegControl v] { c with delay400 := c.delay400 - 1 }
  | delayEnd {v es c'} : c.delay400 = 1 → HandleStep { c with delay400 := 0 } es c' →
      TickStep c (.inb ataRegControl v :: es) c'
  | handle {es c'} : c.delay400 = 0 → HandleStep c es c' → TickStep c es c'

/-! ## The handlers -/

section

variable {c c' : AtaContext} {es : List AtaEvent} {u : Unit} {st : BitVec 8}

attribute [local simp] Runs

theorem runs_setStep {step : AtaStep} :
    Runs (setStep step) c es u c' ↔ es = [] ∧ c' = { c with step := step } := by
  simp [setStep, Runs]

theorem runs_finishIo {success : Bool} :
    Runs (ataFinishIo success) c es u c' ↔ es = [] ∧ c' = c.finishIo success := by
  simp [ataFinishIo, setStep, Runs, AtaContext.finishIo]

theorem runs_finishInit {success : Bool} :
    Runs (ataFinishInit success) c es u c' ↔ es = [] ∧ c' = c.finishInit success := by
  simp [ataFinishInit, setStep, Runs, AtaContext.finishInit]

theorem ataInitSelectHandle_runs (h : Runs ataInitSelectHandle c es u c') :
    es = [.outb ataRegControl ataCtrlIrqEnable, .outb ataRegDriveSel ataDhLbaMaster] ∧
      c' = { c with delay400 := 4, step := .initIdentifyCmd } := by
  simpa [ataInitSelectHandle, ataDelay400nsStart, setStep, Runs] using h

theorem ataInitIdentifyCmdHandle_runs (h : Runs ataInitIdentifyCmdHandle c es u c') :
    es = identifyTaskfile ∧
      c' = { c with irqFired := false, lastStatus := 0, step := .initIdentifyWait } := by
  simpa [ataInitIdentifyCmdHandle, ataIrqFlagsReset, setStep, Runs, identifyTaskfile] using h

theorem secondLook_runs {x y : Ata Unit} {fail xfer : AtaContext}
    (hx : ∀ es u c', Runs x c es u c' → es = [] ∧ c' = fail)
    (hy : ∀ es u c', Runs y c es u c' → es = [] ∧ c' = xfer)
    (h : Runs (do
      let st ← ataAltStatusReadOnce
      if ataStatusIsBad st then x else if ataStatusHasDrq st then y) c es u c') :
    SecondLook fail xfer c es c' := by
  simp only [ataAltStatusReadOnce, inb, inb_bind, ret_bind, Runs] at h
  obtain ⟨v, es, rfl, h⟩ := h
  cases hb : ataStatusIsBad v with
  | true =>
      obtain ⟨rfl, rfl⟩ := hx es u c' (by simpa [hb] using h)
      exact .bad hb
  | false =>
      cases hd : ataStatusHasDrq v with
      | true =>
          obtain ⟨rfl, rfl⟩ := hy es u c' (by simpa [hb, hd] using h)
          exact .drq hb hd
      | false =>
          obtain ⟨rfl, -, rfl⟩ : es = [] ∧ u = () ∧ c' = c := by simpa [hb, hd, Runs] using h
          exact .none hb hd

theorem ataInitIdentifyWaitHandle_runs (h : Runs ataInitIdentifyWaitHandle c es u c') :
    c.irqFired = false ∧ es = [] ∧ c' = c ∨
      c.irqFired = true ∧ IdentifyLook { c with irqFired := false } c.lastStatus es c' := by
  cases hf : c.irqFired with
  | false => exact .inl ⟨rfl, by simpa [ataInitIdentifyWaitHandle, Runs, hf] using h⟩
  | true =>
      simp only [ataInitIdentifyWaitHandle, load, store, load_bind, store_bind, ret_bind, Runs, hf,
        if_true] at h
      right
      cases hb : ataStatusIsBad c.lastStatus with
      | true =>
          obtain ⟨rfl, rfl⟩ := runs_finishInit.mp (by simpa only [hb, if_true] using h)
          exact ⟨rfl, .bad hb⟩
      | false =>
          cases hd : ataStatusHasDrq c.lastStatus with
          | true =>
              simp only [hb, hd, Bool.false_eq_true, if_false, if_true] at h
              obtain ⟨rfl, rfl⟩ := runs_setStep.mp h
              exact ⟨rfl, .drq hb hd⟩
          | false =>
              simp only [hb, hd, Bool.false_eq_true, if_false] at h
              exact ⟨rfl, .again hb hd (secondLook_runs (fun _ _ _ => runs_finishInit.mp)
                (fun _ _ _ => runs_setStep.mp) h)⟩

theorem ataInitIdentifyXferHandle_runs (h : Runs ataInitIdentifyXferHandle c es u c') :
    es = [.insw ataRegData .identify 256] ∧ c' = c.finishInit true := by
  obtain ⟨es, rfl, h⟩ := h
  obtain ⟨rfl, rfl⟩ := runs_finishInit.mp h
  exact ⟨rfl, rfl⟩

theorem ataIoIssueSelectHandle_runs (h : Runs ataIoIssueSelectHandle c es u c') :
    es = [.outb ataRegDriveSel (selectValue c.op c.lba)] ∧
      c' = { c with delay400 := 4, step := .ioIssueTaskfile } := by
  by_cases hs : c.op = .read28 ∨ c.op = .write28
  · simpa [ataIoIssueSelectHandle, ataDelay400nsStart, setStep, Runs, selectValue, AtaOp.Short, hs]
      using h
  · simpa [ataIoIssueSelectHandle, ataDelay400nsStart, setStep, Runs, selectValue, AtaOp.Short, hs]
      using h

theorem ataIoIssueTaskfileHandle_runs (h : Runs ataIoIssueTaskfileHandle c es u c') :
    c.sectorsLeft = 0 ∧ es = [] ∧ c' = c.finishIo true ∨
      c.sectorsLeft ≠ 0 ∧ es = ioTaskfile c.op c.lba ∧
        c' = { c with
          batchLeft := 1, irqFired := false, lastStatus := 0, step := .ioWaitIrq } := by
  simp only [ataIoIssueTaskfileHandle, load, load_bind, ret_bind, Runs] at h
  by_cases hleft : c.sectorsLeft = 0
  · rw [if_pos hleft] at h
    exact .inl ⟨hleft, runs_finishIo.mp h⟩
  · rw [if_neg hleft] at h
    refine .inr ⟨hleft, ?_⟩
    by_cases hs : c.op = .read28 ∨ c.op = .write28
    · simpa [ataIrqFlagsReset, setStep, Runs, ioTaskfile, AtaOp.Short, hs] using h
    · simpa [ataIrqFlagsReset, setStep, Runs, ioTaskfile, AtaOp.Short, hs] using h

theorem ataIoWaitIrqExamine_runs (h : Runs (ataIoWaitIrqExamine st) c es u c') :
    IoLook c st es c' := by
  cases hb : ataStatusIsBad st with
  | true =>
      obtain ⟨rfl, rfl⟩ := runs_finishIo.mp (by simpa only [ataIoWaitIrqExamine, hb, if_true] using h)
      exact .bad hb
  | false =>
      cases hd : ataStatusHasDrq st with
      | true =>
          simp only [ataIoWaitIrqExamine, hb, hd, Bool.false_eq_true, if_false, if_true] at h
          obtain ⟨rfl, rfl⟩ := runs_setStep.mp h
          exact .drq hb hd
      | false =>
          simp only [ataIoWaitIrqExamine, hb, hd, Bool.false_eq_true, if_false, load, load_bind, ret_bind, Runs] at h
          by_cases hbatch : c.batchLeft = 0
          · by_cases hleft : c.sectorsLeft = 0
            · simp only [hbatch, hleft, if_true, Runs] at h
              obtain ⟨rfl, rfl⟩ := runs_finishIo.mp h
              exact .done hb hd hbatch hleft
            · simp only [hbatch, hleft, if_true, if_false, Runs] at h
              obtain ⟨rfl, rfl⟩ := runs_setStep.mp h
              exact .next hb hd hbatch hleft
          · simp only [hbatch, if_false] at h
            exact .again hb hd hbatch (secondLook_runs (fun _ _ _ => runs_finishIo.mp)
              (fun _ _ _ => runs_setStep.mp) h)

theorem ataIoWaitIrqHandle_runs (h : Runs ataIoWaitIrqHandle c es u c') :
    c.irqFired = true ∧ IoLook { c with irqFired := false } c.lastStatus es c' ∨
      c.irqFired = false ∧ c.batchLeft ≠ 0 ∧ es = [] ∧ c' = c ∨
      c.irqFired = false ∧ c.batchLeft = 0 ∧
        ∃ v es', es = .inb ataRegControl v :: es' ∧ IoLook c v es' c' := by
  simp only [ataIoWaitIrqHandle, load, store, load_bind, store_bind, ret_bind, Runs] at h
  cases hf : c.irqFired with
  | true =>
      simp only [hf, if_true, Runs] at h
      exact .inl ⟨rfl, ataIoWaitIrqExamine_runs h⟩
  | false =>
      simp only [hf, Bool.false_eq_true, if_false, Runs] at h
      right
      by_cases hbatch : c.batchLeft = 0
      · rw [if_neg (not_not.mpr hbatch)] at h
        simp only [ataAltStatusReadOnce, inb, inb_bind, ret_bind, Runs] at h
        obtain ⟨v, es', rfl, h⟩ := h
        exact .inr ⟨rfl, hbatch, v, es', rfl, ataIoWaitIrqExamine_runs h⟩
      · rw [if_pos hbatch] at h
        obtain ⟨rfl, -, rfl⟩ := h
        exact .inl ⟨rfl, hbatch, rfl, rfl⟩

theorem ataIoXferBlockHandle_runs (h : Runs ataIoXferBlockHandle c es u c') :
    c.batchLeft = 0 ∧ es = [] ∧ c' = { c with step := .ioWaitIrq } ∨
      c.batchLeft ≠ 0 ∧ es = [blockTransfer c.op c.ptr 256] ∧
        c' = { c with
          ptr := c.ptr + 512, lba := c.lba + 1, batchLeft := c.batchLeft - 1,
          sectorsLeft := c.sectorsLeft - 1, step := .ioWaitIrq } := by
  simp only [ataIoXferBlockHandle, load, load_bind, ret_bind, Runs] at h
  by_cases hbatch : c.batchLeft = 0
  · have hn : (if c.batchLeft < 1 then c.batchLeft else 1) = 0 := by rw [hbatch]; rfl
    simp only [id, hn, if_true] at h
    exact .inl ⟨hbatch, runs_setStep.mp h⟩
  · have hn : (if c.batchLeft < 1 then c.batchLeft else 1) = 1 := if_neg (by bv_omega)
    simp only [id, hn] at h
    by_cases hr : c.op = .read28 ∨ c.op = .read48
    · exact .inr ⟨hbatch, by simpa [hr, setStep, Runs, blockTransfer, AtaOp.Reads] using h⟩
    · exact .inr ⟨hbatch, by simpa [hr, setStep, Runs, blockTransfer, AtaOp.Reads] using h⟩

/-! ## The tick -/

theorem ataDispatch_runs (h : Runs ataDispatch c es u c') : HandleStep c es c' := by
  simp only [ataDispatch, load, load_bind, ret_bind, Runs, id] at h
  by_cases hi : c.Initialising
  · rw [if_pos (show c.op = _ ∨ c.op = _ from hi)] at h
    simp only [ataInitTick, load, load_bind, ret_bind, Runs] at h
    cases hstep : c.step with
    | initSelect =>
        obtain ⟨rfl, rfl⟩ := ataInitSelectHandle_runs (by simpa only [hstep] using h)
        exact .initSelect hi hstep
    | initIdentifyCmd =>
        obtain ⟨rfl, rfl⟩ := ataInitIdentifyCmdHandle_runs (by simpa only [hstep] using h)
        exact .identifyCmd hi hstep
    | initIdentifyWait =>
        rcases ataInitIdentifyWaitHandle_runs (by simpa only [hstep] using h)
          with ⟨hf, rfl, rfl⟩ | ⟨hf, hlook⟩
        · exact .identifyQuiet hi hstep hf
        · exact .identifyWait hi hstep hf hlook
    | initIdentifyXfer =>
        obtain ⟨rfl, rfl⟩ := ataInitIdentifyXferHandle_runs (by simpa only [hstep] using h)
        exact .identifyXfer hi hstep
    | _ =>
        obtain ⟨rfl, -, rfl⟩ : es = [] ∧ u = () ∧ c' = c := by simpa [hstep, Runs] using h
        exact .initIgnored hi (by simp [hstep])
  · rw [if_neg (show ¬ (c.op = _ ∨ c.op = _) from hi)] at h
    simp only [ataIoTick, load, load_bind, ret_bind, Runs] at h
    cases hstep : c.step with
    | ioIssueSelect =>
        obtain ⟨rfl, rfl⟩ := ataIoIssueSelectHandle_runs (by simpa only [hstep] using h)
        exact .ioSelect hi hstep
    | ioIssueTaskfile =>
        rcases ataIoIssueTaskfileHandle_runs (by simpa only [hstep] using h)
          with ⟨hleft, rfl, rfl⟩ | ⟨hleft, rfl, rfl⟩
        · exact .ioNothing hi hstep hleft
        · exact .ioTaskfile hi hstep hleft
    | ioWaitIrq =>
        rcases ataIoWaitIrqHandle_runs (by simpa only [hstep] using h)
          with ⟨hf, hlook⟩ | ⟨hf, hbatch, rfl, rfl⟩ | ⟨hf, hbatch, v, es', rfl, hlook⟩
        · exact .ioFired hi hstep hf hlook
        · exact .ioQuiet hi hstep hf hbatch
        · exact .ioPolled hi hstep hf hbatch hlook
    | ioXferBlock =>
        rcases ataIoXferBlockHandle_runs (by simpa only [hstep] using h)
          with ⟨hbatch, rfl, rfl⟩ | ⟨hbatch, rfl, rfl⟩
        · exact .ioEmptyBlock hi hstep hbatch
        · exact .ioXfer hi hstep hbatch
    | _ =>
        obtain ⟨rfl, -, rfl⟩ : es = [] ∧ u = () ∧ c' = c := by simpa [hstep, Runs] using h
        exact .ioIgnored hi (by simp [hstep])

theorem tickAta_runs (h : Runs tickAta c es u c') : TickStep c es c' := by
  simp only [tickAta, load, load_bind, ret_bind, Runs] at h
  by_cases hd : c.delay400 = 0
  · rw [if_neg (not_not.mpr hd)] at h
    exact .handle hd (ataDispatch_runs h)
  · rw [if_pos hd] at h
    simp only [ataDelay400nsTick, load, store, inb, load_bind, store_bind, inb_bind, ret_bind, ite_bind, pure_eq,
      Runs, hd, if_false] at h
    obtain ⟨v, es, rfl, h⟩ := h
    by_cases hlast : c.delay400 - 1 = 0
    · rw [if_neg (not_not.mpr hlast)] at h
      exact .delayEnd (by omega) (by simpa only [hlast] using ataDispatch_runs h)
    · rw [if_pos hlast] at h
      obtain ⟨rfl, -, rfl⟩ := h
      exact .delay (by omega)

theorem irq14Ata_runs (h : Runs irq14Ata c es u c') :
    ∃ st, es = [.inb ataRegStatus st, .outb pic2Cmd picCmdEoi, .outb pic1Cmd picCmdEoi] ∧
      c' = c.hit st := by
  simpa [irq14Ata, sendEoi, picIrqAtaPrimary, Runs, AtaContext.hit] using h

/-! ## Requests -/

end

/-- What a request for a transfer asks for. -/
structure AtaIo where
  op : AtaOp
  lba : BitVec 64
  addr : BitVec 64
  sectorCount : BitVec 32

def AtaRequest.io? : AtaRequest → Option AtaIo
  | .init28 => none
  | .init48 => none
  | .read28 lba addr n => some ⟨.read28, lba.setWidth 64, addr, n⟩
  | .write28 lba addr n => some ⟨.write28, lba.setWidth 64, addr, n⟩
  | .read48 lba addr n => some ⟨.read48, lba, addr, n⟩
  | .write48 lba addr n => some ⟨.write48, lba, addr, n⟩

def AtaContext.startInit (c : AtaContext) (op : AtaOp) : AtaContext :=
  { c with op := op, step := .initSelect, delay400 := 0, irqFired := false, lastStatus := 0 }

def AtaIo.start (q : AtaIo) : AtaContext where
  irqFired := false
  lastStatus := 0
  op := q.op
  step := .ioIssueSelect
  delay400 := 0
  lba := q.lba
  sectorsLeft := q.sectorCount
  batchLeft := 0
  ptr := q.addr

def AtaRequest.started : AtaRequest → AtaContext → AtaContext
  | .init28, c => c.startInit .init28
  | .init48, c => c.startInit .init48
  | .read28 lba addr n, _ => AtaIo.start ⟨.read28, lba.setWidth 64, addr, n⟩
  | .write28 lba addr n, _ => AtaIo.start ⟨.write28, lba.setWidth 64, addr, n⟩
  | .read48 lba addr n, _ => AtaIo.start ⟨.read48, lba, addr, n⟩
  | .write48 lba addr n, _ => AtaIo.start ⟨.write48, lba, addr, n⟩

/-- The request is one that the begin functions take in the context `c`. -/
def AtaRequest.Accepted (r : AtaRequest) (c : AtaContext) : Prop :=
  c.step = .idle ∧ ∀ q, r.io? = some q → q.sectorCount ≠ 0

theorem AtaRequest.started_of_io {r : AtaRequest} {q : AtaIo} (h : r.io? = some q)
    (c : AtaContext) : r.started c = q.start := by
  cases r with
  | init28 => cases h
  | init48 => cases h
  | read28 lba addr n => cases h; rfl
  | write28 lba addr n => cases h; rfl
  | read48 lba addr n => cases h; rfl
  | write48 lba addr n => cases h; rfl

section

variable {c c' : AtaContext} {es : List AtaEvent} {a : Bool}

theorem beginInit_runs {op : AtaOp} (h : Runs (beginInit op) c es a c') :
    es = [] ∧ (a = true ∧ c.step = .idle ∧ c' = c.startInit op ∨
      a = false ∧ c.step ≠ .idle ∧ c' = c) := by
  by_cases hs : c.step = .idle
  · have h' : es = [] ∧ a = true ∧ c' = c.startInit op := by
      simpa [beginInit, setStep, ataRequestStateReset, ataIrqFlagsReset, Runs, hs,
        AtaContext.startInit] using h
    exact ⟨h'.1, .inl ⟨h'.2.1, hs, h'.2.2⟩⟩
  · have h' : es = [] ∧ a = false ∧ c' = c := by simpa [beginInit, Runs, hs] using h
    exact ⟨h'.1, .inr ⟨h'.2.1, hs, h'.2.2⟩⟩

theorem beginIo_runs {q : AtaIo} (h : Runs (beginIo q.op q.lba q.addr q.sectorCount) c es a c') :
    es = [] ∧ (a = true ∧ (c.step = .idle ∧ q.sectorCount ≠ 0) ∧ c' = q.start ∨
      a = false ∧ ¬ (c.step = .idle ∧ q.sectorCount ≠ 0) ∧ c' = c) := by
  by_cases hs : c.step = .idle ∧ q.sectorCount ≠ 0
  · have hn : ¬ q.sectorCount = 0#32 := hs.2
    have h' : es = [] ∧ a = true ∧ c' = q.start := by
      simpa [beginIo, setStep, ataRequestStateReset, ataIrqFlagsReset, Runs, hs.1, hn,
        AtaIo.start] using h
    exact ⟨h'.1, .inl ⟨h'.2.1, hs, h'.2.2⟩⟩
  · have hs' : c.step ≠ .idle ∨ q.sectorCount = 0 := by tauto
    have h' : es = [] ∧ a = false ∧ c' = c := by
      simpa only [beginIo, load, load_bind, ret_bind, if_pos hs', pure_eq, Runs] using h
    exact ⟨h'.1, .inr ⟨h'.2.1, hs, h'.2.2⟩⟩

theorem AtaRequest.begin_runs {r : AtaRequest} (h : Runs r.begin c es a c') :
    es = [] ∧ (a = true ∧ r.Accepted c ∧ c' = r.started c ∨
      a = false ∧ ¬ r.Accepted c ∧ c' = c) := by
  cases r with
  | init28 => simpa [Accepted, io?, started] using beginInit_runs h
  | init48 => simpa [Accepted, io?, started] using beginInit_runs h
  | read28 lba addr n =>
      simpa [Accepted, io?, started] using beginIo_runs (q := ⟨.read28, lba.setWidth 64, addr, n⟩) h
  | write28 lba addr n =>
      simpa [Accepted, io?, started] using beginIo_runs (q := ⟨.write28, lba.setWidth 64, addr, n⟩) h
  | read48 lba addr n => simpa [Accepted, io?, started] using beginIo_runs (q := ⟨.read48, lba, addr, n⟩) h
  | write48 lba addr n => simpa [Accepted, io?, started] using beginIo_runs (q := ⟨.write48, lba, addr, n⟩) h

end

/-! ## Runs -/

inductive ActionStep (c : AtaContext) : AtaAction → List AtaEvent → AtaContext → Prop where
  | accepted {r} : r.Accepted c → ActionStep c (.begin r) [] (r.started c)
  | refused {r} : ¬ r.Accepted c → ActionStep c (.begin r) [] c
  | tick {es c'} : TickStep c es c' → ActionStep c .tick es c'
  | irq14 {st} : ActionStep c .irq14
      [.inb ataRegStatus st, .outb pic2Cmd picCmdEoi, .outb pic1Cmd picCmdEoi] (c.hit st)

theorem AtaAction.prog_runs {a : AtaAction} {c c' : AtaContext} {es : List AtaEvent} {u : Unit}
    (h : Runs a.prog c es u c') : ActionStep c a es c' := by
  cases a with
  | «begin» r =>
      obtain ⟨es₁, es₂, b, c₁, rfl, h₁, rfl, -, rfl⟩ := runs_bind.mp h
      rcases AtaRequest.begin_runs h₁ with ⟨rfl, ⟨-, hacc, rfl⟩ | ⟨-, hacc, rfl⟩⟩
      · exact .accepted hacc
      · exact .refused hacc
  | tick => exact .tick (tickAta_runs h)
  | irq14 =>
      obtain ⟨st, rfl, rfl⟩ := irq14Ata_runs h
      exact .irq14

theorem ataStep_cases (dev : Answer AtaBuffer) (s : AtaState) (a : AtaAction) :
    ∃ es, Answers (traced dev) es s.trace (ataStep dev s a).trace ∧
      ActionStep s.ctx a es (ataStep dev s a).ctx := by
  obtain ⟨es, hr, ha⟩ := exec_runs (traced dev) a.prog s.ctx s.trace
  exact ⟨es, ha, AtaAction.prog_runs hr⟩

/-- What every action keeps holds in every run. -/
theorem ataRun_invariant (P : AtaState → Prop) {dev : Answer AtaBuffer}
    (hstep : ∀ s a es c', P s → ActionStep s.ctx a es c' → P ⟨c', s.trace ++ es⟩)
    {s : AtaState} (h : P s) (as : List AtaAction) : P (ataRun dev s as) := by
  induction as generalizing s with
  | nil => exact h
  | cons a as ih =>
      obtain ⟨es, ha, hs⟩ := ataStep_cases dev s a
      have hnext := hstep s a es _ h hs
      rw [← ha.traced_eq] at hnext
      exact ih hnext

end BootKernel
