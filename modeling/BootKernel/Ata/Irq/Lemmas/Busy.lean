import BootKernel.Ata.Irq.Settle
import BootKernel.Ata.Irq.Wait

/-!
# The status before the next sector

Between two sectors the driver reads the status in the wait step, the handler may read it before the drive is
selected, and the delay reads it before the command. What the last of these reads says when the drive is selected or
gets its command follows from the context.
-/

namespace BootKernel

open PortProgram

/-! ## The last status -/

/-- What a read of the status, or of the alternate status, has got. -/
def statusByte : AtaEvent → Option (BitVec 8)
  | .inb port v => if port = ataRegStatus ∨ port = ataRegControl then some v else none
  | _ => none

def lastRead (es : List AtaEvent) : Option (BitVec 8) := (es.filterMap statusByte).getLast?

/-- The last status that has been read does not say that the drive is busy. -/
def LastIdle (es : List AtaEvent) : Prop := ∀ v ∈ lastRead es, ataStatusIsBusy v = false

def HasMoved (es : List AtaEvent) : Prop := ∃ e ∈ es, MovesWords e

/-- A write that selects the drive or gives it a command. -/
def Issues : AtaEvent → Prop
  | .outb port _ => port = ataRegDriveSel ∨ port = ataRegCommand
  | _ => False

/-- After a block has been transferred the next sector is begun only while the drive is not busy. -/
def IssuesOnIdle (before : List AtaEvent) (e : AtaEvent) : Prop := Issues e → HasMoved before → LastIdle before

section
variable {t es : List AtaEvent}

theorem lastRead_append (t es : List AtaEvent) : lastRead (t ++ es) = (lastRead es).or (lastRead t) := by
  rw [lastRead, List.filterMap_append, List.getLast?_append]
  rfl

theorem lastRead_quiet (h : ∀ e ∈ es, statusByte e = none) : lastRead es = none := by
  rw [lastRead, List.filterMap_eq_nil_iff.mpr h]
  rfl

theorem hasMoved_append : HasMoved (t ++ es) ↔ HasMoved t ∨ HasMoved es := by
  simp only [HasMoved, List.mem_append, or_and_right, exists_or]

theorem guarded_of_not_moved (h : ¬ HasMoved es) : Guarded IssuesOnIdle es := by
  rintro pre e post rfl - ⟨e', he', hmoves⟩
  exact absurd ⟨e', List.mem_append_left _ he', hmoves⟩ h

/-- What does not begin anything does as it likes. -/
theorem guarded_quiet (h : ∀ e ∈ es, ¬ Issues e) :
    Guarded IssuesOnIdle (t ++ es) ↔ Guarded IssuesOnIdle t := by
  refine ⟨Guarded.of_append, fun ht => ht.append_of fun pre e post heq hissues => ?_⟩
  exact absurd hissues (h e (by simp [heq]))

/-- The registers of a command are written before the command itself. -/
theorem exists_ioTaskfile_eq (op : AtaOp) (lba : BitVec 64) :
    ∃ regs code, ioTaskfile op lba = regs ++ [.outb ataRegCommand code] ∧
      ∀ e ∈ regs, statusByte e = none ∧ ¬ MovesWords e ∧ ¬ Issues e := by
  by_cases hop : op.Short
  · rw [ioTaskfile, if_pos hop]
    refine ⟨[_, _, _, _], _, rfl, ?_⟩
    simp [statusByte, MovesWords, Issues, ataRegSeccount, ataRegLbaLow, ataRegLbaMid, ataRegLbaHigh, ataRegDriveSel,
      ataRegCommand]
  · rw [ioTaskfile, if_neg hop]
    refine ⟨[_, _, _, _, _, _, _, _], _, rfl, ?_⟩
    simp [statusByte, MovesWords, Issues, ataRegSeccount, ataRegLbaLow, ataRegLbaMid, ataRegLbaHigh, ataRegDriveSel,
      ataRegCommand]

theorem lastIdle_of_lastRead {v : BitVec 8} (h : lastRead es = some v) :
    LastIdle es ↔ ataStatusIsBusy v = false := by
  simp [LastIdle, h]

/-- The tick that ends the delay gets `w` from the alternate status and begins the command. -/
theorem guarded_taskfile (t : List AtaEvent) (op : AtaOp) (lba : BitVec 64) (w : BitVec 8) :
    Guarded IssuesOnIdle (t ++ .inb ataRegControl w :: ioTaskfile op lba) ↔
      Guarded IssuesOnIdle t ∧ (HasMoved t → ataStatusIsBusy w = false) := by
  obtain ⟨regs, code, heq, hregs⟩ := exists_ioTaskfile_eq op lba
  have hquiet : ∀ e ∈ .inb ataRegControl w :: regs, ¬ Issues e :=
    List.forall_mem_cons.mpr ⟨id, fun e he => (hregs e he).2.2⟩
  have hmoved : HasMoved (t ++ .inb ataRegControl w :: regs) ↔ HasMoved t := by
    rw [hasMoved_append]
    refine or_iff_left ?_
    rintro ⟨e, he, hmoves⟩
    rcases List.mem_cons.mp he with rfl | he
    · exact hmoves
    · exact (hregs e he).2.1 hmoves
  have hlast : lastRead (t ++ .inb ataRegControl w :: regs) = some w := by
    rw [List.append_cons, lastRead_append, lastRead_quiet fun e he => (hregs e he).1, Option.none_or, lastRead_append]
    rfl
  have hissues : Issues (.outb ataRegCommand code) := .inr rfl
  rw [heq, ← List.cons_append, ← List.append_assoc, guarded_concat, guarded_quiet hquiet, IssuesOnIdle, hmoved,
    lastIdle_of_lastRead hlast]
  exact and_congr_right fun _ => forall_prop_of_true hissues

end

/-! ## What the steps leave behind -/

section
variable {c c' fail xfer : AtaContext} {es : List AtaEvent} {st : BitVec 8}

theorem SecondLook.irqFired (h : SecondLook fail xfer c es c') (hfail : fail.irqFired = c.irqFired)
    (hxfer : xfer.irqFired = c.irqFired) : c'.irqFired = c.irqFired := by
  cases h with
  | bad => exact hfail
  | drq => exact hxfer
  | none => rfl

theorem IdentifyLook.irqFired (h : IdentifyLook c st es c') : c'.irqFired = c.irqFired := by
  cases h with
  | bad | drq => rfl
  | again _ _ h => exact h.irqFired rfl rfl

theorem IoLook.irqFired (h : IoLook c st es c') : c'.irqFired = c.irqFired := by
  cases h with
  | bad | drq | done | next => rfl
  | again _ _ _ h => exact h.irqFired rfl rfl

/-- A wait step reads the alternate status or nothing. -/
def ReadsControl (es : List AtaEvent) : Prop := ∀ e ∈ es, ∃ v, e = .inb ataRegControl v

theorem SecondLook.readsControl (h : SecondLook fail xfer c es c') : ReadsControl es := by
  cases h with
  | bad | drq | none => simp [ReadsControl]

theorem IdentifyLook.readsControl (h : IdentifyLook c st es c') : ReadsControl es := by
  cases h with
  | bad | drq => simp [ReadsControl]
  | again _ _ h => exact h.readsControl

theorem IoLook.readsControl (h : IoLook c st es c') : ReadsControl es := by
  cases h with
  | bad | drq | done | next => simp [ReadsControl]
  | again _ _ _ h => exact h.readsControl

theorem ReadsControl.not_moved (h : ReadsControl es) : ¬ HasMoved es := by
  rintro ⟨e, he, hmoves⟩
  obtain ⟨v, rfl⟩ := h e he
  exact hmoves

theorem ReadsControl.not_issues (h : ReadsControl es) : ∀ e ∈ es, ¬ Issues e := by
  intro e he
  obtain ⟨v, rfl⟩ := h e he
  exact id

theorem IoLook.step (h : IoLook c st es c') (hs : c.step = .ioWaitIrq) :
    c'.step ∈ ([.ioWaitIrq, .ioXferBlock, .ioIssueSelect, .ioDone, .ioFail] : List AtaStep) := by
  cases h with
  | bad | drq | done | next => simp [AtaContext.finishIo]
  | again _ _ _ h =>
      cases h with
      | bad | drq | none => simp [AtaContext.finishIo, hs]

/-- A flag that is set after a step has been set before, and nothing has been read since. -/
theorem HandleStep.fired (h : HandleStep c es c') (hf : c'.irqFired = true) :
    c.irqFired = true ∧ c'.lastStatus = c.lastStatus ∧ lastRead es = none := by
  cases h with
  | initSelect | identifyXfer => exact ⟨hf, rfl, lastRead_quiet (by simp [statusByte])⟩
  | ioSelect => exact ⟨hf, rfl, lastRead_quiet (by simp [statusByte])⟩
  | identifyQuiet | ioNothing | ioQuiet | ioEmptyBlock | initIgnored | ioIgnored => exact ⟨hf, rfl, rfl⟩
  | ioXfer =>
      refine ⟨hf, rfl, lastRead_quiet fun e he => ?_⟩
      obtain rfl := List.mem_singleton.mp he
      unfold blockTransfer
      split
      · rfl
      · rfl
  | identifyCmd | ioTaskfile => cases hf
  | identifyWait _ _ _ h => cases hf.symm.trans h.irqFired
  | ioFired _ _ _ h => cases hf.symm.trans h.irqFired
  | ioPolled _ _ hz _ h => cases (hf.symm.trans h.irqFired).trans hz

/-- The handlers that a delay ends with write the registers of a command. -/
theorem HandleStep.after_delay (h : HandleStep { c with delay400 := 0 } es c') (hc : c.Ok)
    (hone : c.delay400 = 1) :
    c'.irqFired = false ∧
      (c.step = .initIdentifyCmd ∧ c'.step = .initIdentifyWait ∧ es = identifyTaskfile ∨
        c.step = .ioIssueTaskfile ∧ c'.step = .ioWaitIrq ∧ es = BootKernel.ioTaskfile c.op c.lba) := by
  have hs : c.step.Waits := hc.delay (by rw [hone]; decide)
  cases h with
  | identifyCmd _ hstep => exact ⟨rfl, .inl ⟨hstep, rfl, rfl⟩⟩
  | ioTaskfile _ hstep => exact ⟨rfl, .inr ⟨hstep, rfl, rfl⟩⟩
  | ioNothing _ hstep hleft => exact absurd hleft (hc.issue (.inr hstep)).2
  | initIgnored hi hstep =>
      have hphase := hc.phase.symm.trans (AtaContext.initialising_iff.mp hi)
      rcases hs with hs | hs
      · exact absurd (by simp [hs]) hstep
      · rw [hs] at hphase
        cases hphase
  | ioIgnored hi hstep =>
      rw [AtaContext.initialising_iff, hc.phase] at hi
      rcases hs with hs | hs
      · exact absurd (congrArg AtaStep.phase hs) hi
      · exact absurd (by simp [hs]) hstep
  | initSelect _ hstep | identifyQuiet _ hstep | identifyWait _ hstep | identifyXfer _ hstep | ioSelect _ hstep
  | ioQuiet _ hstep | ioFired _ hstep | ioPolled _ hstep | ioEmptyBlock _ hstep | ioXfer _ hstep =>
      rw [AtaStep.Waits, hstep] at hs
      simp at hs

/-- The steps before any block has been transferred. -/
def AtaStep.Fresh (s : AtaStep) : Prop := s = .idle ∨ s.phase = .init

theorem HandleStep.fresh (h : HandleStep c es c') (hs : c'.step.Fresh) : c.step.Fresh ∧ ¬ HasMoved es := by
  have hio {step : AtaStep} (hstep : step ∈ ([.ioWaitIrq, .ioXferBlock, .ioIssueSelect, .ioDone, .ioFail] :
      List AtaStep)) : ¬ step.Fresh := by
    simp only [List.mem_cons, List.not_mem_nil, or_false] at hstep
    rcases hstep with rfl | rfl | rfl | rfl | rfl
    all_goals simp [AtaStep.Fresh, AtaStep.phase]
  cases h with
  | initSelect _ hstep => exact ⟨by simp [AtaStep.Fresh, hstep, AtaStep.phase], by simp [HasMoved, MovesWords]⟩
  | identifyCmd _ hstep =>
      exact ⟨by simp [AtaStep.Fresh, hstep, AtaStep.phase], by simp [HasMoved, MovesWords, identifyTaskfile]⟩
  | identifyWait _ hstep _ hlook =>
      exact ⟨by simp [AtaStep.Fresh, hstep, AtaStep.phase], hlook.readsControl.not_moved⟩
  | identifyQuiet | initIgnored | ioIgnored => exact ⟨hs, by simp [HasMoved]⟩
  | identifyXfer | ioSelect | ioNothing | ioTaskfile | ioEmptyBlock | ioXfer =>
      simp [AtaStep.Fresh, AtaStep.phase, AtaContext.finishInit, AtaContext.finishIo] at hs
  | ioQuiet _ hstep => exact absurd hs (hio (by simp [hstep]))
  | ioFired _ hstep _ hlook => exact absurd hs (hio (hlook.step hstep))
  | ioPolled _ hstep _ _ hlook => exact absurd hs (hio (hlook.step hstep))

/-- `IO_DONE` is reported and the next sector is begun from the wait step. -/
theorem HandleStep.from_wait (h : HandleStep c es c') (hc : c.Ok)
    (hs : c'.step = .ioDone ∧ c.step ≠ .ioDone ∨ c'.step = .ioIssueSelect) :
    c.step = .ioWaitIrq ∧ c'.step ≠ c.step := by
  cases h with
  | ioFired _ hstep => exact ⟨hstep, fun heq => by simp [heq, hstep] at hs⟩
  | ioPolled _ hstep => exact ⟨hstep, fun heq => by simp [heq, hstep] at hs⟩
  | ioNothing _ hstep hleft => exact absurd hleft (hc.issue (.inr hstep)).2
  | identifyWait _ hstep _ hlook =>
      cases hlook with
      | bad | drq => simp [AtaContext.finishInit] at hs
      | again _ _ h =>
          cases h with
          | bad | drq | none => simp [AtaContext.finishInit, hstep] at hs
  | initIgnored hi hstep =>
      have hphase := hc.phase.symm.trans (AtaContext.initialising_iff.mp hi)
      rcases hs with ⟨hdone, hne⟩ | hsel
      · exact absurd hdone hne
      · rw [hsel] at hphase
        cases hphase
  | ioIgnored _ hstep =>
      rcases hs with ⟨hdone, hne⟩ | hsel
      · exact absurd hdone hne
      · exact absurd (by simp [hsel]) hstep
  | identifyQuiet _ hstep | ioQuiet _ hstep => simp [hstep] at hs
  | initSelect | identifyCmd | identifyXfer | ioSelect | ioTaskfile | ioEmptyBlock | ioXfer =>
      simp [AtaContext.finishInit] at hs

theorem HandleStep.readsControl (h : HandleStep c es c') (hs : c.step = .ioWaitIrq) : ReadsControl es := by
  cases h with
  | ioQuiet | initIgnored | ioIgnored => simp [ReadsControl]
  | ioFired _ _ _ hlook => exact hlook.readsControl
  | ioPolled _ _ _ _ hlook => exact List.forall_mem_cons.mpr ⟨⟨_, rfl⟩, hlook.readsControl⟩
  | initSelect _ hstep | identifyCmd _ hstep | identifyQuiet _ hstep | identifyWait _ hstep | identifyXfer _ hstep
  | ioSelect _ hstep | ioNothing _ hstep | ioTaskfile _ hstep | ioEmptyBlock _ hstep | ioXfer _ hstep =>
      rw [hs] at hstep
      cases hstep

end

/-! ## What the trace says about the context -/

/-- The flag stands for the last status that has been read, except during the delay. -/
structure AtaState.Tracked (s : AtaState) : Prop where
  ok : s.ctx.Ok
  fresh : s.ctx.step.Fresh → ¬ HasMoved s.trace
  delay : s.ctx.step = .ioIssueTaskfile → s.ctx.delay400 ≠ 0
  last : s.ctx.irqFired = true → s.ctx.delay400 = 0 → lastRead s.trace = some s.ctx.lastStatus

section
variable {c c' : AtaContext} {t es : List AtaEvent} {v : BitVec 8}

theorem HandleStep.tracked (h : HandleStep c es c') (hs : AtaState.Tracked ⟨c, t⟩) (hd : c.delay400 = 0) :
    AtaState.Tracked ⟨c', t ++ es⟩ where
  ok := h.ok hs.ok hd
  fresh hfresh := by
    obtain ⟨hc, hes⟩ := h.fresh hfresh
    rw [hasMoved_append]
    exact fun hmoved => hmoved.elim (hs.fresh hc) hes
  delay hstep := by
    have hne : c.step ≠ .ioIssueTaskfile := fun heq => hs.delay heq hd
    cases h with
    | ioSelect => exact Nat.noConfusion
    | identifyWait _ hw _ hlook =>
        cases hlook with
        | bad | drq => cases hstep
        | again _ _ h =>
            cases h with
            | bad | drq => cases hstep
            | none => exact absurd hstep hne
    | ioFired _ hw _ hlook =>
        have hmem := hlook.step hw
        rw [hstep] at hmem
        simp at hmem
    | ioPolled _ hw _ _ hlook =>
        have hmem := hlook.step hw
        rw [hstep] at hmem
        simp at hmem
    | initSelect | identifyCmd | identifyXfer | ioNothing | ioTaskfile | ioEmptyBlock | ioXfer => cases hstep
    | identifyQuiet | ioQuiet | initIgnored | ioIgnored => exact absurd hstep hne
  last hfired _ := by
    obtain ⟨hc, hlast, hes⟩ := h.fired hfired
    rw [lastRead_append, hes, Option.none_or, hlast]
    exact hs.last hc hd

theorem AtaRequest.started_begins (r : AtaRequest) (c : AtaContext) :
    (r.started c).irqFired = false ∧
      ((r.started c).step = .initSelect ∨ (r.started c).step = .ioIssueSelect) := by
  cases r with
  | init28 | init48 => exact ⟨rfl, .inl rfl⟩
  | read28 | write28 | read48 | write48 => exact ⟨rfl, .inr rfl⟩

theorem ActionStep.tracked {a : AtaAction} (h : ActionStep c a es c') (hs : AtaState.Tracked ⟨c, t⟩) :
    AtaState.Tracked ⟨c', t ++ es⟩ := by
  have hok : c'.Ok := h.ok hs.ok
  cases h with
  | @accepted r ha =>
      obtain ⟨hfired, hstep⟩ := r.started_begins c
      refine ⟨hok, fun _ => ?_, fun htask => ?_, fun hf => absurd (hf.symm.trans hfired) Bool.noConfusion⟩
      · rw [List.append_nil]
        exact hs.fresh (.inl ha.1)
      · rw [htask] at hstep
        simp at hstep
  | refused => rwa [List.append_nil]
  | irq14 =>
      refine ⟨hok, fun hfresh => ?_, hs.delay, fun _ _ => ?_⟩
      · rw [hasMoved_append]
        exact fun hmoved => hmoved.elim (hs.fresh hfresh) (by simp [HasMoved, MovesWords])
      · rw [lastRead_append]
        rfl
  | tick h =>
      cases h with
      | delay hlt =>
          refine ⟨hok, fun hfresh => ?_, fun _ => ?_, fun _ hzero => ?_⟩
          · rw [hasMoved_append]
            exact fun hmoved => hmoved.elim (hs.fresh hfresh) (by simp [HasMoved, MovesWords])
          · simp only
            omega
          · simp only at hzero
            omega
      | @delayEnd v es c' hone h =>
          obtain ⟨hfired, hcmd⟩ := h.after_delay hs.ok hone
          refine ⟨hok, fun hfresh => ?_, fun htask => ?_, fun hf => absurd (hf.symm.trans hfired) Bool.noConfusion⟩
          · obtain ⟨hc, hes⟩ := h.fresh hfresh
            rw [List.append_cons, hasMoved_append, hasMoved_append]
            exact fun hmoved => (hmoved.resolve_right hes).elim (hs.fresh hc) (by simp [HasMoved, MovesWords])
          · rcases hcmd with ⟨-, hstep, -⟩ | ⟨-, hstep, -⟩
            · cases htask.symm.trans hstep
            · cases htask.symm.trans hstep
      | handle hd h => exact h.tracked hs hd

/-- What a wait step has looked at last is what has been read last. -/
theorem AtaState.Tracked.lastIdle (hs : AtaState.Tracked ⟨c, t⟩) (hd : c.delay400 = 0) (hes : ReadsControl es)
    (hne : c'.step ≠ c.step) (h : LeavesOnIdle c es c') : LastIdle (t ++ es) := by
  have hbytes : es.filterMap statusByte = es.filterMap altStatus := by
    refine List.filterMap_congr fun e he => ?_
    obtain ⟨v, rfl⟩ := hes e he
    simp [statusByte, altStatus]
  obtain ⟨v, hv, hidle⟩ := (Option.any_eq_true _ _).mp (h hne)
  have hlast : lastRead (t ++ es) = some v := by
    rw [lastRead_append, lastRead, hbytes, ← hv, AtaContext.examined, List.getLast?_append]
    cases hf : c.irqFired with
    | true =>
        rw [hs.last hf hd]
        rfl
    | false =>
        -- without the flag the step has read the alternate status
        rw [AtaContext.examined, hf] at hv
        simp only [Bool.false_eq_true, ↓reduceIte, List.nil_append] at hv ⊢
        rw [hv]
        rfl
  intro w hw
  rw [hlast] at hw
  cases hw
  simpa using hidle

/-! ## When the next sector is begun -/

/-- Where the drive is to be selected next, the status on which the driver left the wait step was idle. -/
def AtaState.SelectsIdle (s : AtaState) : Prop :=
  s.ctx.step = .ioIssueSelect → s.ctx.irqFired = false → HasMoved s.trace → LastIdle s.trace

theorem ActionStep.selectsIdle {a : AtaAction} (h : ActionStep c a es c') (ht : AtaState.Tracked ⟨c, t⟩)
    (hs : AtaState.SelectsIdle ⟨c, t⟩) (hleaves : a = .tick → c.Waiting → LeavesOnIdle c es c') :
    AtaState.SelectsIdle ⟨c', t ++ es⟩ := by
  cases h with
  | accepted ha =>
      intro _ _ hmoved
      rw [List.append_nil] at hmoved
      exact absurd hmoved (ht.fresh (.inl ha.1))
  | refused => rwa [List.append_nil]
  | irq14 => exact fun _ hf => Bool.noConfusion hf
  | tick h =>
      intro hstep hfired hmoved
      cases h with
      | delay hlt =>
          rcases ht.ok.delay (by simp only; omega) with hcmd | htask
          · cases hcmd.symm.trans hstep
          · cases htask.symm.trans hstep
      | delayEnd hone h =>
          obtain ⟨-, hcmd⟩ := h.after_delay ht.ok hone
          rcases hcmd with ⟨-, hwait, -⟩ | ⟨-, hwait, -⟩
          · cases hwait.symm.trans hstep
          · cases hwait.symm.trans hstep
      | handle hd h =>
          obtain ⟨hwait, hne⟩ := h.from_wait ht.ok (.inr hstep)
          exact ht.lastIdle hd (h.readsControl hwait) hne (hleaves rfl (.inr hwait))

/-- The statuses are idle that may come after the one on which the wait step was left. The tick that ends the delay
gets `v` from the alternate status. -/
structure AtaState.BeginsOnIdle (s : AtaState) (v : BitVec 8) : Prop where
  /-- The handler may have run before the drive is selected. -/
  select : s.ctx.step = .ioIssueSelect → s.ctx.irqFired = true → HasMoved s.trace →
    ataStatusIsBusy s.ctx.lastStatus = false
  /-- The tick that ends the delay writes the command. -/
  command : s.ctx.step = .ioIssueTaskfile → s.ctx.delay400 = 1 → HasMoved s.trace → ataStatusIsBusy v = false

/-- Elsewhere nothing is begun. -/
theorem issues_other (hsel : c.step ≠ .ioIssueSelect) (htask : c.step = .ioIssueTaskfile → c.delay400 ≠ 1)
    (h : Guarded IssuesOnIdle (t ++ es) ↔ Guarded IssuesOnIdle t) :
    Guarded IssuesOnIdle (t ++ es) ↔ Guarded IssuesOnIdle t ∧ AtaState.BeginsOnIdle ⟨c, t⟩ v :=
  h.trans ⟨fun hg => ⟨hg, fun h => absurd h hsel, fun h h' => absurd h' (htask h)⟩, fun hg => hg.1⟩

/-- Before the first block anything may be begun. -/
theorem AtaState.Tracked.issues_fresh (ht : AtaState.Tracked ⟨c, t⟩) (hstep : c.step.Fresh) (hes : ¬ HasMoved es) :
    Guarded IssuesOnIdle (t ++ es) ↔ Guarded IssuesOnIdle t := by
  refine ⟨Guarded.of_append, fun _ => guarded_of_not_moved ?_⟩
  rw [hasMoved_append]
  exact fun hmoved => hmoved.elim (ht.fresh hstep) hes

theorem HandleStep.issues_iff (h : HandleStep c es c') (ht : AtaState.Tracked ⟨c, t⟩)
    (hs : AtaState.SelectsIdle ⟨c, t⟩) (hd : c.delay400 = 0) (v : BitVec 8) :
    Guarded IssuesOnIdle (t ++ es) ↔ Guarded IssuesOnIdle t ∧ AtaState.BeginsOnIdle ⟨c, t⟩ v := by
  have htask : c.step = .ioIssueTaskfile → c.delay400 ≠ 1 := fun _ => by omega
  cases h with
  | ioSelect _ hstep =>
      have hissues : Issues (.outb ataRegDriveSel (selectValue c.op c.lba)) := .inl rfl
      rw [guarded_concat]
      refine and_congr_right fun _ => ⟨fun hg => ⟨fun _ hf hmoved => ?_, fun h h' => absurd h' (htask h)⟩,
        fun hg _ hmoved => ?_⟩
      · exact (lastIdle_of_lastRead (ht.last hf hd)).mp (hg hissues hmoved)
      · cases hf : c.irqFired with
        | false => exact hs hstep hf hmoved
        | true => exact (lastIdle_of_lastRead (ht.last hf hd)).mpr (hg.select hstep hf hmoved)
  | initSelect _ hstep =>
      refine issues_other (by simp [hstep]) htask (ht.issues_fresh (.inr (by rw [hstep]; rfl)) ?_)
      simp [HasMoved, MovesWords]
  | identifyCmd _ hstep =>
      refine issues_other (by simp [hstep]) htask (ht.issues_fresh (.inr (by rw [hstep]; rfl)) ?_)
      simp [HasMoved, MovesWords, identifyTaskfile]
  | identifyWait _ hstep _ hlook =>
      exact issues_other (by simp [hstep]) htask (guarded_quiet hlook.readsControl.not_issues)
  | identifyXfer _ hstep => exact issues_other (by simp [hstep]) htask (guarded_quiet (by simp [Issues]))
  | ioNothing _ hstep | ioTaskfile _ hstep => exact absurd hd (ht.delay hstep)
  | ioFired _ hstep _ hlook =>
      exact issues_other (by simp [hstep]) htask (guarded_quiet hlook.readsControl.not_issues)
  | ioPolled _ hstep _ _ hlook =>
      exact issues_other (by simp [hstep]) htask
        (guarded_quiet (List.forall_mem_cons.mpr ⟨id, hlook.readsControl.not_issues⟩))
  | ioXfer _ hstep =>
      refine issues_other (by simp [hstep]) htask (guarded_quiet fun e he hissues => ?_)
      obtain rfl := List.mem_singleton.mp he
      unfold blockTransfer at hissues
      split at hissues
      · exact hissues
      · exact hissues
  | identifyQuiet _ hstep | ioQuiet _ hstep | ioEmptyBlock _ hstep =>
      exact issues_other (by simp [hstep]) htask (guarded_quiet (by simp))
  | initIgnored hi =>
      refine issues_other (fun hstep => ?_) htask (guarded_quiet (by simp))
      have hphase := ht.ok.phase.symm.trans (AtaContext.initialising_iff.mp hi)
      simp only [hstep] at hphase
      cases hphase
  | ioIgnored _ hstep =>
      refine issues_other (fun hsel => ?_) htask (guarded_quiet (by simp))
      exact absurd (by simp [hsel]) hstep

theorem TickStep.issues_iff (h : TickStep c es c') (ht : AtaState.Tracked ⟨c, t⟩) (hs : AtaState.SelectsIdle ⟨c, t⟩)
    (hv : ∀ w es', es = .inb ataRegControl w :: es' → w = v) :
    Guarded IssuesOnIdle (t ++ es) ↔ Guarded IssuesOnIdle t ∧ AtaState.BeginsOnIdle ⟨c, t⟩ v := by
  cases h with
  | delay hlt =>
      refine issues_other (fun hstep => ?_) (fun _ => by omega) (guarded_quiet (by simp [Issues]))
      rcases ht.ok.delay (by simp only; omega) with hcmd | htask
      · cases hcmd.symm.trans hstep
      · cases htask.symm.trans hstep
  | @delayEnd w es c' hone h =>
      obtain rfl : w = v := hv w es rfl
      obtain ⟨-, hcmd⟩ := h.after_delay ht.ok hone
      rcases hcmd with ⟨hstep, -, rfl⟩ | ⟨hstep, -, rfl⟩
      · refine issues_other (by simp [hstep]) (by simp [hstep]) (ht.issues_fresh (.inr (by rw [hstep]; rfl)) ?_)
        simp [HasMoved, MovesWords, identifyTaskfile]
      · refine (guarded_taskfile t c.op c.lba w).trans (and_congr_right fun _ =>
          ⟨fun hg => ⟨fun h => ?_, fun _ _ => hg⟩, fun hg => hg.command hstep hone⟩)
        cases h.symm.trans hstep
  | handle hd h => exact h.issues_iff ht hs hd v

end

end BootKernel
