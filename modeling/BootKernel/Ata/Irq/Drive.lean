import BootKernel.Ata.Irq.Transfer
import Mathlib.Logic.Function.Iterate

/-!
# The driver and a drive

A drive that follows the protocol for transfers by the processor and makes no error. It raises its
interrupt when a block can be read and when a written block has been taken, but not when it asks for
the block of a write command.
-/

namespace BootKernel

open PortProgram

/-! ## The drive -/

/-- What the drive is doing. In the two `drq` phases it waits for the host to move a block. -/
inductive DrivePhase where
  | ready | busyRead | drqRead | busyWrite | drqWrite | busyFlush
deriving DecidableEq, Repr

structure Drive where
  phase : DrivePhase
  intrq : Bool
deriving DecidableEq, Repr

/-- The status bytes of a drive that makes no error. -/
structure DriveStatus where
  busy : BitVec 8
  data : BitVec 8
  ready : BitVec 8
  busy_bsy : ataStatusIsBusy busy = true
  data_bsy : ataStatusIsBusy data = false
  data_drq : ataStatusHasDrq data = true
  data_good : ataStatusIsBad data = false
  ready_bsy : ataStatusIsBusy ready = false
  ready_drq : ataStatusHasDrq ready = false
  ready_good : ataStatusIsBad ready = false

def DriveStatus.of (S : DriveStatus) : DrivePhase → BitVec 8
  | .ready => S.ready
  | .drqRead | .drqWrite => S.data
  | .busyRead | .busyWrite | .busyFlush => S.busy

/-- What the drive does on its own. -/
def Drive.advance (d : Drive) : Drive :=
  match d.phase with
  | .busyRead => ⟨.drqRead, true⟩
  | .busyWrite => ⟨.drqWrite, d.intrq⟩
  | .busyFlush => ⟨.ready, true⟩
  | _ => d

/-- A command is taken by a drive that is ready, and ends the interrupt of the one before it. -/
def Drive.command (d : Drive) (code : BitVec 8) : Drive :=
  if d.phase = .ready then
    if code = ataCmdReadSectors ∨ code = ataCmdReadSectorsExt ∨ code = ataCmdIdentify then
      ⟨.busyRead, false⟩
    else if code = ataCmdWriteSectors ∨ code = ataCmdWriteSectorsExt then ⟨.busyWrite, false⟩
    else d
  else d

def drivePorts (S : DriveStatus) : Ports AtaBuffer Drive where
  inb port d :=
    if port = ataRegStatus then (S.of d.phase, { d with intrq := false })
    else if port = ataRegControl then (S.of d.phase, d)
    else (0, d)
  outb port v d := if port = ataRegCommand then d.command v else d
  insw port _ n d :=
    if port = ataRegData ∧ n = 256 ∧ d.phase = .drqRead then { d with phase := .ready } else d
  outsw port _ n d :=
    if port = ataRegData ∧ n = 256 ∧ d.phase = .drqWrite then { d with phase := .busyFlush } else d

/-! ## Both together -/

structure Joint where
  ctx : AtaContext
  drive : Drive
deriving DecidableEq, Repr

inductive JointAction where
  | tick | irq14 | device
deriving DecidableEq, Repr

def jointExec (S : DriveStatus) (p : Ata Unit) (s : Joint) : Joint :=
  let x := exec (drivePorts S) p s.ctx s.drive
  ⟨x.2.1, x.2.2⟩

/-- The handler runs only while the drive asserts its interrupt. -/
def jointStep (S : DriveStatus) (s : Joint) : JointAction → Joint
  | .tick => jointExec S tickAta s
  | .irq14 => if s.drive.intrq then jointExec S irq14Ata s else s
  | .device => { s with drive := s.drive.advance }

/-- What the begin function of a request returns, and what it leaves, when the drive is ready. -/
def jointBegin (S : DriveStatus) (c : AtaContext) (intrq : Bool) (r : AtaRequest) : Bool × Joint :=
  let x := exec (drivePorts S) r.begin c ⟨.ready, intrq⟩
  (x.1, ⟨x.2.1, x.2.2⟩)

def jointRun (S : DriveStatus) (s : Joint) (as : List JointAction) : Joint :=
  as.foldl (jointStep S) s

@[simp] theorem jointRun_nil (S : DriveStatus) (s : Joint) : jointRun S s [] = s := rfl

@[simp] theorem jointRun_cons (S : DriveStatus) (s : Joint) (a : JointAction)
    (as : List JointAction) : jointRun S s (a :: as) = jointRun S (jointStep S s a) as := rfl

/-- The drive waits for the host to move a block and no interrupt is pending or recorded, while the
driver waits for an interrupt and will not do anything else. -/
def MutualWait (S : DriveStatus) (s : Joint) : Prop :=
  (s.drive.phase = .drqRead ∨ s.drive.phase = .drqWrite) ∧ s.drive.intrq = false ∧
    s.ctx.irqFired = false ∧ s.ctx.step = .ioWaitIrq ∧
    ∀ n, ((jointStep S · .tick)^[n] s).ctx = s.ctx

/-! ## Reads -/

/-- During a read the drive is ready between two commands, and while a block is waited for the
interrupt is to come, asserted or recorded. -/
structure Reading (S : DriveStatus) (s : Joint) : Prop where
  ok : s.ctx.Ok
  step : s.ctx.step ∈ AtaIo.steps
  op : s.ctx.step.phase = .io → s.ctx.op.Reads
  issue : s.ctx.step = .ioIssueSelect ∨ s.ctx.step = .ioIssueTaskfile → s.drive.phase = .ready
  between : s.ctx.step = .ioWaitIrq ∨ s.ctx.step = .ioXferBlock → s.ctx.batchLeft = 0 →
    s.drive.phase = .ready
  wait : s.ctx.step = .ioWaitIrq → s.ctx.batchLeft ≠ 0 →
    s.drive.phase = .busyRead ∧ s.drive.intrq = false ∧ s.ctx.irqFired = false ∨
      s.drive.phase = .drqRead ∧ (s.drive.intrq = true ∧ s.ctx.irqFired = false ∨
        s.ctx.irqFired = true ∧ s.ctx.lastStatus = S.data)
  xfer : s.ctx.step = .ioXferBlock → s.ctx.batchLeft ≠ 0 → s.drive.phase = .drqRead

theorem Reading.no_mutualWait {S : DriveStatus} {s : Joint} (h : Reading S s) : ¬ MutualWait S s := by
  rintro ⟨hphase, hintrq, hfired, hstep, -⟩
  by_cases hbatch : s.ctx.batchLeft = 0
  · rw [h.between (.inl hstep) hbatch] at hphase
    simp at hphase
  · rcases h.wait hstep hbatch with ⟨hbusy, -, -⟩ | ⟨-, ⟨hpend, -⟩ | ⟨hrec, -⟩⟩
    · rw [hbusy] at hphase
      simp at hphase
    · rw [hintrq] at hpend
      cases hpend
    · rw [hfired] at hrec
      cases hrec

section

variable {S : DriveStatus} {c c' : AtaContext} {d d' : Drive} {es : List AtaEvent}

/-- At the end of a request nothing is asked of the drive. -/
theorem Reading.of_end (hok : c.Ok) (hs : c.step = .ioDone ∨ c.step = .ioFail) :
    Reading S ⟨c, d⟩ := by
  rcases hs with hs | hs
  · constructor
    all_goals simp [hok, hs, AtaIo.steps, AtaStep.phase]
  · constructor
    all_goals simp [hok, hs, AtaIo.steps, AtaStep.phase]

theorem Reading.reads (h : Reading S ⟨c, d⟩) (hp : c.step.phase = .io) : c.op.Reads := h.op hp

/-- Between two blocks the drive is ready, and the next step does not matter to it. -/
theorem Reading.goto (h : Reading S ⟨c, d⟩) (hs : c.step.phase = .io) (hready : d.phase = .ready)
    (hbatch : c.batchLeft = 0) {step : AtaStep} (hstep : step ∈ AtaIo.steps)
    (hok : ({ c with step := step } : AtaContext).Ok) :
    Reading S ⟨{ c with step := step }, d⟩ :=
  ⟨hok, hstep, fun _ => h.op hs, fun _ => hready, fun _ _ => hready, fun _ hn => absurd hbatch hn,
    fun _ hn => absurd hbatch hn⟩

theorem IoLook.reading {st : BitVec 8} (hlook : IoLook c st es c') (h : Reading S ⟨c, d⟩)
    (hd : c.delay400 = 0) (hs : c.step = .ioWaitIrq) (hbatch : c.batchLeft = 0) :
    Reading S ⟨c', d⟩ := by
  have hok := hlook.ok h.ok hd hs
  have hready := h.between (.inl hs) hbatch
  have hphase : c.step.phase = .io := by rw [hs]; rfl
  cases hlook with
  | bad => exact Reading.of_end hok (.inr rfl)
  | drq => exact h.goto hphase hready hbatch (by decide) hok
  | done => exact Reading.of_end hok (.inl rfl)
  | next => exact h.goto hphase hready hbatch (by decide) hok
  | again _ _ hn => exact absurd hbatch hn

/-- The interrupt of the block has been recorded, and the tick goes on to transfer it. -/
theorem IoLook.reading_data (hlook : IoLook c S.data es c') (hok : c'.Ok) (hop : c.op.Reads)
    (hbatch : c.batchLeft ≠ 0) (hphase : d.phase = .drqRead) : Reading S ⟨c', d⟩ := by
  have hdrq := S.data_drq
  have hgood := S.data_good
  cases hlook with
  | bad hb => rw [hgood] at hb; cases hb
  | drq =>
      exact ⟨hok, by simp [AtaIo.steps], fun _ => hop, by simp, fun _ hz => absurd hz hbatch,
        by simp, fun _ _ => hphase⟩
  | done _ hq => rw [hdrq] at hq; cases hq
  | next _ hq => rw [hdrq] at hq; cases hq
  | again _ hq => rw [hdrq] at hq; cases hq

theorem answers_alt {v : BitVec 8} (h : Answers (drivePorts S) (.inb ataRegControl v :: es) d d') :
    Answers (drivePorts S) es d d' := h.2

theorem IoLook.answers {st : BitVec 8} (hlook : IoLook c st es c')
    (h : Answers (drivePorts S) es d d') : d' = d := by
  cases hlook with
  | bad => exact h
  | drq => exact h
  | done => exact h
  | next => exact h
  | again _ _ _ hlook =>
      cases hlook with
      | bad => exact h.2
      | drq => exact h.2
      | none => exact h.2

theorem answers_ioTaskfile {op : AtaOp} {lba : BitVec 64}
    (h : Answers (drivePorts S) (ioTaskfile op lba) d d') (hop : op.phase = .io) :
    d' = d.command op.code := by
  cases op with
  | none => cases hop
  | init28 => cases hop
  | init48 => cases hop
  | read28 => exact h
  | write28 => exact h
  | read48 => exact h
  | write48 => exact h

/-- The flags do not matter while no block is waited for. -/
theorem Reading.flags (h : Reading S ⟨c, d⟩) (fired : Bool) (st : BitVec 8)
    (hw : c.step = .ioWaitIrq → c.batchLeft = 0) :
    Reading S ⟨{ c with irqFired := fired, lastStatus := st }, d⟩ :=
  ⟨h.ok.flags fired st, h.step, h.op, h.issue, h.between, fun hs hn => absurd (hw hs) hn, h.xfer⟩

theorem HandleStep.reading (hstep : HandleStep c es c') (ha : Answers (drivePorts S) es d d')
    (h : Reading S ⟨c, d⟩) (hd : c.delay400 = 0) : Reading S ⟨c', d'⟩ := by
  have hok := hstep.ok h.ok hd
  have hsteps : c.step ∈ AtaIo.steps := h.step
  cases hstep with
  | initSelect _ hs | identifyCmd _ hs | identifyQuiet _ hs | identifyWait _ hs
  | identifyXfer _ hs => simp [hs, AtaIo.steps] at hsteps
  | initIgnored | ioIgnored | ioQuiet =>
      obtain rfl : d' = d := ha
      exact h
  | ioSelect _ hs =>
      obtain rfl : d' = d := ha
      have hop : c.op.Reads := h.op (by rw [hs]; rfl)
      exact ⟨hok, by simp [AtaIo.steps], fun _ => hop, fun _ => h.issue (.inl hs), by simp, by simp,
        by simp⟩
  | ioNothing => exact Reading.of_end hok (.inl rfl)
  | ioTaskfile _ hs =>
      have hop : c.op.Reads := h.op (by rw [hs]; rfl)
      have hready : d.phase = .ready := h.issue (.inr hs)
      have hbusy : d.command c.op.code = ⟨.busyRead, false⟩ := by
        rcases hop with hop | hop
        · simp [Drive.command, hready, hop, AtaOp.code]
        · simp [Drive.command, hready, hop, AtaOp.code]
      obtain rfl : d' = d.command c.op.code :=
        answers_ioTaskfile ha (by rw [h.ok.phase, hs]; rfl)
      rw [hbusy]
      exact ⟨hok, by simp [AtaIo.steps], fun _ => hop, by simp, by simp, fun _ _ => .inl ⟨rfl, rfl, rfl⟩,
        by simp⟩
  | ioFired _ hs hf hlook =>
      obtain rfl := hlook.answers ha
      by_cases hbatch : c.batchLeft = 0
      · exact hlook.reading (h.flags false c.lastStatus fun _ => hbatch) hd hs hbatch
      · rcases h.wait hs hbatch with ⟨-, -, hno⟩ | ⟨hphase, ⟨-, hno⟩ | ⟨-, hlast⟩⟩
        · exact absurd (hf.symm.trans hno) Bool.noConfusion
        · exact absurd (hf.symm.trans hno) Bool.noConfusion
        · rw [show c.lastStatus = S.data from hlast] at hlook
          exact hlook.reading_data hok (h.op (by rw [hs]; rfl)) hbatch hphase
  | ioPolled _ hs hf hbatch hlook =>
      obtain rfl := hlook.answers (answers_alt ha)
      exact hlook.reading h hd hs hbatch
  | ioEmptyBlock _ hs hbatch =>
      obtain rfl : d' = d := ha
      exact h.goto (by rw [hs]; rfl) (h.between (.inr hs) hbatch) hbatch (by decide) hok
  | ioXfer _ hs hbatch =>
      have hop : c.op.Reads := h.op (by rw [hs]; rfl)
      have hphase : d.phase = .drqRead := h.xfer hs hbatch
      have hzero : c.batchLeft - 1 = 0 := by
        have hone := (h.ok.batch (by rw [hs]; rfl)).1
        bv_omega
      rw [blockTransfer, if_pos hop] at ha
      obtain rfl : d' = { d with phase := .ready } := by
        simpa [Answers, drivePorts, hphase] using ha
      exact ⟨hok, by simp [AtaIo.steps], fun _ => hop, fun _ => rfl, fun _ _ => rfl,
        fun _ hn => absurd hzero hn, by simp⟩

theorem TickStep.reading (hstep : TickStep c es c') (ha : Answers (drivePorts S) es d d')
    (h : Reading S ⟨c, d⟩) : Reading S ⟨c', d'⟩ := by
  cases hstep with
  | delay hlt =>
      obtain rfl : d' = d := ha.2
      have hok := ActionStep.ok (.tick (.delay (v := 0) hlt)) h.ok
      exact ⟨hok, h.step, h.op, h.issue, h.between, h.wait, h.xfer⟩
  | delayEnd _ hstep =>
      exact hstep.reading (answers_alt ha)
        ⟨⟨h.ok.phase, Nat.zero_le 4, fun hn => absurd rfl hn, h.ok.batch, h.ok.issue⟩, h.step, h.op,
          h.issue, h.between, h.wait, h.xfer⟩ rfl
  | handle hd hstep => exact hstep.reading ha h hd

end

theorem jointStep_reading {S : DriveStatus} {s : Joint} (h : Reading S s) (a : JointAction) :
    Reading S (jointStep S s a) := by
  cases a with
  | tick =>
      obtain ⟨es, hr, ha⟩ := exec_runs (drivePorts S) tickAta s.ctx s.drive
      exact (tickAta_runs hr).reading ha h
  | irq14 =>
      cases hintrq : s.drive.intrq with
      | false => simpa [jointStep, hintrq] using h
      | true =>
          have hhit : jointStep S s .irq14 =
              ⟨s.ctx.hit (S.of s.drive.phase), { s.drive with intrq := false }⟩ := by
            simp only [jointStep, hintrq, if_true]
            rfl
          rw [hhit]
          refine ⟨h.ok.flags true _, h.step, h.op, h.issue, h.between, fun hs hn => ?_, h.xfer⟩
          rcases h.wait hs hn with ⟨-, hno, -⟩ | ⟨hphase, -⟩
          · exact absurd (hintrq.symm.trans hno) Bool.noConfusion
          · exact .inr ⟨hphase, .inr ⟨rfl, congrArg S.of hphase⟩⟩
  | device =>
      have hready (hp : s.drive.phase = .ready) : s.drive.advance.phase = .ready := by
        simp [Drive.advance, hp]
      refine ⟨h.ok, h.step, h.op, fun hs => hready (h.issue hs), fun hs hz => hready (h.between hs hz),
        fun hs hn => ?_, fun hs hn => ?_⟩
      · rcases h.wait hs hn with ⟨hphase, -, hno⟩ | ⟨hphase, hrest⟩
        · exact .inr ⟨by simp [jointStep, Drive.advance, hphase],
            .inl ⟨by simp [jointStep, Drive.advance, hphase], hno⟩⟩
        · have hsame : s.drive.advance = s.drive := by simp [Drive.advance, hphase]
          exact .inr (by rw [jointStep, hsame]; exact ⟨hphase, hrest⟩)
      · simp [jointStep, Drive.advance, h.xfer hs hn]

theorem jointRun_reading {S : DriveStatus} {s : Joint} (h : Reading S s) (as : List JointAction) :
    Reading S (jointRun S s as) := by
  induction as generalizing s with
  | nil => exact h
  | cons a as ih => exact ih (jointStep_reading h a)

theorem AtaIo.start_reading (S : DriveStatus) {q : AtaIo} (hop : q.op.phase = .io)
    (hr : q.op.Reads) (hn : q.sectorCount ≠ 0) (intrq : Bool) :
    Reading S ⟨q.start, ⟨.ready, intrq⟩⟩ :=
  ⟨q.start_ok hop hn, by simp [AtaIo.steps, AtaIo.start], fun _ => hr, fun _ => rfl,
    fun _ _ => rfl, by simp [AtaIo.start], by simp [AtaIo.start]⟩

theorem jointBegin_accepted {S : DriveStatus} {c : AtaContext} {intrq : Bool} {r : AtaRequest}
    {q : AtaIo} (hio : r.io? = some q) (h : (jointBegin S c intrq r).1 = true) :
    q.sectorCount ≠ 0 ∧ (jointBegin S c intrq r).2 = ⟨q.start, ⟨.ready, intrq⟩⟩ := by
  obtain ⟨es, hr, ha⟩ := exec_runs (drivePorts S) r.begin c ⟨.ready, intrq⟩
  rcases AtaRequest.begin_runs hr with ⟨rfl, ⟨-, hacc, hc⟩ | ⟨hno, -, -⟩⟩
  · rw [AtaRequest.started_of_io hio] at hc
    exact ⟨hacc.2 q hio, congrArg₂ Joint.mk hc ha⟩
  · exact absurd (h.symm.trans hno) Bool.noConfusion

/-! ## Writes -/

theorem iterate_tick {S : DriveStatus} {s : Joint} (h : jointStep S s .tick = s) (n : Nat) :
    (jointStep S · .tick)^[n] s = s :=
  Function.iterate_fixed h n

/-- What a tick does is known from what it can do. -/
theorem jointStep_tick {S : DriveStatus} {c c₁ : AtaContext} {d d₁ : Drive}
    (h : ∀ es c', TickStep c es c' →
      c' = c₁ ∧ ∀ d', Answers (drivePorts S) es d d' → d' = d₁) :
    jointStep S ⟨c, d⟩ .tick = ⟨c₁, d₁⟩ := by
  obtain ⟨es, hr, ha⟩ := exec_runs (drivePorts S) tickAta c d
  obtain ⟨hc, hd⟩ := h es _ (tickAta_runs hr)
  exact congrArg₂ Joint.mk hc (hd _ ha)

section

variable {S : DriveStatus} {c : AtaContext} {d : Drive}

theorem jointStep_delay (h : 1 < c.delay400) :
    jointStep S ⟨c, d⟩ .tick = ⟨{ c with delay400 := c.delay400 - 1 }, d⟩ := by
  apply jointStep_tick
  intro es c' hstep
  cases hstep with
  | delay => exact ⟨rfl, fun _ ha => ha.2⟩
  | delayEnd hone => omega
  | handle hzero => omega

theorem HandleStep.select_eq {c' : AtaContext} {es : List AtaEvent} (h : HandleStep c es c')
    (hop : c.op.phase = .io) (hs : c.step = .ioIssueSelect) :
    es = [.outb ataRegDriveSel (selectValue c.op c.lba)] ∧
      c' = { c with delay400 := 4, step := .ioIssueTaskfile } := by
  cases h with
  | ioSelect => exact ⟨rfl, rfl⟩
  | _ => simp_all [AtaContext.initialising_iff]

theorem HandleStep.taskfile_eq {c' : AtaContext} {es : List AtaEvent} (h : HandleStep c es c')
    (hop : c.op.phase = .io) (hs : c.step = .ioIssueTaskfile) (hn : c.sectorsLeft ≠ 0) :
    es = BootKernel.ioTaskfile c.op c.lba ∧ c' = { c with
      batchLeft := 1, irqFired := false, lastStatus := 0, step := .ioWaitIrq } := by
  cases h with
  | ioTaskfile => exact ⟨rfl, rfl⟩
  | _ => simp_all [AtaContext.initialising_iff]

theorem HandleStep.quiet_eq {c' : AtaContext} {es : List AtaEvent} (h : HandleStep c es c')
    (hop : c.op.phase = .io) (hs : c.step = .ioWaitIrq) (hf : c.irqFired = false)
    (hn : c.batchLeft ≠ 0) : es = [] ∧ c' = c := by
  cases h with
  | ioQuiet => exact ⟨rfl, rfl⟩
  | _ => simp_all [AtaContext.initialising_iff]

theorem jointStep_select (hop : c.op.phase = .io) (hs : c.step = .ioIssueSelect)
    (hd : c.delay400 = 0) :
    jointStep S ⟨c, d⟩ .tick = ⟨{ c with delay400 := 4, step := .ioIssueTaskfile }, d⟩ := by
  apply jointStep_tick
  intro es c' hstep
  cases hstep with
  | delay hlt => omega
  | delayEnd hone => omega
  | handle _ h =>
      obtain ⟨rfl, rfl⟩ := h.select_eq hop hs
      exact ⟨rfl, fun _ ha => ha⟩

theorem jointStep_taskfile (hop : c.op.phase = .io) (hs : c.step = .ioIssueTaskfile)
    (hd : c.delay400 = 1) (hn : c.sectorsLeft ≠ 0) :
    jointStep S ⟨c, d⟩ .tick = ⟨{ c with
      delay400 := 0, batchLeft := 1, irqFired := false, lastStatus := 0, step := .ioWaitIrq },
      d.command c.op.code⟩ := by
  apply jointStep_tick
  intro es c' hstep
  cases hstep with
  | delay hlt => omega
  | handle hzero => omega
  | delayEnd _ h =>
      obtain ⟨rfl, rfl⟩ := h.taskfile_eq hop hs hn
      exact ⟨rfl, fun _ ha => answers_ioTaskfile (answers_alt ha) hop⟩

theorem jointStep_quiet (hop : c.op.phase = .io) (hs : c.step = .ioWaitIrq)
    (hd : c.delay400 = 0) (hf : c.irqFired = false) (hn : c.batchLeft ≠ 0) :
    jointStep S ⟨c, d⟩ .tick = ⟨c, d⟩ := by
  apply jointStep_tick
  intro es c' hstep
  cases hstep with
  | delay hlt => omega
  | delayEnd hone => omega
  | handle _ h =>
      obtain ⟨rfl, rfl⟩ := h.quiet_eq hop hs hf hn
      exact ⟨rfl, fun _ ha => ha⟩

end

/-- The ticks of a request up to its first command. -/
theorem jointRun_command (S : DriveStatus) {q : AtaIo} (hop : q.op.phase = .io)
    (hn : q.sectorCount ≠ 0) (d : Drive) :
    jointRun S ⟨q.start, d⟩ [.tick, .tick, .tick, .tick, .tick] =
      ⟨{ q.start with batchLeft := 1, step := .ioWaitIrq }, d.command q.op.code⟩ := by
  let selected (k : Nat) : AtaContext := { q.start with delay400 := k, step := .ioIssueTaskfile }
  have hdelay (k : Nat) (hk : 0 < k) :
      jointStep S ⟨selected (k + 1), d⟩ .tick = ⟨selected k, d⟩ :=
    jointStep_delay (Nat.succ_lt_succ hk)
  have hselect : jointStep S ⟨q.start, d⟩ .tick = ⟨selected 4, d⟩ := jointStep_select hop rfl rfl
  have hissue : jointStep S ⟨selected 1, d⟩ .tick =
      ⟨{ q.start with batchLeft := 1, step := .ioWaitIrq }, d.command q.op.code⟩ :=
    jointStep_taskfile hop rfl rfl hn
  rw [jointRun_cons, hselect, jointRun_cons, hdelay 3 (by decide), jointRun_cons,
    hdelay 2 (by decide), jointRun_cons, hdelay 1 (by decide), jointRun_cons, hissue, jointRun_nil]

/-- Once a write command is issued the drive asks for its block without an interrupt. -/
theorem write_mutualWait (S : DriveStatus) {q : AtaIo} (hop : q.op.phase = .io) (hw : ¬ q.op.Reads)
    (hn : q.sectorCount ≠ 0) (intrq : Bool) :
    MutualWait S (jointRun S ⟨q.start, ⟨.ready, intrq⟩⟩ [.tick, .tick, .tick, .tick, .tick, .device]) := by
  have hcommand : (Drive.mk .ready intrq).command q.op.code = ⟨.busyWrite, false⟩ := by
    cases h : q.op with
    | none | init28 | init48 => rw [h] at hop; cases hop
    | read28 => exact absurd (.inl h) hw
    | read48 => exact absurd (.inr h) hw
    | write28 | write48 => rfl
  have hrun : jointRun S ⟨q.start, ⟨.ready, intrq⟩⟩ [.tick, .tick, .tick, .tick, .tick, .device] =
      ⟨{ q.start with batchLeft := 1, step := .ioWaitIrq }, ⟨.drqWrite, false⟩⟩ := by
    calc
      _ = jointStep S (jointRun S ⟨q.start, ⟨.ready, intrq⟩⟩
          [.tick, .tick, .tick, .tick, .tick]) .device := rfl
      _ = _ := by
        rw [jointRun_command S hop hn, hcommand]
        rfl
  have hquiet : jointStep S ⟨{ q.start with batchLeft := 1, step := .ioWaitIrq },
      ⟨.drqWrite, false⟩⟩ .tick =
        ⟨{ q.start with batchLeft := 1, step := .ioWaitIrq }, ⟨.drqWrite, false⟩⟩ :=
    jointStep_quiet hop rfl rfl rfl (by simp)
  rw [hrun]
  exact ⟨.inr rfl, rfl, rfl, rfl, fun n => by rw [iterate_tick hquiet]⟩

end BootKernel
