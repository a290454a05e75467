import BootKernel.Ata.Irq.Theorems
import BootKernel.Lib.Fairness

/-!
# Reads come to their end

With a drive that follows the protocol, and under any fair schedule of the ticks, the interrupts and
the drive, every read is done at last. Each point of a read has a rank, and one of the three actions
brings it on.
-/

namespace BootKernel

open PortProgram Fairness

/-- The driver is busy with a read. -/
structure AtaContext.IsReading (c : AtaContext) : Prop where
  ok : c.Ok
  reads : c.op.Reads

/-- The points of a read, with a bound on the actions that are still awaited. -/
inductive ReadPoint (S : DriveStatus) : Joint → Nat → Prop where
  | select {c d} : c.IsReading → c.step = .ioIssueSelect → d.phase = .ready →
      ReadPoint S ⟨c, d⟩ (12 * c.sectorsLeft.toNat + 11)
  | taskfile {c d} : c.IsReading → c.step = .ioIssueTaskfile → 0 < c.delay400 → d.phase = .ready →
      ReadPoint S ⟨c, d⟩ (12 * c.sectorsLeft.toNat + 6 + c.delay400)
  | busy {c} : c.IsReading → c.step = .ioWaitIrq → c.batchLeft ≠ 0 → c.irqFired = false →
      ReadPoint S ⟨c, ⟨.busyRead, false⟩⟩ (12 * c.sectorsLeft.toNat + 5)
  | offered {c} : c.IsReading → c.step = .ioWaitIrq → c.batchLeft ≠ 0 → c.irqFired = false →
      ReadPoint S ⟨c, ⟨.drqRead, true⟩⟩ (12 * c.sectorsLeft.toNat + 4)
  | recorded {c} : c.IsReading → c.step = .ioWaitIrq → c.batchLeft ≠ 0 → c.irqFired = true →
      c.lastStatus = S.data → ReadPoint S ⟨c, ⟨.drqRead, false⟩⟩ (12 * c.sectorsLeft.toNat + 3)
  | block {c} : c.IsReading → c.step = .ioXferBlock → c.batchLeft ≠ 0 → c.irqFired = false →
      ReadPoint S ⟨c, ⟨.drqRead, false⟩⟩ (12 * c.sectorsLeft.toNat + 2)
  | moved {c} : c.IsReading → c.step = .ioWaitIrq → c.batchLeft = 0 → c.irqFired = false →
      ReadPoint S ⟨c, ⟨.ready, false⟩⟩ (12 * c.sectorsLeft.toNat + 12)
  | done {c d} : c.Ok → c.step = .ioDone → ReadPoint S ⟨c, d⟩ 0

/-- The action that brings a read on. -/
def awaited (s : Joint) : JointAction :=
  if s.ctx.step = .ioWaitIrq ∧ s.ctx.batchLeft ≠ 0 ∧ s.ctx.irqFired = false then
    if s.drive.phase = .busyRead then .device else .irq14
  else .tick

section

variable {S : DriveStatus} {c c' : AtaContext} {d d' : Drive} {es : List AtaEvent} {n : Nat}

theorem AtaContext.IsReading.phase (h : c.IsReading) : c.op.phase = .io := by
  rcases h.reads with hop | hop
  · rw [hop]; rfl
  · rw [hop]; rfl

/-- The delay runs only before the registers are written. -/
theorem AtaContext.IsReading.delay (h : c.IsReading) (hs : c.step ≠ .ioIssueTaskfile) :
    c.delay400 = 0 := by
  by_contra hn
  rcases h.ok.delay hn with hinit | htask
  · have hphase := h.ok.phase
    rw [h.phase, hinit] at hphase
    cases hphase
  · exact hs htask

theorem AtaContext.IsReading.hit (h : c.IsReading) (st : BitVec 8) : (c.hit st).IsReading :=
  ⟨h.ok.flags true st, h.reads⟩

theorem jointTick_of (P : Joint → Prop)
    (h : ∀ es c' d', TickStep c es c' → Answers (drivePorts S) es d d' → P ⟨c', d'⟩) :
    P (jointStep S ⟨c, d⟩ .tick) := by
  obtain ⟨es, hr, ha⟩ := exec_runs (drivePorts S) tickAta c d
  exact h es _ _ (tickAta_runs hr) ha

theorem TickStep.handles (h : TickStep c es c') (hd : c.delay400 = 0) : HandleStep c es c' := by
  cases h with
  | delay hlt => omega
  | delayEnd hone => omega
  | handle _ h => exact h

theorem jointIrq_of_pending (hd : d.intrq = true) :
    jointStep S ⟨c, d⟩ .irq14 = ⟨c.hit (S.of d.phase), { d with intrq := false }⟩ := by
  simp only [jointStep, hd, if_true]
  rfl

theorem jointIrq_of_none (hd : d.intrq = false) : jointStep S ⟨c, d⟩ .irq14 = ⟨c, d⟩ := by
  simp [jointStep, hd]

/-! ## The ticks of a read -/

theorem AtaContext.IsReading.notInit (h : c.IsReading) : ¬ c.Initialising := by
  rw [AtaContext.initialising_iff, h.phase]
  exact AtaPhase.noConfusion

theorem Drive.command_read (h : c.IsReading) (hd : d.phase = .ready) :
    d.command c.op.code = ⟨.busyRead, false⟩ := by
  rcases h.reads with hop | hop
  · simp [Drive.command, hd, hop, AtaOp.code]
  · simp [Drive.command, hd, hop, AtaOp.code]

theorem ReadPoint.tick_select (h : c.IsReading) (hs : c.step = .ioIssueSelect)
    (hd : d.phase = .ready) :
    ∃ m ≤ 12 * c.sectorsLeft.toNat + 10, ReadPoint S (jointStep S ⟨c, d⟩ .tick) m := by
  have hzero := h.delay (by simp [hs])
  rw [jointStep_select h.phase hs hzero]
  have hok : ({ c with delay400 := 4, step := .ioIssueTaskfile } : AtaContext).Ok :=
    (HandleStep.ioSelect h.notInit hs).ok h.ok hzero
  exact ⟨_, Nat.le_refl _, .taskfile ⟨hok, h.reads⟩ rfl (Nat.zero_lt_succ 3) hd⟩

theorem ReadPoint.tick_taskfile (h : c.IsReading) (hs : c.step = .ioIssueTaskfile)
    (hdelay : 0 < c.delay400) (hd : d.phase = .ready) :
    ∃ m ≤ 12 * c.sectorsLeft.toNat + 5 + c.delay400, ReadPoint S (jointStep S ⟨c, d⟩ .tick) m := by
  by_cases hlast : c.delay400 = 1
  · have hleft := (h.ok.issue (.inr hs)).2
    have hok : ({ c with
        delay400 := 0, batchLeft := 1, irqFired := false, lastStatus := 0, step := .ioWaitIrq } :
        AtaContext).Ok :=
      (HandleStep.ioTaskfile (c := { c with delay400 := 0 }) h.notInit hs hleft).ok
        ⟨h.ok.phase, Nat.zero_le 4, fun hn => absurd rfl hn, h.ok.batch, h.ok.issue⟩ rfl
    rw [jointStep_taskfile h.phase hs hlast hleft, Drive.command_read h hd]
    exact ⟨_, Nat.le_add_right _ _, .busy ⟨hok, h.reads⟩ rfl (by simp) rfl⟩
  · have hmore : 1 < c.delay400 := by omega
    have hok : ({ c with delay400 := c.delay400 - 1 } : AtaContext).Ok :=
      ActionStep.ok (.tick (.delay (v := 0) hmore)) h.ok
    rw [jointStep_delay hmore]
    refine ⟨_, ?_, .taskfile ⟨hok, h.reads⟩ hs (by simp only; omega) hd⟩
    simp only
    omega

/-- While the drive or the interrupt is awaited, a tick does nothing. -/
theorem jointTick_waits (h : c.IsReading) (hs : c.step = .ioWaitIrq) (hbatch : c.batchLeft ≠ 0)
    (hf : c.irqFired = false) : jointStep S ⟨c, d⟩ .tick = ⟨c, d⟩ :=
  jointStep_quiet h.phase hs (h.delay (by simp [hs])) hf hbatch

theorem HandleStep.recorded_eq (h : HandleStep c es c') (hc : c.IsReading) (hs : c.step = .ioWaitIrq)
    (hf : c.irqFired = true) (hst : c.lastStatus = S.data) :
    es = [] ∧ c' = { c with irqFired := false, step := .ioXferBlock } := by
  have hphase := hc.phase
  have hgood := S.data_good
  have hdrq := S.data_drq
  rw [← hst] at hgood hdrq
  cases h with
  | ioFired _ _ _ hlook =>
      cases hlook with
      | drq => exact ⟨rfl, rfl⟩
      | _ => simp_all
  | _ => simp_all [AtaContext.initialising_iff]

theorem HandleStep.block_eq (h : HandleStep c es c') (hc : c.IsReading) (hs : c.step = .ioXferBlock)
    (hbatch : c.batchLeft ≠ 0) :
    es = [.insw ataRegData (.ram c.ptr) 256] ∧ c' = { c with
      ptr := c.ptr + 512, lba := c.lba + 1, batchLeft := c.batchLeft - 1,
      sectorsLeft := c.sectorsLeft - 1, step := .ioWaitIrq } := by
  have hphase := hc.phase
  cases h with
  | ioXfer =>
      refine ⟨?_, rfl⟩
      rw [blockTransfer, if_pos hc.reads]
  | _ => simp_all [AtaContext.initialising_iff]

/-- Between two blocks the driver looks at the status of a drive that is ready. -/
theorem HandleStep.moved_cases (h : HandleStep c es c') (hc : c.IsReading) (hs : c.step = .ioWaitIrq)
    (hbatch : c.batchLeft = 0) (hf : c.irqFired = false)
    (ha : Answers (drivePorts S) es ⟨.ready, false⟩ d') :
    d' = ⟨.ready, false⟩ ∧ (c.sectorsLeft = 0 ∧ c' = c.finishIo true ∨
      c.sectorsLeft ≠ 0 ∧ c' = { c with step := .ioIssueSelect }) := by
  have hphase := hc.phase
  have hgood := S.ready_good
  have hdrq := S.ready_drq
  cases h with
  | @ioPolled v es' _ _ _ _ _ hlook =>
      have hv : v = S.ready := ha.1.symm
      have hd : d' = ⟨.ready, false⟩ := hlook.answers (answers_alt ha)
      rw [hv] at hlook
      cases hlook with
      | done _ _ _ hleft => exact ⟨hd, .inl ⟨hleft, rfl⟩⟩
      | next _ _ _ hleft => exact ⟨hd, .inr ⟨hleft, rfl⟩⟩
      | _ => simp_all
  | _ => simp_all [AtaContext.initialising_iff]

theorem ReadPoint.tick_recorded (h : c.IsReading) (hs : c.step = .ioWaitIrq) (hbatch : c.batchLeft ≠ 0)
    (hf : c.irqFired = true) (hst : c.lastStatus = S.data) :
    ∃ m ≤ 12 * c.sectorsLeft.toNat + 2,
      ReadPoint S (jointStep S ⟨c, ⟨.drqRead, false⟩⟩ .tick) m := by
  have hzero := h.delay (by simp [hs])
  refine jointTick_of (fun s => ∃ m ≤ _, ReadPoint S s m) fun es c' d' hstep ha => ?_
  have hhandle := hstep.handles hzero
  have hok := hhandle.ok h.ok hzero
  obtain ⟨rfl, rfl⟩ := hhandle.recorded_eq h hs hf hst
  obtain rfl : d' = ⟨.drqRead, false⟩ := ha
  exact ⟨_, Nat.le_refl _, .block ⟨hok, h.reads⟩ rfl hbatch rfl⟩

theorem ReadPoint.tick_block (h : c.IsReading) (hs : c.step = .ioXferBlock) (hbatch : c.batchLeft ≠ 0)
    (hf : c.irqFired = false) :
    ∃ m ≤ 12 * c.sectorsLeft.toNat + 1,
      ReadPoint S (jointStep S ⟨c, ⟨.drqRead, false⟩⟩ .tick) m := by
  have hzero := h.delay (by simp [hs])
  refine jointTick_of (fun s => ∃ m ≤ _, ReadPoint S s m) fun es c' d' hstep ha => ?_
  have hhandle := hstep.handles hzero
  have hok := hhandle.ok h.ok hzero
  obtain ⟨rfl, rfl⟩ := hhandle.block_eq h hs hbatch
  obtain rfl : d' = ⟨.ready, false⟩ := by simpa [Answers, drivePorts] using ha
  obtain ⟨hone, hle⟩ := h.ok.batch (by rw [hs]; rfl)
  refine ⟨_, ?_, .moved ⟨hok, h.reads⟩ rfl (by bv_omega) hf⟩
  have hless : (c.sectorsLeft - 1).toNat + 1 = c.sectorsLeft.toNat := by bv_omega
  simp only
  omega

theorem ReadPoint.tick_moved (h : c.IsReading) (hs : c.step = .ioWaitIrq) (hbatch : c.batchLeft = 0)
    (hf : c.irqFired = false) :
    ∃ m ≤ 12 * c.sectorsLeft.toNat + 11,
      ReadPoint S (jointStep S ⟨c, ⟨.ready, false⟩⟩ .tick) m := by
  have hzero := h.delay (by simp [hs])
  refine jointTick_of (fun s => ∃ m ≤ _, ReadPoint S s m) fun es c' d' hstep ha => ?_
  have hhandle := hstep.handles hzero
  have hok := hhandle.ok h.ok hzero
  obtain ⟨rfl, ⟨-, rfl⟩ | ⟨-, rfl⟩⟩ := hhandle.moved_cases h hs hbatch hf ha
  · exact ⟨0, Nat.zero_le _, .done hok rfl⟩
  · exact ⟨_, Nat.le_refl _, .select ⟨hok, h.reads⟩ rfl rfl⟩

/-! ## Every action -/

/-- What an action other than the awaited one may do: nothing that matters. -/
def Idles (S : DriveStatus) (s : Joint) (a : JointAction) (n : Nat) : Prop :=
  some a ≠ some (awaited s) ∧ ReadPoint S (jointStep S s a) n ∧ awaited (jointStep S s a) = awaited s

theorem ReadPoint.idles {s : Joint} {a : JointAction} (h : ReadPoint S s n)
    (hsame : jointStep S s a = s) (ha : a ≠ awaited s) : Idles S s a n := by
  unfold Idles
  rw [hsame]
  exact ⟨fun heq => ha (Option.some.inj heq), h, rfl⟩

/-- The drive does nothing on its own unless it is busy. -/
theorem jointDevice_idle (hd : d.phase = .ready ∨ d.phase = .drqRead) :
    jointStep S ⟨c, d⟩ .device = ⟨c, d⟩ := by
  rcases hd with hd | hd
  · simp [jointStep, Drive.advance, hd]
  · simp [jointStep, Drive.advance, hd]

/-- An interrupt of an earlier command is recorded, and does not matter to a step that will reset the
flags. -/
theorem ReadPoint.idles_irq (hs : c.step = .ioIssueSelect ∨ c.step = .ioIssueTaskfile)
    (h : ReadPoint S ⟨c, d⟩ n)
    (hhit : ∀ st, ReadPoint S ⟨c.hit st, { d with intrq := false }⟩ n) :
    Idles S ⟨c, d⟩ .irq14 n := by
  have htick (c' : AtaContext) (d' : Drive) (hc' : c'.step = c.step) : awaited ⟨c', d'⟩ = .tick := by
    rcases hs with hs | hs
    · simp [awaited, hc', hs]
    · simp [awaited, hc', hs]
  cases hd : d.intrq with
  | false => exact h.idles (jointIrq_of_none hd) (by simp [htick c d rfl])
  | true =>
      unfold Idles
      rw [jointIrq_of_pending hd, htick c d rfl, htick (c.hit (S.of d.phase)) _ rfl]
      exact ⟨by simp, hhit _, rfl⟩

theorem readPoint_advances (S : DriveStatus) : Advances (jointStep S) some (ReadPoint S) awaited := by
  intro s n a h
  generalize hn : n + 1 = k at h
  have hpoint := h
  cases h with
  | @select c d hc hs hd =>
      cases a with
      | tick =>
          obtain ⟨m, hm, hnext⟩ := ReadPoint.tick_select (S := S) hc hs hd
          exact .inl ⟨m, by omega, hnext⟩
      | device => exact .inr (hpoint.idles (jointDevice_idle (.inl hd)) (by simp [awaited, hs]))
      | irq14 => exact .inr (hpoint.idles_irq (.inl hs) fun st => .select (hc.hit st) hs hd)
  | @taskfile c d hc hs hdelay hd =>
      cases a with
      | tick =>
          obtain ⟨m, hm, hnext⟩ := ReadPoint.tick_taskfile (S := S) hc hs hdelay hd
          exact .inl ⟨m, by omega, hnext⟩
      | device => exact .inr (hpoint.idles (jointDevice_idle (.inl hd)) (by simp [awaited, hs]))
      | irq14 => exact .inr (hpoint.idles_irq (.inr hs) fun st => .taskfile (hc.hit st) hs hdelay hd)
  | @busy c hc hs hbatch hf =>
      have hdevice : awaited ⟨c, ⟨.busyRead, false⟩⟩ = .device := by
        rw [awaited, if_pos ⟨hs, hbatch, hf⟩, if_pos rfl]
      cases a with
      | tick => exact .inr (hpoint.idles (jointTick_waits hc hs hbatch hf) (by simp [hdevice]))
      | device =>
          have hnext : ReadPoint S (jointStep S ⟨c, ⟨.busyRead, false⟩⟩ .device)
              (12 * c.sectorsLeft.toNat + 4) := .offered hc hs hbatch hf
          exact .inl ⟨_, by omega, hnext⟩
      | irq14 => exact .inr (hpoint.idles (jointIrq_of_none rfl) (by simp [hdevice]))
  | @offered c hc hs hbatch hf =>
      have hirq : awaited ⟨c, ⟨.drqRead, true⟩⟩ = .irq14 := by
        rw [awaited, if_pos ⟨hs, hbatch, hf⟩, if_neg DrivePhase.noConfusion]
      cases a with
      | tick => exact .inr (hpoint.idles (jointTick_waits hc hs hbatch hf) (by simp [hirq]))
      | device => exact .inr (hpoint.idles (jointDevice_idle (.inr rfl)) (by simp [hirq]))
      | irq14 =>
          rw [jointIrq_of_pending rfl]
          have hnext : ReadPoint S ⟨c.hit S.data, ⟨.drqRead, false⟩⟩ (12 * c.sectorsLeft.toNat + 3) :=
            .recorded (hc.hit S.data) hs hbatch rfl rfl
          exact .inl ⟨_, by omega, hnext⟩
  | @recorded c hc hs hbatch hf hst =>
      have htick : awaited ⟨c, ⟨.drqRead, false⟩⟩ = .tick := by simp [awaited, hf]
      cases a with
      | tick =>
          obtain ⟨m, hm, hnext⟩ := ReadPoint.tick_recorded hc hs hbatch hf hst
          exact .inl ⟨m, by omega, hnext⟩
      | device => exact .inr (hpoint.idles (jointDevice_idle (.inr rfl)) (by simp [htick]))
      | irq14 => exact .inr (hpoint.idles (jointIrq_of_none rfl) (by simp [htick]))
  | @block c hc hs hbatch hf =>
      have htick : awaited ⟨c, ⟨.drqRead, false⟩⟩ = .tick := by simp [awaited, hs]
      cases a with
      | tick =>
          obtain ⟨m, hm, hnext⟩ := ReadPoint.tick_block (S := S) hc hs hbatch hf
          exact .inl ⟨m, by omega, hnext⟩
      | device => exact .inr (hpoint.idles (jointDevice_idle (.inr rfl)) (by simp [htick]))
      | irq14 => exact .inr (hpoint.idles (jointIrq_of_none rfl) (by simp [htick]))
  | @moved c hc hs hbatch hf =>
      have htick : awaited ⟨c, ⟨.ready, false⟩⟩ = .tick := by simp [awaited, hbatch]
      cases a with
      | tick =>
          obtain ⟨m, hm, hnext⟩ := ReadPoint.tick_moved (S := S) hc hs hbatch hf
          exact .inl ⟨m, by omega, hnext⟩
      | device => exact .inr (hpoint.idles (jointDevice_idle (.inl rfl)) (by simp [htick]))
      | irq14 => exact .inr (hpoint.idles (jointIrq_of_none rfl) (by simp [htick]))
  | done => exact absurd hn (Nat.succ_ne_zero n)

theorem ReadPoint.of_zero {S : DriveStatus} {s : Joint} (h : ReadPoint S s 0) : s.ctx.Ok ∧ s.ctx.step = .ioDone := by
  generalize hzero : 0 = n at h
  cases h with
  | done hok hs => exact ⟨hok, hs⟩
  | _ => omega

/-- A driver that is done stays so. -/
theorem jointStep_done {s : Joint} (h : s.ctx.Ok ∧ s.ctx.step = .ioDone) (a : JointAction) :
    (jointStep S s a).ctx.Ok ∧ (jointStep S s a).ctx.step = .ioDone := by
  obtain ⟨hok, hs⟩ := h
  cases a with
  | tick =>
      refine jointTick_of (fun s => s.ctx.Ok ∧ s.ctx.step = .ioDone) fun es c' d' hstep ha => ?_
      refine ⟨ActionStep.ok (.tick hstep) hok, ?_⟩
      have hrest : s.ctx.delay400 = 0 := by
        by_contra hn
        rcases hok.delay hn with h | h
        · rw [hs] at h; cases h
        · rw [hs] at h; cases h
      have hhandle := hstep.handles hrest
      cases hhandle with
      | initIgnored => exact hs
      | ioIgnored => exact hs
      | _ => simp_all
  | device => exact ⟨hok, hs⟩
  | irq14 =>
      cases hd : s.drive.intrq with
      | false => exact (jointIrq_of_none (S := S) (c := s.ctx) hd).symm ▸ ⟨hok, hs⟩
      | true => exact (jointIrq_of_pending (S := S) (c := s.ctx) hd).symm ▸ ⟨hok.flags true _, hs⟩

end

/-- Under every fair schedule a read that has been begun is done from some point on. -/
theorem read_done {S : DriveStatus} {c : AtaContext} {intrq : Bool} {r : AtaRequest} {q : AtaIo}
    (hio : r.io? = some q) (hreads : q.op.Reads) (hbegin : (jointBegin S c intrq r).1 = true)
    {schedule : Nat → JointAction} (hfair : Fair some schedule) :
    ∃ k, ∀ j ≥ k,
      (trajectory (jointStep S) (jointBegin S c intrq r).2 schedule j).ctx.step = .ioDone := by
  obtain ⟨hn, hstart⟩ := jointBegin_accepted hio hbegin
  have hop := AtaRequest.io?_phase hio
  have hpoint : ReadPoint S (jointBegin S c intrq r).2 (12 * q.sectorCount.toNat + 11) := by
    rw [hstart]
    exact .select ⟨q.start_ok hop hn, hreads⟩ rfl rfl
  obtain ⟨k, hk⟩ := (readPoint_advances S).eventually hfair 0 hpoint
  exact ⟨k, fun j hj => (trajectory_invariant
    (fun s a h => jointStep_done (S := S) (s := s) h a) hj hk.of_zero).2⟩

/-- The three actions in turn. -/
def inTurn (n : Nat) : JointAction := if n % 3 = 0 then .tick else if n % 3 = 1 then .device else .irq14

theorem inTurn_fair : Fair some inTurn := by
  intro a n
  cases a with
  | tick => exact ⟨3 * n, by omega, by simp [inTurn]⟩
  | device =>
      have hmod : (3 * n + 1) % 3 = 1 := by omega
      exact ⟨3 * n + 1, by omega, by simp [inTurn, hmod]⟩
  | irq14 =>
      have hmod : (3 * n + 2) % 3 = 2 := by omega
      exact ⟨3 * n + 2, by omega, by simp [inTurn, hmod]⟩

theorem read_done_inTurn :
    ∃ k, ∀ j ≥ k, (trajectory (jointStep sampleStatus)
      (jointBegin sampleStatus gAtaCtx true (.read28 5 0x8000 3)).2 inTurn j).ctx.step = .ioDone :=
  read_done (q := ⟨.read28, 5, 0x8000, 3⟩) rfl (.inl rfl) (by decide) inTurn_fair

end BootKernel
