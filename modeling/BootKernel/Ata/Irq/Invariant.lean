import BootKernel.Ata.Irq.Lemmas.Steps

/-!
# The representation invariant of the context

The fields of the context agree with each other: the operation and the step belong to the same phase,
the delay runs only before the registers are written, and a batch is one of the sectors left.
-/

namespace BootKernel

open PortProgram

inductive AtaPhase where
  | rest | init | io | never
deriving DecidableEq, Repr

def AtaOp.phase : AtaOp → AtaPhase
  | .none => .rest
  | .init28 | .init48 => .init
  | .read28 | .write28 | .read48 | .write48 => .io

/-- The steps that no handler serves are those in which the driver rests, and four that are never
entered. -/
def AtaStep.phase : AtaStep → AtaPhase
  | .idle | .initDone | .initFail | .ioDone | .ioFail => .rest
  | .initSelect | .initIdentifyCmd | .initIdentifyWait | .initIdentifyXfer => .init
  | .ioIssueSelect | .ioIssueTaskfile | .ioWaitIrq | .ioXferBlock => .io
  | .initSetmultCmd | .initSetmultWait | .ioIssueBatch | .ioWaitDone => .never

structure AtaContext.Ok (c : AtaContext) : Prop where
  phase : c.op.phase = c.step.phase
  delay_le : c.delay400 ≤ 4
  delay : c.delay400 ≠ 0 → c.step = .initIdentifyCmd ∨ c.step = .ioIssueTaskfile
  batch : c.step.phase = .io → c.batchLeft ≤ 1 ∧ c.batchLeft ≤ c.sectorsLeft
  issue : c.step = .ioIssueSelect ∨ c.step = .ioIssueTaskfile → c.batchLeft = 0 ∧ c.sectorsLeft ≠ 0

section

variable {c c' fail xfer : AtaContext} {es : List AtaEvent}

theorem AtaContext.initialising_iff : c.Initialising ↔ c.op.phase = .init := by
  cases h : c.op with
  | _ => simp [Initialising, AtaOp.phase, h]

theorem AtaContext.Ok.rest (h : c.Ok) (hd : c.delay400 = 0) {step : AtaStep}
    (hs : step.phase = .rest) : ({ c with step := step, op := .none } : AtaContext).Ok where
  phase := hs.symm
  delay_le := h.delay_le
  delay := fun hn => absurd hd hn
  batch := fun hio => by rw [hs] at hio; cases hio
  issue := fun hstep => by rcases hstep with rfl | rfl <;> cases hs

theorem AtaContext.Ok.finishIo (h : c.Ok) (hd : c.delay400 = 0) (success : Bool) :
    (c.finishIo success).Ok := by
  cases success with
  | _ => exact h.rest hd rfl

theorem AtaContext.Ok.finishInit (h : c.Ok) (hd : c.delay400 = 0) (success : Bool) :
    (c.finishInit success).Ok := by
  cases success with
  | _ => exact h.rest hd rfl

/-- The driver goes on to a step of the same phase that does not issue a command. -/
theorem AtaContext.Ok.goto (h : c.Ok) (hd : c.delay400 = 0) {step : AtaStep}
    (hp : step.phase = c.step.phase) (hsel : step ≠ .ioIssueSelect)
    (htask : step ≠ .ioIssueTaskfile) : ({ c with step := step } : AtaContext).Ok where
  phase := h.phase.trans hp.symm
  delay_le := h.delay_le
  delay := fun hn => absurd hd hn
  batch := fun hio => h.batch (hp.symm.trans hio)
  issue := fun hstep => (hstep.elim hsel htask).elim

/-- The flags are not part of the invariant. -/
theorem AtaContext.Ok.flags (h : c.Ok) (fired : Bool) (st : BitVec 8) :
    ({ c with irqFired := fired, lastStatus := st } : AtaContext).Ok :=
  ⟨h.phase, h.delay_le, h.delay, h.batch, h.issue⟩

theorem SecondLook.ok (h : SecondLook fail xfer c es c') (hf : fail.Ok) (hx : xfer.Ok) (hc : c.Ok) :
    c'.Ok := by
  cases h with
  | bad => exact hf
  | drq => exact hx
  | none => exact hc

theorem IdentifyLook.ok {st : BitVec 8} (h : IdentifyLook c st es c') (hc : c.Ok)
    (hd : c.delay400 = 0) (hs : c.step = .initIdentifyWait) : c'.Ok := by
  have hxfer : ({ c with step := .initIdentifyXfer } : AtaContext).Ok :=
    hc.goto hd (by rw [hs]; rfl) AtaStep.noConfusion AtaStep.noConfusion
  cases h with
  | bad => exact hc.finishInit hd false
  | drq => exact hxfer
  | again _ _ h => exact h.ok (hc.finishInit hd false) hxfer hc

theorem IoLook.ok {st : BitVec 8} (h : IoLook c st es c') (hc : c.Ok) (hd : c.delay400 = 0)
    (hs : c.step = .ioWaitIrq) : c'.Ok := by
  have hxfer : ({ c with step := .ioXferBlock } : AtaContext).Ok :=
    hc.goto hd (by rw [hs]; rfl) AtaStep.noConfusion AtaStep.noConfusion
  cases h with
  | bad => exact hc.finishIo hd false
  | drq => exact hxfer
  | done => exact hc.finishIo hd true
  | next _ _ hbatch hleft =>
      exact ⟨by rw [hc.phase, hs]; rfl, hc.delay_le, fun hn => absurd hd hn,
        fun _ => hc.batch (by rw [hs]; rfl), fun _ => ⟨hbatch, hleft⟩⟩
  | again _ _ _ h => exact h.ok (hc.finishIo hd false) hxfer hc

theorem HandleStep.ok (h : HandleStep c es c') (hc : c.Ok) (hd : c.delay400 = 0) : c'.Ok := by
  cases h with
  | initSelect _ hs =>
      exact ⟨by rw [hc.phase, hs]; rfl, Nat.le_refl 4, fun _ => .inl rfl,
        fun hio => AtaPhase.noConfusion hio,
        by simp⟩
  | identifyCmd _ hs =>
      have hwait : ({ c with step := .initIdentifyWait } : AtaContext).Ok :=
        hc.goto hd (by rw [hs]; rfl) AtaStep.noConfusion AtaStep.noConfusion
      exact hwait.flags false 0
  | identifyQuiet => exact hc
  | identifyWait _ hs _ hlook => exact hlook.ok (hc.flags false c.lastStatus) hd hs
  | identifyXfer => exact hc.finishInit hd true
  | ioSelect _ hs =>
      exact ⟨by rw [hc.phase, hs]; rfl, Nat.le_refl 4, fun _ => .inr rfl,
        fun _ => hc.batch (by rw [hs]; rfl), fun _ => hc.issue (.inl hs)⟩
  | ioNothing => exact hc.finishIo hd true
  | ioTaskfile _ hs hleft =>
      exact ⟨by rw [hc.phase, hs]; rfl, hc.delay_le, fun hn => absurd hd hn,
        fun _ => ⟨Nat.le_refl 1, by bv_omega⟩,
        by simp⟩
  | ioQuiet => exact hc
  | ioFired _ hs _ hlook => exact hlook.ok (hc.flags false c.lastStatus) hd hs
  | ioPolled _ hs _ _ hlook => exact hlook.ok hc hd hs
  | ioEmptyBlock _ hs _ =>
      exact hc.goto hd (by rw [hs]; rfl) AtaStep.noConfusion AtaStep.noConfusion
  | ioXfer _ hs hbatch =>
      obtain ⟨hone, hleft⟩ := hc.batch (by rw [hs]; rfl)
      exact ⟨by rw [hc.phase, hs]; rfl, hc.delay_le, fun hn => absurd hd hn,
        fun _ => ⟨by bv_omega, by bv_omega⟩,
        by simp⟩
  | initIgnored => exact hc
  | ioIgnored => exact hc

theorem AtaRequest.started_ok {r : AtaRequest} (ha : r.Accepted c) :
    (r.started c).Ok := by
  have hinit {op : AtaOp} (hop : op.phase = .init) : (c.startInit op).Ok :=
    ⟨hop, Nat.zero_le 4, fun hn => absurd rfl hn, fun hio => AtaPhase.noConfusion hio,
      by simp [AtaContext.startInit]⟩
  have hio {q : AtaIo} (hq : r.io? = some q) (hop : q.op.phase = .io) : q.start.Ok :=
    ⟨hop, Nat.zero_le 4, fun hn => absurd rfl hn,
      fun _ => ⟨Nat.zero_le 1, Nat.zero_le q.sectorCount.toNat⟩, fun _ => ⟨rfl, ha.2 q hq⟩⟩
  cases r with
  | init28 => exact hinit rfl
  | init48 => exact hinit rfl
  | read28 lba addr n => exact hio rfl rfl
  | write28 lba addr n => exact hio rfl rfl
  | read48 lba addr n => exact hio rfl rfl
  | write48 lba addr n => exact hio rfl rfl

theorem ActionStep.ok {a : AtaAction} (h : ActionStep c a es c') (hc : c.Ok) : c'.Ok := by
  cases h with
  | accepted ha => exact AtaRequest.started_ok ha
  | refused => exact hc
  | irq14 => exact hc.flags true _
  | tick h =>
      cases h with
      | delay hlt =>
          have hle := hc.delay_le
          exact ⟨hc.phase, by simp only; omega, fun _ => hc.delay (by omega), hc.batch, hc.issue⟩
      | delayEnd _ h =>
          exact h.ok ⟨hc.phase, Nat.zero_le 4, fun hn => absurd rfl hn, hc.batch, hc.issue⟩ rfl
      | handle hz h => exact h.ok hc hz

end

theorem gAtaCtx_ok : gAtaCtx.Ok :=
  ⟨rfl, Nat.zero_le 4, fun hn => absurd rfl hn, fun hio => AtaPhase.noConfusion hio,
    by simp [gAtaCtx]⟩

theorem ataRun_ok (dev : Answer AtaBuffer) (as : List AtaAction) :
    (ataRun dev ataStart as).ctx.Ok :=
  ataRun_invariant (fun s => s.ctx.Ok) (fun _ _ _ _ hc h => h.ok hc) gAtaCtx_ok as

/-! ## The fields that agree -/

/-- The step is one that `ata_init_tick` serves. -/
def AtaStep.InitServed (s : AtaStep) : Prop :=
  s = .initSelect ∨ s = .initIdentifyCmd ∨ s = .initIdentifyWait ∨ s = .initIdentifyXfer

/-- The step is one that `ata_io_tick` serves. -/
def AtaStep.IoServed (s : AtaStep) : Prop :=
  s = .ioIssueSelect ∨ s = .ioIssueTaskfile ∨ s = .ioWaitIrq ∨ s = .ioXferBlock

def AtaOp.Transfers (op : AtaOp) : Prop :=
  op = .read28 ∨ op = .write28 ∨ op = .read48 ∨ op = .write48

/-- What the fields of `ata_context_t` say about each other between two calls. -/
structure AtaContext.Consistent (c : AtaContext) : Prop where
  init : c.Initialising ↔ c.step.InitServed
  io : c.op.Transfers ↔ c.step.IoServed
  rest : c.op = .none ↔ isAtaIrqBusy c = false
  resting : c.op = .none → ∀ (dev : Answer AtaBuffer) (trace : List AtaEvent),
    ataStep dev ⟨c, trace⟩ .tick = ⟨c, trace⟩
  delay_le : c.delay400 ≤ 4
  delay : c.delay400 ≠ 0 → c.step = .initIdentifyCmd ∨ c.step = .ioIssueTaskfile
  batch : c.op.Transfers → c.batchLeft ≤ 1 ∧ c.batchLeft ≤ c.sectorsLeft
  issue : c.op.Transfers → c.step = .ioIssueSelect ∨ c.step = .ioIssueTaskfile →
    c.batchLeft = 0 ∧ 0 < c.sectorsLeft
  never : c.step ≠ .initSetmultCmd ∧ c.step ≠ .initSetmultWait ∧ c.step ≠ .ioIssueBatch ∧
    c.step ≠ .ioWaitDone
  served : isAtaIrqBusy c = true →
    (c.Initialising → c.step.InitServed) ∧ (¬ c.Initialising → c.step.IoServed)

section

variable {c : AtaContext}

theorem AtaStep.initServed_iff {s : AtaStep} : s.InitServed ↔ s.phase = .init := by
  cases s with
  | _ => simp [InitServed, phase]

theorem AtaStep.ioServed_iff {s : AtaStep} : s.IoServed ↔ s.phase = .io := by
  cases s with
  | _ => simp [IoServed, phase]

theorem AtaOp.transfers_iff {op : AtaOp} : op.Transfers ↔ op.phase = .io := by
  cases op with
  | _ => simp [Transfers, phase]

theorem AtaOp.none_iff {op : AtaOp} : op = .none ↔ op.phase = .rest := by
  cases op with
  | _ => simp [phase]

theorem isAtaIrqBusy_iff : isAtaIrqBusy c = false ↔ c.step.phase = .rest := by
  cases h : c.step with
  | _ => simp [isAtaIrqBusy, AtaStep.phase, h]

theorem AtaOp.phase_ne_never (op : AtaOp) : op.phase ≠ .never := by
  cases op with
  | _ => exact AtaPhase.noConfusion

theorem AtaContext.Ok.tick_rest (h : c.Ok) (hop : c.op = .none) (dev : Answer AtaBuffer)
    (trace : List AtaEvent) : ataStep dev ⟨c, trace⟩ .tick = ⟨c, trace⟩ := by
  have hrest : c.step.phase = .rest := by
    rw [← h.phase, hop]
    rfl
  have hdelay : c.delay400 = 0 := by
    by_contra hne
    rcases h.delay hne with hs | hs
    · rw [hs] at hrest
      cases hrest
    · rw [hs] at hrest
      cases hrest
  obtain ⟨es, ha, hstep⟩ := ataStep_cases dev ⟨c, trace⟩ .tick
  have hquiet : es = [] ∧ (ataStep dev ⟨c, trace⟩ .tick).ctx = c := by
    generalize (ataStep dev ⟨c, trace⟩ .tick).ctx = c' at hstep ⊢
    cases hstep with
    | tick htick =>
        cases htick with
        | delay hlt => exact absurd hdelay (Nat.ne_of_gt (Nat.lt_of_succ_lt hlt))
        | delayEnd hone => exact absurd (hdelay.symm.trans hone) Nat.zero_ne_one
        | handle _ hhandle =>
            cases hhandle with
            | ioIgnored => exact ⟨rfl, rfl⟩
            | initIgnored => exact ⟨rfl, rfl⟩
            | initSelect hi | identifyCmd hi | identifyQuiet hi | identifyWait hi | identifyXfer hi =>
                rw [AtaContext.initialising_iff, hop] at hi
                cases hi
            | ioSelect _ hs | ioNothing _ hs | ioTaskfile _ hs | ioQuiet _ hs | ioFired _ hs | ioPolled _ hs
            | ioEmptyBlock _ hs | ioXfer _ hs =>
                simp only at hs
                rw [hs] at hrest
                cases hrest
  obtain ⟨rfl, hctx⟩ := hquiet
  have htrace := ha.traced_eq
  rw [List.append_nil] at htrace
  calc ataStep dev ⟨c, trace⟩ .tick
      = ⟨(ataStep dev ⟨c, trace⟩ .tick).ctx, (ataStep dev ⟨c, trace⟩ .tick).trace⟩ := rfl
    _ = ⟨c, trace⟩ := by rw [hctx, htrace]

theorem AtaContext.Ok.consistent (h : c.Ok) : c.Consistent where
  init := by rw [initialising_iff, AtaStep.initServed_iff, h.phase]
  io := by rw [AtaOp.transfers_iff, AtaStep.ioServed_iff, h.phase]
  rest := by rw [AtaOp.none_iff, isAtaIrqBusy_iff, h.phase]
  resting := h.tick_rest
  delay_le := h.delay_le
  delay := h.delay
  batch := fun hop => h.batch (h.phase.symm.trans (AtaOp.transfers_iff.mp hop))
  issue := fun _ hs => ⟨(h.issue hs).1, by
    have hne := (h.issue hs).2
    bv_omega⟩
  never := by
    have hne := c.op.phase_ne_never
    rw [h.phase] at hne
    refine ⟨?_, ?_, ?_, ?_⟩
    all_goals
      intro hs
      rw [hs] at hne
      exact hne rfl
  served := by
    intro hbusy
    have hne := c.op.phase_ne_never
    rw [← Bool.not_eq_false, isAtaIrqBusy_iff] at hbusy
    rw [h.phase] at hne
    constructor
    · intro hi
      rw [AtaStep.initServed_iff, ← h.phase]
      exact initialising_iff.mp hi
    · intro hi
      rw [initialising_iff, h.phase] at hi
      rw [AtaStep.ioServed_iff]
      cases hp : c.step.phase with
      | rest => exact absurd hp hbusy
      | init => exact absurd hp hi
      | io => rfl
      | never => exact absurd hp hne

end

/-- In every run the fields agree. -/
theorem ataRun_consistent (dev : Answer AtaBuffer) (as : List AtaAction) :
    (ataRun dev ataStart as).ctx.Consistent :=
  (ataRun_ok dev as).consistent

end BootKernel
