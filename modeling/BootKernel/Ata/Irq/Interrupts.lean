import BootKernel.Ata.Irq.Defs
import BootKernel.Lib.Interleaving

/-!
# Interrupts in the middle of a tick

The handler may run between any two operations of a call. A record of the history says which status
of the current command no tick has consumed, and whether the handler has recorded an error.
-/

namespace BootKernel

open PortProgram

/-- What the kernel calls. -/
inductive AtaCall where
  | begin (r : AtaRequest)
  | tick

def AtaCall.action : AtaCall → AtaAction
  | .begin r => .begin r
  | .tick => .tick

/-- The steps in which an interrupt is waited for. -/
def AtaStep.isWait (step : AtaStep) : Bool := step == .initIdentifyWait || step == .ioWaitIrq

/-- The steps of a transfer before its last one. -/
def AtaStep.inIo : AtaStep → Bool
  | .ioIssueSelect | .ioIssueTaskfile | .ioIssueBatch | .ioWaitIrq | .ioXferBlock | .ioWaitDone => true
  | _ => false

structure AtaWatch where
  /-- How many assignments of the flag reset after the last command are still to come. -/
  window : Nat
  issued : Bool
  /-- What the handler has recorded for the current command and no tick has consumed. -/
  pending : Option (BitVec 8)
  /-- The handler has recorded a bad status for the transfer that runs. -/
  bad : Bool
deriving DecidableEq

def ataUnwatched : AtaWatch := ⟨0, false, none, false⟩

/-- The driver with its record. A write to the command register begins a command, whose flag reset is
the next two assignments; a tick consumes a status when it clears the flag in a wait step. -/
def ataWatched : System AtaBuffer AtaContext AtaWatch AtaCall where
  call k := k.action.prog
  handler := irq14Ata
  onPort e _ g :=
    match e with
    | .outb port _ =>
        if port = ataRegCommand then { g with window := 2, issued := true, pending := none } else g
    | _ => g
  onStore c c' g :=
    { g with
      window := g.window - 1
      pending := if c.step.isWait && c.irqFired && !c'.irqFired then none else g.pending }
  onInterrupt c c' g :=
    { g with
      pending := if g.issued then some c'.lastStatus else g.pending
      bad := g.bad || g.issued && c.step.inIo && ataStatusIsBad c'.lastStatus }

abbrev AtaPoint := AtaContext × AtaWatch

@[simp] theorem ataWatched_hit (v : BitVec 8) (x : AtaPoint) :
    ataWatched.hit v x = ({ x.1 with irqFired := true, lastStatus := v },
      { x.2 with
        pending := if x.2.issued then some v else x.2.pending
        bad := x.2.bad || x.2.issued && x.1.step.inIo && ataStatusIsBad v }) := rfl

/-- Between two calls of the kernel. -/
def ataBetween (c : AtaContext) (g : AtaWatch) : Paused AtaBuffer AtaContext AtaWatch :=
  ⟨.ret (), c, g⟩

/-- An action in one go is a run of this system too. -/
theorem ataStep_moves (dev : Answer AtaBuffer) (s : AtaState) (a : AtaAction) (g : AtaWatch) :
    ∃ ms g', ataWatched.moves (ataBetween s.ctx g) ms = ataBetween (ataStep dev s a).ctx g' := by
  have hcall (k : AtaCall) : ∃ ms g',
      ataWatched.moves (ataBetween s.ctx g) ms = ataBetween (ataStep dev s k.action).ctx g' := by
    obtain ⟨es, hruns, -⟩ := exec_runs (traced dev) k.action.prog s.ctx s.trace
    obtain ⟨vs, g', hvs⟩ := ataWatched.moves_of_runs hruns g
    exact ⟨.call k :: vs.map .step, g', hvs⟩
  cases a with
  | begin r => exact hcall (.begin r)
  | tick => exact hcall .tick
  | irq14 => exact ⟨[.interrupt (dev s.trace ataRegStatus)], _, rfl⟩

theorem ataRun_moves (dev : Answer AtaBuffer) (s : AtaState) (as : List AtaAction) (g : AtaWatch) :
    ∃ ms g', ataWatched.moves (ataBetween s.ctx g) ms = ataBetween (ataRun dev s as).ctx g' := by
  induction as generalizing s g with
  | nil => exact ⟨[], g, rfl⟩
  | cons a as ih =>
      obtain ⟨ms, g₁, hms⟩ := ataStep_moves dev s a g
      obtain ⟨ms', g₂, hms'⟩ := ih (ataStep dev s a) g₁
      refine ⟨ms ++ ms', g₂, ?_⟩
      rw [System.moves, List.foldl_append]
      exact (congrArg (ms'.foldl ataWatched.move) hms).trans hms'

/-! ## What the handlers of the steps leave alone -/

/-- The assignment leaves the flags alone, and goes to no step but those of `S`. -/
def Calm (S : AtaStep → Prop) (f : AtaContext → AtaContext) : Prop :=
  ∀ c, (f c).irqFired = c.irqFired ∧ (f c).lastStatus = c.lastStatus ∧
    ((f c).step = c.step ∨ S (f c).step)

def NoCommand : AtaEvent → Prop
  | .outb port _ => port ≠ ataRegCommand
  | _ => True

abbrev Quiet {α : Type} (S : AtaStep → Prop) (p : Ata α) : Prop := Only (Calm S) NoCommand p

@[simp] theorem registers_not_command :
    ataRegControl ≠ ataRegCommand ∧ ataRegDriveSel ≠ ataRegCommand ∧
      ataRegSeccount ≠ ataRegCommand ∧ ataRegLbaLow ≠ ataRegCommand ∧
      ataRegLbaMid ≠ ataRegCommand ∧ ataRegLbaHigh ≠ ataRegCommand := by
  simp [ataRegControl, ataRegDriveSel, ataRegSeccount, ataRegLbaLow, ataRegLbaMid, ataRegLbaHigh,
    ataRegCommand]

theorem ataWatched_onPort {e : AtaEvent} (he : NoCommand e) (c : AtaContext) (g : AtaWatch) :
    ataWatched.onPort e c g = g := by
  cases e with
  | outb port b => exact if_neg he
  | _ => rfl

/-- An assignment that leaves the flags alone consumes nothing. -/
theorem ataWatched_onStore {S : AtaStep → Prop} {f : AtaContext → AtaContext} (hf : Calm S f)
    (c : AtaContext) (g : AtaWatch) :
    ataWatched.onStore c (f c) g = { g with window := g.window - 1 } := by
  have hfired := (hf c).1
  cases hc : c.irqFired with
  | false => simp [ataWatched, hc]
  | true => simp [ataWatched, hc, hfired]

theorem Quiet.mono {α : Type} {S T : AtaStep → Prop} {p : Ata α} (h : Quiet S p)
    (hST : ∀ s, S s → T s) : Quiet T p :=
  Only.mono h (fun _ hf c => ⟨(hf c).1, (hf c).2.1, (hf c).2.2.imp_right (hST _)⟩) fun _ he => he

theorem quiet_setStep {S : AtaStep → Prop} {s : AtaStep} (h : S s) : Quiet S (setStep s) := by
  simp [Only, Calm, setStep, h]

theorem quiet_initSelect : Quiet (· = .initIdentifyCmd) ataInitSelectHandle := by
  simp [Only, Calm, NoCommand, ataInitSelectHandle, ataDelay400nsStart, setStep]

theorem quiet_finishInit (success : Bool) :
    Quiet (fun s => s = .initDone ∨ s = .initFail) (ataFinishInit success) := by
  cases success with
  | _ => simp [Only, Calm, ataFinishInit, setStep]

theorem quiet_identifyXfer : Quiet (fun s => s = .initDone ∨ s = .initFail) ataInitIdentifyXferHandle :=
  ⟨trivial, quiet_finishInit true⟩

theorem quiet_ioSelect : Quiet (· = .ioIssueTaskfile) ataIoIssueSelectHandle := by
  have htail : Quiet (· = .ioIssueTaskfile) (do ataDelay400nsStart; setStep .ioIssueTaskfile) := by
    simp [Only, Calm, ataDelay400nsStart, setStep]
  simp only [ataIoIssueSelectHandle, load, load_bind, ret_bind, outb, outb_bind]
  exact fun c => .ite ⟨by simp [NoCommand], htail⟩ ⟨by simp [NoCommand], htail⟩

theorem quiet_finishIo (success : Bool) :
    Quiet (· = if success then .ioDone else .ioFail) (ataFinishIo success) := by
  simp [Only, Calm, ataFinishIo, setStep]

theorem quiet_ioXfer : Quiet (· = .ioWaitIrq) ataIoXferBlockHandle := by
  have htail {n : BitVec 32} {ptr : BitVec 64} : Quiet (· = .ioWaitIrq) (do
      store fun c => { c with ptr := c.ptr + ptr }
      store fun c => { c with lba := c.lba + n.setWidth 64 }
      store fun c => { c with batchLeft := c.batchLeft - n }
      store fun c => { c with sectorsLeft := c.sectorsLeft - n }
      setStep .ioWaitIrq) := by
    simp [Only, Calm, setStep]
  simp only [ataIoXferBlockHandle, load, load_bind, ret_bind, insw, outsw, insw_bind,
    outsw_bind]
  exact fun c => .ite (by simp [Only, Calm, setStep]) (.ite ⟨trivial, htail⟩ ⟨trivial, htail⟩)

theorem quiet_secondLook {S : AtaStep → Prop} {p q : Ata Unit} (hp : Quiet S p) (hq : Quiet S q) :
    Quiet S (do
      let st ← ataAltStatusReadOnce
      if ataStatusIsBad st then p else if ataStatusHasDrq st then q) := by
  simp only [ataAltStatusReadOnce, inb, inb_bind, ret_bind]
  exact fun v => ⟨trivial, .ite hp (.ite hq trivial)⟩

/-- The steps in which an error of a transfer goes unheard. -/
def AtaStep.Aside (s : AtaStep) : Prop := s ≠ .idle ∧ s ≠ .ioWaitIrq ∧ s ≠ .ioXferBlock

/-- What the identify wait step does with a status it has consumed. -/
theorem quiet_identifyExamine (st : BitVec 8) : Quiet AtaStep.Aside (do
    if ataStatusIsBad st then
      ataFinishInit false
    else if ataStatusHasDrq st then
      setStep .initIdentifyXfer
    else
      let st ← ataAltStatusReadOnce
      if ataStatusIsBad st then
        ataFinishInit false
      else if ataStatusHasDrq st then
        setStep .initIdentifyXfer) := by
  have hfinish : Quiet AtaStep.Aside (ataFinishInit false) :=
    (quiet_finishInit false).mono fun s hs => by cases hs with | _ h => simp [AtaStep.Aside, h]
  exact .ite hfinish (.ite (quiet_setStep (by simp [AtaStep.Aside]))
    (quiet_secondLook hfinish (quiet_setStep (by simp [AtaStep.Aside]))))

/-- A command: the registers, the command register with the value that `pre` returns, the flag reset
and the wait step. -/
def issueCommand (pre : Ata (BitVec 8)) (s : AtaStep) : Ata Unit := do
  outb ataRegCommand (← pre)
  ataIrqFlagsReset
  setStep s

def identifyRegisters : Ata (BitVec 8) := do
  outb ataRegSeccount 0
  outb ataRegLbaLow 0
  outb ataRegLbaMid 0
  outb ataRegLbaHigh 0
  return ataCmdIdentify

theorem identifyCmd_eq :
    ataInitIdentifyCmdHandle = issueCommand identifyRegisters .initIdentifyWait := rfl

theorem quiet_identifyRegisters : Quiet (fun _ => False) identifyRegisters := by
  simp [Only, NoCommand, identifyRegisters]

def ioRegisters : Ata (BitVec 8) := do
  store fun c => { c with batchLeft := 1 }
  let c ← load id
  if c.op = .read28 ∨ c.op = .write28 then
    let lba28 : BitVec 32 := c.lba.setWidth 32
    outb ataRegSeccount 1
    outb ataRegLbaLow (lba28.setWidth 8)
    outb ataRegLbaMid ((lba28 >>> 8).setWidth 8)
    outb ataRegLbaHigh ((lba28 >>> 16).setWidth 8)
    return if c.op = .read28 then ataCmdReadSectors else ataCmdWriteSectors
  else
    outb ataRegSeccount 0
    outb ataRegLbaLow ((c.lba >>> 24).setWidth 8)
    outb ataRegLbaMid ((c.lba >>> 32).setWidth 8)
    outb ataRegLbaHigh ((c.lba >>> 40).setWidth 8)
    outb ataRegSeccount 1
    outb ataRegLbaLow (c.lba.setWidth 8)
    outb ataRegLbaMid ((c.lba >>> 8).setWidth 8)
    outb ataRegLbaHigh ((c.lba >>> 16).setWidth 8)
    return if c.op = .read48 then ataCmdReadSectorsExt else ataCmdWriteSectorsExt

theorem ioTaskfile_eq :
    ataIoIssueTaskfileHandle = (do
      if (← load (·.sectorsLeft)) = 0 then
        ataFinishIo true
      else
        issueCommand ioRegisters .ioWaitIrq) := by
  simp only [ataIoIssueTaskfileHandle, issueCommand, ioRegisters, load, load_bind, ret_bind, store,
    store_bind, ite_bind]
  rfl

theorem quiet_ioRegisters : Quiet (fun _ => False) ioRegisters := by
  refine ⟨fun c => ⟨rfl, rfl, .inl rfl⟩, fun c => .ite ?_ ?_⟩
  · simp [Only, NoCommand]
  · simp [Only, NoCommand]

theorem quiet_delayTick : Quiet (fun _ => False) ataDelay400nsTick := by
  simp only [ataDelay400nsTick, load, load_bind, ret_bind, inb, inb_bind, store, store_bind]
  exact fun c => .ite trivial fun v => ⟨trivial, by simp [Calm], fun c => trivial⟩

/-! ## Calls -/

/-- What a request does after a look at the step: nothing unless the driver is idle, and only
assignments if it is. -/
theorem begin_looks (r : AtaRequest) : ∃ k : AtaContext → Ata Unit,
    (AtaCall.begin r).action.prog = .load k ∧ (∀ c, c.step ≠ .idle → k c = .ret ()) ∧
      ∀ c, Only (fun _ => True) NoCommand (k c) := by
  have hbegin (busy : AtaStep → Prop) [DecidablePred busy] (p : Ata Bool)
      (hbusy : ∀ s, s ≠ .idle → busy s) (hp : Only (fun _ => True) NoCommand p) :
      ∃ k : AtaContext → Ata Unit,
        (do let _ ← (do if busy (← load AtaContext.step) then return false else p); return) = .load k ∧
          (∀ c, c.step ≠ .idle → k c = .ret ()) ∧ ∀ c, Only (fun _ => True) NoCommand (k c) := by
    refine ⟨fun c => (if busy c.step then .ret false else p) >>= fun _ => .ret (), rfl,
      fun c hc => ?_, fun c => ?_⟩
    · simp only [if_pos (hbusy c.step hc), ret_bind]
    · have hret : Only (fun _ => True) NoCommand (.ret false : Ata Bool) := trivial
      exact (hret.ite hp).bind fun _ => trivial
  cases r with
  | init28 | init48 =>
      refine hbegin (· ≠ .idle) _ (fun s hs => hs) ?_
      simp [Only, setStep, ataRequestStateReset, ataIrqFlagsReset]
  | read28 lba addr n | write28 lba addr n | read48 lba addr n | write48 lba addr n =>
      refine hbegin (fun s => s ≠ .idle ∨ n = 0) _ (fun s hs => .inl hs) ?_
      simp [Only, setStep, ataRequestStateReset, ataIrqFlagsReset]

/-- The handler of a step of an initialisation. -/
def ataInitHandle : AtaStep → Ata Unit
  | .initSelect => ataInitSelectHandle
  | .initIdentifyCmd => ataInitIdentifyCmdHandle
  | .initIdentifyWait => ataInitIdentifyWaitHandle
  | .initIdentifyXfer => ataInitIdentifyXferHandle
  | _ => return

/-- The handler of a step of a transfer. -/
def ataIoHandle : AtaStep → Ata Unit
  | .ioIssueSelect => ataIoIssueSelectHandle
  | .ioIssueTaskfile => ataIoIssueTaskfileHandle
  | .ioWaitIrq => ataIoWaitIrqHandle
  | .ioXferBlock => ataIoXferBlockHandle
  | _ => return

section

variable {I : AtaPoint → AtaPoint → Prop} {Inv Q : AtaPoint → Prop}

/-- A request is safe if its assignments keep an assertion that holds before them. -/
theorem begin_safe {B : AtaPoint → Prop} (hQ : Stable I Q) (hInv : ∀ x, Q x → Inv x)
    (hB : Stable I B) (hidle : ∀ x, Q x → x.1.step = .idle → B x) (hBQ : ∀ x, B x → Q x)
    (hkeep : ∀ (f : AtaContext → AtaContext) x, B x → B (f x.1, ataWatched.onStore x.1 (f x.1) x.2)) (r : AtaRequest)
    {x : AtaPoint} (hx : Q x) : Safe ataWatched I Inv Q (AtaCall.begin r).action.prog x := by
  obtain ⟨k, hk, hbusy, honly⟩ := begin_looks r
  rw [hk]
  refine Safe.of_load hQ hx fun y hy => ⟨hInv y hy, ?_⟩
  by_cases hstep : y.1.step = .idle
  · have hkeeps : Keeps ataWatched B (k y.1) :=
      (honly y.1).keeps (fun f _ z hz => hkeep f z hz) fun e he z hz => by
        rwa [ataWatched_onPort he]
    exact hkeeps.safe hB (fun z hz => hInv z (hBQ z hz)) hBQ (hidle y hy hstep)
  · rw [hbusy y.1 hstep]
    exact hy

/-- A tick is safe if the handler of each step is. -/
theorem tick_safe (hQ : Stable I Q) (hInv : ∀ x, Q x → Inv x)
    (hquiet : Keeps ataWatched Q ataDelay400nsTick)
    (hinit : ∀ x, Q x → Safe ataWatched I Inv Q (ataInitHandle x.1.step) x)
    (hio : ∀ x, Q x → Safe ataWatched I Inv Q (ataIoHandle x.1.step) x) {x : AtaPoint} (hx : Q x) :
    Safe ataWatched I Inv Q tickAta x := by
  have hdispatch (y : AtaPoint) (hy : Q y) : Safe ataWatched I Inv Q ataDispatch y := by
    refine Safe.of_load hQ hy fun z hz => ⟨hInv z hz, ?_⟩
    show Safe ataWatched I Inv Q
      (if z.1.op = .init28 ∨ z.1.op = .init48 then ataInitTick else ataIoTick) z
    split
    · exact Safe.of_load hQ hz fun w hw => ⟨hInv w hw, hinit w hw⟩
    · exact Safe.of_load hQ hz fun w hw => ⟨hInv w hw, hio w hw⟩
  refine Safe.of_load hQ hx fun y hy => ⟨hInv y hy, ?_⟩
  show Safe ataWatched I Inv Q (if y.1.delay400 ≠ 0 then _ else ataDispatch) y
  split
  · refine hquiet.safe_bind hQ hInv (fun _ z hz => Safe.of_load hQ hz fun w hw => ⟨hInv w hw, ?_⟩) hy
    show Safe ataWatched I Inv Q (if w.1.delay400 ≠ 0 then .ret () else ataDispatch) w
    split
    · exact hw
    · exact hdispatch w hw
  · exact hdispatch y hy

end

end BootKernel
