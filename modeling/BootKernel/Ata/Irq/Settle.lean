import BootKernel.Ata.Irq.Invariant
import BootKernel.Lib.Between

/-!
# The drive settles before it gets a command

After it has selected a drive the driver reads the alternate status four times, once a tick, before
it writes the registers of a command.
-/

namespace BootKernel

open PortProgram Trace

def SelectsDrive : AtaEvent → Prop
  | .outb port _ => port = ataRegDriveSel
  | _ => False

/-- A write to one of the registers that say what a command is to do, or to the command register. -/
def WritesTaskfile : AtaEvent → Prop
  | .outb port _ => port = ataRegSeccount ∨ port = ataRegLbaLow ∨ port = ataRegLbaMid ∨
      port = ataRegLbaHigh ∨ port = ataRegCommand
  | _ => False

def readsControl : AtaEvent → Bool
  | .inb port _ => port == ataRegControl
  | _ => false

def MovesWords : AtaEvent → Prop
  | .insw .. | .outsw .. => True
  | _ => False

/-- Nothing has come since the drive was selected that the drive could mistake. -/
def Undisturbed (gap : List AtaEvent) : Prop := ∀ e ∈ gap, ¬ MovesWords e ∧ ¬ SelectsDrive e

def Settled (gap : List AtaEvent) : Prop := 4 ≤ gap.countP readsControl ∧ Undisturbed gap

/-- The steps before which the driver waits for the drive to settle. -/
def AtaStep.Waits (s : AtaStep) : Prop := s = .initIdentifyCmd ∨ s = .ioIssueTaskfile

/-- The reads that are left of the delay are what is missing. -/
structure AtaState.Settling (s : AtaState) : Prop where
  ok : s.ctx.Ok
  between : Between SelectsDrive WritesTaskfile Settled s.trace
  waits : ∀ gap, Since SelectsDrive WritesTaskfile s.trace gap → s.ctx.step.Waits
  reads : ∀ gap, Since SelectsDrive WritesTaskfile s.trace gap →
    4 ≤ gap.countP readsControl + s.ctx.delay400
  undisturbed : ∀ gap, Since SelectsDrive WritesTaskfile s.trace gap → Undisturbed gap

/-- The accesses of a list neither select a drive nor write the registers of a command. -/
def Aloof (es : List AtaEvent) : Prop := ∀ e ∈ es, ¬ SelectsDrive e ∧ ¬ WritesTaskfile e

section

variable {c c' fail xfer : AtaContext} {t es : List AtaEvent} {st : BitVec 8}

theorem AtaStep.not_waits {s : AtaStep} (h : s ≠ .initIdentifyCmd) (h' : s ≠ .ioIssueTaskfile) :
    ¬ s.Waits := fun hw => hw.elim h h'

theorem AtaState.Settling.not_since (h : AtaState.Settling ⟨c, t⟩) (hw : ¬ c.step.Waits)
    (gap : List AtaEvent) : ¬ Since SelectsDrive WritesTaskfile t gap :=
  fun hs => hw (h.waits gap hs)

/-- The trace only has to be looked at where the drive has been selected. -/
theorem AtaState.Settling.of_not_since (hc : c.Ok)
    (hb : Between SelectsDrive WritesTaskfile Settled t)
    (hs : ∀ gap, ¬ Since SelectsDrive WritesTaskfile t gap) : AtaState.Settling ⟨c, t⟩ where
  ok := hc
  between := hb
  waits := fun gap h => absurd h (hs gap)
  reads := fun gap h => absurd h (hs gap)
  undisturbed := fun gap h => absurd h (hs gap)

/-- A step in which no selection waits for its command does as it likes. -/
theorem AtaState.Settling.aloof (h : AtaState.Settling ⟨c, t⟩) (hw : ¬ c.step.Waits) (hc : c'.Ok)
    (hes : Aloof es) : AtaState.Settling ⟨c', t ++ es⟩ := by
  refine .of_not_since hc (h.between.append fun e he => (hes e he).2) fun gap hs => ?_
  obtain ⟨gap', -, hs⟩ := (since_append hes).mp hs
  exact h.not_since hw gap' hs

/-- The context may change as long as the step and the delay stay. -/
theorem AtaState.Settling.same (h : AtaState.Settling ⟨c, t⟩) (hc : c'.Ok) (hes : Aloof es)
    (hu : Undisturbed es) (hstep : c'.step = c.step)
    (hdelay : c.delay400 ≤ es.countP readsControl + c'.delay400) :
    AtaState.Settling ⟨c', t ++ es⟩ where
  ok := hc
  between := h.between.append fun e he => (hes e he).2
  waits := fun gap hs => by
    obtain ⟨gap', -, hsince⟩ := (since_append hes).mp hs
    exact hstep ▸ h.waits gap' hsince
  reads := fun gap hs => by
    obtain ⟨gap', rfl, hsince⟩ := (since_append hes).mp hs
    have hreads := h.reads gap' hsince
    rw [List.countP_append]
    simp only at hreads ⊢
    omega
  undisturbed := fun gap hs => by
    obtain ⟨gap', rfl, hsince⟩ := (since_append hes).mp hs
    intro e he
    exact (List.mem_append.mp he).elim (h.undisturbed gap' hsince e) (hu e)

theorem AtaState.Settling.select (h : AtaState.Settling ⟨c, t⟩) (hw : ¬ c.step.Waits) (hc : c'.Ok)
    (hes : Aloof es) {v : BitVec 8} (hstep : c'.step.Waits) (hdelay : c'.delay400 = 4) :
    AtaState.Settling ⟨c', t ++ (es ++ [.outb ataRegDriveSel v])⟩ := by
  have hsel : ¬ WritesTaskfile (.outb ataRegDriveSel v) := by
    simp [WritesTaskfile, ataRegDriveSel, ataRegSeccount, ataRegLbaLow, ataRegLbaMid,
      ataRegLbaHigh, ataRegCommand]
  have hbefore := h.aloof hw h.ok hes
  have hgap {gap : List AtaEvent}
      (hs : Since SelectsDrive WritesTaskfile (t ++ es ++ [.outb ataRegDriveSel v]) gap) :
      gap = [] := by
    rcases since_concat.mp hs with ⟨hnil, -⟩ | ⟨gap', -, hs, -⟩
    · exact hnil
    · exact absurd hs (hbefore.not_since hw gap')
  rw [← List.append_assoc]
  exact {
    ok := hc
    between := between_concat.mpr ⟨hbefore.between, fun hcl => absurd hcl hsel⟩
    waits := fun _ _ => hstep
    reads := fun _ _ => by
      simp only [hdelay]
      exact Nat.le_add_left 4 _
    undisturbed := fun gap hs e he => by
      rw [hgap hs] at he
      cases he }

theorem AtaState.Settling.command (h : AtaState.Settling ⟨c, t⟩) (hd : c.delay400 = 0) (hc : c'.Ok)
    (hne : es ≠ []) (hes : ∀ e ∈ es, WritesTaskfile e ∧ ¬ SelectsDrive e) :
    AtaState.Settling ⟨c', t ++ es⟩ := by
  have hsettled (gap : List AtaEvent) (hs : Since SelectsDrive WritesTaskfile t gap) : Settled gap := by
    have hreads := h.reads gap hs
    simp only [hd] at hreads
    exact ⟨hreads, h.undisturbed gap hs⟩
  exact .of_not_since hc (h.between.append_closing hsettled hes) fun _ => not_since_closed hne hes

/-! ## The accesses of the handlers -/

theorem aloof_nil : Aloof [] := fun _ he => absurd he List.not_mem_nil

theorem aloof_inb {port : BitVec 16} {v : BitVec 8} (h : Aloof es) : Aloof (.inb port v :: es) :=
  List.forall_mem_cons.mpr ⟨⟨id, id⟩, h⟩

theorem SecondLook.aloof (h : SecondLook fail xfer c es c') : Aloof es := by
  cases h with
  | _ => exact aloof_inb aloof_nil

theorem IdentifyLook.aloof (h : IdentifyLook c st es c') : Aloof es := by
  cases h with
  | again _ _ h => exact h.aloof
  | _ => exact aloof_nil

theorem IoLook.aloof (h : IoLook c st es c') : Aloof es := by
  cases h with
  | again _ _ _ h => exact h.aloof
  | _ => exact aloof_nil

theorem aloof_blockTransfer {op : AtaOp} {ptr : BitVec 64} {n : BitVec 32} :
    Aloof [blockTransfer op ptr n] := by
  by_cases h : op.Reads
  · simp [Aloof, blockTransfer, h, SelectsDrive, WritesTaskfile]
  · simp [Aloof, blockTransfer, h, SelectsDrive, WritesTaskfile]

theorem identifyTaskfile_writes : ∀ e ∈ identifyTaskfile, WritesTaskfile e ∧ ¬ SelectsDrive e := by
  simp [identifyTaskfile, WritesTaskfile, SelectsDrive, ataRegDriveSel, ataRegSeccount, ataRegLbaLow,
    ataRegLbaMid, ataRegLbaHigh, ataRegCommand]

theorem ioTaskfile_writes {op : AtaOp} {lba : BitVec 64} :
    ∀ e ∈ ioTaskfile op lba, WritesTaskfile e ∧ ¬ SelectsDrive e := by
  by_cases h : op.Short
  · simp [ioTaskfile, h, WritesTaskfile, SelectsDrive, ataRegDriveSel, ataRegSeccount, ataRegLbaLow,
      ataRegLbaMid, ataRegLbaHigh, ataRegCommand]
  · simp [ioTaskfile, h, WritesTaskfile, SelectsDrive, ataRegDriveSel, ataRegSeccount, ataRegLbaLow,
      ataRegLbaMid, ataRegLbaHigh, ataRegCommand]

theorem ioTaskfile_ne_nil {op : AtaOp} {lba : BitVec 64} : ioTaskfile op lba ≠ [] := by
  by_cases h : op.Short
  · simp [ioTaskfile, h]
  · simp [ioTaskfile, h]

/-! ## The steps -/

theorem HandleStep.settling (h : HandleStep c es c') (hs : AtaState.Settling ⟨c, t⟩)
    (hd : c.delay400 = 0) : AtaState.Settling ⟨c', t ++ es⟩ := by
  have hc : c'.Ok := h.ok hs.ok hd
  have hidle {step : AtaStep} (hstep : c.step = step) (hsel : step ≠ .initIdentifyCmd)
      (hcmd : step ≠ .ioIssueTaskfile) : ¬ c.step.Waits := hstep ▸ AtaStep.not_waits hsel hcmd
  cases h with
  | initSelect _ hstep =>
      have haloof : Aloof [.outb ataRegControl ataCtrlIrqEnable] := by
        simp [Aloof, SelectsDrive, WritesTaskfile, ataRegControl, ataRegDriveSel, ataRegSeccount,
          ataRegLbaLow, ataRegLbaMid, ataRegLbaHigh, ataRegCommand]
      exact hs.select (hidle hstep (by simp) (by simp)) hc haloof (.inl rfl) rfl
  | identifyCmd => exact hs.command hd hc (List.cons_ne_nil _ _) identifyTaskfile_writes
  | identifyQuiet _ hstep => exact hs.aloof (hidle hstep (by simp) (by simp)) hc aloof_nil
  | identifyWait _ hstep _ hlook => exact hs.aloof (hidle hstep (by simp) (by simp)) hc hlook.aloof
  | identifyXfer _ hstep =>
      exact hs.aloof (hidle hstep (by simp) (by simp)) hc
        (by simp [Aloof, SelectsDrive, WritesTaskfile])
  | ioSelect _ hstep =>
      exact hs.select (hidle hstep (by simp) (by simp)) hc aloof_nil (.inr rfl) rfl
  | ioNothing _ hstep hleft =>
      -- a request for no sectors is refused when it begins
      exact absurd hleft (hs.ok.issue (.inr hstep)).2
  | ioTaskfile => exact hs.command hd hc ioTaskfile_ne_nil ioTaskfile_writes
  | ioQuiet _ hstep => exact hs.aloof (hidle hstep (by simp) (by simp)) hc aloof_nil
  | ioFired _ hstep _ hlook => exact hs.aloof (hidle hstep (by simp) (by simp)) hc hlook.aloof
  | ioPolled _ hstep _ _ hlook =>
      exact hs.aloof (hidle hstep (by simp) (by simp)) hc (aloof_inb hlook.aloof)
  | ioEmptyBlock _ hstep => exact hs.aloof (hidle hstep (by simp) (by simp)) hc aloof_nil
  | ioXfer _ hstep => exact hs.aloof (hidle hstep (by simp) (by simp)) hc aloof_blockTransfer
  | initIgnored | ioIgnored => rwa [List.append_nil]

theorem ActionStep.settling {a : AtaAction} (h : ActionStep c a es c')
    (hs : AtaState.Settling ⟨c, t⟩) : AtaState.Settling ⟨c', t ++ es⟩ := by
  have hc : c'.Ok := h.ok hs.ok
  have hread {v : BitVec 8} (hpos : 0 < c.delay400) :
      AtaState.Settling ⟨{ c with delay400 := c.delay400 - 1 }, t ++ [.inb ataRegControl v]⟩ := by
    refine hs.same ⟨hs.ok.phase, ?_, fun _ => hs.ok.delay (Nat.ne_of_gt hpos), hs.ok.batch, hs.ok.issue⟩
      (aloof_inb aloof_nil) (by simp [Undisturbed, MovesWords, SelectsDrive]) rfl ?_
    · have hle : c.delay400 ≤ 4 := hs.ok.delay_le
      exact Nat.le_trans (Nat.sub_le c.delay400 1) hle
    · simp [readsControl]
      omega
  cases h with
  | accepted ha =>
      have hidle : ¬ c.step.Waits := by simp [ha.1, AtaStep.Waits]
      exact hs.aloof hidle hc aloof_nil
  | refused => rwa [List.append_nil]
  | irq14 =>
      refine hs.same hc ?_ ?_ rfl (Nat.le_add_left _ _)
      · simp [Aloof, SelectsDrive, WritesTaskfile, pic1Cmd, pic2Cmd, ataRegDriveSel, ataRegSeccount,
          ataRegLbaLow, ataRegLbaMid, ataRegLbaHigh, ataRegCommand]
      · simp [Undisturbed, MovesWords, SelectsDrive, pic1Cmd, pic2Cmd, ataRegDriveSel]
  | tick h =>
      cases h with
      | delay hlt => exact hread (Nat.lt_of_succ_lt hlt)
      | @delayEnd v es c' hone h =>
          have hlast := hread (v := v) (hone ▸ Nat.one_pos)
          simp only [hone] at hlast
          rw [List.append_cons]
          exact h.settling hlast rfl
      | handle hd h => exact h.settling hs hd

end

theorem ataStart_settling : ataStart.Settling :=
  .of_not_since gAtaCtx_ok between_nil fun _ => not_since_nil

theorem ataRun_settling (dev : Answer AtaBuffer) (as : List AtaAction) :
    (ataRun dev ataStart as).Settling :=
  ataRun_invariant AtaState.Settling (fun _ _ _ _ hs h => h.settling hs) ataStart_settling as

/-- Whenever the driver writes a register of a command, it has read the alternate status four times
since it selected the drive, and has neither moved data nor selected a drive again. -/
theorem ataRun_settles (dev : Answer AtaBuffer) (as : List AtaAction) :
    Between SelectsDrive WritesTaskfile
      (fun gap => 4 ≤ gap.countP readsControl ∧ ∀ e ∈ gap, ¬ MovesWords e ∧ ¬ SelectsDrive e)
      (ataRun dev ataStart as).trace :=
  (ataRun_settling dev as).between

end BootKernel
