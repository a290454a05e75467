import BootKernel.Ata.Irq.Invariant

/-!
# The wait steps

In a wait step a tick looks at the status that the interrupt handler has recorded and at the
alternate status. Which of these it acts on depends on their error bits, on DRQ, and on whether the
command has a block left to transfer, but not on BSY.
-/

namespace BootKernel

open PortProgram

def AtaContext.Waiting (c : AtaContext) : Prop :=
  c.step = .initIdentifyWait ∨ c.step = .ioWaitIrq

def altStatus : AtaEvent → Option (BitVec 8)
  | .inb port v => if port = ataRegControl then some v else none
  | _ => none

/-- The status bytes that a tick looks at: the recorded one if the flag is set, and each alternate
status that it reads. -/
def AtaContext.examined (c : AtaContext) (es : List AtaEvent) : List (BitVec 8) :=
  (if c.irqFired then [c.lastStatus] else []) ++ es.filterMap altStatus

/-- If the tick leaves the wait step, then the last status it has looked at has BSY clear. -/
def LeavesOnIdle (c : AtaContext) (es : List AtaEvent) (c' : AtaContext) : Prop :=
  c'.step ≠ c.step → (c.examined es).getLast?.any (!ataStatusIsBusy ·) = true

instance (c : AtaContext) (es : List AtaEvent) (c' : AtaContext) :
    Decidable (LeavesOnIdle c es c') := inferInstanceAs (Decidable (_ → _))

/-- The wait step is over with this status, whatever its BSY bit says. -/
def AtaContext.Decides (c : AtaContext) (st : BitVec 8) : Prop :=
  ataStatusIsBad st = true ∨ ataStatusHasDrq st = true ∨ c.step = .ioWaitIrq ∧ c.batchLeft = 0

/-- The tick reads the alternate status. -/
def AtaContext.ReadsAlt (c : AtaContext) : Prop :=
  if c.irqFired then ¬ c.Decides c.lastStatus else c.step = .ioWaitIrq ∧ c.batchLeft = 0

/-- No status with BSY set decides, neither the recorded one nor the alternate status `v`. -/
def AtaContext.BusyIgnored (c : AtaContext) (v : BitVec 8) : Prop :=
  (c.irqFired = true → ataStatusIsBusy c.lastStatus = true → ¬ c.Decides c.lastStatus) ∧
    (c.ReadsAlt → ataStatusIsBusy v = true → ¬ c.Decides v)

section

variable {c c' : AtaContext} {es : List AtaEvent} {v : BitVec 8}

/-- The tick leaves the wait step on the status `st`, the last one it has looked at. -/
theorem leavesOnIdle_of_left {st : BitVec 8} (hne : c'.step ≠ c.step)
    (hlast : (c.examined es).getLast? = some st) :
    LeavesOnIdle c es c' ↔ ataStatusIsBusy st = false := by
  simp [LeavesOnIdle, hne, hlast]

theorem leavesOnIdle_of_stayed (h : c'.step = c.step) : LeavesOnIdle c es c' :=
  fun hne => absurd h hne

theorem busyIgnored_of_fired (hf : c.irqFired = true) (hd : c.Decides c.lastStatus) :
    c.BusyIgnored v ↔ ataStatusIsBusy c.lastStatus = false := by
  simp [AtaContext.BusyIgnored, AtaContext.ReadsAlt, hf, hd]

theorem busyIgnored_of_undecided (hf : c.irqFired = true) (hd : ¬ c.Decides c.lastStatus) :
    c.BusyIgnored v ↔ (ataStatusIsBusy v = true → ¬ c.Decides v) := by
  simp [AtaContext.BusyIgnored, AtaContext.ReadsAlt, hf, hd]

/-- The second look decides as the first one does when a block is left to transfer. -/
theorem SecondLook.leavesOnIdle_iff {fail xfer c₁ : AtaContext} (h : SecondLook fail xfer c₁ es c')
    (hf : c.irqFired = true) (hstay : c₁.step = c.step) (hfail : fail.step ≠ c.step)
    (hxfer : xfer.step ≠ c.step) (hleft : ¬ (c.step = .ioWaitIrq ∧ c.batchLeft = 0))
    (hd : ¬ c.Decides c.lastStatus) (hv : ∀ w es', es = .inb ataRegControl w :: es' → w = v) :
    LeavesOnIdle c es c' ↔ c.BusyIgnored v := by
  rw [busyIgnored_of_undecided hf hd]
  have hlast {w : BitVec 8} : (c.examined [.inb ataRegControl w]).getLast? = some w := by
    simp [AtaContext.examined, altStatus, hf]
  cases h with
  | bad hb =>
      obtain rfl := hv _ _ rfl
      rw [leavesOnIdle_of_left hfail hlast]
      simp [AtaContext.Decides, hb]
  | drq hb hq =>
      obtain rfl := hv _ _ rfl
      rw [leavesOnIdle_of_left hxfer hlast]
      simp [AtaContext.Decides, hq]
  | @none w hb hq =>
      obtain rfl : w = v := hv w [] rfl
      have hv' : ¬ c.Decides w := by
        simpa [AtaContext.Decides, hb, hq] using fun hs hbatch => hleft ⟨hs, hbatch⟩
      exact iff_of_true (leavesOnIdle_of_stayed hstay) fun _ => hv'

theorem HandleStep.leavesOnIdle_iff (h : HandleStep c es c') (hc : c.Ok) (hw : c.Waiting)
    (hv : ∀ w es', es = .inb ataRegControl w :: es' → w = v) :
    LeavesOnIdle c es c' ↔ c.BusyIgnored v := by
  have hfired (hf : c.irqFired = true) : (c.examined []).getLast? = some c.lastStatus := by
    simp [AtaContext.examined, hf]
  cases h with
  | identifyQuiet _ hs hf =>
      exact iff_of_true (leavesOnIdle_of_stayed rfl)
        (by simp [AtaContext.BusyIgnored, AtaContext.ReadsAlt, hf, hs])
  | identifyWait _ hs hf hlook =>
      cases hlook with
      | bad hb =>
          rw [leavesOnIdle_of_left (by simp [AtaContext.finishInit, hs]) (hfired hf),
            busyIgnored_of_fired hf (.inl hb)]
      | drq _ hq =>
          rw [leavesOnIdle_of_left (by simp [hs]) (hfired hf),
            busyIgnored_of_fired hf (.inr (.inl hq))]
      | again hb hq hlook =>
          exact hlook.leavesOnIdle_iff hf rfl (by simp [AtaContext.finishInit, hs]) (by simp [hs])
            (by simp [hs]) (by simp [AtaContext.Decides, hb, hq, hs]) hv
  | ioQuiet _ hs hf hbatch =>
      exact iff_of_true (leavesOnIdle_of_stayed rfl)
        (by simpa [AtaContext.BusyIgnored, AtaContext.ReadsAlt, hf, hs] using
          fun h => absurd h hbatch)
  | ioFired _ hs hf hlook =>
      cases hlook with
      | bad hb =>
          rw [leavesOnIdle_of_left (by simp [AtaContext.finishIo, hs]) (hfired hf),
            busyIgnored_of_fired hf (.inl hb)]
      | drq _ hq =>
          rw [leavesOnIdle_of_left (by simp [hs]) (hfired hf),
            busyIgnored_of_fired hf (.inr (.inl hq))]
      | done _ _ hbatch =>
          rw [leavesOnIdle_of_left (by simp [AtaContext.finishIo, hs]) (hfired hf),
            busyIgnored_of_fired hf (.inr (.inr ⟨hs, hbatch⟩))]
      | next _ _ hbatch =>
          rw [leavesOnIdle_of_left (by simp [hs]) (hfired hf),
            busyIgnored_of_fired hf (.inr (.inr ⟨hs, hbatch⟩))]
      | again hb hq hbatch hlook =>
          exact hlook.leavesOnIdle_iff hf rfl (by simp [AtaContext.finishIo, hs]) (by simp [hs])
            (fun h => hbatch h.2) (fun h => by simp_all [AtaContext.Decides]) hv
  | @ioPolled w es _ _ hs hf hbatch hlook =>
      obtain rfl : w = v := hv w es rfl
      have hignored : c.BusyIgnored w ↔ ataStatusIsBusy w = false := by
        simp [AtaContext.BusyIgnored, AtaContext.ReadsAlt, AtaContext.Decides, hf, hs, hbatch]
      have hlast : (c.examined [.inb ataRegControl w]).getLast? = some w := by
        simp [AtaContext.examined, altStatus, hf]
      rw [hignored]
      cases hlook with
      | bad => exact leavesOnIdle_of_left (by simp [AtaContext.finishIo, hs]) hlast
      | drq => exact leavesOnIdle_of_left (by simp [hs]) hlast
      | done => exact leavesOnIdle_of_left (by simp [AtaContext.finishIo, hs]) hlast
      | next => exact leavesOnIdle_of_left (by simp [hs]) hlast
      | again _ _ h => exact absurd hbatch h
  | initIgnored hi hs =>
      have hio : c.step = .ioWaitIrq := hw.resolve_left fun h => hs (by simp [h])
      have hp := hc.phase.symm.trans (AtaContext.initialising_iff.mp hi)
      rw [hio] at hp
      cases hp
  | ioIgnored hi hs =>
      have hinit : c.step = .initIdentifyWait := hw.resolve_right fun h => hs (by simp [h])
      exact absurd (AtaContext.initialising_iff.mpr (by rw [hc.phase, hinit]; rfl)) hi
  | initSelect _ hs | identifyCmd _ hs | identifyXfer _ hs | ioSelect _ hs | ioNothing _ hs
  | ioTaskfile _ hs | ioEmptyBlock _ hs | ioXfer _ hs =>
      rw [AtaContext.Waiting, hs] at hw
      simp at hw

end

end BootKernel
