import BootKernel.Ata.Irq.Interrupts

/-!
# Statuses that get lost

The flags are reset after the command is written. An interrupt that comes before the reset ends is
wiped out; every other interrupt is still in the flags when the driver waits for it.
-/

namespace BootKernel

open PortProgram

/-- The handler does not run between a write to the command register and the end of the flag reset
after it. -/
def OutsideReset (_ : Bool) (x : AtaPoint) (_ : BitVec 8) : Prop := x.2.window = 0

instance (done : Bool) (x : AtaPoint) (v : BitVec 8) : Decidable (OutsideReset done x v) :=
  inferInstanceAs (Decidable (_ = _))

/-- The handler has run for the current command and no tick has consumed what it recorded, but the
driver waits for an interrupt and its flag or the status is gone. -/
def StatusLost (x : AtaPoint) : Prop :=
  (x.1.step = .initIdentifyWait ∨ x.1.step = .ioWaitIrq ∧ x.1.batchLeft ≠ 0) ∧
    ∃ st, x.2.pending = some st ∧ ¬ (x.1.irqFired = true ∧ x.1.lastStatus = st)

/-- What is pending is recorded in the flags. -/
structure Kept (x : AtaPoint) : Prop where
  window : x.2.window = 0
  flags : ∀ st, x.2.pending = some st → x.1.irqFired = true ∧ x.1.lastStatus = st
  issued : x.2.issued = false → x.2.pending = none
  idle : x.1.step = .idle → x.2.issued = false

/-- Nothing is pending, and `n` assignments of the flag reset are to come. -/
structure Resetting (n : Nat) (x : AtaPoint) : Prop where
  window : x.2.window = n
  issued : x.2.issued = true
  pending : x.2.pending = none
  busy : x.1.step ≠ .idle

section

variable {x y : AtaPoint}

theorem Kept.not_lost (h : Kept x) : ¬ StatusLost x := by
  rintro ⟨-, st, hpend, hlost⟩
  exact hlost (h.flags st hpend)

theorem Resetting.not_lost {n : Nat} (h : Resetting n x) : ¬ StatusLost x := by
  rintro ⟨-, st, hpend, -⟩
  rw [h.pending] at hpend
  cases hpend

theorem Resetting.kept (h : Resetting 0 x) : Kept x where
  window := h.window
  flags st hst := by
    rw [h.pending] at hst
    cases hst
  issued _ := h.pending
  idle hs := absurd hs h.busy

theorem kept_unwatched (c : AtaContext) : Kept (c, ataUnwatched) :=
  ⟨rfl, fun _ h => by simp [ataUnwatched] at h, fun _ => rfl, fun _ => rfl⟩

/-! ## The interrupts -/

theorem Kept.hit (h : Kept x) (v : BitVec 8) : Kept (ataWatched.hit v x) := by
  rw [ataWatched_hit]
  refine ⟨h.window, fun st hst => ?_, fun hi => ?_, h.idle⟩
  · cases hissued : x.2.issued with
    | true => exact ⟨rfl, by simpa [hissued] using hst⟩
    | false => simp [hissued, h.issued hissued] at hst
  · have hi' : x.2.issued = false := hi
    simp [hi', h.issued hi']

/-- The interrupts that may come in the middle of a call. -/
abbrev outsideReset : AtaPoint → AtaPoint → Prop := ataWatched.Interrupted OutsideReset false

abbrev KeepsStatus (p : Ata Unit) (x : AtaPoint) : Prop :=
  Safe ataWatched outsideReset (fun x => ¬ StatusLost x) Kept p x

theorem stable_kept (done : Bool) : Stable (ataWatched.Interrupted OutsideReset done) Kept := by
  rintro x y ⟨v, -, rfl⟩ h
  exact h.hit v

/-- The interrupt handler changes only the flags. -/
theorem stable_step (P : AtaStep → Prop) : Stable outsideReset fun x => P x.1.step := by
  rintro x y ⟨v, -, rfl⟩ h
  exact h

theorem stable_fired : Stable outsideReset fun x => x.1.irqFired = true := by
  rintro x y ⟨v, -, rfl⟩ -
  rfl

/-- While the flags are being reset there are no interrupts. -/
theorem stable_resetting (n : Nat) : Stable outsideReset (Resetting (n + 1)) := by
  rintro x y ⟨v, hok, -⟩ h
  exact absurd (h.window.symm.trans hok) (Nat.succ_ne_zero n)

/-! ## The operations -/

/-- An assignment that leaves the flags alone keeps what is pending, and so does an access to any
register but the command register. -/
theorem Kept.store {S : AtaStep → Prop} (hS : ¬ S .idle) {f : AtaContext → AtaContext}
    (hf : Calm S f) (h : Kept x) : Kept (f x.1, ataWatched.onStore x.1 (f x.1) x.2) := by
  obtain ⟨hfired, hlast, hstep⟩ := hf x.1
  rw [ataWatched_onStore hf]
  refine ⟨?_, fun st hst => ?_, h.issued, fun hs => ?_⟩
  · show x.2.window - 1 = 0
    rw [h.window]
  · rw [hfired, hlast]
    exact h.flags st hst
  · cases hstep with
    | inl hsame => exact h.idle (hsame ▸ hs)
    | inr hnew => exact absurd (hs ▸ hnew) hS

theorem Only.keepsStatus {α : Type} {S : AtaStep → Prop} {p : Ata α} (h : Quiet S p)
    (hS : ¬ S .idle) : Keeps ataWatched Kept p :=
  Only.keeps h (fun _ hf _ hy => hy.store hS hf) fun e he y hy => by
    rwa [ataWatched_onPort he]

theorem keepsStatus_of_quiet {S : AtaStep → Prop} {p : Ata Unit} (h : Quiet S p) (hS : ¬ S .idle)
    (hx : Kept x) : KeepsStatus p x :=
  (Only.keepsStatus h hS).safe (stable_kept false) (fun _ hy => hy.not_lost) (fun _ hy => hy) hx

/-- The flag reset consumes nothing, since nothing is pending. -/
theorem Resetting.store {n : Nat} {f : AtaContext → AtaContext} (h : Resetting (n + 1) x)
    (hf : (f x.1).step = x.1.step) :
    Resetting n (f x.1, ataWatched.onStore x.1 (f x.1) x.2) := by
  refine ⟨?_, h.issued, ?_, ?_⟩
  · show x.2.window - 1 = n
    rw [h.window, Nat.add_sub_cancel]
  · simp [ataWatched, h.pending]
  · rw [hf]
    exact h.busy

/-- A command is written and the flags are reset without an interrupt in between. -/
theorem keepsStatus_issueCommand {pre : Ata (BitVec 8)} {s : AtaStep}
    (hpre : Quiet (fun _ => False) pre) (hs : s ≠ .idle) (hx : Kept x) (hbusy : x.1.step ≠ .idle) :
    KeepsStatus (issueCommand pre s) x := by
  have hstable : Stable outsideReset fun x => Kept x ∧ x.1.step ≠ .idle :=
    (stable_kept false).and (stable_step (· ≠ .idle))
  have hkeeps : Keeps ataWatched (fun x => Kept x ∧ x.1.step ≠ .idle) pre := by
    refine Only.keeps hpre (fun f hf y hy => ⟨hy.1.store id hf, ?_⟩) fun e he y hy => by
      rwa [ataWatched_onPort he]
    rw [(hf y.1).2.2.resolve_right id]
    exact hy.2
  refine hkeeps.safe_bind hstable (fun y hy => hy.1.not_lost) (fun cmd y hy => ?_) ⟨hx, hbusy⟩
  refine Safe.of_outb hstable hy fun z hz => ⟨hz.1.not_lost, ?_⟩
  have hz₀ : Resetting 2 (z.1, ataWatched.onPort (.outb ataRegCommand cmd) z.1 z.2) :=
    ⟨rfl, rfl, rfl, hz.2⟩
  refine Safe.of_store (stable_resetting 1) hz₀ fun w hw => ⟨hw.not_lost, ?_⟩
  have hw₁ := hw.store (f := fun c => { c with irqFired := false }) rfl
  refine Safe.of_store (stable_resetting 0) hw₁ fun u hu => ⟨hu.not_lost, ?_⟩
  have hu₁ := hu.store (f := fun c => { c with lastStatus := 0 }) rfl
  exact keepsStatus_of_quiet (quiet_setStep (S := (· = s)) rfl) (fun h => hs h.symm) hu₁.kept

/-! ## The handlers of the wait steps -/

theorem quiet_examine (st : BitVec 8) : Quiet (· ≠ .idle) (ataIoWaitIrqExamine st) := by
  have hfinish (success : Bool) : Quiet (· ≠ .idle) (ataFinishIo success) := by
    refine (quiet_finishIo success).mono fun s hs => ?_
    cases success with
    | _ => simp [hs]
  simp only [ataIoWaitIrqExamine, load, load_bind, ret_bind]
  exact .ite (hfinish false) (.ite (quiet_setStep (by simp)) fun c =>
    .ite (fun c => .ite (hfinish true) (quiet_setStep (by simp)))
      (quiet_secondLook (hfinish false) (quiet_setStep (by simp))))

/-- A tick consumes the status when it clears the flag. -/
theorem Kept.consume (h : Kept x) (hwait : x.1.step.isWait = true) (hfired : x.1.irqFired = true) :
    Kept ({ x.1 with irqFired := false },
      ataWatched.onStore x.1 { x.1 with irqFired := false } x.2) := by
  have hnone : (ataWatched.onStore x.1 { x.1 with irqFired := false } x.2).pending = none := by
    simp [ataWatched, hwait, hfired]
  refine ⟨?_, fun st hst => ?_, fun _ => hnone, h.idle⟩
  · show x.2.window - 1 = 0
    rw [h.window]
  · rw [hnone] at hst
    cases hst

/-- A wait step: the flag is looked at, then cleared if it is set. -/
theorem keepsStatus_wait {fired quiet : Ata Unit} (hwait : x.1.step.isWait = true) (hx : Kept x)
    (hfired : Quiet (· ≠ .idle) fired) (hquiet : Quiet (· ≠ .idle) quiet) :
    KeepsStatus (do
      if ← load (·.irqFired) then
        store fun c => { c with irqFired := false }
        fired
      else quiet) x := by
  have hstable : Stable outsideReset fun x => Kept x ∧ x.1.step.isWait = true :=
    (stable_kept false).and (stable_step (·.isWait = true))
  refine Safe.of_load hstable ⟨hx, hwait⟩ fun y hy => ⟨hy.1.not_lost, ?_⟩
  show KeepsStatus (if y.1.irqFired = true then _ else quiet) y
  split
  case isTrue hf =>
    refine Safe.of_store (hstable.and stable_fired) ⟨hy, hf⟩ fun z hz => ⟨hz.1.1.not_lost, ?_⟩
    exact keepsStatus_of_quiet hfired (fun h => h rfl) (hz.1.1.consume hz.1.2 hz.2)
  case isFalse => exact keepsStatus_of_quiet hquiet (fun h => h rfl) hy.1

theorem keepsStatus_identifyWait (hstep : x.1.step = .initIdentifyWait) (hx : Kept x) :
    KeepsStatus ataInitIdentifyWaitHandle x :=
  keepsStatus_wait (by rw [hstep]; rfl) hx
    (fun c => (quiet_identifyExamine c.lastStatus).mono fun _ hs => hs.1) trivial

theorem keepsStatus_ioWait (hstep : x.1.step = .ioWaitIrq) (hx : Kept x) :
    KeepsStatus ataIoWaitIrqHandle x := by
  refine keepsStatus_wait (by rw [hstep]; rfl) hx (fun c => quiet_examine c.lastStatus) ?_
  exact fun c => .ite trivial fun v => ⟨trivial, quiet_examine v⟩

/-! ## The calls -/

theorem keepsStatus_initHandle (hx : Kept x) : KeepsStatus (ataInitHandle x.1.step) x := by
  cases hstep : x.1.step with
  | initSelect => exact keepsStatus_of_quiet quiet_initSelect (by simp) hx
  | initIdentifyCmd =>
      rw [ataInitHandle, identifyCmd_eq]
      exact keepsStatus_issueCommand quiet_identifyRegisters (by simp) hx (by simp [hstep])
  | initIdentifyWait => exact keepsStatus_identifyWait hstep hx
  | initIdentifyXfer => exact keepsStatus_of_quiet quiet_identifyXfer (by simp) hx
  | _ => exact hx

theorem keepsStatus_ioHandle (hx : Kept x) : KeepsStatus (ataIoHandle x.1.step) x := by
  cases hstep : x.1.step with
  | ioIssueSelect => exact keepsStatus_of_quiet quiet_ioSelect (by simp) hx
  | ioIssueTaskfile =>
      show KeepsStatus ataIoIssueTaskfileHandle x
      rw [ioTaskfile_eq]
      refine Safe.of_load ((stable_kept false).and (stable_step (· ≠ .idle)))
        ⟨hx, by simp [hstep]⟩ fun y hy => ⟨hy.1.not_lost, ?_⟩
      show KeepsStatus (if y.1.sectorsLeft = 0 then _ else _) y
      split
      · exact keepsStatus_of_quiet (quiet_finishIo true) (by simp) hy.1
      · exact keepsStatus_issueCommand quiet_ioRegisters (by simp) hy.1 hy.2
  | ioWaitIrq => exact keepsStatus_ioWait hstep hx
  | ioXferBlock => exact keepsStatus_of_quiet quiet_ioXfer (by simp) hx
  | _ => exact hx

theorem keepsStatus_call (k : AtaCall) (hx : Kept x) : KeepsStatus (ataWatched.call k) x := by
  cases k with
  | tick =>
      exact tick_safe (stable_kept false) (fun _ hy => hy.not_lost)
        (Only.keepsStatus quiet_delayTick id) (fun _ hy => keepsStatus_initHandle hy)
        (fun _ hy => keepsStatus_ioHandle hy) hx
  | begin r =>
      refine begin_safe
        (B := fun x => x.2.window = 0 ∧ x.2.issued = false ∧ x.2.pending = none) (stable_kept false)
        (fun _ hy => hy.not_lost) ?_ ?_ ?_ ?_ r hx
      · rintro x y ⟨v, -, rfl⟩ ⟨hw, hi, hp⟩
        exact ⟨hw, hi, by simp [hi, hp]⟩
      · exact fun x h hs => ⟨h.window, h.idle hs, h.issued (h.idle hs)⟩
      · exact fun x h => ⟨h.1, fun st hst => by simp [h.2.2] at hst, fun _ => h.2.2, fun _ => h.2.1⟩
      · rintro f x ⟨hw, hi, hp⟩
        exact ⟨by simp [ataWatched, hw], hi, by simp [ataWatched, hp]⟩

end

end BootKernel
