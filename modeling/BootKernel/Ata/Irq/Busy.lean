import BootKernel.Ata.Irq.Lemmas.Busy
import Mathlib.Data.List.Induction

/-!
# A busy drive

The driver is to leave a wait step, to report `IO_DONE` and to begin the next sector only while the drive is not busy.
Which statuses this depends on is a condition on what the drive answers, tick by tick.
-/

namespace BootKernel

open PortProgram

/-- A tick in a wait step leaves it only on a status with BSY clear. -/
def TickLeavesOnIdle (dev : Answer AtaBuffer) (s : AtaState) : Prop :=
  s.ctx.Waiting → LeavesOnIdle s.ctx ((ataStep dev s .tick).trace.drop s.trace.length)
    (ataStep dev s .tick).ctx

/-- A tick that reports `IO_DONE` does so while the last status that has been read has BSY clear. -/
def TickReportsOnIdle (dev : Answer AtaBuffer) (s : AtaState) : Prop :=
  s.ctx.step ≠ .ioDone → (ataStep dev s .tick).ctx.step = .ioDone → LastIdle (ataStep dev s .tick).trace

/-- The driver never acts on a status that says that the drive is busy. -/
structure HeedsBusy (dev : Answer AtaBuffer) (as : List AtaAction) : Prop where
  leaves : ∀ pre, pre ++ [.tick] <+: as → TickLeavesOnIdle dev (ataRun dev ataStart pre)
  reports : ∀ pre, pre ++ [.tick] <+: as → TickReportsOnIdle dev (ataRun dev ataStart pre)
  issues : Guarded IssuesOnIdle (ataRun dev ataStart as).trace

/-- The statuses that decide what a tick does, and those after which it begins the next sector, are idle. -/
structure TickSeesIdle (dev : Answer AtaBuffer) (s : AtaState) : Prop where
  wait : s.ctx.Waiting → s.ctx.BusyIgnored (dev s.trace ataRegControl)
  next : s.BeginsOnIdle (dev s.trace ataRegControl)

section
variable {dev : Answer AtaBuffer} {s : AtaState} {as : List AtaAction}

theorem tickLeavesOnIdle_iff (hs : s.ctx.Ok) :
    TickLeavesOnIdle dev s ↔ (s.ctx.Waiting → s.ctx.BusyIgnored (dev s.trace ataRegControl)) := by
  refine forall_congr' fun hw => ?_
  obtain ⟨es, ha, hstep⟩ := ataStep_cases dev s .tick
  have hdelay : s.ctx.delay400 = 0 := by
    by_contra hn
    rcases hs.delay hn with h | h
    · simp [AtaContext.Waiting, h] at hw
    · simp [AtaContext.Waiting, h] at hw
  rw [ha.traced_eq, List.drop_left]
  generalize (ataStep dev s .tick).ctx = c' at hstep ⊢
  cases hstep with
  | tick htick =>
      cases htick with
      | delay hlt => exact absurd hdelay (by omega)
      | delayEnd h => exact absurd hdelay (by omega)
      | handle _ h =>
          refine h.leavesOnIdle_iff hs hw ?_
          rintro w es' rfl
          exact ha.1.symm

theorem tickReportsOnIdle (hs : s.Tracked) (h : TickLeavesOnIdle dev s) : TickReportsOnIdle dev s := by
  intro hne hdone
  obtain ⟨es, ha, hstep⟩ := ataStep_cases dev s .tick
  rw [TickLeavesOnIdle, ha.traced_eq, List.drop_left] at h
  rw [ha.traced_eq]
  generalize (ataStep dev s .tick).ctx = c' at hstep hdone h
  cases hstep with
  | tick htick =>
      cases htick with
      | delay hlt => exact absurd hdone hne
      | delayEnd hone hhandle =>
          obtain ⟨-, hcmd⟩ := hhandle.after_delay hs.ok hone
          rcases hcmd with ⟨-, hwait, -⟩ | ⟨-, hwait, -⟩
          · cases hwait.symm.trans hdone
          · cases hwait.symm.trans hdone
      | handle hd hhandle =>
          obtain ⟨hwait, hleft⟩ := hhandle.from_wait hs.ok (.inl ⟨hdone, hne⟩)
          exact hs.lastIdle hd (hhandle.readsControl hwait) hleft (h (.inr hwait))

theorem forall_tick_concat (P : List AtaAction → Prop) (as : List AtaAction) (a : AtaAction) :
    (∀ pre, pre ++ [.tick] <+: as ++ [a] → P pre) ↔
      (∀ pre, pre ++ [.tick] <+: as → P pre) ∧ (a = .tick → P as) := by
  constructor
  · intro h
    exact ⟨fun pre hpre => h pre (hpre.trans (List.prefix_append as [a])),
      fun ha => h as (ha ▸ List.prefix_refl _)⟩
  · rintro ⟨hpre, hlast⟩ pre h
    rcases List.prefix_concat_iff.mp h with heq | h
    · obtain ⟨rfl, ha⟩ := List.append_inj' heq rfl
      exact hlast (List.cons.inj ha).1.symm
    · exact hpre pre h

theorem ataRun_concat (dev : Answer AtaBuffer) (s : AtaState) (as : List AtaAction) (a : AtaAction) :
    ataRun dev s (as ++ [a]) = ataStep dev (ataRun dev s as) a := List.foldl_concat ..

theorem ataRun_tracked (dev : Answer AtaBuffer) (as : List AtaAction) : (ataRun dev ataStart as).Tracked :=
  ataRun_invariant AtaState.Tracked (fun _ _ _ _ hs h => h.tracked hs)
    ⟨gAtaCtx_ok, fun _ => by simp [HasMoved, ataStart], AtaStep.noConfusion, Bool.noConfusion⟩ as

theorem issues_concat (hsel : (ataRun dev ataStart as).SelectsIdle) (a : AtaAction) :
    Guarded IssuesOnIdle (ataRun dev ataStart (as ++ [a])).trace ↔
      Guarded IssuesOnIdle (ataRun dev ataStart as).trace ∧
        (a = .tick → (ataRun dev ataStart as).BeginsOnIdle (dev (ataRun dev ataStart as).trace ataRegControl)) := by
  rw [ataRun_concat]
  have ht := ataRun_tracked dev as
  generalize ataRun dev ataStart as = s at hsel ht
  obtain ⟨es, ha, hstep⟩ := ataStep_cases dev s a
  rw [ha.traced_eq]
  generalize (ataStep dev s a).ctx = c' at hstep
  cases hstep with
  | accepted | refused => exact (guarded_quiet (by simp)).trans (by simp)
  | irq14 =>
      refine (guarded_quiet ?_).trans (by simp)
      simp [Issues, pic1Cmd, pic2Cmd, ataRegDriveSel, ataRegCommand]
  | tick h =>
      have hv (w : BitVec 8) (es' : List AtaEvent) (heq : es = .inb ataRegControl w :: es') :
          w = dev s.trace ataRegControl := by
        rw [heq] at ha
        exact ha.1.symm
      exact (h.issues_iff ht hsel hv).trans (and_congr_right fun _ => ⟨fun hg _ => hg, fun hg => hg rfl⟩)

theorem HeedsBusy.of_concat {a : AtaAction} (h : HeedsBusy dev (as ++ [a])) : HeedsBusy dev as where
  leaves := ((forall_tick_concat _ as a).mp h.leaves).1
  reports := ((forall_tick_concat _ as a).mp h.reports).1
  issues := by
    obtain ⟨es, ha, -⟩ := ataStep_cases dev (ataRun dev ataStart as) a
    have hguarded := h.issues
    rw [ataRun_concat, ha.traced_eq] at hguarded
    exact hguarded.of_append

theorem HeedsBusy.selectsIdle (h : HeedsBusy dev as) : (ataRun dev ataStart as).SelectsIdle := by
  induction as using List.reverseRecOn with
  | nil => exact AtaStep.noConfusion
  | append_singleton as a ih =>
      obtain ⟨es, ha, hstep⟩ := ataStep_cases dev (ataRun dev ataStart as) a
      have hleaves : a = .tick → (ataRun dev ataStart as).ctx.Waiting →
          LeavesOnIdle (ataRun dev ataStart as).ctx es (ataStep dev (ataRun dev ataStart as) a).ctx := by
        rintro rfl hwait
        have htick := ((forall_tick_concat _ as _).mp h.leaves).2 rfl hwait
        rwa [ha.traced_eq, List.drop_left] at htick
      have hnext : AtaState.SelectsIdle
          ⟨(ataStep dev (ataRun dev ataStart as) a).ctx, (ataRun dev ataStart as).trace ++ es⟩ :=
        hstep.selectsIdle (ataRun_tracked dev as) (ih h.of_concat) hleaves
      rw [← ha.traced_eq] at hnext
      rw [ataRun_concat]
      exact hnext

/-- What one action adds to a run that has heeded the drive so far. -/
theorem HeedsBusy.concat_iff (h : HeedsBusy dev as) (a : AtaAction) :
    HeedsBusy dev (as ++ [a]) ↔ (a = .tick → TickSeesIdle dev (ataRun dev ataStart as)) := by
  have ht := ataRun_tracked dev as
  have hissues := issues_concat h.selectsIdle a
  constructor
  · intro hnext ha
    exact ⟨(tickLeavesOnIdle_iff ht.ok).mp (((forall_tick_concat _ as a).mp hnext.leaves).2 ha),
      (hissues.mp hnext.issues).2 ha⟩
  · intro hsees
    have hleaves (ha : a = .tick) : TickLeavesOnIdle dev (ataRun dev ataStart as) :=
      (tickLeavesOnIdle_iff ht.ok).mpr (hsees ha).wait
    exact {
      leaves := (forall_tick_concat _ as a).mpr ⟨h.leaves, hleaves⟩
      reports := (forall_tick_concat _ as a).mpr ⟨h.reports, fun ha => tickReportsOnIdle ht (hleaves ha)⟩
      issues := hissues.mpr ⟨h.issues, fun ha => (hsees ha).next⟩ }

end

/-- In a run the driver leaves the wait steps, reports `IO_DONE` and begins the next sector only while the drive is
not busy exactly if the drive says so wherever a tick of the run depends on it. -/
theorem ataRun_heedsBusy_iff (dev : Answer AtaBuffer) (as : List AtaAction) :
    HeedsBusy dev as ↔ ∀ pre, pre ++ [.tick] <+: as → TickSeesIdle dev (ataRun dev ataStart pre) := by
  induction as using List.reverseRecOn with
  | nil =>
      have hnone (pre : List AtaAction) : ¬ pre ++ [.tick] <+: [] := by simp
      exact iff_of_true
        ⟨fun pre h => absurd h (hnone pre), fun pre h => absurd h (hnone pre), guarded_of_not_moved (by
          simp [HasMoved, ataRun, ataStart])⟩
        fun pre h => absurd h (hnone pre)
  | append_singleton as a ih =>
      rw [forall_tick_concat, ← ih]
      exact ⟨fun h => ⟨h.of_concat, (h.of_concat.concat_iff a).mp h⟩, fun h => (h.1.concat_iff a).mpr h.2⟩

/-- A drive that is still busy when it is asked through the control register. -/
def busyDrive : Answer AtaBuffer := fun _ port => if port = ataRegStatus then 0x58 else 0x80

/-- The calls of a write of one sector, up to the last look at the status. -/
def writeCalls : List AtaAction :=
  [.begin (.write28 0 0x100000 1), .tick, .tick, .tick, .tick, .tick, .irq14, .tick, .tick]

theorem ataRun_done_while_busy :
    (ataRun busyDrive ataStart (writeCalls ++ [.tick])).ctx.step = .ioDone ∧
      ¬ HeedsBusy busyDrive (writeCalls ++ [.tick]) := by
  have hwait : (ataRun busyDrive ataStart writeCalls).ctx.step = .ioWaitIrq := by decide
  have hleft : ¬ LeavesOnIdle (ataRun busyDrive ataStart writeCalls).ctx
      ((ataStep busyDrive (ataRun busyDrive ataStart writeCalls) .tick).trace.drop
        (ataRun busyDrive ataStart writeCalls).trace.length)
      (ataStep busyDrive (ataRun busyDrive ataStart writeCalls) .tick).ctx := by decide
  exact ⟨by decide, fun h => hleft (h.leaves writeCalls (List.prefix_refl _) (.inr hwait))⟩

end BootKernel
