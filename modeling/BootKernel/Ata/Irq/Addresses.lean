import BootKernel.Ata.Irq.Transfer

/-!
# The addresses of a request

No function of the driver compares the address of a request with the last sector that the commands
can address. The invariant here holds of requests that reach past it too: each command addresses its
sector as far as the registers reach.
-/

namespace BootKernel

open PortProgram

namespace AtaIo

variable (q : AtaIo)

/-- The address in the registers of the command for sector `k`. -/
def address (k : Nat) : Nat := (q.lba.toNat + k) % q.op.reach

/-- The commands of the accesses are the ones for the first sectors in turn. -/
def InTurn (ds : List (DiskAccess AtaBuffer)) : Prop :=
  ∃ m ≤ q.sectorCount.toNat, addresses ds = (List.range m).map fun k => some (q.address k)

/-- How many commands have been issued. -/
def issued (c : AtaContext) : Nat := q.moved c + c.batchLeft.toNat

/-- How far the commands of a request have got. -/
structure Issuing (c : AtaContext) (t : Taskfile) (done : List (DiskAccess AtaBuffer)) : Prop where
  step : c.step ∈ steps
  op : c.step.phase = .io → c.op = q.op
  left_le : c.sectorsLeft.toNat ≤ q.sectorCount.toNat
  batch_le : c.batchLeft.toNat ≤ c.sectorsLeft.toNat
  lba : c.lba = q.lba + BitVec.ofNat 64 (q.moved c)
  selected : c.step = .ioIssueTaskfile → t.driveSel = selectValue q.op c.lba
  commands : addresses done = (List.range (q.issued c)).map fun k => some (q.address k)

end AtaIo

section

variable {q : AtaIo} {c c' : AtaContext} {t : Taskfile} {done : List (DiskAccess AtaBuffer)}
  {es : List AtaEvent}

theorem AtaIo.Issuing.inTurn (h : q.Issuing c t done) : q.InTurn done := by
  have hleft := h.left_le
  have hbatch := h.batch_le
  exact ⟨q.issued c, by unfold AtaIo.issued AtaIo.moved; omega, h.commands⟩

theorem AtaIo.Issuing.goto (h : q.Issuing c t done) (step : AtaStep) {op : AtaOp}
    (hstep : step ∈ AtaIo.steps) (hop : step.phase = .io → op = q.op)
    (htask : step ≠ .ioIssueTaskfile) : q.Issuing { c with step := step, op := op } t done :=
  ⟨hstep, hop, h.left_le, h.batch_le, h.lba, fun hs => absurd hs htask, h.commands⟩

theorem AtaIo.Issuing.flags (h : q.Issuing c t done) (fired : Bool) (st : BitVec 8) :
    q.Issuing { c with irqFired := fired, lastStatus := st } t done :=
  ⟨h.step, h.op, h.left_le, h.batch_le, h.lba, h.selected, h.commands⟩

theorem AtaIo.Issuing.quiet (h : q.Issuing c t done) (hes : t.decode es = (t, [])) :
    q.Issuing c (t.decode es).1 (done ++ (t.decode es).2) := by
  rw [hes, List.append_nil]
  exact h

theorem AtaIo.Issuing.finishIo (h : q.Issuing c t done) (success : Bool) :
    q.Issuing (c.finishIo success) t done := by
  cases success with
  | false => exact h.goto .ioFail (by decide) AtaPhase.noConfusion AtaStep.noConfusion
  | true => exact h.goto .ioDone (by decide) AtaPhase.noConfusion AtaStep.noConfusion

theorem IoLook.issuing {st : BitVec 8} (h : IoLook c st es c') (hp : q.Issuing c t done)
    (hs : c.step = .ioWaitIrq) : q.Issuing c' t done := by
  have hop : c.op = q.op := hp.op (by rw [hs]; rfl)
  have hxfer : q.Issuing { c with step := .ioXferBlock } t done :=
    hp.goto .ioXferBlock (by decide) (fun _ => hop) AtaStep.noConfusion
  cases h with
  | bad => exact hp.finishIo false
  | drq => exact hxfer
  | done => exact hp.finishIo true
  | next => exact hp.goto .ioIssueSelect (by decide) (fun _ => hop) AtaStep.noConfusion
  | again _ _ _ h =>
      cases h with
      | bad => exact hp.finishIo false
      | drq => exact hxfer
      | none => exact hp

theorem AtaIo.Issuing.xfer (h : q.Issuing c t done) (hc : c.Ok) (hs : c.step = .ioXferBlock)
    (hbatch : c.batchLeft ≠ 0) {ds : List (DiskAccess AtaBuffer)} (hds : addresses ds = []) :
    q.Issuing { c with
      ptr := c.ptr + 512, lba := c.lba + 1, batchLeft := c.batchLeft - 1,
      sectorsLeft := c.sectorsLeft - 1, step := .ioWaitIrq } t (done ++ ds) := by
  obtain ⟨hone, hleft⟩ := hc.batch (by rw [hs]; rfl)
  have hle := h.left_le
  have hzero : (c.batchLeft - 1).toNat = 0 := by bv_omega
  have hbatch₁ : c.batchLeft.toNat = 1 := by bv_omega
  have hpos : (c.sectorsLeft - 1).toNat + 1 = c.sectorsLeft.toNat := by bv_omega
  have hmoved : q.sectorCount.toNat - (c.sectorsLeft - 1).toNat = q.moved c + 1 := by
    rw [AtaIo.moved]
    omega
  refine ⟨by simp [AtaIo.steps], fun _ => h.op (by rw [hs]; rfl), by simp only; omega,
    by simp only; omega, ?_, AtaStep.noConfusion, ?_⟩
  · calc
      c.lba + 1 = q.lba + BitVec.ofNat 64 (q.moved c + 1) := by
        rw [h.lba, BitVec.add_assoc, BitVec.ofNat_add]
        rfl
      _ = q.lba + BitVec.ofNat 64 (q.sectorCount.toNat - (c.sectorsLeft - 1).toNat) := by
        rw [hmoved]
  · have hissued : q.issued c = q.sectorCount.toNat - (c.sectorsLeft - 1).toNat +
        (c.batchLeft - 1).toNat := by
      rw [AtaIo.issued, hmoved, hzero, hbatch₁]
    rw [addresses_append, hds, List.append_nil, h.commands, hissued]
    rfl

theorem AtaIo.Issuing.taskfile (h : q.Issuing c t done) (hc : c.Ok) (hs : c.step = .ioIssueTaskfile)
    (hop : q.op.phase = .io) (hleft : c.sectorsLeft ≠ 0) :
    q.Issuing { c with batchLeft := 1, irqFired := false, lastStatus := 0, step := .ioWaitIrq }
      (t.decode (ioTaskfile c.op c.lba)).1 (done ++ (t.decode (ioTaskfile c.op c.lba)).2) := by
  have hcop : c.op = q.op := h.op (by rw [hs]; rfl)
  have hdvd : q.op.reach ∣ 2 ^ 64 := by
    unfold AtaOp.reach
    split <;> decide
  have haddr : c.lba.toNat % q.op.reach = q.address (q.moved c) := by
    rw [h.lba, BitVec.toNat_add, BitVec.toNat_ofNat, Nat.add_mod_mod, Nat.mod_mod_of_dvd _ hdvd]
    rfl
  have hissued : q.issued c = q.moved c := by
    rw [AtaIo.issued, (hc.issue (.inr hs)).1]
    rfl
  refine ⟨by simp [AtaIo.steps], fun _ => hcop, h.left_le, ?_, h.lba, AtaStep.noConfusion, ?_⟩
  · have hpos : 0 < c.sectorsLeft.toNat := by bv_omega
    exact hpos
  · rw [hcop, decode_ioTaskfile_mod hop (h.selected hs), haddr, addresses_append, h.commands, hissued]
    simp [AtaIo.issued, AtaIo.moved, addresses, DiskAccess.address?, List.range_succ]

theorem HandleStep.issuing (h : HandleStep c es c') (hp : q.Issuing c t done) (hc : c.Ok)
    (hop : q.op.phase = .io) : q.Issuing c' (t.decode es).1 (done ++ (t.decode es).2) := by
  have hsteps := hp.step
  cases h with
  | initSelect _ hs | identifyCmd _ hs | identifyQuiet _ hs | identifyWait _ hs
  | identifyXfer _ hs => simp [hs, AtaIo.steps] at hsteps
  | initIgnored => exact hp.quiet rfl
  | ioIgnored => exact hp.quiet rfl
  | ioSelect _ hs =>
      have hdecode : t.decode [.outb ataRegDriveSel (selectValue c.op c.lba)] =
          ({ t with driveSel := selectValue c.op c.lba }, ([] : List (DiskAccess AtaBuffer))) := rfl
      have hcop : c.op = q.op := hp.op (by rw [hs]; rfl)
      rw [hdecode, List.append_nil, hcop]
      exact ⟨by simp [AtaIo.steps], fun _ => rfl, hp.left_le, hp.batch_le, hp.lba, fun _ => rfl,
        hp.commands⟩
  | ioNothing _ hs hleft => exact absurd hleft (hc.issue (.inr hs)).2
  | ioTaskfile _ hs hleft => exact hp.taskfile hc hs hop hleft
  | ioQuiet => exact hp.quiet rfl
  | ioFired _ hs _ hlook => exact (hlook.issuing (hp.flags false c.lastStatus) hs).quiet hlook.decode
  | ioPolled _ hs _ _ hlook => exact (hlook.issuing hp hs).quiet hlook.decode
  | ioEmptyBlock _ hs =>
      have hcop : c.op = q.op := hp.op (by rw [hs]; rfl)
      exact AtaIo.Issuing.quiet
        (hp.goto .ioWaitIrq (by decide) (fun _ => hcop) AtaStep.noConfusion) rfl
  | ioXfer _ hs hbatch =>
      have hdecode : (t.decode [blockTransfer c.op c.ptr 256]).1 = t ∧
          addresses (t.decode [blockTransfer c.op c.ptr 256]).2 = [] := by
        by_cases hr : c.op.Reads
        · simp [blockTransfer, hr, Taskfile.decode, Taskfile.step, addresses, DiskAccess.address?]
        · simp [blockTransfer, hr, Taskfile.decode, Taskfile.step, addresses, DiskAccess.address?]
      rw [hdecode.1]
      exact hp.xfer hc hs hbatch hdecode.2

theorem ActionStep.issuing {a : AtaAction} (h : ActionStep c a es c') (hp : q.Issuing c t done)
    (hc : c.Ok) (hop : q.op.phase = .io) : q.Issuing c' (t.decode es).1 (done ++ (t.decode es).2) := by
  cases h with
  | accepted ha =>
      have hstep := hp.step
      simp [ha.1, AtaIo.steps] at hstep
  | refused => exact hp.quiet rfl
  | irq14 => exact (hp.flags true _).quiet rfl
  | tick h =>
      cases h with
      | delay =>
          exact AtaIo.Issuing.quiet ⟨hp.step, hp.op, hp.left_le, hp.batch_le, hp.lba, hp.selected,
            hp.commands⟩ rfl
      | delayEnd _ h =>
          exact h.issuing (q := q) ⟨hp.step, hp.op, hp.left_le, hp.batch_le, hp.lba, hp.selected,
            hp.commands⟩ ⟨hc.phase, Nat.zero_le 4, fun hn => absurd rfl hn, hc.batch, hc.issue⟩ hop
      | handle _ h => exact h.issuing hp hc hop

theorem AtaIo.start_issuing (q : AtaIo) (t : Taskfile) : q.Issuing q.start t [] := by
  have hmoved : q.moved q.start = 0 := Nat.sub_self _
  refine ⟨by simp [AtaIo.steps, AtaIo.start], fun _ => rfl, Nat.le_refl q.sectorCount.toNat,
    Nat.zero_le _, ?_, AtaStep.noConfusion, ?_⟩
  · rw [hmoved]
    exact (BitVec.add_zero q.lba).symm
  · rw [AtaIo.issued, hmoved]
    rfl

theorem ataRun_issuing {dev : Answer AtaBuffer} {s : AtaState} (hs : s.ctx = q.start)
    (hn : q.sectorCount ≠ 0) (hop : q.op.phase = .io) (t : Taskfile) (as : List AtaAction) :
    ∃ es, (ataRun dev s as).trace = s.trace ++ es ∧
      q.Issuing (ataRun dev s as).ctx (t.decode es).1 (t.decode es).2 := by
  refine (ataRun_invariant (fun s' => s'.ctx.Ok ∧ ∃ es, s'.trace = s.trace ++ es ∧
    q.Issuing s'.ctx (t.decode es).1 (t.decode es).2) ?_ ?_ as).2
  · rintro s' a es c' ⟨hok, es₀, htrace, hp⟩ hstep
    refine ⟨hstep.ok hok, es₀ ++ es, by rw [htrace, List.append_assoc], ?_⟩
    rw [Taskfile.decode_append]
    exact hstep.issuing hp hok hop
  · rw [hs]
    exact ⟨q.start_ok hop hn, [], (List.append_nil _).symm, q.start_issuing t⟩

end

end BootKernel
