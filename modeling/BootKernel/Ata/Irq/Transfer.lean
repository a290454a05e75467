import BootKernel.Ata.Irq.Invariant
import BootKernel.Ata.Taskfile
import Mathlib.Algebra.Order.Ring.Nat
import Mathlib.Data.Nat.Bitwise

/-!
# The transfer of a request

Every sector of a request takes a drive select, a command and a transfer of 256 words. The invariant
of a running request says how far the counters of the context and the accesses to the disk have got.
-/

namespace BootKernel

open PortProgram

/-! ## A command -/

def AtaOp.code : AtaOp → BitVec 8
  | .read28 => ataCmdReadSectors
  | .write28 => ataCmdWriteSectors
  | .read48 => ataCmdReadSectorsExt
  | _ => ataCmdWriteSectorsExt

/-- The number of sectors that the commands of the operation can address. -/
def AtaOp.reach (op : AtaOp) : Nat := if op.Short then 2 ^ 28 else 2 ^ 48

/-- The top four bits of an address of 28 bits. -/
def topNibble (lba : BitVec 64) : BitVec 4 := (lba >>> 24).setWidth 4

theorem topNibble_toNat (lba : BitVec 64) : (topNibble lba).toNat = lba.toNat / 2 ^ 24 % 2 ^ 4 := by
  rw [topNibble, BitVec.toNat_setWidth, BitVec.toNat_ushiftRight, Nat.shiftRight_eq_div_pow]

theorem selectValue_short {op : AtaOp} (h : op.Short) (lba : BitVec 64) :
    selectValue op lba = ataDhLbaMaster ||| (topNibble lba).setWidth 8 := by
  have hnib : (((lba.setWidth 32 : BitVec 32) >>> 24) &&& 0x0F).setWidth 8 =
      (topNibble lba).setWidth 8 := by
    apply BitVec.eq_of_toNat_eq
    have hand : ((lba.setWidth 32 : BitVec 32) >>> 24 &&& 0x0F).toNat =
        lba.toNat % 2 ^ 32 / 2 ^ 24 % 2 ^ 4 := by
      rw [BitVec.toNat_and, BitVec.toNat_ushiftRight, BitVec.toNat_setWidth,
        Nat.shiftRight_eq_div_pow]
      exact Nat.and_two_pow_sub_one_eq_mod _ 4
    rw [BitVec.toNat_setWidth, BitVec.toNat_setWidth, hand, topNibble_toNat]
    omega
  rw [selectValue, if_pos h, hnib]

theorem select_nibble : ∀ n : BitVec 4, (ataDhLbaMaster ||| n.setWidth 8) &&& 0x50 = 0x40 ∧
    ((ataDhLbaMaster ||| n.setWidth 8) &&& 0x0F).toNat = n.toNat := by
  decide

/-- The drive select register of a request holds the mode bits, and the address bits it needs. -/
theorem selectValue_spec (op : AtaOp) (lba : BitVec 64) :
    selectValue op lba &&& 0x50 = 0x40 ∧
      (op.Short → (selectValue op lba &&& 0x0F).toNat = lba.toNat / 2 ^ 24 % 2 ^ 4) := by
  by_cases h : op.Short
  · rw [selectValue_short h, ← topNibble_toNat]
    exact ⟨(select_nibble _).1, fun _ => (select_nibble _).2⟩
  · rw [selectValue, if_neg h]
    exact ⟨rfl, fun h' => absurd h' h⟩

theorem byte_toNat (lba : BitVec 64) (n : Nat) :
    ((lba >>> n).setWidth 8).toNat = lba.toNat / 2 ^ n % 2 ^ 8 := by
  rw [BitVec.toNat_setWidth, BitVec.toNat_ushiftRight, Nat.shiftRight_eq_div_pow]

theorem byte28_toNat (lba : BitVec 64) {n : Nat} (hn : n ≤ 24) :
    (((lba.setWidth 32 : BitVec 32) >>> n).setWidth 8).toNat = lba.toNat / 2 ^ n % 2 ^ 8 := by
  have hsplit : (2 : Nat) ^ 32 = 2 ^ n * 2 ^ (32 - n) := by
    rw [← Nat.pow_add, Nat.add_sub_cancel' (by omega)]
  rw [BitVec.toNat_setWidth, BitVec.toNat_ushiftRight, Nat.shiftRight_eq_div_pow,
    BitVec.toNat_setWidth, hsplit, Nat.mod_mul_right_div_self,
    Nat.mod_mod_of_dvd _ (Nat.pow_dvd_pow 2 (by omega))]

theorem bytes28_toNat (lba : BitVec 64) :
    ((lba.setWidth 32 : BitVec 32).setWidth 8 : BitVec 8).toNat +
      2 ^ 8 * (((lba.setWidth 32 : BitVec 32) >>> 8).setWidth 8 : BitVec 8).toNat +
      2 ^ 16 * (((lba.setWidth 32 : BitVec 32) >>> 16).setWidth 8 : BitVec 8).toNat +
      2 ^ 24 * (lba.toNat / 2 ^ 24 % 2 ^ 4) = lba.toNat % 2 ^ 28 := by
  have hlow := byte28_toNat lba (Nat.zero_le 24)
  rw [BitVec.ushiftRight_zero] at hlow
  rw [hlow, byte28_toNat lba (by decide), byte28_toNat lba (by decide)]
  omega

theorem bytes48_toNat (lba : BitVec 64) :
    (lba.setWidth 8 : BitVec 8).toNat + 2 ^ 8 * ((lba >>> 8).setWidth 8 : BitVec 8).toNat +
      2 ^ 16 * ((lba >>> 16).setWidth 8 : BitVec 8).toNat +
      2 ^ 24 * ((lba >>> 24).setWidth 8 : BitVec 8).toNat +
      2 ^ 32 * ((lba >>> 32).setWidth 8 : BitVec 8).toNat +
      2 ^ 40 * ((lba >>> 40).setWidth 8 : BitVec 8).toNat = lba.toNat % 2 ^ 48 := by
  have hlow := byte_toNat lba 0
  rw [BitVec.ushiftRight_zero] at hlow
  simp only [hlow, byte_toNat]
  omega

theorem decode_short {t : Taskfile} {code low mid high : BitVec 8}
    (hmode : (t.driveSel &&& 0x50#8 == 0x40#8) = true) (hcode : isExt code = false) :
    (t.decode ([.outb ataRegSeccount 1, .outb ataRegLbaLow low, .outb ataRegLbaMid mid,
      .outb ataRegLbaHigh high, .outb ataRegCommand code] : List AtaEvent)).2 =
      [.command code (low.toNat + 2 ^ 8 * mid.toNat + 2 ^ 16 * high.toNat +
        2 ^ 24 * (t.driveSel &&& 0x0F).toNat) 1] := by
  simp [Taskfile.decode, Taskfile.step, Taskfile.command, Taskfile.selectsMasterLba, Taskfile.lba28,
    Latch.write, hmode, hcode, ataRegDriveSel, ataRegSeccount, ataRegLbaLow, ataRegLbaMid,
    ataRegLbaHigh, ataRegCommand, -BitVec.toNat_and]

theorem decode_long {t : Taskfile} {code low mid high low' mid' high' : BitVec 8}
    (hmode : (t.driveSel &&& 0x50#8 == 0x40#8) = true) (hcode : isExt code = true) :
    (t.decode ([.outb ataRegSeccount 0, .outb ataRegLbaLow low', .outb ataRegLbaMid mid',
      .outb ataRegLbaHigh high', .outb ataRegSeccount 1, .outb ataRegLbaLow low,
      .outb ataRegLbaMid mid, .outb ataRegLbaHigh high, .outb ataRegCommand code] :
      List AtaEvent)).2 =
      [.command code (low.toNat + 2 ^ 8 * mid.toNat + 2 ^ 16 * high.toNat + 2 ^ 24 * low'.toNat +
        2 ^ 32 * mid'.toNat + 2 ^ 40 * high'.toNat) 1] := by
  simp [Taskfile.decode, Taskfile.step, Taskfile.command, Taskfile.selectsMasterLba, Taskfile.lba48,
    Latch.write, hmode, hcode, ataRegDriveSel, ataRegSeccount, ataRegLbaLow, ataRegLbaMid,
    ataRegLbaHigh, ataRegCommand]

theorem AtaOp.reach_short {op : AtaOp} (h : op.Short) : op.reach = 2 ^ 28 := if_pos h

theorem AtaOp.reach_long {op : AtaOp} (h : ¬ op.Short) : op.reach = 2 ^ 48 := if_neg h

/-- After the drive is selected, the register writes of a command are one command for one sector. The
registers hold the sector address as far as they reach. -/
theorem decode_ioTaskfile_mod {op : AtaOp} {lba : BitVec 64} {t : Taskfile} (hop : op.phase = .io)
    (hsel : t.driveSel = selectValue op lba) :
    (t.decode (ioTaskfile op lba)).2 = [.command op.code (lba.toNat % op.reach) 1] := by
  obtain ⟨hmode, hnib⟩ := selectValue_spec op lba
  have hmaster : (t.driveSel &&& 0x50#8 == 0x40#8) = true := by
    rw [hsel]
    exact beq_iff_eq.mpr hmode
  by_cases h : op.Short
  · have haddr := bytes28_toNat lba
    rw [← hnib h, ← hsel] at haddr
    rw [op.reach_short h]
    rcases h with rfl | rfl
    · exact (decode_short hmaster rfl).trans (by rw [haddr]; rfl)
    · exact (decode_short hmaster rfl).trans (by rw [haddr]; rfl)
  · have haddr := bytes48_toNat lba
    rw [op.reach_long h]
    cases op with
    | none => cases hop
    | init28 => cases hop
    | init48 => cases hop
    | read28 => exact absurd (.inl rfl) h
    | write28 => exact absurd (.inr rfl) h
    | read48 => exact (decode_long hmaster rfl).trans (by rw [haddr]; rfl)
    | write48 => exact (decode_long hmaster rfl).trans (by rw [haddr]; rfl)

theorem decode_ioTaskfile {op : AtaOp} {lba : BitVec 64} {t : Taskfile} (hop : op.phase = .io)
    (hsel : t.driveSel = selectValue op lba) (hlba : lba.toNat < op.reach) :
    (t.decode (ioTaskfile op lba)).2 = [.command op.code lba.toNat 1] := by
  rw [decode_ioTaskfile_mod hop hsel, Nat.mod_eq_of_lt hlba]

/-! ## Progress -/

namespace AtaIo

variable (q : AtaIo)

def command (k : Nat) : DiskAccess AtaBuffer := .command q.op.code (q.lba.toNat + k) 1

def transfer (k : Nat) : DiskAccess AtaBuffer :=
  if q.op.Reads then .fromDisk (.ram (q.addr + BitVec.ofNat 64 (512 * k))) 256
  else .toDisk (.ram (q.addr + BitVec.ofNat 64 (512 * k))) 256

/-- The accesses to the disk that serve the first `k` sectors. -/
def served (k : Nat) : List (DiskAccess AtaBuffer) :=
  (List.range k).flatMap fun j => [q.command j, q.transfer j]

/-- The request does not reach past the last sector that its commands can address. -/
def Fits : Prop := q.lba.toNat + q.sectorCount.toNat ≤ q.op.reach

instance : Decidable q.Fits := inferInstanceAs (Decidable (_ ≤ _))

/-- The number of sectors that have been transferred. -/
def moved (c : AtaContext) : Nat := q.sectorCount.toNat - c.sectorsLeft.toNat

theorem served_succ (k : Nat) : q.served (k + 1) = q.served k ++ [q.command k, q.transfer k] := by
  simp [served, List.range_succ]

/-- The steps of a transfer, and its two ends. -/
def steps : List AtaStep :=
  [.ioIssueSelect, .ioIssueTaskfile, .ioWaitIrq, .ioXferBlock, .ioDone, .ioFail]

/-- How far a request has got: the counters of the context, and the accesses to the disk. A command
that waits for its block is the one in the batch. -/
structure Progress (c : AtaContext) (t : Taskfile) (done : List (DiskAccess AtaBuffer)) : Prop where
  step : c.step ∈ steps
  op : c.step.phase = .io → c.op = q.op
  left_le : c.sectorsLeft.toNat ≤ q.sectorCount.toNat
  lba : c.lba.toNat = q.lba.toNat + q.moved c
  ptr : c.ptr = q.addr + BitVec.ofNat 64 (512 * q.moved c)
  selected : c.step = .ioIssueTaskfile → t.driveSel = selectValue q.op c.lba
  accesses : done = q.served (q.moved c) ++ if c.batchLeft = 0 then [] else [q.command (q.moved c)]
  pending : c.batchLeft ≠ 0 → c.sectorsLeft ≠ 0
  finished : c.step = .ioDone → c.sectorsLeft = 0 ∧ c.batchLeft = 0

end AtaIo

section

variable {q : AtaIo} {c c' : AtaContext} {t : Taskfile} {done : List (DiskAccess AtaBuffer)}
  {es : List AtaEvent}

theorem AtaIo.Progress.idle (h : q.Progress c t done) : c.step ≠ .idle := by
  intro hidle
  have hstep := h.step
  simp [hidle, AtaIo.steps] at hstep

/-- The driver goes on to another step and leaves the counters as they are. -/
theorem AtaIo.Progress.goto (h : q.Progress c t done) (step : AtaStep) {op : AtaOp}
    (hstep : step ∈ AtaIo.steps) (hop : step.phase = .io → op = q.op)
    (htask : step ≠ .ioIssueTaskfile)
    (hdone : step = .ioDone → c.sectorsLeft = 0 ∧ c.batchLeft = 0) :
    q.Progress { c with step := step, op := op } t done :=
  ⟨hstep, hop, h.left_le, h.lba, h.ptr, fun hs => absurd hs htask, h.accesses,
    h.pending, hdone⟩

theorem AtaIo.Progress.flags (h : q.Progress c t done) (fired : Bool) (st : BitVec 8) :
    q.Progress { c with irqFired := fired, lastStatus := st } t done :=
  ⟨h.step, h.op, h.left_le, h.lba, h.ptr, h.selected, h.accesses, h.pending, h.finished⟩

theorem AtaIo.Progress.quiet (h : q.Progress c t done) (hes : t.decode es = (t, [])) :
    q.Progress c (t.decode es).1 (done ++ (t.decode es).2) := by
  rw [hes, List.append_nil]
  exact h

theorem AtaIo.Progress.finishIo (h : q.Progress c t done) {success : Bool}
    (hdone : success = true → c.sectorsLeft = 0 ∧ c.batchLeft = 0) :
    q.Progress (c.finishIo success) t done := by
  cases success with
  | false =>
      exact h.goto .ioFail (by decide) AtaPhase.noConfusion AtaStep.noConfusion AtaStep.noConfusion
  | true =>
      exact h.goto .ioDone (by decide) AtaPhase.noConfusion AtaStep.noConfusion fun _ => hdone rfl

theorem SecondLook.decode {fail xfer : AtaContext} (h : SecondLook fail xfer c es c') :
    t.decode es = (t, []) := by
  cases h with
  | bad => rfl
  | drq => rfl
  | none => rfl

theorem IoLook.decode {st : BitVec 8} (h : IoLook c st es c') : t.decode es = (t, []) := by
  cases h with
  | bad => rfl
  | drq => rfl
  | done => rfl
  | next => rfl
  | again _ _ _ h => exact h.decode

theorem IoLook.progress {st : BitVec 8} (h : IoLook c st es c') (hp : q.Progress c t done)
    (hs : c.step = .ioWaitIrq) : q.Progress c' t done := by
  have hop : c.op = q.op := hp.op (by rw [hs]; rfl)
  have hfail : q.Progress (c.finishIo false) t done := hp.finishIo Bool.noConfusion
  have hxfer : q.Progress { c with step := .ioXferBlock } t done :=
    hp.goto .ioXferBlock (by decide) (fun _ => hop) AtaStep.noConfusion AtaStep.noConfusion
  cases h with
  | bad => exact hfail
  | drq => exact hxfer
  | done _ _ hbatch hleft => exact hp.finishIo fun _ => ⟨hleft, hbatch⟩
  | next =>
      exact hp.goto .ioIssueSelect (by decide) (fun _ => hop) AtaStep.noConfusion AtaStep.noConfusion
  | again _ _ _ h =>
      cases h with
      | bad => exact hfail
      | drq => exact hxfer
      | none => exact hp

theorem AtaIo.Progress.xfer (h : q.Progress c t done) (hc : c.Ok) (hs : c.step = .ioXferBlock)
    (hbatch : c.batchLeft ≠ 0) (hfits : q.Fits) :
    q.Progress { c with
      ptr := c.ptr + 512, lba := c.lba + 1, batchLeft := c.batchLeft - 1,
      sectorsLeft := c.sectorsLeft - 1, step := .ioWaitIrq } t (done ++ [q.transfer (q.moved c)]) := by
  obtain ⟨hone, hleft⟩ := hc.batch (by rw [hs]; rfl)
  have hzero : c.batchLeft - 1 = 0 := by bv_omega
  have hpos : (c.sectorsLeft - 1).toNat + 1 = c.sectorsLeft.toNat := by bv_omega
  have hle := h.left_le
  have hmoved : q.sectorCount.toNat - (c.sectorsLeft - 1).toNat = q.moved c + 1 := by
    rw [AtaIo.moved]
    omega
  have hreach : q.op.reach ≤ 2 ^ 48 := by
    unfold AtaOp.reach
    split <;> decide
  have hlt : q.lba.toNat + q.sectorCount.toNat ≤ 2 ^ 48 := Nat.le_trans hfits hreach
  have hmle : q.moved c ≤ q.sectorCount.toNat := Nat.sub_le _ _
  refine ⟨by simp [AtaIo.steps], fun _ => h.op (by rw [hs]; rfl), by simp only; omega, ?_, ?_,
    AtaStep.noConfusion, ?_, fun hn => absurd hzero hn, AtaStep.noConfusion⟩
  · have hnowrap : c.lba.toNat + 1 < 2 ^ 64 := by
      rw [h.lba]
      omega
    calc
      (c.lba + 1).toNat = c.lba.toNat + 1 := by
        rw [BitVec.toNat_add]
        exact Nat.mod_eq_of_lt hnowrap
      _ = q.lba.toNat + (q.sectorCount.toNat - (c.sectorsLeft - 1).toNat) := by
        rw [h.lba, hmoved, Nat.add_assoc]
  · calc
      c.ptr + 512 = q.addr + BitVec.ofNat 64 (512 * (q.moved c + 1)) := by
        rw [h.ptr, BitVec.add_assoc, Nat.mul_add, BitVec.ofNat_add]
        rfl
      _ = q.addr + BitVec.ofNat 64 (512 * (q.sectorCount.toNat - (c.sectorsLeft - 1).toNat)) := by
        rw [hmoved]
  · calc
      done ++ [q.transfer (q.moved c)] = q.served (q.moved c + 1) ++ [] := by
        rw [h.accesses, if_neg hbatch, q.served_succ, List.append_assoc, List.append_nil]
        rfl
      _ = q.served (q.sectorCount.toNat - (c.sectorsLeft - 1).toNat) ++
          if c.batchLeft - 1 = 0 then [] else [q.command (q.sectorCount.toNat -
            (c.sectorsLeft - 1).toNat)] := by
        rw [hmoved, if_pos hzero]

theorem HandleStep.progress (h : HandleStep c es c') (hp : q.Progress c t done) (hc : c.Ok)
    (hop : q.op.phase = .io) (hfits : q.Fits) :
    q.Progress c' (t.decode es).1 (done ++ (t.decode es).2) := by
  have hsteps := hp.step
  cases h with
  | initSelect _ hs | identifyCmd _ hs | identifyQuiet _ hs | identifyWait _ hs
  | identifyXfer _ hs => simp [hs, AtaIo.steps] at hsteps
  | initIgnored => exact hp.quiet rfl
  | ioIgnored => exact hp.quiet rfl
  | ioSelect _ hs =>
      have hdecode : t.decode [.outb ataRegDriveSel (selectValue c.op c.lba)] =
          ({ t with driveSel := selectValue c.op c.lba }, ([] : List (DiskAccess AtaBuffer))) := rfl
      have hcop : c.op = q.op := hp.op (by rw [hs]; rfl)
      rw [hdecode, List.append_nil, hcop]
      exact ⟨by simp [AtaIo.steps], fun _ => rfl, hp.left_le, hp.lba, hp.ptr, fun _ => rfl,
        hp.accesses, hp.pending, AtaStep.noConfusion⟩
  | ioNothing _ hs hleft => exact absurd hleft (hc.issue (.inr hs)).2
  | ioTaskfile _ hs hleft =>
      have hcop : c.op = q.op := hp.op (by rw [hs]; rfl)
      have hlt : c.lba.toNat < q.op.reach := by
        have hpos : 0 < c.sectorsLeft.toNat := by bv_omega
        have hle := hp.left_le
        rw [hp.lba, AtaIo.moved]
        unfold AtaIo.Fits at hfits
        omega
      rw [hcop, decode_ioTaskfile hop (hp.selected hs) hlt, hp.accesses, (hc.issue (.inr hs)).1]
      refine ⟨by simp [AtaIo.steps], fun _ => rfl, hp.left_le, hp.lba, hp.ptr, AtaStep.noConfusion,
        ?_, fun _ => hleft, AtaStep.noConfusion⟩
      rw [hp.lba, if_pos rfl, List.append_nil]
      rfl
  | ioQuiet => exact hp.quiet rfl
  | ioFired _ hs _ hlook => exact (hlook.progress (hp.flags false c.lastStatus) hs).quiet hlook.decode
  | ioPolled _ hs _ _ hlook => exact (hlook.progress hp hs).quiet hlook.decode
  | ioEmptyBlock _ hs =>
      have hcop : c.op = q.op := hp.op (by rw [hs]; rfl)
      exact AtaIo.Progress.quiet
        (hp.goto .ioWaitIrq (by decide) (fun _ => hcop) AtaStep.noConfusion AtaStep.noConfusion) rfl
  | ioXfer _ hs hbatch =>
      have hdecode : t.decode [blockTransfer c.op c.ptr 256] = (t, [q.transfer (q.moved c)]) := by
        rw [hp.op (by rw [hs]; rfl), hp.ptr]
        by_cases hr : q.op.Reads
        · simp [blockTransfer, AtaIo.transfer, hr, Taskfile.decode, Taskfile.step]
        · simp [blockTransfer, AtaIo.transfer, hr, Taskfile.decode, Taskfile.step]
      rw [hdecode]
      exact hp.xfer hc hs hbatch hfits

theorem ActionStep.progress {a : AtaAction} (h : ActionStep c a es c') (hp : q.Progress c t done)
    (hc : c.Ok) (hop : q.op.phase = .io) (hfits : q.Fits) :
    q.Progress c' (t.decode es).1 (done ++ (t.decode es).2) := by
  cases h with
  | accepted ha => exact absurd ha.1 hp.idle
  | refused => exact hp.quiet rfl
  | irq14 => exact (hp.flags true _).quiet rfl
  | tick h =>
      cases h with
      | delay =>
          exact AtaIo.Progress.quiet ⟨hp.step, hp.op, hp.left_le, hp.lba, hp.ptr, hp.selected,
            hp.accesses, hp.pending, hp.finished⟩ rfl
      | delayEnd _ h =>
          exact h.progress (q := q) ⟨hp.step, hp.op, hp.left_le, hp.lba, hp.ptr, hp.selected,
            hp.accesses, hp.pending, hp.finished⟩
            ⟨hc.phase, Nat.zero_le 4, fun hn => absurd rfl hn, hc.batch, hc.issue⟩ hop hfits
      | handle _ h => exact h.progress hp hc hop hfits

theorem AtaRequest.io?_phase {r : AtaRequest} (h : r.io? = some q) : q.op.phase = .io := by
  cases r with
  | init28 => cases h
  | init48 => cases h
  | read28 lba addr n => cases h; rfl
  | write28 lba addr n => cases h; rfl
  | read48 lba addr n => cases h; rfl
  | write48 lba addr n => cases h; rfl

theorem AtaIo.start_ok (q : AtaIo) (hop : q.op.phase = .io) (hn : q.sectorCount ≠ 0) : q.start.Ok :=
  ⟨hop, Nat.zero_le 4, fun hd => absurd rfl hd,
    fun _ => ⟨Nat.zero_le 1, Nat.zero_le q.sectorCount.toNat⟩, fun _ => ⟨rfl, hn⟩⟩

theorem AtaIo.start_progress (q : AtaIo) (t : Taskfile) : q.Progress q.start t [] := by
  have hmoved : q.moved q.start = 0 := Nat.sub_self _
  refine ⟨by simp [AtaIo.steps, AtaIo.start], fun _ => rfl, Nat.le_refl q.sectorCount.toNat, ?_, ?_,
    AtaStep.noConfusion, ?_, fun hn => absurd rfl hn, AtaStep.noConfusion⟩
  · rw [hmoved]
    rfl
  · rw [hmoved]
    exact (BitVec.add_zero q.addr).symm
  · rw [hmoved]
    rfl

theorem ataRun_progress {dev : Answer AtaBuffer} {s : AtaState} (hs : s.ctx = q.start)
    (hn : q.sectorCount ≠ 0) (hop : q.op.phase = .io) (hfits : q.Fits) (t : Taskfile)
    (as : List AtaAction) :
    ∃ es, (ataRun dev s as).trace = s.trace ++ es ∧
      q.Progress (ataRun dev s as).ctx (t.decode es).1 (t.decode es).2 := by
  refine (ataRun_invariant (fun s' => s'.ctx.Ok ∧ ∃ es, s'.trace = s.trace ++ es ∧
    q.Progress s'.ctx (t.decode es).1 (t.decode es).2) ?_ ?_ as).2
  · rintro s' a es c' ⟨hok, es₀, htrace, hp⟩ hstep
    refine ⟨hstep.ok hok, es₀ ++ es, by rw [htrace, List.append_assoc], ?_⟩
    rw [Taskfile.decode_append]
    exact hstep.progress hp hok hop hfits
  · rw [hs]
    exact ⟨q.start_ok hop hn, [], (List.append_nil _).symm, q.start_progress t⟩

end

end BootKernel
