import BootKernel.Ata.Irq.Drive
import BootKernel.Ata.Irq.LostStatus
import BootKernel.Ata.Irq.LostError

/-!
# What the interrupt driven driver guarantees

Runs of the driver from its initial state, where the kernel may call any function at any time, the
interrupt handler may run between any two calls, and the drive may answer anything.
-/

namespace BootKernel

open PortProgram

/-! ## One request after another -/

section

variable {dev : Answer AtaBuffer} {s : AtaState} {r : AtaRequest}

theorem ataBegin_cases (dev : Answer AtaBuffer) (s : AtaState) (r : AtaRequest) :
    (ataBegin dev s r).1 = true ∧ r.Accepted s.ctx ∧ (ataBegin dev s r).2.ctx = r.started s.ctx ∨
      (ataBegin dev s r).1 = false ∧ ¬ r.Accepted s.ctx ∧ (ataBegin dev s r).2.ctx = s.ctx := by
  obtain ⟨es, hr, -⟩ := exec_runs (traced dev) r.begin s.ctx s.trace
  exact (AtaRequest.begin_runs hr).2

theorem ataBegin_trace (dev : Answer AtaBuffer) (s : AtaState) (r : AtaRequest) :
    (ataBegin dev s r).2.trace = s.trace := by
  obtain ⟨es, hr, ha⟩ := exec_runs (traced dev) r.begin s.ctx s.trace
  obtain ⟨rfl, -⟩ := AtaRequest.begin_runs hr
  exact ha

theorem ataBegin_iff {q : AtaIo} (hio : r.io? = some q) (hn : q.sectorCount ≠ 0) :
    (ataBegin dev s r).1 = true ↔ s.ctx.step = .idle := by
  rcases ataBegin_cases dev s r with ⟨hres, hacc, -⟩ | ⟨hres, hacc, -⟩
  · exact iff_of_true hres hacc.1
  · refine iff_of_false (by simp [hres]) fun hidle => hacc ⟨hidle, fun q' hq' => ?_⟩
    rw [hio] at hq'
    cases hq'
    exact hn

end

/-- The steps in which a request has been completed. -/
def AtaContext.Completed (c : AtaContext) : Prop :=
  c.step = .initDone ∨ c.step = .ioDone ∨ c.step = .ioFail

/-- Once a request has been completed the next one is taken and begun, and a refused request leaves
the context as it is. -/
def TakesNext (dev : Answer AtaBuffer) (s : AtaState) : Prop :=
  (s.ctx.Completed → ∀ r q, r.io? = some q → q.sectorCount ≠ 0 →
    (ataBegin dev s r).1 = true ∧ (ataBegin dev s r).2.ctx = q.start) ∧
    ∀ r, (ataBegin dev s r).1 = false → (ataBegin dev s r).2.ctx = s.ctx

/-- No step leads back to the one in which requests are taken, so the driver serves one request and
refuses every other one. -/
theorem ataRun_takesNext_iff (dev : Answer AtaBuffer) (as : List AtaAction) :
    (TakesNext dev (ataRun dev ataStart as) ↔ ¬ (ataRun dev ataStart as).ctx.Completed) ∧
      ∀ r q, r.io? = some q → q.sectorCount ≠ 0 →
        ((ataBegin dev (ataRun dev ataStart as) r).1 = true ↔
          (ataRun dev ataStart as).ctx.step = .idle) := by
  refine ⟨⟨fun htakes hdone => ?_, fun hdone => ⟨fun h => absurd h hdone, fun r hres => ?_⟩⟩,
    fun r q hio hn => ataBegin_iff hio hn⟩
  · have hres := (htakes.1 hdone (.read48 0 0 1) ⟨.read48, 0, 0, 1⟩ rfl (by decide)).1
    have hidle := (ataBegin_iff rfl (by decide : (1 : BitVec 32) ≠ 0)).mp hres
    rw [AtaContext.Completed, hidle] at hdone
    simp at hdone
  · rcases ataBegin_cases dev (ataRun dev ataStart as) r with ⟨h, -, -⟩ | ⟨-, -, hctx⟩
    · rw [h] at hres
      cases hres
    · exact hctx

/-- A drive that has data, and is ready when it is asked through the control register. -/
def readyDrive : Answer AtaBuffer := fun _ port => if port = ataRegStatus then 0x58 else 0x50

/-- The calls of an initialisation, up to its end. -/
def initCalls : List AtaAction :=
  [.begin .init28, .tick, .tick, .tick, .tick, .tick, .irq14, .tick, .tick]

theorem ataRun_initDone_refuses :
    (ataRun readyDrive ataStart initCalls).ctx.step = .initDone ∧
      (ataBegin readyDrive (ataRun readyDrive ataStart initCalls) (.read28 0 0x100000 1)).1 = false ∧
      ¬ TakesNext readyDrive (ataRun readyDrive ataStart initCalls) := by
  have hdone : (ataRun readyDrive ataStart initCalls).ctx.step = .initDone := by decide
  have hres : (ataBegin readyDrive (ataRun readyDrive ataStart initCalls)
      (.read28 0 0x100000 1)).1 = false := by decide
  refine ⟨hdone, hres, fun htakes => ?_⟩
  have h := (htakes.1 (.inl hdone) (.read28 0 0x100000 1) _ rfl (by decide)).1
  rw [hres] at h
  cases h

/-! ## The sectors of a request -/

/-- Whatever the drive answers and whenever the handler runs, the accesses to the disk since a request
was taken are one command for one sector and one transfer for each sector in turn, and the counters
say how many of them there have been. A last command may still wait for its transfer. -/
theorem ataRun_serves {dev : Answer AtaBuffer} {s : AtaState} {r : AtaRequest} {q : AtaIo}
    (hio : r.io? = some q) (hres : (ataBegin dev s r).1 = true) (hfits : q.Fits) (t : Taskfile)
    (as : List AtaAction) :
    let s' := ataRun dev (ataBegin dev s r).2 as
    let k := q.sectorCount.toNat - s'.ctx.sectorsLeft.toNat
    ∃ es, s'.trace = s.trace ++ es ∧
      s'.ctx.sectorsLeft.toNat ≤ q.sectorCount.toNat ∧
      ((t.decode es).2 = q.served k ∨ (t.decode es).2 = q.served k ++ [q.command k] ∧
        k < q.sectorCount.toNat) ∧
      s'.ctx.lba.toNat = q.lba.toNat + k ∧
      s'.ctx.ptr = q.addr + BitVec.ofNat 64 (512 * k) ∧
      (s'.ctx.step = .ioDone → (t.decode es).2 = q.served q.sectorCount.toNat) := by
  rcases ataBegin_cases dev s r with ⟨-, hacc, hctx⟩ | ⟨hno, -, -⟩
  · rw [AtaRequest.started_of_io hio] at hctx
    obtain ⟨es, htrace, hp⟩ :=
      ataRun_progress hctx (hacc.2 q hio) (AtaRequest.io?_phase hio) hfits t as
    rw [ataBegin_trace] at htrace
    refine ⟨es, htrace, hp.left_le, ?_, hp.lba, hp.ptr, fun hdone => ?_⟩
    · by_cases hbatch : (ataRun dev (ataBegin dev s r).2 as).ctx.batchLeft = 0
      · exact .inl (by rw [hp.accesses, if_pos hbatch, List.append_nil]; rfl)
      · have hpos : 0 < (ataRun dev (ataBegin dev s r).2 as).ctx.sectorsLeft.toNat := by
          have hne := hp.pending hbatch
          bv_omega
        have hle := hp.left_le
        exact .inr ⟨by rw [hp.accesses, if_neg hbatch]; rfl, by omega⟩
    · obtain ⟨hleft, hbatch⟩ := hp.finished hdone
      rw [hp.accesses, if_pos hbatch, List.append_nil, AtaIo.moved, hleft]
      rfl
  · rw [hno] at hres
    cases hres

/-- The ticks and the interrupt that serve one sector. -/
def sectorCalls : List AtaAction :=
  [.tick, .tick, .tick, .tick, .tick, .irq14, .tick, .tick, .tick]

theorem ataRun_serves_read :
    (ataRun readyDrive (ataBegin readyDrive ataStart (.read28 5 0x100000 2)).2
        (sectorCalls ++ sectorCalls)).ctx.step = .ioDone ∧
      ∃ es, (ataRun readyDrive (ataBegin readyDrive ataStart (.read28 5 0x100000 2)).2
          (sectorCalls ++ sectorCalls)).trace = [] ++ es ∧
        (Taskfile.decode ⟨0, ⟨0, 0⟩, ⟨0, 0⟩, ⟨0, 0⟩, ⟨0, 0⟩⟩ es).2 =
          (AtaIo.mk .read28 5 0x100000 2).served 2 := by
  have hdone : (ataRun readyDrive (ataBegin readyDrive ataStart (.read28 5 0x100000 2)).2
      (sectorCalls ++ sectorCalls)).ctx.step = .ioDone := by decide
  obtain ⟨es, htrace, -, -, -, -, hserved⟩ := ataRun_serves (q := ⟨.read28, 5, 0x100000, 2⟩)
    rfl (by decide : (ataBegin readyDrive ataStart (.read28 5 0x100000 2)).1 = true) (by decide)
    ⟨0, ⟨0, 0⟩, ⟨0, 0⟩, ⟨0, 0⟩, ⟨0, 0⟩⟩ (sectorCalls ++ sectorCalls)
  exact ⟨hdone, es, htrace, hserved hdone⟩

/-! ## Waiting for each other -/

/-- Ticks, steps of the drive and runs of the handler, in any order, never lead to a state in which
the drive and the driver wait for each other exactly if the request is a read. -/
theorem jointRun_no_mutualWait_iff (S : DriveStatus) {c : AtaContext} {intrq : Bool} {r : AtaRequest}
    {q : AtaIo} (hio : r.io? = some q) (hres : (jointBegin S c intrq r).1 = true) :
    (∀ as, ¬ MutualWait S (jointRun S (jointBegin S c intrq r).2 as)) ↔ q.op.Reads := by
  obtain ⟨hn, hbegin⟩ := jointBegin_accepted hio hres
  have hop := AtaRequest.io?_phase hio
  rw [hbegin]
  constructor
  · intro h
    by_contra hw
    exact h _ (write_mutualWait S hop hw hn intrq)
  · exact fun hr as => (jointRun_reading (AtaIo.start_reading S hop hr hn intrq) as).no_mutualWait

def sampleStatus : DriveStatus where
  busy := 0x80
  data := 0x58
  ready := 0x50
  busy_bsy := by decide
  data_bsy := by decide
  data_drq := by decide
  data_good := by decide
  ready_bsy := by decide
  ready_drq := by decide
  ready_good := by decide

theorem jointRun_no_mutualWait_iff_read :
    (jointBegin sampleStatus gAtaCtx false (.read48 7 0x100000 3)).1 = true ∧
      ∀ as, ¬ MutualWait sampleStatus
        (jointRun sampleStatus (jointBegin sampleStatus gAtaCtx false (.read48 7 0x100000 3)).2 as) := by
  have hres : (jointBegin sampleStatus gAtaCtx false (.read48 7 0x100000 3)).1 = true := by decide
  exact ⟨hres, (jointRun_no_mutualWait_iff sampleStatus rfl hres).mpr (.inr rfl)⟩

/-- The first write command already ends in such a state. -/
theorem jointRun_write_mutualWait :
    (jointBegin sampleStatus gAtaCtx false (.write28 0 0x100000 1)).1 = true ∧
      ¬ ∀ as, ¬ MutualWait sampleStatus (jointRun sampleStatus
        (jointBegin sampleStatus gAtaCtx false (.write28 0 0x100000 1)).2 as) := by
  have hres : (jointBegin sampleStatus gAtaCtx false (.write28 0 0x100000 1)).1 = true := by decide
  refine ⟨hres, fun h => ?_⟩
  rw [(jointBegin_accepted (q := ⟨.write28, 0, 0x100000, 1⟩) rfl hres).2] at h
  exact h _ (write_mutualWait sampleStatus rfl (by decide) (by decide) false)

/-! ## Interrupts between any two operations -/

/-- If no interrupt comes before a flag reset has ended, then what the handler records is in the flags
until a tick consumes it. -/
theorem ataMoves_status_kept (c : AtaContext) {ms : List (Move AtaCall)}
    (hms : ataWatched.Respects OutsideReset (ataBetween c ataUnwatched) ms) :
    ¬ StatusLost (ataWatched.moves (ataBetween c ataUnwatched) ms).point := by
  have hstart : KeepsStatus (.ret ()) (c, ataUnwatched) := kept_unwatched c
  exact System.moves_safe (fun k _ hx => keepsStatus_call k hx) (stable_kept true)
    (fun _ hx => hx.not_lost) hstart hms

/-- A call of the kernel whose reads all get `v`. -/
def calling (k : AtaCall) (v : BitVec 8) : List (Move AtaCall) :=
  .call k :: List.replicate 30 (.step v)

def ticking (n : Nat) (v : BitVec 8) : List (Move AtaCall) :=
  (List.replicate n (calling .tick v)).flatten

/-- An initialisation up to the command, and `n` more operations before the interrupt. -/
def identifyMoves (n : Nat) : List (Move AtaCall) :=
  calling (.begin .init28) 0 ++ ticking 4 0 ++
    .call .tick :: List.replicate (13 + n) (.step 0) ++ .interrupt 0x58 :: List.replicate 9 (.step 0)

theorem ataMoves_status_kept_identify :
    ¬ StatusLost (ataWatched.moves (ataBetween gAtaCtx ataUnwatched) (identifyMoves 2)).point :=
  ataMoves_status_kept gAtaCtx (by decide +kernel)

/-- The interrupt that comes right after the command is wiped out, and the driver waits for it. -/
theorem ataMoves_status_lost :
    ∃ ms, StatusLost (ataWatched.moves (ataBetween gAtaCtx ataUnwatched) ms).point ∧
      (ataWatched.moves (ataBetween gAtaCtx ataUnwatched) ms).state.irqFired = false :=
  ⟨identifyMoves 0, ⟨by decide +kernel, 0x58, by decide +kernel, by decide +kernel⟩,
    by decide +kernel⟩

/-- If every bad status comes where the wait step looks at it next, and no other one comes after it,
then a transfer with an error does not end as if there had been none. -/
theorem ataMoves_error_heard (c : AtaContext) {ms : List (Move AtaCall)}
    (hms : ataWatched.Respects Heeded (ataBetween c ataUnwatched) ms) :
    ¬ ErrorLost (ataWatched.moves (ataBetween c ataUnwatched) ms).point := by
  have hstart : HearsErrors (.ret ()) (c, ataUnwatched) :=
    ⟨fun hb => by simp [ataUnwatched] at hb, fun _ => rfl⟩
  exact System.moves_safe (fun k _ hx => hearsErrors_call k hx) (stable_heard true)
    (fun _ hx => hx.not_lost) hstart hms

/-- A read whose command ends with an error. -/
def failingRead : List (Move AtaCall) :=
  calling (.begin (.read28 0 0x100000 1)) 0 ++ ticking 5 0 ++ .interrupt 0x51 :: ticking 1 0

theorem ataMoves_error_heard_read :
    (ataWatched.moves (ataBetween gAtaCtx ataUnwatched) failingRead).record.bad = true ∧
      ¬ ErrorLost (ataWatched.moves (ataBetween gAtaCtx ataUnwatched) failingRead).point :=
  ⟨by decide +kernel, ataMoves_error_heard gAtaCtx (by decide +kernel)⟩

/-- A write of two sectors. The driver polls while the drive is still busy with the first one and goes
on, so that the error is reported while the second command is prepared. -/
def overtakenWrite : List (Move AtaCall) :=
  calling (.begin (.write28 0 0x100000 2)) 0 ++ ticking 5 0 ++ .interrupt 0x58 :: ticking 3 0xD0 ++
    ticking 1 0 ++ .interrupt 0x51 :: ticking 4 0 ++ .interrupt 0x58 :: ticking 3 0xD0

theorem ataMoves_error_lost :
    ∃ ms, ErrorLost (ataWatched.moves (ataBetween gAtaCtx ataUnwatched) ms).point :=
  ⟨overtakenWrite, by decide +kernel, by decide +kernel⟩

end BootKernel
