import BootKernel.Ata.Poll.Defs
import BootKernel.Ata.Irq.Transfer

/-!
# The accesses of a polled transfer

One relation says which accesses a transfer can make, whatever the drive answers. What the drive is
told, and what the driver has seen before, are derived from it.
-/

namespace BootKernel

open PortProgram

/-! ## Waiting -/

/-- BSY = 0, DRDY = 1, ERR = DF = 0. -/
def StatusReady (st : BitVec 8) : Prop :=
  ataStatusIsBusy st = false ∧ ataStatusIsDrdy st = true ∧ ataStatusHasError st = false

/-- BSY = 0, DRQ = 1, ERR = DF = 0. -/
def StatusHasBlock (st : BitVec 8) : Prop :=
  ataStatusIsBusy st = false ∧ ataStatusHasDrq st = true ∧ ataStatusHasError st = false

/-- The accesses are reads. -/
def Reads (es : List AtaEvent) : Prop := ∀ e ∈ es, ∃ port v, e = .inb port v

/-- The accesses are reads, and the last one gets a status of the given kind. -/
def ReadsUntil (P : BitVec 8 → Prop) (es : List AtaEvent) : Prop :=
  ∃ w st, es = w ++ [.inb ataRegStatus st] ∧ Reads w ∧ P st

section

variable {P : BitVec 8 → Prop} {es es' : List AtaEvent} {b : Bool} {n : Nat} {v : BitVec 8}

theorem Reads.nil : Reads [] := fun _ h => nomatch h

theorem Reads.cons {port : BitVec 16} (h : Reads es) : Reads (.inb port v :: es) := by
  intro e he
  cases he with
  | head => exact ⟨port, v, rfl⟩
  | tail _ he => exact h e he

theorem Reads.append (h : Reads es) (h' : Reads es') : Reads (es ++ es') := fun e he =>
  (List.mem_append.mp he).elim (h e) (h' e)

theorem ReadsUntil.reads (h : ReadsUntil P es) : Reads es := by
  obtain ⟨w, st, rfl, hw, -⟩ := h
  exact hw.append (Reads.nil.cons)

theorem ReadsUntil.cons {port : BitVec 16} (h : ReadsUntil P es) :
    ReadsUntil P (.inb port v :: es) := by
  obtain ⟨w, st, rfl, hw, hst⟩ := h
  exact ⟨.inb port v :: w, st, rfl, hw.cons, hst⟩

theorem Reads.append_until (h : Reads es) (h' : ReadsUntil P es') : ReadsUntil P (es ++ es') := by
  obtain ⟨w, st, rfl, hw, hst⟩ := h'
  exact ⟨es ++ w, st, (List.append_assoc es w _).symm, h.append hw, hst⟩

theorem ReadsUntil.single (h : P v) : ReadsUntil P [.inb ataRegStatus v] :=
  ⟨[], v, rfl, Reads.nil, h⟩

/-- What a wait loop does: it reads, and its last read is what it returns. -/
def Waits (P : BitVec 8 → Prop) (b : Bool) (es : List AtaEvent) : Prop :=
  if b then ReadsUntil P es else Reads es

theorem Waits.cons {port : BitVec 16} (h : Waits P b es) : Waits P b (.inb port v :: es) := by
  cases b with
  | false => exact Reads.cons h
  | true => exact ReadsUntil.cons h

/-- A loop that reads the status until a look at it gives a result, at most `n` times. -/
def pollUntil (look : BitVec 8 → Option Bool) (late : Bool) : Nat → Poll Bool
  | 0 => return late
  | n + 1 => do
      match look (← ataStatusGet) with
      | some b => return b
      | none => pollUntil look late n

theorem pollUntil_runs {look : BitVec 8 → Option Bool} (hlook : ∀ st, look st = some true → P st)
    (h : Runs (pollUntil look false n) () es b ()) : Waits P b es := by
  induction n generalizing es with
  | zero =>
      obtain ⟨rfl, rfl, -⟩ := h
      exact Reads.nil
  | succ n ih =>
      obtain ⟨st, es, rfl, h⟩ := h
      change Runs (match look st with
        | some b => .ret b
        | none => pollUntil look false n) () es b () at h
      cases hst : look st with
      | none =>
          rw [hst] at h
          exact (ih h).cons
      | some b' =>
          rw [hst] at h
          obtain ⟨rfl, rfl, -⟩ := h
          cases b with
          | false => exact Reads.nil.cons
          | true => exact ReadsUntil.single (hlook st hst)

def idleLook (st : BitVec 8) : Option Bool :=
  if st = ataStatusFloating then some false
  else if ataStatusIsBusy st then none
  else if ataStatusHasError st then some false
  else if !ataStatusIsDrdy st then none
  else some true

def drqLook (st : BitVec 8) : Option Bool :=
  if st = ataStatusFloating then some false
  else if ataStatusIsBusy st then none
  else if ataStatusHasError st then some false
  else if ataStatusHasDrq st then some true
  else none

theorem ataWaitIdleLoop_eq (n : Nat) : ataWaitIdleLoop n = pollUntil idleLook false n := by
  induction n with
  | zero => rfl
  | succ n ih =>
      refine congrArg (ataStatusGet >>= ·) (funext fun st => ?_)
      rw [idleLook]
      repeat' split
      all_goals simp_all

theorem ataWaitDrqLoop_eq (n : Nat) : ataWaitDrqLoop n = pollUntil drqLook false n := by
  induction n with
  | zero => rfl
  | succ n ih =>
      refine congrArg (ataStatusGet >>= ·) (funext fun st => ?_)
      rw [drqLook]
      repeat' split
      all_goals simp_all

theorem ataWaitIdle_runs (h : Runs ataWaitIdle () es b ()) : Waits StatusReady b es := by
  rw [ataWaitIdle, ataWaitIdleLoop_eq] at h
  refine pollUntil_runs (fun st hst => ?_) h
  grind [idleLook, StatusReady]

theorem ataWaitDrq_runs (h : Runs ataWaitDrq () es b ()) : Waits StatusHasBlock b es := by
  rw [ataWaitDrq, ataWaitDrqLoop_eq] at h
  refine pollUntil_runs (fun st hst => ?_) h
  grind [drqLook, StatusHasBlock]

theorem ataControlReads_runs (h : Runs ataControlReads () es () ()) : Reads es := by
  obtain ⟨v₁, _, rfl, v₂, _, rfl, v₃, _, rfl, v₄, _, rfl, rfl, -⟩ := h
  exact Reads.nil.cons.cons.cons.cons

end

/-! ## Guards -/

/-- The access moves the words of a block. -/
def IsBlock (e : AtaEvent) : Prop :=
  (∃ port buf n, e = .insw port buf n) ∨ ∃ port buf n, e = .outsw port buf n

/-- A command comes after a ready status, with no block in between, and a block comes right after a
status that offers it. -/
def PollGuard (pre : List AtaEvent) (e : AtaEvent) : Prop :=
  (∀ v, e = .outb ataRegCommand v →
    ∃ a st mid, pre = a ++ .inb ataRegStatus st :: mid ∧ StatusReady st ∧ ∀ e ∈ mid, ¬ IsBlock e) ∧
    (IsBlock e → ∃ a st, pre = a ++ [.inb ataRegStatus st] ∧ StatusHasBlock st)

/-- Neither a command nor a block. -/
def Plain (e : AtaEvent) : Prop := (∀ v, e ≠ .outb ataRegCommand v) ∧ ¬ IsBlock e

theorem PollGuard.of_plain {e : AtaEvent} (h : Plain e) (pre : List AtaEvent) : PollGuard pre e :=
  ⟨fun v hv => absurd hv (h.1 v), fun hb => absurd hb h.2⟩

theorem PollGuard.extend (p pre : List AtaEvent) (e : AtaEvent) (h : PollGuard pre e) :
    PollGuard (p ++ pre) e := by
  refine ⟨fun v hv => ?_, fun hb => ?_⟩
  · obtain ⟨a, st, mid, rfl, hst, hmid⟩ := h.1 v hv
    exact ⟨p ++ a, st, mid, (List.append_assoc p a _).symm, hst, hmid⟩
  · obtain ⟨a, st, rfl, hst⟩ := h.2 hb
    exact ⟨p ++ a, st, (List.append_assoc p a _).symm, hst⟩

theorem Reads.plain {es : List AtaEvent} (h : Reads es) : ∀ e ∈ es, Plain e := by
  intro e he
  obtain ⟨port, v, rfl⟩ := h e he
  exact ⟨nofun, by simp [IsBlock]⟩

theorem guarded_of_plain {es : List AtaEvent} (h : ∀ e ∈ es, Plain e) : Guarded PollGuard es :=
  .of_forall fun e he pre => .of_plain (h e he) pre

/-! ## What a transfer does -/

def PollTransfer.io : PollTransfer → AtaIo
  | .read28 lba addr n => ⟨.read28, lba.setWidth 64, addr, n⟩
  | .write28 lba addr n => ⟨.write28, lba.setWidth 64, addr, n⟩
  | .read48 lba addr n => ⟨.read48, lba, addr, n⟩
  | .write48 lba addr n => ⟨.write48, lba, addr, n⟩

namespace AtaIo

variable (q : AtaIo)

/-- The command for sector `k`, as far as its address registers reach. -/
def addressed (k : Nat) : DiskAccess AtaBuffer :=
  .command q.op.code ((q.lba.toNat + k) % q.op.reach) 1

def reached (k : Nat) : List (DiskAccess AtaBuffer) :=
  (List.range k).flatMap fun j => [q.addressed j, q.transfer j]

theorem reached_succ (k : Nat) : q.reached (k + 1) = q.reached k ++ [q.addressed k, q.transfer k] := by
  simp [reached, List.range_succ]

theorem addressed_eq {k : Nat} (hfits : q.Fits) (hk : k < q.sectorCount.toNat) :
    q.addressed k = q.command k := by
  unfold Fits at hfits
  rw [addressed, Nat.mod_eq_of_lt (by omega)]
  rfl

theorem reached_eq {m : Nat} (hfits : q.Fits) (hm : m ≤ q.sectorCount.toNat) :
    q.reached m = q.served m := by
  induction m with
  | zero => rfl
  | succ m ih => rw [q.reached_succ, q.served_succ, ih (by omega), q.addressed_eq hfits (by omega)]

/-- The access that moves block `k`. -/
def block (k : Nat) : AtaEvent := blockTransfer q.op (q.addr + BitVec.ofNat 64 (512 * k)) 256

/-- The accesses that select sector `k`: the command that follows is the one for this sector. -/
structure Selects (k : Nat) (es : List AtaEvent) : Prop where
  plain : ∀ e ∈ es, Plain e
  command : ∀ (t : Taskfile) (es' : List AtaEvent), Reads es' →
    (t.decode (es ++ .outb ataRegCommand q.op.code :: es')).2 = [q.addressed k]

/-- The accesses that a transfer can make when its first `k` blocks have been moved, and what it
returns. -/
inductive PollRun : Nat → List AtaEvent → Bool → Prop where
  | done {w} : ReadsUntil StatusReady w → PollRun q.sectorCount.toNat w true
  | notIdle {k w} : k ≤ q.sectorCount.toNat → Reads w → PollRun k w false
  | noBlock {k w sel r} : k < q.sectorCount.toNat → ReadsUntil StatusReady w → q.Selects k sel →
      Reads r → PollRun k (w ++ (sel ++ .outb ataRegCommand q.op.code :: r)) false
  | block {k w sel r es b} : k < q.sectorCount.toNat → ReadsUntil StatusReady w → q.Selects k sel →
      ReadsUntil StatusHasBlock r → PollRun (k + 1) es b →
      PollRun k (w ++ (sel ++ .outb ataRegCommand q.op.code :: r) ++ q.block k :: es) b

end AtaIo

section

variable {q : AtaIo} {es : List AtaEvent} {b : Bool} {k n w : Nat} {lba : BitVec w}
  {ptr : BitVec 64} {select : BitVec w → Poll Unit} {move : BitVec 64 → Poll Unit}

theorem toNat_succ_mod {x : BitVec w} {m a : Nat} (hm : m ∣ 2 ^ w) (h : x.toNat % m = a % m) :
    (x + 1).toNat % m = (a + 1) % m := by
  change (x + BitVec.ofNat w 1).toNat % m = (a + 1) % m
  rw [BitVec.toNat_add, BitVec.toNat_ofNat, Nat.add_mod_mod, Nat.mod_mod_of_dvd _ hm, Nat.add_mod, h,
    ← Nat.add_mod]

theorem ataDiskPoll_runs (hw : q.op.reach ∣ 2 ^ w)
    (hsel : ∀ k lba es, lba.toNat % q.op.reach = (q.lba.toNat + k) % q.op.reach →
      Runs (select lba) () es () () → q.Selects k es)
    (hmove : ∀ k es, Runs (move (q.addr + BitVec.ofNat 64 (512 * k))) () es () () → es = [q.block k])
    (hk : n + k = q.sectorCount.toNat) (hlba : lba.toNat % q.op.reach = (q.lba.toNat + k) % q.op.reach)
    (hptr : ptr = q.addr + BitVec.ofNat 64 (512 * k))
    (h : Runs (ataDiskPoll select q.op.code move n lba ptr) () es b ()) : q.PollRun k es b := by
  induction n generalizing k lba ptr es with
  | zero =>
      obtain ⟨es₁, es₂, idle, ⟨⟩, rfl, hidle, h⟩ := runs_bind.mp h
      have hwait := ataWaitIdle_runs hidle
      cases idle with
      | true =>
          obtain ⟨rfl, rfl, -⟩ := h
          rw [List.append_nil, show k = q.sectorCount.toNat by omega]
          exact .done hwait
      | false =>
          obtain ⟨rfl, rfl, -⟩ := h
          rw [List.append_nil]
          exact .notIdle (by omega) hwait
  | succ n ih =>
      have hlt : k < q.sectorCount.toNat := by omega
      obtain ⟨es₁, es₂, idle, ⟨⟩, rfl, hidle, h⟩ := runs_bind.mp h
      have hwait := ataWaitIdle_runs hidle
      cases idle with
      | false =>
          obtain ⟨rfl, rfl, -⟩ := h
          rw [List.append_nil]
          exact .notIdle (by omega) hwait
      | true =>
          obtain ⟨es₂, es₃, ⟨⟩, ⟨⟩, rfl, hs, h₁⟩ := runs_bind.mp h
          have hselects := hsel k lba es₂ hlba hs
          obtain ⟨es₄, rfl, h₂⟩ := h₁
          obtain ⟨es₅, es₆, ⟨⟩, ⟨⟩, rfl, hreads, h₃⟩ := (runs_bind (x := ataControlReads)).mp h₂
          have hreads := ataControlReads_runs hreads
          obtain ⟨es₇, es₈, drq, ⟨⟩, rfl, hdrq, h₄⟩ := runs_bind.mp h₃
          have hblock := ataWaitDrq_runs hdrq
          cases drq with
          | false =>
              obtain ⟨rfl, rfl, -⟩ := h₄
              rw [List.append_nil]
              exact .noBlock hlt hwait hselects (hreads.append hblock)
          | true =>
              obtain ⟨es₉, es₁₀, ⟨⟩, ⟨⟩, rfl, hm, h₅⟩ := runs_bind.mp h₄
              rw [hptr] at hm
              obtain rfl := hmove k es₉ hm
              have hlba' := toNat_succ_mod hw hlba
              rw [Nat.add_assoc] at hlba'
              have hptr' : ptr + 512 = q.addr + BitVec.ofNat 64 (512 * (k + 1)) := by
                rw [hptr, BitVec.add_assoc, Nat.mul_add, BitVec.ofNat_add]
                rfl
              have hrest := ih (by omega) hlba' hptr' h₅
              have hrun := AtaIo.PollRun.block hlt hwait hselects (hreads.append_until hblock) hrest
              simpa only [List.append_assoc, List.cons_append, List.nil_append] using hrun

/-! ## The two ways to select a sector -/

theorem decode_select28 {t : Taskfile} {code low mid high top v₁ v₂ v₃ v₄ : BitVec 8}
    {es' : List AtaEvent} (hmode : (top &&& 0x50#8 == 0x40#8) = true) (hcode : isExt code = false)
    (hes' : Reads es') :
    (t.decode ([.outb ataRegLbaLow low, .outb ataRegLbaMid mid, .outb ataRegLbaHigh high,
      .outb ataRegDriveSel top, .inb ataRegControl v₁, .inb ataRegControl v₂, .inb ataRegControl v₃,
      .inb ataRegControl v₄, .outb ataRegSeccount 1] ++ .outb ataRegCommand code :: es')).2 =
      [.command code (low.toNat + 2 ^ 8 * mid.toNat + 2 ^ 16 * high.toNat +
        2 ^ 24 * (top &&& 0x0F).toNat) 1] := by
  simp [Taskfile.decode, Taskfile.step, Taskfile.command, Taskfile.selectsMasterLba, Taskfile.lba28,
    Latch.write, hmode, hcode, ataRegDriveSel, ataRegSeccount, ataRegLbaLow, ataRegLbaMid,
    ataRegLbaHigh, ataRegCommand, Taskfile.decode_reads hes', -BitVec.toNat_and]

theorem decode_select48 {t : Taskfile} {code low mid high low' mid' high' v₁ v₂ v₃ v₄ v₅ v₆ v₇ v₈ :
    BitVec 8} {es' : List AtaEvent} (hcode : isExt code = true) (hes' : Reads es') :
    (t.decode ([.outb ataRegDriveSel 0xE0, .inb ataRegControl v₁, .inb ataRegControl v₂,
      .inb ataRegControl v₃, .inb ataRegControl v₄, .outb ataRegSeccount 0,
      .outb ataRegLbaLow low', .outb ataRegLbaMid mid', .outb ataRegLbaHigh high',
      .outb ataRegSeccount 1, .outb ataRegLbaLow low, .outb ataRegLbaMid mid,
      .outb ataRegLbaHigh high, .inb ataRegControl v₅, .inb ataRegControl v₆, .inb ataRegControl v₇,
      .inb ataRegControl v₈] ++ .outb ataRegCommand code :: es')).2 =
      [.command code (low.toNat + 2 ^ 8 * mid.toNat + 2 ^ 16 * high.toNat + 2 ^ 24 * low'.toNat +
        2 ^ 32 * mid'.toNat + 2 ^ 40 * high'.toNat) 1] := by
  simp [Taskfile.decode, Taskfile.step, Taskfile.command, Taskfile.selectsMasterLba, Taskfile.lba48,
    Latch.write, hcode, ataRegDriveSel, ataRegSeccount, ataRegLbaLow, ataRegLbaMid,
    ataRegLbaHigh, ataRegCommand, Taskfile.decode_reads hes']

theorem ataSelect28_runs {lba : BitVec 32} (hop : q.op.Short)
    (hlba : lba.toNat % q.op.reach = (q.lba.toNat + k) % q.op.reach) (h : Runs (ataSelect28 lba) () es () ()) :
    q.Selects k es := by
  obtain ⟨_, rfl, _, rfl, _, rfl, _, rfl, v₁, _, rfl, v₂, _, rfl, v₃, _, rfl, v₄, _, rfl, _, rfl,
    rfl, -⟩ := h
  have hwide : ((lba.setWidth 64 : BitVec 64).setWidth 32 : BitVec 32) = lba := by simp
  have hnat : (lba.setWidth 64 : BitVec 64).toNat = lba.toNat := by
    rw [BitVec.toNat_setWidth, Nat.mod_eq_of_lt (by omega)]
  have hsel : ((0xE0 ||| ((lba >>> 24) &&& 0x0F)).setWidth 8 : BitVec 8) =
      selectValue q.op (lba.setWidth 64) := by
    rw [selectValue, if_pos hop, hwide, BitVec.setWidth_or]
    rfl
  obtain ⟨hmode, hnib⟩ := selectValue_spec q.op (lba.setWidth 64)
  have haddr := bytes28_toNat (lba.setWidth 64)
  rw [hwide, ← hnib hop, ← hsel, hnat, ← q.op.reach_short hop, hlba] at haddr
  have hmaster : ((0xE0 ||| ((lba >>> 24) &&& 0x0F)).setWidth 8 &&& 0x50#8 == 0x40#8) = true := by
    rw [hsel]
    exact beq_iff_eq.mpr hmode
  have hext : isExt q.op.code = false := by
    rcases hop with h | h
    · rw [h]; rfl
    · rw [h]; rfl
  refine ⟨?_, fun t es' hes' => (decode_select28 hmaster hext hes').trans ?_⟩
  · simp [Plain, IsBlock, ataRegLbaLow, ataRegLbaMid, ataRegLbaHigh, ataRegDriveSel, ataRegSeccount,
      ataRegCommand]
  · rw [haddr]
    rfl

theorem ataSelect48_runs {lba : BitVec 64} (hop : ¬ q.op.Short) (hext : isExt q.op.code = true)
    (hlba : lba.toNat % q.op.reach = (q.lba.toNat + k) % q.op.reach)
    (h : Runs (ataSelect48 lba) () es () ()) : q.Selects k es := by
  obtain ⟨_, rfl, v₁, _, rfl, v₂, _, rfl, v₃, _, rfl, v₄, _, rfl, _, rfl, _, rfl, _, rfl, _, rfl,
    _, rfl, _, rfl, _, rfl, _, rfl, v₅, _, rfl, v₆, _, rfl, v₇, _, rfl, v₈, _, rfl, rfl, -⟩ := h
  have haddr := bytes48_toNat lba
  rw [← q.op.reach_long hop, hlba] at haddr
  refine ⟨?_, fun t es' hes' => (decode_select48 hext hes').trans ?_⟩
  · simp [Plain, IsBlock, ataRegLbaLow, ataRegLbaMid, ataRegLbaHigh, ataRegDriveSel, ataRegSeccount,
      ataRegCommand]
  · rw [haddr]
    rfl

theorem runs_insw {port : BitVec 16} {buf : AtaBuffer} {m : BitVec 32}
    (h : Runs (insw port buf m : Poll Unit) () es () ()) : es = [.insw port buf m] := by
  obtain ⟨es', rfl, rfl, -⟩ := h
  rfl

theorem runs_outsw {port : BitVec 16} {buf : AtaBuffer} {m : BitVec 32}
    (h : Runs (outsw port buf m : Poll Unit) () es () ()) : es = [.outsw port buf m] := by
  obtain ⟨es', rfl, rfl, -⟩ := h
  rfl

theorem PollTransfer.runs {r : PollTransfer} (h : Runs r.prog () es b ()) : r.io.PollRun 0 es b := by
  have hptr (addr : BitVec 64) : addr = addr + BitVec.ofNat 64 (512 * 0) := (BitVec.add_zero _).symm
  have hshort {op : AtaOp} (hop : op.Short) : op.reach ∣ 2 ^ 32 := by
    rw [op.reach_short hop]
    decide
  have hlong {op : AtaOp} (hop : ¬ op.Short) : op.reach ∣ 2 ^ 64 := by
    rw [op.reach_long hop]
    decide
  have hwide (lba : BitVec 32) : lba.toNat = (lba.setWidth 64 : BitVec 64).toNat + 0 := by
    rw [BitVec.toNat_setWidth, Nat.mod_eq_of_lt (by omega), Nat.add_zero]
  cases r with
  | read28 lba addr n =>
      exact ataDiskPoll_runs (hshort (.inl rfl))
        (fun k lba' es hlba hsel => ataSelect28_runs (.inl rfl) hlba hsel)
        (fun k es hm => runs_insw hm) rfl (congrArg (· % _) (hwide lba)) (hptr addr) h
  | write28 lba addr n =>
      exact ataDiskPoll_runs (hshort (.inr rfl))
        (fun k lba' es hlba hsel => ataSelect28_runs (.inr rfl) hlba hsel)
        (fun k es hm => runs_outsw hm) rfl (congrArg (· % _) (hwide lba)) (hptr addr) h
  | read48 lba addr n =>
      have hop : ¬ AtaOp.Short .read48 := by decide
      exact ataDiskPoll_runs (hlong hop)
        (fun k lba' es hlba hsel => ataSelect48_runs hop rfl hlba hsel)
        (fun k es hm => runs_insw hm) rfl rfl (hptr addr) h
  | write48 lba addr n =>
      have hop : ¬ AtaOp.Short .write48 := by decide
      exact ataDiskPoll_runs (hlong hop)
        (fun k lba' es hlba hsel => ataSelect48_runs hop rfl hlba hsel)
        (fun k es hm => runs_outsw hm) rfl rfl (hptr addr) h

/-! ## What follows from it -/

namespace AtaIo.PollRun

/-- What the drive is told: a command and a block for each sector in turn, and one more command that
may still wait for its block. -/
theorem accesses (h : q.PollRun k es b) : ∃ (m : Nat) (waits : Bool),
    m ≤ q.sectorCount.toNat ∧ (waits = true → m < q.sectorCount.toNat) ∧
      (b = true → m = q.sectorCount.toNat ∧ waits = false) ∧
      ∀ t : Taskfile, q.reached k ++ (t.decode es).2 =
        q.reached m ++ if waits then [q.addressed m] else [] := by
  induction h with
  | done hw =>
      refine ⟨_, false, Nat.le_refl _, nofun, fun _ => ⟨rfl, rfl⟩, fun t => ?_⟩
      rw [Taskfile.decode_reads hw.reads]
      rfl
  | @notIdle k w hk hw =>
      refine ⟨k, false, hk, nofun, nofun, fun t => ?_⟩
      rw [Taskfile.decode_reads hw]
      rfl
  | @noBlock k w sel r hk hw hsel hr =>
      refine ⟨k, true, Nat.le_of_lt hk, fun _ => hk, nofun, fun t => ?_⟩
      rw [Taskfile.decode_append, Taskfile.decode_reads hw.reads, List.nil_append]
      exact congrArg (q.reached k ++ ·) (hsel.command t r hr)
  | @block k w sel r es b hk hw hsel hr hrest ih =>
      obtain ⟨m, waits, hm, hwaits, hb, hdecode⟩ := ih
      refine ⟨m, waits, hm, hwaits, hb, fun t => ?_⟩
      have hcmd := hsel.command t r hr.reads
      have hblock (t' : Taskfile) :
          t'.decode (q.block k :: es) = ((t'.decode es).1, q.transfer k :: (t'.decode es).2) := by
        by_cases hq : q.op.Reads
        · simp [AtaIo.block, blockTransfer, AtaIo.transfer, hq, Taskfile.decode, Taskfile.step]
        · simp [AtaIo.block, blockTransfer, AtaIo.transfer, hq, Taskfile.decode, Taskfile.step]
      rw [Taskfile.decode_append, Taskfile.decode_append, Taskfile.decode_reads hw.reads, hblock]
      simp only [List.nil_append, hcmd]
      rw [← hdecode, q.reached_succ, List.append_assoc]
      rfl

/-- A command, after what the driver has seen before it. -/
theorem guarded_command {w sel r : List AtaEvent} {c : BitVec 8} (hw : ReadsUntil StatusReady w)
    (hsel : ∀ e ∈ sel, Plain e) (hr : Reads r) :
    Guarded PollGuard (w ++ (sel ++ .outb ataRegCommand c :: r)) := by
  have hpre : Guarded PollGuard (w ++ sel) :=
    (guarded_of_plain hw.reads.plain).append PollGuard.extend (guarded_of_plain hsel)
  have hcmd : PollGuard (w ++ sel) (.outb ataRegCommand c) := by
    obtain ⟨a, st, rfl, -, hst⟩ := hw
    refine ⟨fun v _ => ⟨a, st, sel, by simp, hst, fun e he => (hsel e he).2⟩, fun hb => ?_⟩
    simp [IsBlock] at hb
  have hall := (hpre.concat hcmd).append PollGuard.extend (guarded_of_plain hr.plain)
  simpa using hall

theorem guarded (h : q.PollRun k es b) : Guarded PollGuard es := by
  induction h with
  | done hw => exact guarded_of_plain hw.reads.plain
  | notIdle _ hw => exact guarded_of_plain hw.plain
  | noBlock _ hw hsel hr => exact guarded_command hw hsel.plain hr
  | @block k w sel r es b _ hw hsel hr _ ih =>
      have hcmd := guarded_command (c := q.op.code) hw hsel.plain hr.reads
      have hblock : PollGuard (w ++ (sel ++ .outb ataRegCommand q.op.code :: r)) (q.block k) := by
        obtain ⟨a, st, rfl, -, hst⟩ := hr
        refine ⟨fun v hv => ?_, fun _ => ⟨w ++ (sel ++ .outb ataRegCommand q.op.code :: a), st,
          by simp, hst⟩⟩
        rw [AtaIo.block, blockTransfer] at hv
        split at hv
        · cases hv
        · cases hv
      have hall := (hcmd.concat hblock).append PollGuard.extend ih
      simpa using hall

/-- A transfer that succeeds ends with a ready status. -/
theorem ends_ready (h : q.PollRun k es true) :
    ∃ pre st, es = pre ++ [.inb ataRegStatus st] ∧ StatusReady st := by
  generalize hb : true = b at h
  induction h with
  | done hw =>
      obtain ⟨w, st, rfl, -, hst⟩ := hw
      exact ⟨w, st, rfl, hst⟩
  | notIdle => cases hb
  | noBlock => cases hb
  | @block k w sel r es b _ _ _ _ _ ih =>
      obtain ⟨pre, st, rfl, hst⟩ := ih hb
      exact ⟨w ++ (sel ++ .outb ataRegCommand q.op.code :: r) ++ q.block k :: pre, st, by simp, hst⟩

end AtaIo.PollRun

end

end BootKernel
