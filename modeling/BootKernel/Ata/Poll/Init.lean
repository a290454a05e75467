import BootKernel.Ata.Poll.Original
import BootKernel.Ata.Poll.Trace
import Mathlib.Data.Nat.Find

/-!
# The initialisation of the polling driver

The first loop of `ata_init` ends in three ways, and the function does not tell a ready drive from a
counter that has run out. It is safe exactly if the counter does not run out.
-/

namespace BootKernel

open PortProgram

/-- A command comes after a status read that was ready, and no status is read in between. -/
def CommandWhenReady (pre : List AtaEvent) (e : AtaEvent) : Prop :=
  ∀ v, e = .outb ataRegCommand v → ∃ a st mid, pre = a ++ .inb ataRegStatus st :: mid ∧
    StatusReady st ∧ ∀ st', .inb ataRegStatus st' ∉ mid

/-- The list has a read of a ready status. -/
def SeesReady (es : List AtaEvent) : Prop := ∃ st, .inb ataRegStatus st ∈ es ∧ StatusReady st

/-- What the accesses `es` of `ata_init` and its result `b` should be like, where `status k` is the
status that read `k` of the first loop gets. -/
structure InitSafe (status : Nat → BitVec 8) (es : List AtaEvent) (b : Bool) : Prop where
  command : Guarded CommandWhenReady es
  ready : b = true → ∃ pre post, es = pre ++ .outb ataRegCommand ataCmdSetMultiple :: post ∧
    SeesReady pre ∧ SeesReady post
  busy : (∀ k < 10000000, ataStatusIsBusy (status k) = true) →
    b = false ∧ ∀ v, .outb ataRegCommand v ∉ es

/-- One of the ten million statuses that the loop may read ends it. -/
def InitDecided (dev : Answer AtaBuffer) (t : List AtaEvent) : Prop :=
  ∃ k < 10000000, ¬ InitWaits (reading dev ataRegStatus (initPrelude dev t) k)

/-! ## The loop -/

theorem initWaits_iff {st : BitVec 8} : InitWaits st ↔ idleLook st = none := by
  grind [InitWaits, idleLook]

theorem initWaits_not_ready {st : BitVec 8} (h : InitWaits st) : ¬ StatusReady st := by
  rintro ⟨hbusy, hrdy, -⟩
  rcases h.2 with hb | ⟨-, hr⟩
  · rw [hbusy] at hb
    cases hb
  · rw [hrdy] at hr
    cases hr

theorem idleLook_true {st : BitVec 8} (h : idleLook st = some true) : StatusReady st := by
  grind [idleLook, StatusReady]

theorem ataInitLoop_eq (n : Nat) : ataInitLoop n = pollUntil idleLook true n := by
  induction n with
  | zero => rfl
  | succ n ih =>
      refine congrArg (ataStatusGet >>= ·) (funext fun st => ?_)
      rw [idleLook]
      repeat' split
      all_goals simp_all

section

variable {dev : Answer AtaBuffer} {look : BitVec 8 → Option Bool} {late : Bool} {t es : List AtaEvent}

theorem exec_pollUntil_succ (n : Nat) : exec (traced dev) (pollUntil look late (n + 1)) () t =
    match look (reading dev ataRegStatus t 0) with
    | some b => (b, (), readings dev ataRegStatus t 1)
    | none => exec (traced dev) (pollUntil look late n) () (readings dev ataRegStatus t 1) := by
  change exec (traced dev) (match look (reading dev ataRegStatus t 0) with
    | some b => .ret b
    | none => pollUntil look late n) () (readings dev ataRegStatus t 1) = _
  cases look (reading dev ataRegStatus t 0) with
  | some b => rfl
  | none => rfl

theorem exec_pollUntil_some {n k : Nat} {b : Bool} (hk : k < n)
    (hlook : look (reading dev ataRegStatus t k) = some b)
    (hbefore : ∀ j < k, look (reading dev ataRegStatus t j) = none) :
    exec (traced dev) (pollUntil look late n) () t = (b, (), readings dev ataRegStatus t (k + 1)) := by
  induction n generalizing t k with
  | zero => exact absurd hk (Nat.not_lt_zero k)
  | succ n ih =>
      rw [exec_pollUntil_succ]
      cases k with
      | zero => rw [hlook]
      | succ k =>
          rw [hbefore 0 (Nat.succ_pos k), readings_succ dev ataRegStatus t (k + 1)]
          refine ih (Nat.lt_of_succ_lt_succ hk) ?_ fun j hj => ?_
          · rwa [reading_succ] at hlook
          · have hj := hbefore (j + 1) (Nat.succ_lt_succ hj)
            rwa [reading_succ] at hj

theorem exec_pollUntil_none {n : Nat} (h : ∀ k < n, look (reading dev ataRegStatus t k) = none) :
    exec (traced dev) (pollUntil look late n) () t = (late, (), readings dev ataRegStatus t n) := by
  induction n generalizing t with
  | zero => rfl
  | succ n ih =>
      rw [exec_pollUntil_succ, h 0 (Nat.succ_pos n), readings_succ dev ataRegStatus t n]
      refine ih fun k hk => ?_
      have hk := h (k + 1) (Nat.succ_lt_succ hk)
      rwa [reading_succ] at hk

/-! ## The accesses -/

/-- The accesses read registers other than the status. -/
def ControlReads (es : List AtaEvent) : Prop := ∀ e ∈ es, ∃ v, e = .inb ataRegControl v

theorem ControlReads.no_status (h : ControlReads es) (st : BitVec 8) : .inb ataRegStatus st ∉ es := by
  intro he
  obtain ⟨v, hv⟩ := h _ he
  simp [ataRegStatus, ataRegControl] at hv

theorem ataControlReads_control (h : Runs ataControlReads () es () ()) : ControlReads es := by
  obtain ⟨v₁, _, rfl, v₂, _, rfl, v₃, _, rfl, v₄, _, rfl, rfl, -⟩ := h
  simp [ControlReads]

/-- After its loop the function writes the command, and it succeeds only if it sees a ready drive
again. -/
theorem ataInitRest_runs {b : Bool} (h : Runs ataInitRest () es b ()) :
    ∃ c r, es = c ++ .outb ataRegCommand ataCmdSetMultiple :: r ∧ ControlReads c ∧ Reads r ∧
      (b = true → SeesReady r) := by
  obtain ⟨c, _, ⟨⟩, ⟨⟩, rfl, hc, h₁⟩ := runs_bind.mp h
  obtain ⟨_, rfl, h₂⟩ := h₁
  obtain ⟨r₁, _, ⟨⟩, ⟨⟩, rfl, hr₁, h₃⟩ := (runs_bind (x := ataControlReads)).mp h₂
  obtain ⟨r₂, _, idle, ⟨⟩, rfl, hidle, h₄⟩ := runs_bind.mp h₃
  have hreads := ataControlReads_runs hr₁
  have hwait := ataWaitIdle_runs hidle
  cases idle with
  | false =>
      obtain ⟨rfl, rfl, -⟩ := h₄
      have hr₂ : Reads r₂ := hwait
      exact ⟨c, _, rfl, ataControlReads_control hc, hreads.append (hr₂.append .nil), nofun⟩
  | true =>
      obtain ⟨st, es, rfl, h₅⟩ := h₄
      have hr₂ : ReadsUntil StatusReady r₂ := hwait
      have hnil : es = [] := by
        have h₆ : Runs (if ataStatusHasError st then .ret false
          else if ataStatusHasDrq st then .ret false else .ret true) () es b () := h₅
        split at h₆
        · exact h₆.1
        · split at h₆
          · exact h₆.1
          · exact h₆.1
      refine ⟨c, _, rfl, ataControlReads_control hc, ?_, fun _ => ?_⟩
      · rw [hnil]
        exact hreads.append (hr₂.reads.append Reads.nil.cons)
      · obtain ⟨w, st', rfl, -, hst'⟩ := hr₂
        exact ⟨st', by simp, hst'⟩

/-- The access is not a write to the command register. -/
def NotCommand (e : AtaEvent) : Prop := ∀ v, e ≠ .outb ataRegCommand v

theorem ControlReads.not_command (h : ControlReads es) : ∀ e ∈ es, NotCommand e := by
  intro e he v
  obtain ⟨w, rfl⟩ := h e he
  simp

theorem CommandWhenReady.extend (p pre : List AtaEvent) (e : AtaEvent) (h : CommandWhenReady pre e) :
    CommandWhenReady (p ++ pre) e := by
  intro v hv
  obtain ⟨a, st, mid, rfl, hst, hmid⟩ := h v hv
  exact ⟨p ++ a, st, mid, (List.append_assoc p a _).symm, hst, hmid⟩

theorem guarded_of_notCommand (h : ∀ e ∈ es, NotCommand e) : Guarded CommandWhenReady es :=
  .of_forall fun e he _ v hv => absurd hv (h e he v)

theorem initPrelude_eq (dev : Answer AtaBuffer) (t : List AtaEvent) : ∃ es,
    initPrelude dev t = t ++ es ∧ (∀ e ∈ es, NotCommand e) ∧ ∀ st, .inb ataRegStatus st ∉ es := by
  obtain ⟨es, heq, hes⟩ := exists_readings_eq_append dev ataRegControl
    (t ++ [.outb ataRegControl ataCtrlIrqDisable] ++ [.outb ataRegDriveSel ataDhLbaMaster]) 4
  have hcontrol : ControlReads es := fun e he => by
    obtain ⟨k, -, rfl⟩ := hes e he
    exact ⟨_, rfl⟩
  refine ⟨.outb ataRegControl ataCtrlIrqDisable :: .outb ataRegDriveSel ataDhLbaMaster :: es,
    heq.trans (by simp), ?_, fun st hst => ?_⟩
  · simp only [List.forall_mem_cons]
    refine ⟨?_, ?_, hcontrol.not_command⟩
    · simp [NotCommand, ataRegControl, ataRegCommand]
    · simp [NotCommand, ataRegDriveSel, ataRegCommand]
  · exact hcontrol.no_status st (by simpa using hst)

/-- The accesses up to status read `n` of the loop. -/
theorem initReadings_eq (dev : Answer AtaBuffer) (t : List AtaEvent) (n : Nat) : ∃ es,
    readings dev ataRegStatus (initPrelude dev t) n = t ++ es ∧ (∀ e ∈ es, NotCommand e) ∧
      ∀ st, .inb ataRegStatus st ∈ es → ∃ k < n, st = reading dev ataRegStatus (initPrelude dev t) k := by
  obtain ⟨p, hp, hcmd, hstatus⟩ := initPrelude_eq dev t
  obtain ⟨s, hs, hreads⟩ := exists_readings_eq_append dev ataRegStatus (initPrelude dev t) n
  refine ⟨p ++ s, ?_, fun e he => ?_, fun st hst => ?_⟩
  · rw [hs, hp, List.append_assoc]
  · rcases List.mem_append.mp he with he | he
    · exact hcmd e he
    · obtain ⟨k, -, rfl⟩ := hreads e he
      simp [NotCommand]
  · rcases List.mem_append.mp hst with hst | hst
    · exact absurd hst (hstatus st)
    · obtain ⟨k, hk, he⟩ := hreads _ hst
      cases he
      exact ⟨k, hk, rfl⟩

/-! ## The three ends of the loop -/

theorem exec_ataInit (dev : Answer AtaBuffer) (t : List AtaEvent) :
    exec (traced dev) ataInit () t = exec (traced dev) (do
      if ← ataInitLoop 10000000 then ataInitRest else return false) () (initPrelude dev t) := rfl

theorem initSafe_refused {status : Nat → BitVec 8} {st : BitVec 8} (h : ∀ e ∈ es, NotCommand e) :
    InitSafe status (es ++ [.inb ataRegStatus st]) false := by
  have hall : ∀ e ∈ es ++ [.inb ataRegStatus st], NotCommand e := by
    intro e he
    rcases List.mem_append.mp he with he | he
    · exact h e he
    · rw [List.mem_singleton.mp he]
      simp [NotCommand]
  exact ⟨guarded_of_notCommand hall, nofun, fun _ => ⟨rfl, fun v hv => hall _ hv v rfl⟩⟩

/-- A drive that is ready gets its command after the status that says so. -/
theorem initSafe_ready {status : Nat → BitVec 8} {c r : List AtaEvent} {b : Bool} {k : Nat}
    (h : ∀ e ∈ es, NotCommand e) (hk : k < 10000000) (hst : StatusReady (status k))
    (hc : ControlReads c) (hr : Reads r) (hb : b = true → SeesReady r) :
    InitSafe status
      (es ++ [.inb ataRegStatus (status k)] ++ (c ++ .outb ataRegCommand ataCmdSetMultiple :: r)) b where
  command := by
    have hpre : Guarded CommandWhenReady (es ++ [.inb ataRegStatus (status k)] ++ c) := by
      refine guarded_of_notCommand fun e he => ?_
      simp only [List.mem_append, List.mem_singleton] at he
      rcases he with (he | rfl) | he
      · exact h e he
      · simp [NotCommand]
      · exact hc.not_command e he
    have hcmd : CommandWhenReady (es ++ [.inb ataRegStatus (status k)] ++ c)
        (.outb ataRegCommand ataCmdSetMultiple) :=
      fun _ _ => ⟨es, status k, c, by simp, hst, hc.no_status⟩
    have hpost : ∀ e ∈ r, NotCommand e := fun e he v => by
      obtain ⟨port, w, rfl⟩ := hr e he
      simp
    have hall := (hpre.concat hcmd).append CommandWhenReady.extend (guarded_of_notCommand hpost)
    simpa using hall
  ready := fun htrue => ⟨es ++ [.inb ataRegStatus (status k)] ++ c, r, by simp,
    ⟨status k, by simp, hst⟩, hb htrue⟩
  busy := fun hbusy => by
    have hready := hst.1
    rw [hbusy k hk] at hready
    cases hready

/-- When the counter has run out the command comes after a status that was not ready. -/
theorem not_initSafe_late {status status' : Nat → BitVec 8} {c r : List AtaEvent} {b : Bool} {n : Nat}
    (h : ∀ st, .inb ataRegStatus st ∈ es → ∃ k < n, st = status k)
    (hwaits : ∀ k < n, InitWaits (status k)) (hc : ControlReads c) :
    ¬ InitSafe status' (es ++ (c ++ .outb ataRegCommand ataCmdSetMultiple :: r)) b := by
  intro hsafe
  obtain ⟨a, st, mid, heq, hst, -⟩ := hsafe.command (es ++ c) (.outb ataRegCommand ataCmdSetMultiple)
    r (List.append_assoc es c _).symm ataCmdSetMultiple rfl
  have hmem : .inb ataRegStatus st ∈ es ++ c := by simp [heq]
  rcases List.mem_append.mp hmem with hmem | hmem
  · obtain ⟨k, hk, rfl⟩ := h st hmem
    exact initWaits_not_ready (hwaits k hk) hst
  · exact hc.no_status st hmem

/-- The function does what it should in a run that starts after the accesses `t`. -/
def AtaInitSafe (dev : Answer AtaBuffer) (t : List AtaEvent) : Prop :=
  ∃ es, (exec (traced dev) ataInit () t).2.2 = t ++ es ∧
    InitSafe (reading dev ataRegStatus (initPrelude dev t)) es (exec (traced dev) ataInit () t).1

theorem InitDecided.safe (h : InitDecided dev t) : AtaInitSafe dev t := by
  have hsome : ∃ k, k < 10000000 ∧
      idleLook (reading dev ataRegStatus (initPrelude dev t) k) ≠ none := by
    obtain ⟨k, hk, hw⟩ := h
    exact ⟨k, hk, fun hnone => hw (initWaits_iff.mpr hnone)⟩
  obtain ⟨k, ⟨hk, hdecides⟩, hfirst⟩ :=
    (⟨Nat.find hsome, Nat.find_spec hsome, fun j hj => Nat.find_min hsome hj⟩ : ∃ k,
      (k < 10000000 ∧ idleLook (reading dev ataRegStatus (initPrelude dev t) k) ≠ none) ∧
        ∀ j < k, ¬ (j < 10000000 ∧ idleLook (reading dev ataRegStatus (initPrelude dev t) j) ≠ none))
  have hbefore : ∀ j < k, idleLook (reading dev ataRegStatus (initPrelude dev t) j) = none :=
    fun j hj => by_contra fun hne => hfirst j hj ⟨hj.trans hk, hne⟩
  obtain ⟨es, hes, hcmd, -⟩ := initReadings_eq dev t k
  have hnext : readings dev ataRegStatus (initPrelude dev t) (k + 1) =
      t ++ (es ++ [.inb ataRegStatus (reading dev ataRegStatus (initPrelude dev t) k)]) := by
    rw [readings, hes, List.append_assoc, reading, hes]
  obtain ⟨b, hb⟩ := Option.ne_none_iff_exists'.mp hdecides
  rw [AtaInitSafe, exec_ataInit, exec_bind, ataInitLoop_eq, exec_pollUntil_some hk hb hbefore, hnext]
  cases b with
  | false => exact ⟨_, rfl, initSafe_refused hcmd⟩
  | true =>
      obtain ⟨rest, hruns, htrace⟩ := exec_traced dev ataInitRest ()
        (t ++ (es ++ [.inb ataRegStatus (reading dev ataRegStatus (initPrelude dev t) k)]))
      obtain ⟨c, r, rfl, hc, hr, hsees⟩ := ataInitRest_runs hruns
      exact ⟨_, htrace.trans (List.append_assoc _ _ _),
        initSafe_ready hcmd hk (idleLook_true hb) hc hr hsees⟩

theorem AtaInitSafe.decided (h : AtaInitSafe dev t) : InitDecided dev t := by
  by_contra hno
  have hwaits : ∀ k < 10000000, InitWaits (reading dev ataRegStatus (initPrelude dev t) k) :=
    fun k hk => by_contra fun hw => hno ⟨k, hk, hw⟩
  obtain ⟨es, htrace, hsafe⟩ := h
  rw [exec_ataInit, exec_bind, ataInitLoop_eq,
    exec_pollUntil_none fun k hk => initWaits_iff.mp (hwaits k hk)] at htrace hsafe
  obtain ⟨es', hes', -, hstatus⟩ := initReadings_eq dev t 10000000
  obtain ⟨rest, hruns, hrest⟩ := exec_traced dev ataInitRest ()
    (readings dev ataRegStatus (initPrelude dev t) 10000000)
  obtain ⟨c, r, rfl, hc, -, -⟩ := ataInitRest_runs hruns
  rw [hes', List.append_assoc] at hrest
  rw [hes'] at htrace
  obtain rfl := List.append_cancel_left (htrace.symm.trans hrest)
  exact not_initSafe_late hstatus hwaits hc hsafe

end

/-! ## The result -/

/-- The function gives a command only to a drive it has just seen ready, and succeeds only if the drive
was ready before and after it, exactly if its first loop does not run out of turns. -/
theorem ataInit_safe_iff (dev : Answer AtaBuffer) (t : List AtaEvent) :
    AtaInitSafe dev t ↔ InitDecided dev t := ⟨AtaInitSafe.decided, InitDecided.safe⟩

/-- A drive that is busy all the time gets the command. -/
theorem ataInit_busy_unsafe : ¬ AtaInitSafe (fun _ _ => 0x80) [] := by
  intro h
  obtain ⟨k, -, hw⟩ := h.decided
  have hst : reading (fun _ _ => 0x80) ataRegStatus (initPrelude (fun _ _ => 0x80) []) k = 0x80 := rfl
  rw [hst] at hw
  exact hw ⟨by decide, .inl rfl⟩

end BootKernel
