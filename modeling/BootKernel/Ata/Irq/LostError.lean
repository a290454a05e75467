import BootKernel.Ata.Irq.Interrupts

/-!
# Errors that get lost

The driver looks at the flags in one step only, and wipes them with each new command. An error is
heard if the handler records it while the driver waits, or moves a block, and nothing overwrites it.
-/

namespace BootKernel

open PortProgram

/-- In a transfer, an interrupt with a bad status comes where the next look at the flags is the one
of the wait step: while a block is moved, or while the driver waits and cannot go on by polling. No
other status comes after a bad one. -/
def Heeded (done : Bool) (x : AtaPoint) (v : BitVec 8) : Prop :=
  x.2.issued = true → x.1.step.inIo = true →
    if ataStatusIsBad v then
      x.1.step = .ioXferBlock ∨ x.1.step = .ioWaitIrq ∧ (done = true ∨ x.1.batchLeft ≠ 0)
    else x.2.bad = false

instance (done : Bool) (x : AtaPoint) (v : BitVec 8) : Decidable (Heeded done x v) :=
  inferInstanceAs (Decidable (_ → _ → ite _ _ _))

def ErrorLost (x : AtaPoint) : Prop := x.2.bad = true ∧ x.1.step = .ioDone

/-- The error is in the flags. -/
def Recorded (x : AtaPoint) : Prop :=
  x.2.issued = true ∧ x.1.irqFired = true ∧ ataStatusIsBad x.1.lastStatus = true

/-- What holds between two calls. -/
structure Heard (x : AtaPoint) : Prop where
  bad : x.2.bad = true → x.1.step = .ioFail ∨
    (x.1.step = .ioWaitIrq ∨ x.1.step = .ioXferBlock) ∧ Recorded x
  idle : x.1.step = .idle → x.2.issued = false

/-- The driver waits or moves a block. -/
structure Listening (x : AtaPoint) : Prop where
  bad : x.2.bad = true → Recorded x
  step : x.1.step = .ioWaitIrq ∨ x.1.step = .ioXferBlock

/-- No error has come, and none may come. -/
structure Deaf (x : AtaPoint) : Prop where
  good : x.2.bad = false
  step : x.1.step.Aside

/-- The driver waits, and has consumed the flag. -/
structure Consuming (x : AtaPoint) : Prop where
  bad : x.2.bad = true → x.2.issued = true ∧ ataStatusIsBad x.1.lastStatus = true
  step : x.1.step = .ioWaitIrq

/-- The driver waits, and has seen no error yet. -/
structure Waiting (x : AtaPoint) : Prop where
  bad : x.2.bad = true → x.1.batchLeft ≠ 0 ∧ Recorded x
  step : x.1.step = .ioWaitIrq

section

variable {x y : AtaPoint}

theorem Heard.not_lost (h : Heard x) : ¬ ErrorLost x := by
  rintro ⟨hbad, hdone⟩
  cases h.bad hbad with
  | inl hfail => simp [hdone] at hfail
  | inr hwait => simp [hdone] at hwait

theorem Listening.heard (h : Listening x) : Heard x where
  bad hb := .inr ⟨h.step, h.bad hb⟩
  idle hs := absurd h.step (by simp [hs])

theorem Deaf.heard (h : Deaf x) : Heard x where
  bad hb := by simp [h.good] at hb
  idle hs := absurd hs h.step.1

theorem Waiting.listening (h : Waiting x) : Listening x := ⟨fun hb => (h.bad hb).2, .inl h.step⟩

theorem not_lost_of_wait (h : x.1.step = .ioWaitIrq) : ¬ ErrorLost x := fun hl => by
  simp [ErrorLost, h] at hl

/-- Where no error can have come. -/
theorem Heard.deaf (h : Heard x) (hs : x.1.step.Aside) (hfail : x.1.step ≠ .ioFail) : Deaf x := by
  refine ⟨?_, hs⟩
  cases hb : x.2.bad with
  | false => rfl
  | true =>
      cases h.bad hb with
      | inl hf => exact absurd hf hfail
      | inr hw => exact (hw.1.elim hs.2.1 hs.2.2).elim

theorem Heard.listening (h : Heard x) (hs : x.1.step = .ioWaitIrq ∨ x.1.step = .ioXferBlock) :
    Listening x := by
  refine ⟨fun hb => ?_, hs⟩
  cases h.bad hb with
  | inl hf => simp [hf] at hs
  | inr hw => exact hw.2

/-! ## The interrupts -/

/-- After an interrupt that is heeded an error is recorded, or it is none of a running transfer. -/
theorem Heeded.hit {done : Bool} {v : BitVec 8} (h : Heeded done x v)
    (hb : (ataWatched.hit v x).2.bad = true) :
    (x.2.bad = true ∧ (x.2.issued = false ∨ x.1.step.inIo = false)) ∨
      (Recorded (ataWatched.hit v x) ∧
        (x.1.step = .ioXferBlock ∨ x.1.step = .ioWaitIrq ∧ (done = true ∨ x.1.batchLeft ≠ 0))) := by
  rw [ataWatched_hit] at hb ⊢
  cases hi : x.2.issued with
  | false => exact .inl ⟨by simpa [hi] using hb, .inl rfl⟩
  | true =>
      cases hs : x.1.step.inIo with
      | false => exact .inl ⟨by simpa [hs] using hb, .inr rfl⟩
      | true =>
          have hok := h hi hs
          cases hv : ataStatusIsBad v with
          | true =>
              rw [if_pos hv] at hok
              exact .inr ⟨⟨hi, rfl, hv⟩, hok⟩
          | false =>
              rw [if_neg (by simp [hv])] at hok
              simp [hok, hv] at hb

/-- The interrupts that may come in the middle of a call. -/
abbrev heeded : AtaPoint → AtaPoint → Prop := ataWatched.Interrupted Heeded false

abbrev HearsErrors (p : Ata Unit) (x : AtaPoint) : Prop :=
  Safe ataWatched heeded (fun x => ¬ ErrorLost x) Heard p x

theorem stable_listening (done : Bool) : Stable (ataWatched.Interrupted Heeded done) Listening := by
  rintro x y ⟨v, hok, rfl⟩ h
  refine ⟨fun hb => ?_, h.step⟩
  obtain ⟨hb₀, hout⟩ | ⟨hrec, -⟩ := hok.hit hb
  · cases hout with
    | inl hi => simp [(h.bad hb₀).1] at hi
    | inr hs => cases h.step with | _ hstep => simp [hstep, AtaStep.inIo] at hs
  · exact hrec

theorem stable_heard (done : Bool) : Stable (ataWatched.Interrupted Heeded done) Heard := by
  rintro x y ⟨v, hok, rfl⟩ h
  by_cases hs : x.1.step = .ioWaitIrq ∨ x.1.step = .ioXferBlock
  · exact (stable_listening done _ _ ⟨v, hok, rfl⟩ (h.listening hs)).heard
  · refine ⟨fun hb => ?_, h.idle⟩
    obtain ⟨hb₀, -⟩ | ⟨-, hwhere⟩ := hok.hit hb
    · exact .inl ((h.bad hb₀).resolve_right fun hw => hs hw.1)
    · exact absurd (hwhere.elim .inr fun hw => .inl hw.1) hs

theorem stable_deaf : Stable heeded Deaf := by
  rintro x y ⟨v, hok, rfl⟩ h
  refine ⟨?_, h.step⟩
  cases hb : (ataWatched.hit v x).2.bad with
  | false => rfl
  | true =>
      obtain ⟨hb₀, -⟩ | ⟨-, hwhere⟩ := hok.hit hb
      · simp [h.good] at hb₀
      · exact (hwhere.elim h.step.2.2 fun hw => h.step.2.1 hw.1).elim

theorem stable_consuming : Stable heeded Consuming := by
  rintro x y ⟨v, hok, rfl⟩ h
  refine ⟨fun hb => ?_, h.step⟩
  obtain ⟨hb₀, hout⟩ | ⟨hrec, -⟩ := hok.hit hb
  · cases hout with
    | inl hi => simp [(h.bad hb₀).1] at hi
    | inr hs => simp [h.step, AtaStep.inIo] at hs
  · exact ⟨hrec.1, hrec.2.2⟩

theorem stable_waiting : Stable heeded Waiting := by
  rintro x y ⟨v, hok, rfl⟩ h
  refine ⟨fun hb => ⟨?_, (stable_listening false _ _ ⟨v, hok, rfl⟩ h.listening).bad hb⟩, h.step⟩
  obtain ⟨hb₀, -⟩ | ⟨-, hwhere⟩ := hok.hit hb
  · exact (h.bad hb₀).1
  · simpa [h.step] using hwhere

/-! ## The operations -/

/-- An assignment that leaves the flags alone, as the record sees it. -/
theorem Recorded.store {S : AtaStep → Prop} {f : AtaContext → AtaContext} (hf : Calm S f)
    (h : Recorded x) : Recorded (f x.1, ataWatched.onStore x.1 (f x.1) x.2) :=
  ⟨h.1, (hf x.1).1.trans h.2.1, by rw [(hf x.1).2.1]; exact h.2.2⟩

theorem keeps_heard {α : Type} {p : Ata α} (h : Quiet (fun _ => False) p) :
    Keeps ataWatched Heard p := by
  refine Only.keeps h (fun f hf y hy => ?_) fun e he y hy => by rwa [ataWatched_onPort he]
  have hstep := (hf y.1).2.2.resolve_right id
  refine ⟨fun hb => ?_, fun hs => hy.idle (hstep ▸ hs)⟩
  rw [hstep]
  exact (hy.bad hb).imp_right fun hw => ⟨hw.1, hw.2.store hf⟩

theorem keeps_deaf {α : Type} {S : AtaStep → Prop} {p : Ata α} (h : Quiet S p)
    (hS : ∀ s, S s → s.Aside) : Keeps ataWatched Deaf p := by
  refine Only.keeps h (fun f hf y hy => ⟨hy.good, ?_⟩) fun e he y hy => by rwa [ataWatched_onPort he]
  cases (hf y.1).2.2 with
  | inl hsame => exact hsame ▸ hy.step
  | inr hnew => exact hS _ hnew

theorem hearsErrors_of_quiet {S : AtaStep → Prop} {p : Ata Unit} (h : Quiet S p)
    (hS : ∀ s, S s → s.Aside) (hx : Deaf x) : HearsErrors p x :=
  (keeps_deaf h hS).safe stable_deaf (fun _ hy => hy.heard.not_lost) (fun _ hy => hy.heard) hx

theorem hearsErrors_setStep {A : AtaPoint → Prop} {s : AtaStep} (hA : Stable heeded A)
    (hInv : ∀ y, A y → ¬ ErrorLost y)
    (hs : ∀ y, A y → Heard ({ y.1 with step := s }, { y.2 with window := y.2.window - 1 }))
    (hx : A x) : HearsErrors (setStep s) x :=
  Safe.of_store hA hx fun y hy => ⟨hInv y hy, by
    have hcalm : Calm (· = s) fun c => { c with step := s } := by simp [Calm]
    rw [ataWatched_onStore hcalm]
    exact hs y hy⟩

/-- A new command wipes the flags, so it may be written only when no error has come. -/
theorem hearsErrors_issueCommand {pre : Ata (BitVec 8)} {s : AtaStep}
    (hpre : Quiet (fun _ => False) pre) (hs : s ≠ .idle) (hx : Deaf x) :
    HearsErrors (issueCommand pre s) x := by
  refine (keeps_deaf hpre fun s hs => hs.elim).safe_bind stable_deaf
    (fun y hy => hy.heard.not_lost) (fun cmd y hy => ?_) hx
  refine Safe.of_outb stable_deaf hy fun z hz => ⟨hz.heard.not_lost, ?_⟩
  have hz₁ : Deaf (z.1, ataWatched.onPort (.outb ataRegCommand cmd) z.1 z.2) := ⟨hz.good, hz.step⟩
  refine Safe.of_store stable_deaf hz₁ fun w hw => ⟨hw.heard.not_lost, ?_⟩
  have hw₁ : Deaf ({ w.1 with irqFired := false },
      ataWatched.onStore w.1 { w.1 with irqFired := false } w.2) := ⟨hw.good, hw.step⟩
  refine Safe.of_store stable_deaf hw₁ fun u hu => ⟨hu.heard.not_lost, ?_⟩
  have hu₁ : Deaf ({ u.1 with lastStatus := 0 },
      ataWatched.onStore u.1 { u.1 with lastStatus := 0 } u.2) := ⟨hu.good, hu.step⟩
  refine hearsErrors_setStep stable_deaf (fun y hy => hy.heard.not_lost) (fun y hy => ?_) hu₁
  exact ⟨fun hb => by simp [hy.good] at hb, fun h => absurd h hs⟩

/-! ## The wait step -/

/-- The interrupt handler changes only the flags. -/
theorem stable_at (s : AtaStep) : Stable heeded fun x => x.1.step = s := by
  rintro x y ⟨v, -, rfl⟩ h
  exact h

theorem hearsErrors_fail (hstep : x.1.step = .ioWaitIrq) : HearsErrors (ataFinishIo false) x := by
  refine Safe.of_store (stable_at .ioWaitIrq) hstep fun y hy => ⟨not_lost_of_wait hy, ?_⟩
  refine Safe.of_store (stable_at .ioFail) rfl fun z hz => ⟨fun hl => ?_, ?_⟩
  · simp [ErrorLost, hz] at hl
  · exact ⟨fun _ => .inl hz, fun hs => by simp [show z.1.step = .ioFail from hz] at hs⟩

theorem hearsErrors_xfer (hx : Waiting x) : HearsErrors (setStep .ioXferBlock) x :=
  hearsErrors_setStep stable_waiting (fun _ hy => not_lost_of_wait hy.step)
    (fun _ hy => ⟨fun hb => .inr ⟨.inr rfl, (hy.bad hb).2⟩, fun hs => by simp at hs⟩) hx

/-- Nothing is left to wait for, so that no error can be heard here. -/
theorem stable_polling : Stable heeded fun x => Waiting x ∧ x.1.batchLeft = 0 := by
  rintro x y ⟨v, hok, rfl⟩ ⟨h, hz⟩
  exact ⟨stable_waiting _ _ ⟨v, hok, rfl⟩ h, hz⟩

theorem Waiting.good (h : Waiting x) (hz : x.1.batchLeft = 0) : x.2.bad = false := by
  cases hb : x.2.bad with
  | false => rfl
  | true => exact absurd hz (h.bad hb).1

/-- The driver goes on without an error, after polling or after the last block. -/
theorem hearsErrors_goOn {s : AtaStep} (hs : s.Aside) {k : Ata Unit}
    (hk : Keeps ataWatched Deaf k) (hx : Waiting x) (hz : x.1.batchLeft = 0) :
    HearsErrors (do setStep s; k) x := by
  refine Safe.of_store stable_polling ⟨hx, hz⟩ fun y hy => ⟨not_lost_of_wait hy.1.step, ?_⟩
  have hcalm : Calm (· = s) fun c => { c with step := s } := by simp [Calm]
  rw [ataWatched_onStore hcalm]
  exact hk.safe stable_deaf (fun _ hz => hz.heard.not_lost) (fun _ hz => hz.heard)
    ⟨hy.1.good hy.2, hs⟩

theorem hearsErrors_done (hx : Waiting x) (hz : x.1.batchLeft = 0) :
    HearsErrors (ataFinishIo true) x := by
  refine hearsErrors_goOn (s := .ioDone) (by simp [AtaStep.Aside]) ?_ hx hz
  refine keeps_deaf (S := fun _ => False) ?_ fun s hs => hs.elim
  simp [Only, Calm]

/-- What the wait step does with a status: an error that the handler has recorded before is this
status, or still in the flags. -/
theorem hearsErrors_examine {st : BitVec 8} (hstep : x.1.step = .ioWaitIrq)
    (hx : ataStatusIsBad st = false → Waiting x) : HearsErrors (ataIoWaitIrqExamine st) x := by
  show HearsErrors (if ataStatusIsBad st = true then _ else _) x
  split
  case isTrue => exact hearsErrors_fail hstep
  case isFalse hbad =>
    have hx := hx (by simpa using hbad)
    split
    · exact hearsErrors_xfer hx
    · refine Safe.of_load stable_waiting hx fun y hy => ⟨not_lost_of_wait hy.step, ?_⟩
      show HearsErrors (if y.1.batchLeft = 0 then _ else _) y
      split
      case isTrue hz =>
        refine Safe.of_load stable_polling ⟨hy, hz⟩ fun z hz => ⟨not_lost_of_wait hz.1.step, ?_⟩
        show HearsErrors (if z.1.sectorsLeft = 0 then _ else _) z
        split
        · exact hearsErrors_done hz.1 hz.2
        · exact hearsErrors_goOn (k := .ret ()) (by simp [AtaStep.Aside]) trivial hz.1 hz.2
      case isFalse =>
        refine Safe.of_inb stable_waiting hy fun z hz => ⟨not_lost_of_wait hz.step, fun v => ?_⟩
        show HearsErrors (if ataStatusIsBad v = true then _ else _) z
        split
        · exact hearsErrors_fail hz.step
        · split
          · exact hearsErrors_xfer hz
          · exact hz.listening.heard

theorem hearsErrors_ioWait (hstep : x.1.step = .ioWaitIrq) (hx : Heard x) :
    HearsErrors ataIoWaitIrqHandle x := by
  have hstable := (stable_listening false).and (stable_at .ioWaitIrq)
  refine Safe.of_load hstable ⟨hx.listening (.inl hstep), hstep⟩
    fun y hy => ⟨hy.1.heard.not_lost, ?_⟩
  show HearsErrors (if y.1.irqFired = true then _ else _) y
  split
  case isTrue =>
    refine Safe.of_store hstable hy fun z hz => ⟨hz.1.heard.not_lost, ?_⟩
    have hz₁ : Consuming ({ z.1 with irqFired := false },
        ataWatched.onStore z.1 { z.1 with irqFired := false } z.2) :=
      ⟨fun hb => ⟨(hz.1.bad hb).1, (hz.1.bad hb).2.2⟩, hz.2⟩
    refine Safe.of_load stable_consuming hz₁ fun w hw => ⟨not_lost_of_wait hw.step, ?_⟩
    refine hearsErrors_examine hw.step fun hgood => ⟨fun hb => ?_, hw.step⟩
    simp [(hw.bad hb).2] at hgood
  case isFalse hfired =>
    have hgood : y.2.bad = false := by
      cases hb : y.2.bad with
      | false => rfl
      | true => exact absurd (hy.1.bad hb).2.1 hfired
    have hy₁ : Waiting y := ⟨fun hb => by simp [hgood] at hb, hy.2⟩
    refine Safe.of_load stable_waiting hy₁ fun z hz => ⟨not_lost_of_wait hz.step, ?_⟩
    show HearsErrors (if z.1.batchLeft ≠ 0 then _ else _) z
    split
    · exact hz.listening.heard
    · refine Safe.of_inb stable_waiting hz fun w hw => ⟨not_lost_of_wait hw.step, fun v => ?_⟩
      exact hearsErrors_examine hw.step fun _ => hw

/-! ## The calls -/

theorem hearsErrors_initHandle (hx : Heard x) : HearsErrors (ataInitHandle x.1.step) x := by
  cases hstep : x.1.step with
  | initSelect =>
      exact hearsErrors_of_quiet quiet_initSelect (by simp [AtaStep.Aside])
        (hx.deaf (by simp [hstep, AtaStep.Aside]) (by simp [hstep]))
  | initIdentifyCmd =>
      rw [ataInitHandle, identifyCmd_eq]
      exact hearsErrors_issueCommand quiet_identifyRegisters (by simp)
        (hx.deaf (by simp [hstep, AtaStep.Aside]) (by simp [hstep]))
  | initIdentifyWait =>
      have hx := hx.deaf (by simp [hstep, AtaStep.Aside]) (by simp [hstep])
      refine Safe.of_load stable_deaf hx fun y hy => ⟨hy.heard.not_lost, ?_⟩
      show HearsErrors (if y.1.irqFired = true then _ else _) y
      split
      · refine Safe.of_store stable_deaf hy fun z hz => ⟨hz.heard.not_lost, ?_⟩
        have hz₁ : Deaf ({ z.1 with irqFired := false },
          ataWatched.onStore z.1 { z.1 with irqFired := false } z.2) := ⟨hz.good, hz.step⟩
        refine Safe.of_load stable_deaf hz₁ fun w hw => ⟨hw.heard.not_lost, ?_⟩
        exact hearsErrors_of_quiet (quiet_identifyExamine _) (fun _ hs => hs) hw
      · exact hy.heard
  | initIdentifyXfer =>
      refine hearsErrors_of_quiet quiet_identifyXfer (fun s hs => ?_)
        (hx.deaf (by simp [hstep, AtaStep.Aside]) (by simp [hstep]))
      cases hs with
      | _ h => simp [h, AtaStep.Aside]
  | _ => exact hx

theorem hearsErrors_ioXfer (hstep : x.1.step = .ioXferBlock) (hx : Heard x) :
    HearsErrors ataIoXferBlockHandle x := by
  have hkeeps : Keeps ataWatched Listening ataIoXferBlockHandle := by
    refine Only.keeps quiet_ioXfer (fun f hf y hy => ⟨fun hb => (hy.bad hb).store hf, ?_⟩)
      fun e he y hy => by rwa [ataWatched_onPort he]
    cases (hf y.1).2.2 with
    | inl hsame => exact hsame ▸ hy.step
    | inr hnew => exact .inl hnew
  exact hkeeps.safe (stable_listening false) (fun _ hy => hy.heard.not_lost) (fun _ hy => hy.heard)
    (hx.listening (.inr hstep))

theorem hearsErrors_ioHandle (hx : Heard x) : HearsErrors (ataIoHandle x.1.step) x := by
  cases hstep : x.1.step with
  | ioIssueSelect =>
      exact hearsErrors_of_quiet quiet_ioSelect (by simp [AtaStep.Aside])
        (hx.deaf (by simp [hstep, AtaStep.Aside]) (by simp [hstep]))
  | ioIssueTaskfile =>
      have hx := hx.deaf (by simp [hstep, AtaStep.Aside]) (by simp [hstep])
      show HearsErrors ataIoIssueTaskfileHandle x
      rw [ioTaskfile_eq]
      refine Safe.of_load stable_deaf hx fun y hy => ⟨hy.heard.not_lost, ?_⟩
      show HearsErrors (if y.1.sectorsLeft = 0 then _ else _) y
      split
      · exact hearsErrors_of_quiet (quiet_finishIo true) (by simp [AtaStep.Aside]) hy
      · exact hearsErrors_issueCommand quiet_ioRegisters (by simp) hy
  | ioWaitIrq => exact hearsErrors_ioWait hstep hx
  | ioXferBlock => exact hearsErrors_ioXfer hstep hx
  | _ => exact hx

theorem hearsErrors_call (k : AtaCall) (hx : Heard x) : HearsErrors (ataWatched.call k) x := by
  cases k with
  | tick =>
      exact tick_safe (stable_heard false) (fun _ hy => hy.not_lost) (keeps_heard quiet_delayTick)
        (fun _ hy => hearsErrors_initHandle hy) (fun _ hy => hearsErrors_ioHandle hy) hx
  | begin r =>
      refine begin_safe (B := fun x => x.2.bad = false ∧ x.2.issued = false) (stable_heard false)
        (fun _ hy => hy.not_lost) ?_ ?_ ?_ ?_ r hx
      · rintro x y ⟨v, -, rfl⟩ ⟨hb, hi⟩
        exact ⟨by simp [hb, hi], hi⟩
      · intro x h hs
        refine ⟨?_, h.idle hs⟩
        cases hb : x.2.bad with
        | false => rfl
        | true => simpa [hs] using h.bad hb
      · exact fun x h => ⟨fun hb => by simp [h.1] at hb, fun _ => h.2⟩
      · exact fun f x h => h

end

end BootKernel
