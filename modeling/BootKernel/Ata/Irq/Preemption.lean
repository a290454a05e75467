import BootKernel.Ata.Data
import BootKernel.Ata.Irq.Interrupts
import BootKernel.Ata.Irq.Transfer
import BootKernel.Lib.Preemption

/-!
# Ticks that are interrupted

The handler changes the two flags only. Whatever interrupts come between the operations of a tick, to
the drive it is a tick that nothing interrupts, from a context with other flags. So what a request
moves does not depend on when the interrupts come.
-/

namespace BootKernel

open PortProgram

/-- What the interrupt handler leaves alone. -/
def AtaContext.unflagged (c : AtaContext) : AtaContext := { c with irqFired := false, lastStatus := 0 }

abbrev UpTo {α : Type} (p : Ata α) := RunsUpTo AtaContext.unflagged p

abbrev IrqBlind {α : Type} (p : Ata α) : Prop := Blind AtaContext.unflagged p

section

variable {c c' : AtaContext} {es : List AtaEvent} {u : Unit} {a : Bool}

theorem eq_of_unflagged (h : c'.unflagged = c.unflagged) :
    c' = { c with irqFired := c'.irqFired, lastStatus := c'.lastStatus } := by
  obtain ⟨_, _, hop, hstep, hdelay, hlba, hleft, hbatch, hptr⟩ := AtaContext.mk.inj h
  cases c'
  cases c
  simp_all

/-! ## The handlers that do not look at the flags -/

theorem blind_load {α : Type} {k : AtaContext → Ata α}
    (hk : ∀ c fired st, k { c with irqFired := fired, lastStatus := st } = k c)
    (h : ∀ c, IrqBlind (k c)) : IrqBlind (.load k) := by
  refine ⟨fun s t hst => ?_, h⟩
  rw [eq_of_unflagged hst]
  exact hk t _ _

theorem blind_setStep (s : AtaStep) : IrqBlind (setStep s) :=
  ⟨fun _ _ h => congrArg (fun c : AtaContext => { c with step := s }) h, trivial⟩

theorem blind_finishIo (success : Bool) : IrqBlind (ataFinishIo success) :=
  (blind_setStep _).bind fun _ =>
    ⟨fun _ _ h => congrArg (fun c : AtaContext => { c with op := .none }) h, trivial⟩

theorem blind_finishInit (success : Bool) : IrqBlind (ataFinishInit success) :=
  (blind_setStep _).bind fun _ =>
    ⟨fun _ _ h => congrArg (fun c : AtaContext => { c with op := .none }) h, trivial⟩

theorem blind_flagsReset : IrqBlind ataIrqFlagsReset := ⟨fun _ _ h => h, fun _ _ h => h, trivial⟩

theorem blind_delayStart : IrqBlind ataDelay400nsStart :=
  ⟨fun _ _ h => congrArg (fun c : AtaContext => { c with delay400 := 4 }) h, trivial⟩

theorem blind_delayTick : IrqBlind ataDelay400nsTick := by
  refine blind_load (fun _ _ _ => rfl) fun c => Blind.ite trivial fun v => ?_
  refine ⟨fun _ _ h => ?_, blind_load (fun _ _ _ => rfl) fun _ => trivial⟩
  exact congrArg (fun c : AtaContext => { c with delay400 := c.delay400 - 1 }) h

theorem blind_initSelect : IrqBlind ataInitSelectHandle :=
  blind_delayStart.bind fun _ => blind_setStep _

theorem blind_identifyCmd : IrqBlind ataInitIdentifyCmdHandle :=
  blind_flagsReset.bind fun _ => blind_setStep _

theorem blind_identifyXfer : IrqBlind ataInitIdentifyXferHandle := blind_finishInit true

theorem blind_ioSelect : IrqBlind ataIoIssueSelectHandle := by
  have hrest : IrqBlind (do ataDelay400nsStart; setStep .ioIssueTaskfile) :=
    blind_delayStart.bind fun _ => blind_setStep _
  exact blind_load (fun _ _ _ => rfl) fun c => Blind.ite hrest hrest

theorem blind_ioRegisters : IrqBlind ioRegisters := by
  refine ⟨fun _ _ h => congrArg (fun c : AtaContext => { c with batchLeft := 1 }) h, ?_⟩
  exact blind_load (fun _ _ _ => rfl) fun c => Blind.ite trivial trivial

theorem blind_ioTaskfile : IrqBlind ataIoIssueTaskfileHandle := by
  rw [ioTaskfile_eq]
  refine blind_load (fun _ _ _ => rfl) fun c => Blind.ite (blind_finishIo true) ?_
  exact blind_ioRegisters.bind fun _ => blind_flagsReset.bind fun _ => blind_setStep _

theorem blind_ioXfer : IrqBlind ataIoXferBlockHandle := by
  have hrest (n : BitVec 32) (ptr : BitVec 64) : IrqBlind (do
      store fun c => { c with ptr := c.ptr + ptr }
      store fun c => { c with lba := c.lba + n.setWidth 64 }
      store fun c => { c with batchLeft := c.batchLeft - n }
      store fun c => { c with sectorsLeft := c.sectorsLeft - n }
      setStep .ioWaitIrq) :=
    ⟨fun _ _ h => congrArg (fun c : AtaContext => { c with ptr := c.ptr + ptr }) h,
      fun _ _ h => congrArg (fun c : AtaContext => { c with lba := c.lba + n.setWidth 64 }) h,
      fun _ _ h => congrArg (fun c : AtaContext => { c with batchLeft := c.batchLeft - n }) h,
      fun _ _ h => congrArg (fun c : AtaContext => { c with sectorsLeft := c.sectorsLeft - n }) h,
      blind_setStep _⟩
  refine blind_load (fun _ _ _ => rfl) fun c => ?_
  exact Blind.ite (blind_setStep _) (Blind.ite (hrest _ _) (hrest _ _))

theorem blind_secondLook {p q : Ata Unit} (hp : IrqBlind p) (hq : IrqBlind q) : IrqBlind (do
    let st ← ataAltStatusReadOnce
    if ataStatusIsBad st then p else if ataStatusHasDrq st then q) :=
  fun _ => Blind.ite hp (Blind.ite hq trivial)

theorem blind_ioExamine (st : BitVec 8) : IrqBlind (ataIoWaitIrqExamine st) := by
  refine Blind.ite (blind_finishIo false) (Blind.ite (blind_setStep _) ?_)
  refine blind_load (fun _ _ _ => rfl) fun c => Blind.ite ?_ ?_
  · exact blind_load (fun _ _ _ => rfl) fun c => Blind.ite (blind_finishIo true) (blind_setStep _)
  · exact blind_secondLook (blind_finishIo false) (blind_setStep _)

theorem blind_identifyExamine (st : BitVec 8) : IrqBlind (do
    if ataStatusIsBad st then
      ataFinishInit false
    else if ataStatusHasDrq st then
      setStep .initIdentifyXfer
    else
      let st ← ataAltStatusReadOnce
      if ataStatusIsBad st then
        ataFinishInit false
      else if ataStatusHasDrq st then
        setStep .initIdentifyXfer) :=
  Blind.ite (blind_finishInit false)
    (Blind.ite (blind_setStep _) (blind_secondLook (blind_finishInit false) (blind_setStep _)))

theorem blind_begin (r : AtaRequest) : IrqBlind r.begin := by
  have hreset : IrqBlind (do ataRequestStateReset; return true) :=
    ⟨fun _ _ h => congrArg (fun c : AtaContext => { c with delay400 := 0 }) h, blind_flagsReset⟩
  have hinit (op : AtaOp) : IrqBlind (beginInit op) := by
    refine blind_load (fun _ _ _ => rfl) fun c => Blind.ite trivial ?_
    exact ⟨fun _ _ h => congrArg (fun c : AtaContext => { c with op := op }) h,
      (blind_setStep _).bind fun _ => hreset⟩
  have hio (op : AtaOp) (lba addr : BitVec 64) (n : BitVec 32) : IrqBlind (beginIo op lba addr n) := by
    refine blind_load (fun _ _ _ => rfl) fun c => Blind.ite trivial ?_
    exact ⟨fun _ _ h => congrArg (fun c : AtaContext => { c with op := op }) h,
      fun _ _ h => congrArg (fun c : AtaContext => { c with step := .ioIssueSelect }) h,
      fun _ _ h => congrArg (fun c : AtaContext => { c with lba := lba }) h,
      fun _ _ h => congrArg (fun c : AtaContext => { c with sectorsLeft := n }) h,
      fun _ _ h => congrArg (fun c : AtaContext => { c with batchLeft := 0 }) h,
      fun _ _ h => congrArg (fun c : AtaContext => { c with ptr := addr }) h, hreset⟩
  cases r with
  | init28 => exact hinit _
  | init48 => exact hinit _
  | read28 lba addr n => exact hio _ _ _ _
  | write28 lba addr n => exact hio _ _ _ _
  | read48 lba addr n => exact hio _ _ _ _
  | write48 lba addr n => exact hio _ _ _ _

/-! ## A tick -/

/-- To the drive, and up to the flags it leaves, the run is one that nothing interrupts. -/
def Uninterrupted (p : Ata Unit) (c : AtaContext) (es : List AtaEvent) (c' : AtaContext) : Prop :=
  ∃ c₀ c₁, c₀.unflagged = c.unflagged ∧ Runs p c₀ es () c₁ ∧ c₁.unflagged = c'.unflagged

theorem uninterrupted_of_blind {p : Ata Unit} (hp : IrqBlind p) (h : UpTo p c es u c') :
    Uninterrupted p c es c' := by
  obtain ⟨c₁, hr, hc₁⟩ := hp.runs h rfl
  exact ⟨c, c₁, rfl, hr, hc₁⟩

/-- A wait step takes the flag and the status as it finds them. -/
theorem uninterrupted_wait {fired : BitVec 8 → Ata Unit} {quiet : Ata Unit}
    (hfired : ∀ st, IrqBlind (fired st)) (hquiet : IrqBlind quiet)
    (h : UpTo (do
      if ← load (·.irqFired) then
        store fun c => { c with irqFired := false }
        fired (← load (·.lastStatus))
      else quiet) c es u c') :
    Uninterrupted (do
      if ← load (·.irqFired) then
        store fun c => { c with irqFired := false }
        fired (← load (·.lastStatus))
      else quiet) c es c' := by
  obtain ⟨t, ht, h⟩ := h
  change UpTo (if t.irqFired = true then _ else quiet) t es u c' at h
  cases hf : t.irqFired with
  | true =>
      rw [if_pos hf] at h
      obtain ⟨t₁, ht₁, t₂, ht₂, h⟩ := h
      obtain ⟨c₁, hr, hc₁⟩ := (hfired t₂.lastStatus).runs
        (u := { c with irqFired := false, lastStatus := t₂.lastStatus }) h
        (ht.symm.trans (ht₁.symm.trans ht₂.symm))
      exact ⟨{ c with irqFired := true, lastStatus := t₂.lastStatus }, c₁, rfl, hr, hc₁⟩
  | false =>
      rw [if_neg (by simp [hf])] at h
      obtain ⟨c₁, hr, hc₁⟩ := hquiet.runs (u := { c with irqFired := false }) h ht.symm
      exact ⟨{ c with irqFired := false }, c₁, rfl, hr, hc₁⟩

theorem uninterrupted_initHandle (h : UpTo (ataInitHandle c.step) c es u c') :
    Uninterrupted (ataInitHandle c.step) c es c' := by
  cases hstep : c.step with
  | initSelect => exact uninterrupted_of_blind blind_initSelect (by rwa [hstep] at h)
  | initIdentifyCmd => exact uninterrupted_of_blind blind_identifyCmd (by rwa [hstep] at h)
  | initIdentifyWait =>
      rw [hstep] at h
      exact uninterrupted_wait blind_identifyExamine trivial h
  | initIdentifyXfer => exact uninterrupted_of_blind blind_identifyXfer (by rwa [hstep] at h)
  | _ => exact uninterrupted_of_blind trivial (by rwa [hstep] at h)

theorem uninterrupted_ioHandle (h : UpTo (ataIoHandle c.step) c es u c') :
    Uninterrupted (ataIoHandle c.step) c es c' := by
  cases hstep : c.step with
  | ioIssueSelect => exact uninterrupted_of_blind blind_ioSelect (by rwa [hstep] at h)
  | ioIssueTaskfile => exact uninterrupted_of_blind blind_ioTaskfile (by rwa [hstep] at h)
  | ioWaitIrq =>
      rw [hstep] at h
      refine uninterrupted_wait blind_ioExamine ?_ h
      exact blind_load (fun _ _ _ => rfl) fun c => Blind.ite trivial fun v => blind_ioExamine v
  | ioXferBlock => exact uninterrupted_of_blind blind_ioXfer (by rwa [hstep] at h)
  | _ => exact uninterrupted_of_blind trivial (by rwa [hstep] at h)

theorem dispatch_upTo (h : UpTo ataDispatch c es u c') : Uninterrupted ataDispatch c es c' := by
  obtain ⟨t, ht, h⟩ := h
  change UpTo (if t.op = .init28 ∨ t.op = .init48 then ataInitTick else ataIoTick) t es u c' at h
  have hop : t.op = c.op := congrArg (·.op) ht
  have hrun (p : Ata Unit) (c₀ : AtaContext) (hc₀ : c₀.unflagged = c.unflagged)
      (hp : (if c.op = .init28 ∨ c.op = .init48 then ataInitHandle c.step else ataIoHandle c.step) = p)
      {c₁ : AtaContext} (hr : Runs p c₀ es () c₁) : Runs ataDispatch c₀ es () c₁ := by
    have hop₀ : c₀.op = c.op := congrArg (·.op) hc₀
    have hstep₀ : c₀.step = c.step := congrArg (·.step) hc₀
    rw [← hop₀, ← hstep₀] at hp
    show Runs (if c₀.op = .init28 ∨ c₀.op = .init48 then ataInitTick else ataIoTick) c₀ es () c₁
    subst hp
    split at hr
    case isTrue hi =>
      rw [if_pos hi]
      exact hr
    case isFalse hi =>
      rw [if_neg hi]
      exact hr
  rw [hop] at h
  split at h
  case isTrue hi =>
    obtain ⟨t₁, ht₁, h⟩ := h
    have hstep : t₁.step = c.step := congrArg (·.step) (ht₁.trans ht)
    change UpTo (ataInitHandle t₁.step) t₁ es u c' at h
    rw [hstep] at h
    obtain ⟨c₀, c₁, hc₀, hr, hc₁⟩ := uninterrupted_initHandle (h.start (ht₁.trans ht).symm)
    exact ⟨c₀, c₁, hc₀, hrun _ c₀ hc₀ (if_pos hi) hr, hc₁⟩
  case isFalse hi =>
    obtain ⟨t₁, ht₁, h⟩ := h
    have hstep : t₁.step = c.step := congrArg (·.step) (ht₁.trans ht)
    change UpTo (ataIoHandle t₁.step) t₁ es u c' at h
    rw [hstep] at h
    obtain ⟨c₀, c₁, hc₀, hr, hc₁⟩ := uninterrupted_ioHandle (h.start (ht₁.trans ht).symm)
    exact ⟨c₀, c₁, hc₀, hrun _ c₀ hc₀ (if_neg hi) hr, hc₁⟩

/-- A tick in whose course interrupts come is, to the drive, a tick from a context with other flags. -/
theorem tickAta_upTo (h : UpTo tickAta c es u c') :
    ∃ c₀ c₁, c₀.unflagged = c.unflagged ∧ TickStep c₀ es c₁ ∧ c₁.unflagged = c'.unflagged := by
  obtain ⟨t, ht, h⟩ := h
  change UpTo (if t.delay400 ≠ 0 then _ else ataDispatch) t es u c' at h
  have hdelay : t.delay400 = c.delay400 := congrArg (·.delay400) ht
  rw [hdelay] at h
  split at h
  case isFalse hz =>
    obtain ⟨c₀, c₁, hc₀, hr, hc₁⟩ := dispatch_upTo (h.start ht.symm)
    have hz₀ : c₀.delay400 = 0 := (congrArg (·.delay400) hc₀).trans (not_not.mp hz)
    exact ⟨c₀, c₁, hc₀, .handle hz₀ (ataDispatch_runs hr), hc₁⟩
  case isTrue hn =>
    obtain ⟨es₁, es₂, b, t₁, rfl, hdel, h₁⟩ := RunsUpTo.bind (p := ataDelay400nsTick) h
    obtain ⟨c₂, hr, hc₂⟩ := blind_delayTick.runs (u := c) hdel ht.symm
    have htick : ∃ v, es₁ = [.inb ataRegControl v] ∧ c₂ = { c with delay400 := c.delay400 - 1 } := by
      simp only [ataDelay400nsTick, load, store, inb, load_bind, store_bind, inb_bind, ret_bind,
        pure_eq, Runs, if_neg hn] at hr
      obtain ⟨v, es', rfl, rfl, -, rfl⟩ := hr
      exact ⟨v, rfl, rfl⟩
    obtain ⟨v, rfl, rfl⟩ := htick
    obtain ⟨t₂, ht₂, h⟩ := h₁
    change UpTo (if t₂.delay400 ≠ 0 then .ret () else ataDispatch) t₂ es₂ u c' at h
    have hc : t₂.unflagged = ({ c with delay400 := c.delay400 - 1 } : AtaContext).unflagged :=
      ht₂.trans hc₂.symm
    have hleft : t₂.delay400 = c.delay400 - 1 := congrArg (·.delay400) hc
    rw [hleft] at h
    split at h
    case isTrue hmore =>
      obtain ⟨rfl, -, hc'⟩ := h
      exact ⟨c, _, rfl, .delay (v := v) (by omega), (hc'.trans hc).symm⟩
    case isFalse hlast =>
      obtain ⟨c₀, c₁, hc₀, hr, hc₁⟩ := dispatch_upTo (h.start hc.symm)
      have hone : c.delay400 = 1 := by omega
      have hz₀ : c₀.delay400 = 0 := by
        have hd : c₀.delay400 = c.delay400 - 1 := congrArg (·.delay400) hc₀
        omega
      have hsame : ({ c₀ with delay400 := 0 } : AtaContext) = c₀ := by rw [← hz₀]
      refine ⟨{ c₀ with delay400 := 1 }, c₁, ?_, .delayEnd rfl ?_, hc₁⟩
      · have hset := congrArg (fun x : AtaContext => { x with delay400 := 1 }) hc₀
        have hself : ({ c with delay400 := 1 } : AtaContext) = c := by rw [← hone]
        rw [← hself]
        exact hset
      · show HandleStep { c₀ with delay400 := 0 } es₂ c₁
        rw [hsame]
        exact ataDispatch_runs hr

/-- So is every call of the driver. -/
theorem AtaCall.upTo {k : AtaCall} (h : UpTo k.action.prog c es u c') :
    ∃ c₀ c₁, c₀.unflagged = c.unflagged ∧ ActionStep c₀ k.action es c₁ ∧
      c₁.unflagged = c'.unflagged := by
  cases k with
  | tick =>
      obtain ⟨c₀, c₁, hc₀, hstep, hc₁⟩ := tickAta_upTo h
      exact ⟨c₀, c₁, hc₀, .tick hstep, hc₁⟩
  | begin r =>
      obtain ⟨c₁, hr, hc₁⟩ := ((blind_begin r).bind (g := fun _ => .ret ()) fun _ => trivial).runs h rfl
      exact ⟨c, c₁, rfl, AtaAction.prog_runs (a := .begin r) hr, hc₁⟩

end

end BootKernel
