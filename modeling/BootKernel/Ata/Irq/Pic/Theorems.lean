import BootKernel.Ata.Irq.Liveness
import BootKernel.Ata.Irq.Pic.Lemmas

/-!
# The driver behind the interrupt controllers

After `setup_ata_irq` the processor is interrupted exactly while the drive asserts its interrupt, and gets the
vector of the handler. So with the controllers in between the driver and the drive go through the same states as
without them.
-/

namespace BootKernel

open PortProgram Pic8259 Fairness

/-! ## Accesses of the driver -/

def accessPort : AtaEvent → BitVec 16
  | .inb port _ | .outb port _ | .insw port _ _ | .outsw port _ _ => port

/-- The access is not to the controllers. -/
def OffPic (e : AtaEvent) : Prop := accessPort e ∉ [pic1Cmd, pic1Data, pic2Cmd, pic2Data]

section
variable {S : DriveStatus} {c c' fail xfer : AtaContext} {d d' : Drive} {p p' : Pair} {es : List AtaEvent}
  {st : BitVec 8}

theorem SecondLook.offPic (h : SecondLook fail xfer c es c') : ∀ e ∈ es, OffPic e := by
  cases h with
  | bad | drq | none => simp [OffPic, accessPort, ataRegControl, pic1Cmd, pic1Data, pic2Cmd, pic2Data]

theorem IdentifyLook.offPic (h : IdentifyLook c st es c') : ∀ e ∈ es, OffPic e := by
  cases h with
  | bad | drq => simp
  | again _ _ h => exact h.offPic

theorem IoLook.offPic (h : IoLook c st es c') : ∀ e ∈ es, OffPic e := by
  cases h with
  | bad | drq | done | next => simp
  | again _ _ _ h => exact h.offPic

theorem ioTaskfile_offPic (op : AtaOp) (lba : BitVec 64) : ∀ e ∈ ioTaskfile op lba, OffPic e := by
  unfold ioTaskfile
  split
  · simp [OffPic, accessPort, ataRegSeccount, ataRegLbaLow, ataRegLbaMid, ataRegLbaHigh, ataRegCommand, pic1Cmd,
      pic1Data, pic2Cmd, pic2Data]
  · simp [OffPic, accessPort, ataRegSeccount, ataRegLbaLow, ataRegLbaMid, ataRegLbaHigh, ataRegCommand, pic1Cmd,
      pic1Data, pic2Cmd, pic2Data]

theorem identifyTaskfile_offPic : ∀ e ∈ identifyTaskfile, OffPic e := by
  simp [OffPic, accessPort, identifyTaskfile, ataRegSeccount, ataRegLbaLow, ataRegLbaMid, ataRegLbaHigh,
    ataRegCommand, pic1Cmd, pic1Data, pic2Cmd, pic2Data]

theorem blockTransfer_offPic (op : AtaOp) (ptr : BitVec 64) (n : BitVec 32) : OffPic (blockTransfer op ptr n) := by
  unfold blockTransfer
  split
  · simp [OffPic, accessPort, ataRegData, pic1Cmd, pic1Data, pic2Cmd, pic2Data]
  · simp [OffPic, accessPort, ataRegData, pic1Cmd, pic1Data, pic2Cmd, pic2Data]

theorem offPic_control (v : BitVec 8) : OffPic (.inb ataRegControl v) := by
  simp [OffPic, accessPort, ataRegControl, pic1Cmd, pic1Data, pic2Cmd, pic2Data]

theorem HandleStep.offPic (h : HandleStep c es c') : ∀ e ∈ es, OffPic e := by
  cases h with
  | initSelect =>
      simp [OffPic, accessPort, ataRegControl, ataRegDriveSel, pic1Cmd, pic1Data, pic2Cmd, pic2Data]
  | identifyCmd => exact identifyTaskfile_offPic
  | identifyQuiet | ioNothing | ioQuiet | ioEmptyBlock | initIgnored | ioIgnored => simp
  | identifyWait _ _ _ h => exact h.offPic
  | identifyXfer => simp [OffPic, accessPort, ataRegData, pic1Cmd, pic1Data, pic2Cmd, pic2Data]
  | ioSelect => simp [OffPic, accessPort, ataRegDriveSel, pic1Cmd, pic1Data, pic2Cmd, pic2Data]
  | ioTaskfile => exact ioTaskfile_offPic _ _
  | ioFired _ _ _ h => exact h.offPic
  | ioPolled _ _ _ _ h => exact List.forall_mem_cons.mpr ⟨offPic_control _, h.offPic⟩
  | ioXfer => exact List.forall_mem_singleton.mpr (blockTransfer_offPic _ _ _)

theorem TickStep.offPic (h : TickStep c es c') : ∀ e ∈ es, OffPic e := by
  cases h with
  | delay => exact List.forall_mem_singleton.mpr (offPic_control _)
  | delayEnd _ h => exact List.forall_mem_cons.mpr ⟨offPic_control _, h.offPic⟩
  | handle _ h => exact h.offPic

/-! ## The controllers follow the drive -/

abbrev PicConfig := (BitVec 8 × BitVec 8 × BitVec 8) × BitVec 8 × BitVec 8 × BitVec 8

/-- The controllers serve nothing, and ask for an interrupt exactly while the drive does. -/
structure Follows (cfg : PicConfig) (x : Drive × Pair) : Prop where
  armed : x.2.Armed ataInput
  line : x.2.slave.lines ataInput = x.1.intrq
  config : x.2.config = cfg

variable {cfg : PicConfig} {x x' : Drive × Pair}

theorem follows_wire (h : p.Armed ataInput) (hcfg : p.config = cfg) (d : Drive) : Follows cfg (wire (d, p)) :=
  ⟨h.slaveLine (.inl rfl) d.intrq, Chip.setLine_lines _ _ _, hcfg⟩

theorem Follows.access {e : AtaEvent} (h : Follows cfg x) (he : OffPic e)
    (ha : Answers (wiredPorts S) (e :: es) x x') :
    ∃ y, Follows cfg y ∧ Answers (wiredPorts S) es y x' ∧
      ∀ d', Answers (drivePorts S) es y.1 d' → Answers (drivePorts S) (e :: es) x.1 d' := by
  cases e with
  | inb port v =>
      have hnone : picRead x.2 port = none := by
        simp only [OffPic, accessPort, List.mem_cons, List.not_mem_nil, or_false, not_or] at he
        rw [picRead, if_neg he.2.1, if_neg he.2.2.2]
      have hinb : (wiredPorts S).inb port x =
          (((drivePorts S).inb port x.1).1, wire (((drivePorts S).inb port x.1).2, x.2)) := by
        simp only [wiredPorts, hnone]
      obtain ⟨hv, ha⟩ := ha
      rw [hinb] at hv ha
      exact ⟨_, follows_wire h.armed h.config _, ha, fun d' hd => ⟨hv, hd⟩⟩
  | outb port v =>
      have hsame : picWrite x.2 port v = x.2 := by
        simp only [OffPic, accessPort, List.mem_cons, List.not_mem_nil, or_false, not_or] at he
        rw [picWrite, if_neg he.1, if_neg he.2.1, if_neg he.2.2.1, if_neg he.2.2.2]
      have houtb : (wiredPorts S).outb port v x = wire ((drivePorts S).outb port v x.1, x.2) := by
        simp only [wiredPorts, hsame]
      have ha : Answers (wiredPorts S) es ((wiredPorts S).outb port v x) x' := ha
      rw [houtb] at ha
      exact ⟨_, follows_wire h.armed h.config _, ha, fun d' hd => hd⟩
  | insw port buf n => exact ⟨_, follows_wire h.armed h.config _, ha, fun d' hd => hd⟩
  | outsw port buf n => exact ⟨_, follows_wire h.armed h.config _, ha, fun d' hd => hd⟩

theorem Follows.accesses (h : Follows cfg x) (hes : ∀ e ∈ es, OffPic e) (ha : Answers (wiredPorts S) es x x') :
    Answers (drivePorts S) es x.1 x'.1 ∧ Follows cfg x' := by
  induction es generalizing x with
  | nil =>
      obtain rfl := ha
      exact ⟨rfl, h⟩
  | cons e es ih =>
      obtain ⟨he, hes⟩ := List.forall_mem_cons.mp hes
      obtain ⟨y, hy, ha, hdrive⟩ := h.access he ha
      obtain ⟨hrest, hend⟩ := ih hy hes ha
      exact ⟨hdrive _ hrest, hend⟩

/-! ## One action -/

/-- The machine of the drive and the controllers, with no interrupt lost or astray. -/
structure WiredJoint.InStep (cfg : PicConfig) (s : WiredJoint) (j : Joint) : Prop where
  joint : s.joint = j
  follows : Follows cfg (s.drive, s.pic)
  strays : s.strays = []

/-- Another device changes its input only where its interrupt is masked. -/
def WiredAction.Masked (m : BitVec 8 × BitVec 8) : WiredAction → Prop
  | .masterLine n _ => n = 2 ∨ m.1.getLsbD n = true
  | .slaveLine n _ => n = ataInput ∨ m.2.getLsbD n = true
  | _ => True

instance WiredAction.Masked.decidable (m : BitVec 8 × BitVec 8) : (a : WiredAction) → Decidable (a.Masked m)
  | .masterLine _ _ | .slaveLine _ _ => inferInstanceAs (Decidable (_ ∨ _))
  | .tick | .interrupt | .device => isTrue trivial

theorem WiredAction.Masked.unmasked {m : BitVec 8 × BitVec 8} {a : WiredAction} (h : a.Masked m) :
    a.Masked (unmasked m picIrqAtaPrimary) := by
  have hcall : BootKernel.unmasked m picIrqAtaPrimary = (clearMask m.1 2, clearMask m.2 6) := rfl
  rw [hcall]
  cases a with
  | tick | interrupt | device => trivial
  | masterLine n level =>
      by_cases hn : n = 2
      · exact .inl hn
      · refine .inr ?_
        rw [clearMask_getLsbD _ _ n.isLt, h.resolve_left hn]
        simpa [Fin.ext_iff] using hn
  | slaveLine n level =>
      by_cases hn : n = ataInput
      · exact .inl hn
      · refine .inr ?_
        rw [clearMask_getLsbD _ _ n.isLt, h.resolve_left hn]
        simpa [ataInput, Fin.ext_iff] using hn

variable {s : WiredJoint} {j : Joint}

/-- A function whose accesses are none of the controllers does the same without them. -/
theorem WiredJoint.InStep.exec {α : Type} {f : Ata α} (h : s.InStep cfg j)
    (hf : ∀ {es a c'}, Runs f s.ctx es a c' → ∀ e ∈ es, OffPic e) :
    let x := PortProgram.exec (wiredPorts S) f s.ctx (s.drive, s.pic)
    let y := PortProgram.exec (drivePorts S) f j.ctx j.drive
    x.1 = y.1 ∧
      ({ s with ctx := x.2.1, drive := x.2.2.1, pic := x.2.2.2 } : WiredJoint).InStep cfg ⟨y.2.1, y.2.2⟩ := by
  obtain ⟨es, hr, ha⟩ := exec_runs (wiredPorts S) f s.ctx (s.drive, s.pic)
  obtain ⟨hdrive, hfollows⟩ := h.follows.accesses (hf hr) ha
  rw [← h.joint, WiredJoint.joint, exec_of_runs hr hdrive]
  exact ⟨rfl, rfl, hfollows, h.strays⟩

theorem WiredJoint.InStep.tick (h : s.InStep cfg j) :
    (wiredStep S s .tick).InStep cfg (jointStep S j .tick) :=
  (h.exec fun hr => (tickAta_runs hr).offPic).2

/-- The function of a request makes no access. -/
theorem WiredJoint.InStep.begin (h : s.InStep cfg j) (r : AtaRequest) :
    (wiredMove S s (.begin r)).InStep cfg (jointMove S j (.begin r)) :=
  (h.exec fun hr => by simp [(AtaRequest.begin_runs hr).1]).2

theorem WiredJoint.InStep.device (h : s.InStep cfg j) :
    (wiredStep S s .device).InStep cfg (jointStep S j .device) :=
  ⟨by rw [← h.joint]; rfl, follows_wire h.follows.armed h.follows.config _, h.strays⟩

theorem WiredJoint.InStep.line {a : WiredAction} (h : s.InStep cfg j) (ha : a.Masked (cfg.1.2.2, cfg.2.2.2))
    (hnone : a.joint? = none) : (wiredStep S s a).InStep cfg j := by
  obtain ⟨harmed, hline, hconfig⟩ := h.follows
  cases a with
  | tick | interrupt | device => cases hnone
  | masterLine n level =>
      by_cases hn : n = 2
      · rw [wiredStep, if_pos hn]
        exact h
      · rw [wiredStep, if_neg hn]
        have hmasked : s.pic.master.masked n = true := by
          rw [Chip.masked, ← ha.resolve_left hn, ← hconfig]
          rfl
        exact ⟨h.joint, ⟨harmed.masterLine hn hmasked level, hline, hconfig⟩, h.strays⟩
  | slaveLine n level =>
      by_cases hn : n = ataInput
      · rw [wiredStep, if_pos hn]
        exact h
      · rw [wiredStep, if_neg hn]
        have hmasked : s.pic.slave.masked n = true := by
          rw [Chip.masked, ← ha.resolve_left hn, ← hconfig]
          rfl
        have hlines : (s.pic.slave.setLine n level).lines ataInput = s.pic.slave.lines ataInput :=
          Function.update_of_ne (Ne.symm hn) _ _
        exact ⟨h.joint, ⟨harmed.slaveLine (.inr hmasked) level, hlines.trans hline, hconfig⟩, h.strays⟩

/-- The handler of an interrupt that has been taken: its read of the status ends the request of the drive, and
the two commands end the interrupt. -/
theorem irq14_follows (h : p.Serving ataInput) (c : AtaContext) (d : Drive) :
    ∃ p', exec (wiredPorts S) irq14Ata c (d, p) =
      ((), c.hit (S.of d.phase), { d with intrq := false }, p') ∧
      Follows p.config ({ d with intrq := false }, p') := by
  have hread := h.slaveLine false
  have hlow := p.slave.setLine_low ataInput
  have hseen : (p.onSlave (·.setLine ataInput false)).slave.irr ataInput =
      (p.onSlave (·.setLine ataInput false)).slave.lines ataInput := hlow.1.trans hlow.2.symm
  have hending := (hread.slaveEoi hseen).slaveLine false
  refine ⟨_, rfl, follows_wire hending.masterEoi ?_ { d with intrq := false }⟩
  rw [Pair.config_onMaster (Chip.config_eoi _), Pair.config_onSlave rfl, Pair.config_onSlave (Chip.config_eoi _),
    Pair.config_onSlave rfl]

theorem WiredJoint.InStep.interrupt (h : s.InStep cfg j) (hbase : cfg.2.1 = picRemapSlave) :
    (wiredStep S s .interrupt).InStep cfg (jointStep S j .irq14) := by
  obtain ⟨harmed, hline, hconfig⟩ := h.follows
  have hint : s.pic.int = s.drive.intrq := harmed.int.trans hline
  rw [← h.joint]
  cases hq : s.drive.intrq with
  | false =>
      have hstep : wiredStep S s .interrupt = s := by rw [wiredStep, hint, hq]; rfl
      have hjoint : jointStep S s.joint .irq14 = s.joint := by
        rw [jointStep, if_neg (by simp [WiredJoint.joint, hq])]
      rw [hstep, hjoint]
      exact ⟨rfl, h.follows, h.strays⟩
  | true =>
      obtain ⟨hvector, hserving, hsame⟩ := harmed.acknowledge (hline.trans hq)
      have hvector : s.pic.acknowledge.1 = some irq14Vector := by
        have hslave : s.pic.slave.base = picRemapSlave := (congrArg (fun x : PicConfig => x.2.1) hconfig).trans hbase
        rw [hvector, hslave]
        rfl
      obtain ⟨p', hexec, hfollows⟩ := irq14_follows (S := S) hserving s.ctx s.drive
      have hstep : wiredStep S s .interrupt = wiredExec S irq14Ata { s with pic := s.pic.acknowledge.2 } := by
        simp only [wiredStep, hint, hq, ↓reduceIte, hvector]
      have hjoint : jointStep S s.joint .irq14 = ⟨s.ctx.hit (S.of s.drive.phase), { s.drive with intrq := false }⟩ := by
        simp only [jointStep, WiredJoint.joint, hq, ↓reduceIte]
        rfl
      rw [hstep, hjoint]
      refine ⟨?_, ?_, h.strays⟩
      · simp only [wiredExec, hexec, WiredJoint.joint]
      · simp only [wiredExec, hexec]
        rw [← hconfig, ← hsame]
        exact hfollows

/-! ## Runs -/

/-- One action, with the one that it is without the controllers. -/
theorem WiredJoint.InStep.step {a : WiredAction} (h : s.InStep cfg j) (hbase : cfg.2.1 = picRemapSlave)
    (ha : a.Masked (cfg.1.2.2, cfg.2.2.2)) :
    (wiredStep S s a).InStep cfg (a.joint?.elim j (jointStep S j)) := by
  cases a with
  | tick => exact h.tick
  | interrupt => exact h.interrupt hbase
  | device => exact h.device
  | masterLine n level => exact h.line ha rfl
  | slaveLine n level => exact h.line ha rfl

theorem WiredJoint.InStep.move {m : DriverMove WiredAction} (h : s.InStep cfg j) (hbase : cfg.2.1 = picRemapSlave)
    (hm : ∀ a, m = .act a → a.Masked (cfg.1.2.2, cfg.2.2.2)) :
    (wiredMove S s m).InStep cfg (m.joint?.elim j (jointMove S j)) := by
  cases m with
  | begin r => exact h.begin r
  | act a =>
      have hstep : (wiredMove S s (.act a)).InStep cfg (a.joint?.elim j (jointStep S j)) := h.step hbase (hm a rfl)
      rw [DriverMove.joint?]
      cases hjoint : a.joint? with
      | none | some b =>
          rw [hjoint] at hstep
          exact hstep

theorem WiredJoint.InStep.run (h : s.InStep cfg j) (hbase : cfg.2.1 = picRemapSlave)
    {ms : List (DriverMove WiredAction)} (hms : ∀ a, .act a ∈ ms → a.Masked (cfg.1.2.2, cfg.2.2.2)) :
    (wiredRun S s ms).InStep cfg (jointMoves S j (ms.filterMap DriverMove.joint?)) := by
  induction ms generalizing s j with
  | nil => exact h
  | cons m ms ih =>
      have hmove := h.move (S := S) hbase fun a ha => hms a (ha ▸ List.mem_cons_self)
      have hnext := ih hmove fun a ha => hms a (List.mem_cons_of_mem m ha)
      rw [List.filterMap_cons]
      cases hjoint : m.joint? with
      | none | some b =>
          rw [hjoint] at hnext
          exact hnext

/-! ## What the functions set up -/

/-- `remap_pic`, in whatever state the controllers are, and any calls of `unmask_irq` after it. The offsets are
rounded down to multiples of eight, nothing is pending or in service, and the masks are those from before without
the ones of the calls. -/
theorem remapPic_unmask (S : DriveStatus) (masterOffset slaveOffset : BitVec 8) (irqs : List (BitVec 8))
    (hirqs : ∀ irq ∈ irqs, irq < 16) (c : AtaContext) (d : Drive) (p : Pair) :
    ∃ p', exec (wiredPorts S) (remapPic masterOffset slaveOffset >>= fun _ => forM irqs unmaskIrq) c (d, p) =
        ((), c, d, p') ∧
      Fresh (masterOffset &&& 0xF8) (slaveOffset &&& 0xF8) d p' ∧
      ∀ n < 16, irqMasked (masks p') n = true ↔
        irqMasked (masks p) n = true ∧ n ∉ irqs ∧ ¬ (n = 2 ∧ ∃ irq ∈ irqs, 8 ≤ irq) := by
  obtain ⟨p₁, hremap, h₁, hmasks₁⟩ := remapPic_fresh S masterOffset slaveOffset c d p
  obtain ⟨p₂, hunmask, h₂, hmasks₂⟩ := unmaskIrqs_fresh S irqs c h₁
  refine ⟨p₂, ?_, h₂, fun n hn => ?_⟩
  · rw [exec_bind, hremap]
    exact hunmask
  · rw [hmasks₂, hmasks₁]
    exact unmasked_foldl irqs hirqs (masks p) hn

/-- Controllers in the middle of an initialisation, with all interrupts masked. -/
def startedPair : Pair :=
  let c : Chip := ⟨.icw3, true, false, 0x08, 0, false, false, 0xFF, fun _ => true, fun _ => true, fun _ => true⟩
  ⟨c, c⟩

theorem remapPic_unmask_two :
    ∃ p', exec (wiredPorts sampleStatus) (remapPic 0x23 0x28 >>= fun _ => forM [1, 14] unmaskIrq) gAtaCtx
        (⟨.ready, true⟩, startedPair) = ((), gAtaCtx, ⟨.ready, true⟩, p') ∧
      Fresh (0x23 &&& 0xF8) (0x28 &&& 0xF8) ⟨.ready, true⟩ p' ∧
      ∀ n < 16, irqMasked (masks p') n = true ↔
        irqMasked (masks startedPair) n = true ∧ n ∉ [1, 14] ∧ ¬ (n = 2 ∧ ∃ irq ∈ [1, (14 : BitVec 8)], 8 ≤ irq) :=
  remapPic_unmask sampleStatus 0x23 0x28 [1, 14] (by decide) gAtaCtx ⟨.ready, true⟩ startedPair

/-- The machine after `setup_ata_irq`. -/
def afterSetup (S : DriveStatus) (c : AtaContext) (d : Drive) (p : Pair) : WiredJoint :=
  let x := exec (wiredPorts S) setupAtaIrq c (d, p)
  ⟨x.2.1, x.2.2.1, x.2.2.2, []⟩

/-- The controllers after `setup_ata_irq` wait for an edge of the drive's interrupt. -/
theorem afterSetup_fresh (S : DriveStatus) (c : AtaContext) (d : Drive) (p : Pair) :
    (afterSetup S c d p).joint = ⟨c, d⟩ ∧ (afterSetup S c d p).strays = [] ∧
      Fresh (picRemapMaster &&& 0xF8) (picRemapSlave &&& 0xF8) d (afterSetup S c d p).pic ∧
      masks (afterSetup S c d p).pic = unmasked (masks p) picIrqAtaPrimary := by
  obtain ⟨p₁, hremap, h₁, hmasks₁⟩ := remapPic_fresh S picRemapMaster picRemapSlave c d p
  obtain ⟨p₂, hunmask, h₂, hmasks₂⟩ := unmaskIrq_fresh S picIrqAtaPrimary c h₁
  have hexec : exec (wiredPorts S) setupAtaIrq c (d, p) = ((), c, d, p₂) := by
    rw [setupAtaIrq, exec_bind, hremap]
    exact hunmask
  rw [afterSetup, hexec]
  exact ⟨rfl, rfl, h₂, hmasks₁ ▸ hmasks₂⟩

theorem afterSetup_inStep (S : DriveStatus) (c : AtaContext) (hd : d.intrq = false) (p : Pair) :
    ∃ cfg : PicConfig, cfg.2.1 = picRemapSlave ∧
      (cfg.1.2.2, cfg.2.2.2) = unmasked (masks p) picIrqAtaPrimary ∧
      (afterSetup S c d p).InStep cfg ⟨c, d⟩ := by
  obtain ⟨hjoint, hstrays, h₂, hmasks₂⟩ := afterSetup_fresh S c d p
  generalize afterSetup S c d p = s at hjoint hstrays h₂ hmasks₂ ⊢
  have hdrive : s.drive = d := congrArg Joint.drive hjoint
  have hopen (n : BitVec 8) (hn : n < 16) (hcalled : n = 14 ∨ n = 2) : irqMasked (masks s.pic) n = false := by
    rw [hmasks₂, ← Bool.not_eq_true, unmasked_masked _ (by decide) hn]
    rintro ⟨-, hne, hcascade⟩
    rcases hcalled with rfl | rfl
    · exact hne rfl
    · exact hcascade ⟨rfl, by decide⟩
  have hjoined : s.pic.Joined := by
    refine ⟨by rw [h₂.master.cascade]; decide, by rw [h₂.slave.cascade]; decide, ?_, ?_⟩
    · rw [h₂.master.quiet, h₂.slave.int]
      rfl
    · rw [h₂.line, h₂.slave.int]
      rfl
  have hmaster : s.pic.master.Quiet 2 :=
    ⟨h₂.master.ready, h₂.master.x86, h₂.master.manual, hopen 2 (by decide) (.inr rfl),
      fun m _ => by rw [Chip.requests, h₂.master.quiet, Bool.false_and], h₂.master.idle⟩
  have hslave : s.pic.slave.Quiet ataInput :=
    ⟨h₂.slave.ready, h₂.slave.x86, h₂.slave.manual, hopen 14 (by decide) (.inl rfl),
      fun m _ => by rw [Chip.requests, h₂.slave.quiet, Bool.false_and], h₂.slave.idle⟩
  have hseen : s.pic.slave.irr ataInput = s.pic.slave.lines ataInput := by
    rw [h₂.slave.quiet, h₂.wired, hd]
  exact ⟨s.pic.config, h₂.slave.base, hmasks₂, hjoint, ⟨⟨hjoined, hmaster, hslave, hseen⟩, hdrive ▸ h₂.wired, rfl⟩,
    hstrays⟩

/-- In every run after `setup_ata_irq` the driver and the drive behave as if no controllers were in between, the
processor is interrupted exactly while the drive asserts its interrupt, and always gets the vector of the handler.
Other devices may do what they like to the inputs that were masked before. This needs a drive that asserts nothing
when `setup_ata_irq` is called: the controllers see edges, and `remap_pic` forgets the ones before it. -/
theorem wiredRun_joint_iff (S : DriveStatus) (c : AtaContext) (d : Drive) (p : Pair) :
    (∀ ms : List (DriverMove WiredAction), (∀ a, .act a ∈ ms → a.Masked (masks p)) →
      (wiredRun S (afterSetup S c d p) ms).joint = jointMoves S ⟨c, d⟩ (ms.filterMap DriverMove.joint?) ∧
        (wiredRun S (afterSetup S c d p) ms).strays = [] ∧
        (wiredRun S (afterSetup S c d p) ms).pic.int = (wiredRun S (afterSetup S c d p) ms).drive.intrq) ↔
      d.intrq = false := by
  constructor
  · intro h
    obtain ⟨hjoint, -, hfresh, -⟩ := afterSetup_fresh S c d p
    obtain ⟨-, -, hint⟩ := h [] fun a ha => absurd ha List.not_mem_nil
    rw [wiredRun, List.foldl_nil] at hint
    generalize afterSetup S c d p = s at hjoint hfresh hint
    have hdrive : s.drive = d := congrArg Joint.drive hjoint
    rw [← hdrive, ← hint, Pair.int, hfresh.master.int]
    rfl
  · intro hd ms hms
    obtain ⟨cfg, hbase, hmasks, hstart⟩ := afterSetup_inStep S c hd p
    have hrun := hstart.run (S := S) hbase fun a ha => hmasks ▸ (hms a ha).unmasked
    exact ⟨hrun.joint, hrun.strays, hrun.follows.armed.int.trans hrun.follows.line⟩

/-- A block is read while the timer asks for interrupts that are masked. -/
def blockActions : List (DriverMove WiredAction) :=
  [.begin (.read28 5 0x8000 3), .act .tick, .act (.masterLine 0 true), .act .device, .act .interrupt, .act .tick]

theorem wiredRun_joint_block :
    let s := wiredRun sampleStatus (afterSetup sampleStatus gAtaCtx ⟨.busyRead, false⟩ startedPair) blockActions
    s.ctx.irqFired = true ∧ s.strays = [] ∧ s.pic.int = false := by
  have hmasked : ∀ a, .act a ∈ blockActions → a.Masked (masks startedPair) := by
    intro a ha
    simp only [blockActions, List.mem_cons, List.not_mem_nil, or_false, reduceCtorEq, DriverMove.act.injEq,
      false_or] at ha
    rcases ha with rfl | rfl | rfl | rfl | rfl
    · trivial
    · exact .inr (by decide)
    · trivial
    · trivial
    · trivial
  obtain ⟨hjoint, hstrays, hint⟩ :=
    (wiredRun_joint_iff sampleStatus gAtaCtx ⟨.busyRead, false⟩ startedPair).mpr rfl blockActions hmasked
  exact ⟨(congrArg (·.ctx.irqFired) hjoint).trans (by decide), hstrays,
    hint.trans ((congrArg (·.drive.intrq) hjoint).trans (by decide))⟩

/-! ## Reads -/

theorem wiredBegin_accepted {r : AtaRequest} {q : AtaIo} (hio : r.io? = some q) (h : (wiredBegin S s r).1 = true) :
    q.sectorCount ≠ 0 ∧ (wiredBegin S s r).2 = { s with ctx := q.start } := by
  obtain ⟨es, hr, ha⟩ := exec_runs (wiredPorts S) r.begin s.ctx (s.drive, s.pic)
  rcases AtaRequest.begin_runs hr with ⟨rfl, ⟨-, hacc, hc⟩ | ⟨hno, -, -⟩⟩
  · rw [AtaRequest.started_of_io hio] at hc
    refine ⟨hacc.2 q hio, ?_⟩
    have hsame : (exec (wiredPorts S) r.begin s.ctx (s.drive, s.pic)).2.2 = (s.drive, s.pic) := ha
    simp only [wiredBegin, hc, hsame]
  · exact absurd (h.symm.trans hno) Bool.noConfusion

/-- The points of a read, with the controllers in step. -/
def WiredReadPoint (S : DriveStatus) (cfg : PicConfig) (s : WiredJoint) (n : Nat) : Prop :=
  s.InStep cfg s.joint ∧ ReadPoint S s.joint n

/-- The actions that leave the interrupts of other devices masked. -/
abbrev MaskedAction (m : BitVec 8 × BitVec 8) := { a : WiredAction // a.Masked m }

theorem wiredReadPoint_advances (S : DriveStatus) {m : BitVec 8 × BitVec 8} (hbase : cfg.2.1 = picRemapSlave)
    (hmasks : (cfg.1.2.2, cfg.2.2.2) = unmasked m picIrqAtaPrimary) :
    Advances (fun s (a : MaskedAction m) => wiredStep S s a) (fun a => a.1.joint?)
      (WiredReadPoint S cfg) (fun s => awaited s.joint) := by
  rintro s n ⟨a, ha⟩ ⟨h, hpoint⟩
  have hstep := h.step (S := S) hbase (hmasks ▸ ha.unmasked)
  have hjoint := hstep.joint
  rw [← hjoint] at hstep
  cases hlabel : a.joint? with
  | none =>
      rw [hlabel, Option.elim_none] at hjoint
      exact .inr ⟨by simp [hlabel], ⟨hstep, hjoint.symm ▸ hpoint⟩, congrArg awaited hjoint⟩
  | some b =>
      rw [hlabel, Option.elim_some] at hjoint
      rcases readPoint_advances S s.joint n b hpoint with ⟨m, hm, hnext⟩ | ⟨hne, hnext, hsame⟩
      · exact .inl ⟨m, hm, hstep, hjoint.symm ▸ hnext⟩
      · exact .inr ⟨by simpa [hlabel] using hne, ⟨hstep, hjoint.symm ▸ hnext⟩, (congrArg awaited hjoint).trans hsame⟩

theorem wiredStep_done {m : BitVec 8 × BitVec 8} (hbase : cfg.2.1 = picRemapSlave)
    (hmasks : (cfg.1.2.2, cfg.2.2.2) = unmasked m picIrqAtaPrimary) (s : WiredJoint) (a : MaskedAction m)
    (h : s.InStep cfg s.joint ∧ s.ctx.Ok ∧ s.ctx.step = .ioDone) :
    (wiredStep S s a).InStep cfg (wiredStep S s a).joint ∧ (wiredStep S s a).ctx.Ok ∧
      (wiredStep S s a).ctx.step = .ioDone := by
  obtain ⟨h, hdone⟩ := h
  have hstep := h.step (S := S) hbase (hmasks ▸ a.2.unmasked)
  have hjoint := hstep.joint
  rw [← hjoint] at hstep
  refine ⟨hstep, ?_⟩
  change (wiredStep S s a).joint.ctx.Ok ∧ (wiredStep S s a).joint.ctx.step = .ioDone
  rw [hjoint]
  cases a.1.joint? with
  | none => exact hdone
  | some b => exact jointStep_done hdone b

/-- Behind the controllers too a read that has been begun is done from some point on, under every schedule that is
fair to the driver, to the drive and to the interrupts. -/
theorem wiredRead_done {c : AtaContext} {d : Drive} {p : Pair} {r : AtaRequest} {q : AtaIo} (hio : r.io? = some q)
    (hreads : q.op.Reads) (hphase : d.phase = .ready) (hd : d.intrq = false)
    (hbegin : (wiredBegin S (afterSetup S c d p) r).1 = true) {schedule : Nat → MaskedAction (masks p)}
    (hfair : Fair (fun a => a.1.joint?) schedule) :
    ∃ k, ∀ j ≥ k, (trajectory (fun s (a : MaskedAction (masks p)) => wiredStep S s a)
      (wiredBegin S (afterSetup S c d p) r).2 schedule j).ctx.step = .ioDone := by
  obtain ⟨hn, hstart⟩ := wiredBegin_accepted hio hbegin
  obtain ⟨cfg, hbase, hmasks, hsetup⟩ := afterSetup_inStep S c hd p
  have hop := AtaRequest.io?_phase hio
  generalize afterSetup S c d p = s at hstart hsetup ⊢
  have hpoint : WiredReadPoint S cfg (wiredBegin S s r).2 (12 * q.sectorCount.toNat + 11) := by
    rw [hstart]
    have hdrive : s.drive = d := congrArg Joint.drive hsetup.joint
    exact ⟨⟨rfl, hsetup.follows, hsetup.strays⟩, .select ⟨q.start_ok hop hn, hreads⟩ rfl (hdrive ▸ hphase)⟩
  obtain ⟨k, hk⟩ := (wiredReadPoint_advances S hbase hmasks).eventually hfair 0 hpoint
  exact ⟨k, fun j hj => (trajectory_invariant (wiredStep_done hbase hmasks) hj ⟨hk.1, hk.2.of_zero⟩).2.2⟩

/-- The driver, the drive and the interrupts in turn. -/
def wiredInTurn (m : BitVec 8 × BitVec 8) (n : Nat) : MaskedAction m :=
  match inTurn n with
  | .tick => ⟨.tick, trivial⟩
  | .device => ⟨.device, trivial⟩
  | .irq14 => ⟨.interrupt, trivial⟩

theorem wiredInTurn_fair (m : BitVec 8 × BitVec 8) : Fair (fun a => a.1.joint?) (wiredInTurn m) := by
  intro a n
  obtain ⟨k, hk, hlabel⟩ := inTurn_fair a n
  refine ⟨k, hk, hlabel ▸ ?_⟩
  simp only [wiredInTurn]
  cases inTurn k with
  | tick | device | irq14 => rfl

theorem wiredRead_done_inTurn :
    ∃ k, ∀ j ≥ k, (trajectory (fun s (a : MaskedAction (masks startedPair)) => wiredStep sampleStatus s a)
      (wiredBegin sampleStatus (afterSetup sampleStatus gAtaCtx ⟨.ready, false⟩ startedPair)
        (.read28 5 0x8000 3)).2 (wiredInTurn _) j).ctx.step = .ioDone :=
  wiredRead_done (q := ⟨.read28, 5, 0x8000, 3⟩) rfl (.inl rfl) rfl rfl (by decide +kernel) (wiredInTurn_fair _)

end

end BootKernel
