import BootKernel.Ata.Irq.Pic.Defs

/-!
# Programming the interrupt controllers

`remap_pic` starts the initialisation of both controllers, from whatever state they are in, and ends it. After
that a call of `unmask_irq` changes their masks and nothing else.
-/

namespace BootKernel

open PortProgram Pic8259

/-! ## A programmed pair -/

/-- The chip has taken its command words, and serves nothing. -/
structure Programmed (base cascade : BitVec 8) (c : Chip) : Prop where
  ready : c.stage = .ready
  x86 : c.x86 = true
  manual : c.autoEoi = false
  base : c.base = base
  cascade : c.cascade = cascade
  idle : ∀ n, c.isr n = false
  quiet : ∀ n, c.irr n = false

/-- No edge has come since both have been programmed. -/
structure Fresh (base base' : BitVec 8) (d : Drive) (p : Pair) : Prop where
  master : Programmed base 0x04 p.master
  slave : Programmed base' 0x02 p.slave
  line : p.master.lines 2 = false
  wired : p.slave.lines ataInput = d.intrq

/-- The masks of both. -/
def masks (p : Pair) : BitVec 8 × BitVec 8 := (p.master.imr, p.slave.imr)

section
variable {S : DriveStatus} {c : AtaContext} {d : Drive} {p : Pair} {base base' cascade : BitVec 8} {ch : Chip}

theorem Programmed.int (h : Programmed base cascade ch) : ch.int = none := by
  have hnone : highest ch.requests = none := highest_eq_none fun m => by simp [Chip.requests, h.quiet]
  rw [Chip.int, if_pos h.ready, hnone]
  rfl

theorem Programmed.setLine (h : Programmed base cascade ch) (n : Fin 8) {level : Bool}
    (hlevel : level = true → ch.lines n = true) : Programmed base cascade (ch.setLine n level) := by
  refine ⟨h.ready, h.x86, h.manual, h.base, h.cascade, h.idle, fun m => ?_⟩
  simp only [Chip.setLine, Function.update_apply, h.quiet, Bool.false_or, ite_eq_right_iff]
  intro hm
  cases level with
  | false => rfl
  | true => rw [hlevel rfl]; rfl

theorem Programmed.setMask (h : Programmed base cascade ch) (v : BitVec 8) :
    ch.writeData v = { ch with imr := v } ∧ Programmed base cascade { ch with imr := v } := by
  refine ⟨?_, h.ready, h.x86, h.manual, h.base, h.cascade, h.idle, h.quiet⟩
  rw [Chip.writeData, h.ready]

theorem fresh_settle (hm : Programmed base 0x04 p.master) (hs : Programmed base' 0x02 p.slave)
    (hwired : p.slave.lines ataInput = d.intrq) : Fresh base base' d p.settle ∧ masks p.settle = masks p := by
  refine ⟨⟨?_, hs, ?_, hwired⟩, rfl⟩
  · simp only [Pair.settle, hs.int]
    exact hm.setLine 2 fun h => absurd h Bool.false_ne_true
  · simp only [Pair.settle, hs.int]
    exact (p.master.setLine_low 2).2

theorem fresh_wire (hm : Programmed base 0x04 p.master) (hs : Programmed base' 0x02 p.slave)
    (hwired : p.slave.lines ataInput = d.intrq) :
    (wire (d, p)).1 = d ∧ Fresh base base' d (wire (d, p)).2 ∧
      masks (wire (d, p)).2 = masks p := by
  have hlevel : d.intrq = true → p.slave.lines ataInput = true := fun h => hwired.trans h
  have hslave := hs.setLine ataInput hlevel
  have hlines : (p.slave.setLine ataInput d.intrq).lines ataInput = d.intrq :=
    (Chip.setLine_lines _ _ _)
  obtain ⟨hfresh, hmasks⟩ :=
    fresh_settle (p := { p with slave := p.slave.setLine ataInput d.intrq }) hm hslave hlines
  exact ⟨rfl, hfresh, hmasks⟩

/-! ## `remap_pic` -/

theorem remapPic_fresh (S : DriveStatus) (masterOffset slaveOffset : BitVec 8) (c : AtaContext) (d : Drive)
    (p : Pair) :
    ∃ p', exec (wiredPorts S) (remapPic masterOffset slaveOffset) c (d, p) = ((), c, d, p') ∧
      Fresh (masterOffset &&& 0xF8) (slaveOffset &&& 0xF8) d p' ∧ masks p' = masks p := by
  obtain ⟨phase, intrq⟩ := d
  cases intrq with
  | false | true =>
      refine ⟨_, rfl, ⟨⟨rfl, rfl, rfl, rfl, rfl, fun _ => rfl, fun n => ?_⟩,
        ⟨rfl, rfl, rfl, rfl, rfl, fun _ => rfl, fun n => ?_⟩, rfl, rfl⟩, rfl⟩
      · match n with
        | 0 | 1 | 2 | 3 | 4 | 5 | 6 | 7 => rfl
      · match n with
        | 0 | 1 | 2 | 3 | 4 | 5 | 6 | 7 => rfl

/-! ## `unmask_irq` -/

/-- The masks after a call. -/
def unmasked (m : BitVec 8 × BitVec 8) (irq : BitVec 8) : BitVec 8 × BitVec 8 :=
  if irq < 8 then (clearMask m.1 irq.toNat, m.2)
  else (clearMask m.1 picIrqCascade.toNat, clearMask m.2 (irq - 8).toNat)

theorem Fresh.wireSame (h : Fresh base base' d p) :
    ∃ p', wire (d, p) = (d, p') ∧ Fresh base base' d p' ∧ masks p' = masks p :=
  have hwire := fresh_wire h.master h.slave h.wired
  ⟨_, Prod.ext hwire.1 rfl, hwire.2⟩

theorem Fresh.setMaster (h : Fresh base base' d p) (v : BitVec 8) :
    ∃ p', (wiredPorts S).outb pic1Data v (d, p) = (d, p') ∧ Fresh base base' d p' ∧ masks p' = (v, p.slave.imr) := by
  obtain ⟨heq, hset⟩ := h.master.setMask v
  obtain ⟨hfresh, hmasks⟩ := fresh_settle (p := { p with master := { p.master with imr := v } }) hset h.slave h.wired
  obtain ⟨p', hwire, hfresh', hmasks'⟩ := hfresh.wireSame
  refine ⟨p', ?_, hfresh', hmasks'.trans hmasks⟩
  have hwrite : picWrite p pic1Data v = ({ p with master := { p.master with imr := v } } : Pair).settle := by
    rw [← heq]
    rfl
  rw [← hwire, ← hwrite]
  rfl

theorem Fresh.setSlave (h : Fresh base base' d p) (v : BitVec 8) :
    ∃ p', (wiredPorts S).outb pic2Data v (d, p) = (d, p') ∧ Fresh base base' d p' ∧ masks p' = (p.master.imr, v) := by
  obtain ⟨heq, hset⟩ := h.slave.setMask v
  obtain ⟨hfresh, hmasks⟩ := fresh_settle (p := { p with slave := { p.slave with imr := v } }) h.master hset h.wired
  obtain ⟨p', hwire, hfresh', hmasks'⟩ := hfresh.wireSame
  refine ⟨p', ?_, hfresh', hmasks'.trans hmasks⟩
  have hwrite : picWrite p pic2Data v = ({ p with slave := { p.slave with imr := v } } : Pair).settle := by
    rw [← heq]
    rfl
  rw [← hwire, ← hwrite]
  rfl

theorem unmaskIrq_fresh (S : DriveStatus) (irq : BitVec 8) (c : AtaContext) (h : Fresh base base' d p) :
    ∃ p', exec (wiredPorts S) (unmaskIrq irq) c (d, p) = ((), c, d, p') ∧ Fresh base base' d p' ∧
      masks p' = unmasked (masks p) irq := by
  unfold unmaskIrq unmasked
  split
  · obtain ⟨p₁, hread, h₁, hmasks₁⟩ := h.wireSame
    obtain ⟨p₂, hwrite, h₂, hmasks₂⟩ := h₁.setMaster (S := S) (clearMask p.master.imr irq.toNat)
    refine ⟨p₂, ?_, h₂, hmasks₂.trans (congrArg (Prod.mk _) (congrArg Prod.snd hmasks₁))⟩
    rw [← hwrite, ← hread]
    rfl
  · obtain ⟨p₁, hread, h₁, hmasks₁⟩ := h.wireSame
    obtain ⟨p₂, hwrite, h₂, hmasks₂⟩ := h₁.setSlave (S := S) (clearMask p.slave.imr (irq - 8).toNat)
    obtain ⟨p₃, hread', h₃, hmasks₃⟩ := h₂.wireSame
    obtain ⟨p₄, hwrite', h₄, hmasks₄⟩ := h₃.setMaster (S := S) (clearMask p₂.master.imr picIrqCascade.toNat)
    obtain ⟨hmaster₁, -⟩ := Prod.mk.inj hmasks₁
    obtain ⟨hmaster₂, hslave₂⟩ := Prod.mk.inj hmasks₂
    obtain ⟨-, hslave₃⟩ := Prod.mk.inj hmasks₃
    refine ⟨p₄, ?_, h₄, hmasks₄.trans ?_⟩
    · change ((), c, (wiredPorts S).outb pic1Data
        (clearMask ((wiredPorts S).outb pic2Data (clearMask p.slave.imr (irq - 8).toNat) (wire (d, p))).2.master.imr
          picIrqCascade.toNat)
        (wire ((wiredPorts S).outb pic2Data (clearMask p.slave.imr (irq - 8).toNat) (wire (d, p))))) = _
      rw [hread, hwrite, hread', hwrite']
    · rw [hmaster₂, hmaster₁, hslave₃, hslave₂]
      rfl

theorem unmaskIrqs_fresh (S : DriveStatus) (irqs : List (BitVec 8)) (c : AtaContext) (h : Fresh base base' d p) :
    ∃ p', exec (wiredPorts S) (forM irqs unmaskIrq) c (d, p) = ((), c, d, p') ∧ Fresh base base' d p' ∧
      masks p' = irqs.foldl unmasked (masks p) := by
  induction irqs generalizing p with
  | nil => exact ⟨p, rfl, h, rfl⟩
  | cons irq irqs ih =>
      obtain ⟨p₁, hone, h₁, hmasks₁⟩ := unmaskIrq_fresh S irq c h
      obtain ⟨p₂, hrest, h₂, hmasks₂⟩ := ih h₁
      refine ⟨p₂, ?_, h₂, by rw [hmasks₂, hmasks₁, List.foldl_cons]⟩
      rw [List.forM_cons, exec_bind, hone]
      exact hrest

/-! ## The masks -/

/-- Whether the interrupt with this number, among those of both controllers, is masked. -/
def irqMasked (m : BitVec 8 × BitVec 8) (irq : BitVec 8) : Bool :=
  if irq < 8 then m.1.getLsbD irq.toNat else m.2.getLsbD (irq - 8).toNat

theorem clearMask_getLsbD (mask : BitVec 8) (n : Nat) {i : Nat} (hi : i < 8) :
    (clearMask mask n).getLsbD i = (mask.getLsbD i && decide (i ≠ n)) := by
  have hone : ((1 : BitVec 32) <<< n).getLsbD i = decide (i = n) := by
    simp only [BitVec.getLsbD_shiftLeft]
    grind
  simp only [clearMask, BitVec.getLsbD_and, BitVec.getLsbD_not, BitVec.getLsbD_setWidth, hone, hi, decide_true,
    Bool.true_and, ne_eq, decide_not]

theorem unmasked_masked (m : BitVec 8 × BitVec 8) {irq n : BitVec 8} (hirq : irq < 16) (hn : n < 16) :
    irqMasked (unmasked m irq) n = true ↔ irqMasked m n = true ∧ n ≠ irq ∧ ¬ (n = 2 ∧ 8 ≤ irq) := by
  have hcascade : picIrqCascade.toNat = (2 : BitVec 8).toNat := rfl
  unfold unmasked irqMasked
  by_cases hirq₈ : irq < 8
  · rw [if_pos hirq₈]
    have hsmall : ¬ (n = 2 ∧ 8 ≤ irq) := fun h => BitVec.not_le.mpr hirq₈ h.2
    by_cases hn₈ : n < 8
    · rw [if_pos hn₈, if_pos hn₈, clearMask_getLsbD _ _ (by bv_omega)]
      have hne : n.toNat ≠ irq.toNat ↔ n ≠ irq := not_congr BitVec.toNat_inj
      simp only [Bool.and_eq_true, decide_eq_true_eq, hne, hsmall, and_true, not_false_eq_true]
    · rw [if_neg hn₈, if_neg hn₈]
      have hne : n ≠ irq := fun h => hn₈ (h ▸ hirq₈)
      simp only [ne_eq, hne, hsmall, not_false_eq_true, and_self, and_true]
  · rw [if_neg hirq₈]
    have hlarge : 8 ≤ irq := by bv_omega
    by_cases hn₈ : n < 8
    · rw [if_pos hn₈, if_pos hn₈, clearMask_getLsbD _ _ (by bv_omega), hcascade]
      have hne : n ≠ irq := fun h => hirq₈ (h ▸ hn₈)
      have htwo : n.toNat ≠ (2 : BitVec 8).toNat ↔ n ≠ 2 := not_congr BitVec.toNat_inj
      simp only [Bool.and_eq_true, decide_eq_true_eq, htwo, ne_eq, hne, hlarge, not_false_eq_true, and_true, true_and]
    · rw [if_neg hn₈, if_neg hn₈, clearMask_getLsbD _ _ (by bv_omega)]
      have hne : (n - 8).toNat ≠ (irq - 8).toNat ↔ n ≠ irq := by
        refine not_congr ⟨fun h => ?_, fun h => by rw [h]⟩
        bv_omega
      have htwo : n ≠ 2 := by bv_omega
      simp only [Bool.and_eq_true, decide_eq_true_eq, hne, htwo, false_and, not_false_eq_true, and_true]

/-- After any list of calls, the masked interrupts are those that were and are neither in the list nor needed for
the second controller. -/
theorem unmasked_foldl (irqs : List (BitVec 8)) (hirqs : ∀ irq ∈ irqs, irq < 16) (m : BitVec 8 × BitVec 8)
    {n : BitVec 8} (hn : n < 16) :
    irqMasked (irqs.foldl unmasked m) n = true ↔
      irqMasked m n = true ∧ n ∉ irqs ∧ ¬ (n = 2 ∧ ∃ irq ∈ irqs, 8 ≤ irq) := by
  induction irqs generalizing m with
  | nil => simp
  | cons irq irqs ih =>
      rw [List.foldl_cons, ih (fun i hi => hirqs i (List.mem_cons_of_mem irq hi)),
        unmasked_masked m (hirqs irq List.mem_cons_self) hn]
      simp only [List.mem_cons, exists_eq_or_imp]
      grind

end

end BootKernel
