import Mathlib.Algebra.Order.Ring.Nat
import Mathlib.Data.List.FinRange
import Mathlib.Logic.Function.Basic

/-!
# A pair of 8259 interrupt controllers

Each chip has eight inputs, of which the lower numbers have the higher priority. A rising edge of an input is kept
as a request while the input stays high. The second chip sits behind input 2 of the first one. The rotating
priorities and the polled modes are left out.
-/

namespace Pic8259

/-! ## One chip -/

instance inputs_neZero : NeZero 8 := ⟨Nat.succ_ne_zero 7⟩

/-- Which command word the data port expects. -/
inductive Stage where
  | icw2
  | icw3
  | icw4
  | ready
deriving DecidableEq, Repr

structure Chip where
  stage : Stage
  needsIcw4 : Bool
  single : Bool
  /-- The vector of input 0, a multiple of eight. -/
  base : BitVec 8
  /-- The inputs with a chip behind them, or the number of the input that the chip itself is behind. -/
  cascade : BitVec 8
  x86 : Bool
  autoEoi : Bool
  imr : BitVec 8
  irr : Fin 8 → Bool
  isr : Fin 8 → Bool
  lines : Fin 8 → Bool

/-- The first input in the set, which is the one with the highest priority. -/
def highest (p : Fin 8 → Bool) : Option (Fin 8) := (List.finRange 8).find? p

namespace Chip

def masked (c : Chip) (n : Fin 8) : Bool := c.imr.getLsbD n

/-- The inputs that ask for an interrupt. -/
def requests (c : Chip) (n : Fin 8) : Bool := c.irr n && !c.masked n

/-- The input whose interrupt the chip asserts: none while one of the same or a higher priority is in service. -/
def int (c : Chip) : Option (Fin 8) :=
  if c.stage = .ready then
    (highest c.requests).filter fun n => (List.finRange 8).all fun m => n < m || !c.isr m
  else none

/-- The level of an input. -/
def setLine (c : Chip) (n : Fin 8) (level : Bool) : Chip :=
  { c with
    lines := Function.update c.lines n level
    irr := Function.update c.irr n (level && (c.irr n || !c.lines n)) }

/-- The interrupt of an input is being served. -/
def take (c : Chip) (n : Fin 8) : Chip :=
  { c with
    irr := Function.update c.irr n false
    isr := if c.autoEoi then c.isr else Function.update c.isr n true }

/-- The end of the interrupt with the highest priority in service. -/
def eoi (c : Chip) : Chip :=
  match highest c.isr with
  | some n => { c with isr := Function.update c.isr n false }
  | none => c

def writeCommand (c : Chip) (v : BitVec 8) : Chip :=
  if v.getLsbD 4 then
    { c with
      stage := .icw2
      needsIcw4 := v.getLsbD 0
      single := v.getLsbD 1
      x86 := false
      autoEoi := false
      imr := 0
      irr := fun _ => false
      isr := fun _ => false }
  else if v.getLsbD 3 then c
  else if v.extractLsb' 5 3 = 1 then c.eoi
  else if v.extractLsb' 5 3 = 3 then
    { c with isr := Function.update c.isr (Fin.ofNat 8 (v.toNat % 8)) false }
  else c

def writeData (c : Chip) (v : BitVec 8) : Chip :=
  match c.stage with
  | .icw2 =>
      { c with
        base := v &&& 0xF8
        stage := if !c.single then .icw3 else if c.needsIcw4 then .icw4 else .ready }
  | .icw3 => { c with cascade := v, stage := if c.needsIcw4 then .icw4 else .ready }
  | .icw4 => { c with x86 := v.getLsbD 0, autoEoi := v.getLsbD 1, stage := .ready }
  | .ready => { c with imr := v }

/-- The vector of an input, in the mode of an x86 processor. -/
def vector (c : Chip) (n : Fin 8) : Option (BitVec 8) :=
  if c.x86 then some (c.base + BitVec.ofNat 8 n) else none

end Chip

/-! ## The pair -/

structure Pair where
  master : Chip
  slave : Chip

namespace Pair

/-- The slave's interrupt output is wired to input 2 of the master. -/
def settle (p : Pair) : Pair := { p with master := p.master.setLine 2 p.slave.int.isSome }

def onMaster (p : Pair) (f : Chip → Chip) : Pair := settle { p with master := f p.master }

def onSlave (p : Pair) (f : Chip → Chip) : Pair := settle { p with slave := f p.slave }

/-- Whether the processor is interrupted. -/
def int (p : Pair) : Bool := p.master.int.isSome

/-- The processor takes the interrupt and gets a vector, where one of the chips gives one. A chip that is asked
although it has no request answers as for input 7. -/
def acknowledge (p : Pair) : Option (BitVec 8) × Pair :=
  match p.master.int with
  | none => (p.master.vector 7, p)
  | some n =>
      let p' := { p with master := p.master.take n }
      if p.master.cascade.getLsbD n then
        if p.slave.cascade.extractLsb' 0 3 = BitVec.ofNat 3 n then
          match p.slave.int with
          | none => (p.slave.vector 7, p'.settle)
          | some k => (p.slave.vector k, { p' with slave := p.slave.take k }.settle)
        else (none, p'.settle)
      else (p.master.vector n, p'.settle)

end Pair

/-! ## One input in use -/

section
variable {p : Fin 8 → Bool} {n m : Fin 8} {c : Chip} {level : Bool}

theorem highest_eq_none (h : ∀ m, p m = false) : highest p = none := by
  simp [highest, h]

theorem highest_eq_some (hn : p n = true) (h : ∀ m, m ≠ n → p m = false) : highest p = some n := by
  rw [highest, List.find?_eq_some_iff_getElem]
  refine ⟨hn, n, by simp, by simp, fun j hj => ?_⟩
  rw [List.getElem_finRange, h _ (by simp [Fin.ext_iff]; omega)]
  rfl

namespace Chip

/-- The chip serves nothing, and of the inputs only `n` can ask for an interrupt. -/
structure Quiet (c : Chip) (n : Fin 8) : Prop where
  ready : c.stage = .ready
  x86 : c.x86 = true
  manual : c.autoEoi = false
  unmasked : c.masked n = false
  others : ∀ m, m ≠ n → c.requests m = false
  idle : ∀ m, c.isr m = false

/-- The chip serves the input `n`, and no other can ask for an interrupt. -/
structure Serving (c : Chip) (n : Fin 8) : Prop where
  ready : c.stage = .ready
  x86 : c.x86 = true
  manual : c.autoEoi = false
  unmasked : c.masked n = false
  others : ∀ m, m ≠ n → c.requests m = false
  served : ∀ m, c.isr m = decide (m = n)

theorem highest_requests (hopen : c.masked n = false) (h : ∀ m, m ≠ n → c.requests m = false) :
    highest c.requests = if c.irr n then some n else none := by
  have hn : c.requests n = c.irr n := by simp [requests, hopen]
  cases hirr : c.irr n with
  | true => exact highest_eq_some (hn.trans hirr) h
  | false =>
      refine highest_eq_none fun m => ?_
      by_cases hm : m = n
      · rw [hm, hn, hirr]
      · exact h m hm

theorem Quiet.int (h : c.Quiet n) : c.int = if c.irr n then some n else none := by
  rw [Chip.int, if_pos h.ready, highest_requests h.unmasked h.others]
  split
  · simp [h.idle]
  · rfl

theorem Serving.int (h : c.Serving n) : c.int = none := by
  rw [Chip.int, if_pos h.ready, highest_requests h.unmasked h.others]
  split
  · simp only [Option.filter_eq_none_iff, Option.some.injEq]
    rintro _ rfl
    simp only [List.all_eq_true, List.mem_finRange, forall_const, not_forall]
    exact ⟨n, by simp [h.served]⟩
  · rfl

theorem setLine_requests (hm : m = n ∨ c.masked m = true) {k : Fin 8} (hk : k ≠ n) (h : c.requests k = false) :
    (c.setLine m level).requests k = false := by
  have hmasked : (c.setLine m level).masked k = c.masked k := rfl
  rw [requests, hmasked]
  by_cases hkm : k = m
  · rcases hm with rfl | hm
    · exact absurd hkm hk
    · simp [hkm, hm]
  · have hirr : (c.setLine m level).irr k = c.irr k := Function.update_of_ne hkm _ _
    rw [hirr]
    exact h

/-- Other inputs change only while they are masked. -/
theorem Quiet.setLine (h : c.Quiet n) (hm : m = n ∨ c.masked m = true) (level : Bool) :
    (c.setLine m level).Quiet n :=
  ⟨h.ready, h.x86, h.manual, h.unmasked, fun k hk => setLine_requests hm hk (h.others k hk), h.idle⟩

theorem Serving.setLine (h : c.Serving n) (hm : m = n ∨ c.masked m = true) (level : Bool) :
    (c.setLine m level).Serving n :=
  ⟨h.ready, h.x86, h.manual, h.unmasked, fun k hk => setLine_requests hm hk (h.others k hk), h.served⟩

theorem Quiet.take (h : c.Quiet n) : (c.take n).Serving n := by
  refine ⟨h.ready, h.x86, h.manual, h.unmasked, fun k hk => ?_, fun k => ?_⟩
  · have hirr : (c.take n).irr k = c.irr k := Function.update_of_ne hk _ _
    have hmasked : (c.take n).masked k = c.masked k := rfl
    rw [requests, hirr, hmasked]
    exact h.others k hk
  · simp only [Chip.take, h.manual, Bool.false_eq_true, ↓reduceIte, Function.update_apply, h.idle]
    by_cases hk : k = n
    · simp [hk]
    · simp [hk]

theorem Serving.eoi_eq (h : c.Serving n) : c.eoi = { c with isr := Function.update c.isr n false } := by
  have hhigh : highest c.isr = some n := highest_eq_some (by simp [h.served]) fun m hm => by simp [h.served, hm]
  simp only [Chip.eoi, hhigh]

theorem Serving.eoi (h : c.Serving n) : c.eoi.Quiet n := by
  rw [h.eoi_eq]
  refine ⟨h.ready, h.x86, h.manual, h.unmasked, h.others, fun m => ?_⟩
  simp only [Function.update_apply, h.served]
  by_cases hm : m = n
  · simp [hm]
  · simp [hm]

/-- An input whose edges have all been seen: it asks for an interrupt while it is high. -/
theorem setLine_irr (h : c.irr n = c.lines n) (level : Bool) :
    (c.setLine n level).irr n = level ∧ (c.setLine n level).lines n = level := by
  simp [Chip.setLine, h]

theorem setLine_lines (c : Chip) (n : Fin 8) (level : Bool) : (c.setLine n level).lines n = level := by
  simp [Chip.setLine]

theorem setLine_low (c : Chip) (n : Fin 8) :
    (c.setLine n false).irr n = false ∧ (c.setLine n false).lines n = false := by
  simp [Chip.setLine]

/-- What the chip has been programmed with. -/
def config (c : Chip) : BitVec 8 × BitVec 8 × BitVec 8 := (c.base, c.cascade, c.imr)

@[simp] theorem config_setLine (c : Chip) (n : Fin 8) (level : Bool) : (c.setLine n level).config = c.config := rfl
@[simp] theorem config_take (c : Chip) (n : Fin 8) : (c.take n).config = c.config := rfl

@[simp] theorem config_eoi (c : Chip) : c.eoi.config = c.config := by
  unfold eoi
  split
  · rfl
  · rfl

end Chip

end

/-! ## One input of the slave in use -/

namespace Pair

/-- The slave is behind input 2 of the master, which has seen its output. -/
structure Joined (p : Pair) : Prop where
  cascade : p.master.cascade.getLsbD 2 = true
  id : p.slave.cascade.extractLsb' 0 3 = 2
  irr : p.master.irr 2 = p.slave.int.isSome
  line : p.master.lines 2 = p.slave.int.isSome

/-- Only input `k` of the slave is in use, it asks for an interrupt while it is high, and none is served. -/
structure Armed (p : Pair) (k : Fin 8) : Prop extends p.Joined where
  master : p.master.Quiet 2
  slave : p.slave.Quiet k
  seen : p.slave.irr k = p.slave.lines k

/-- The interrupt of input `k` of the slave is served. -/
structure Serving (p : Pair) (k : Fin 8) : Prop extends p.Joined where
  master : p.master.Serving 2
  slave : p.slave.Serving k

/-- The slave has been told of the end, but not the master. -/
structure Ending (p : Pair) (k : Fin 8) : Prop extends p.Joined where
  master : p.master.Serving 2
  slave : p.slave.Quiet k
  seen : p.slave.irr k = p.slave.lines k

def config (p : Pair) := (p.master.config, p.slave.config)

section
variable {p : Pair} {k m : Fin 8} {f : Chip → Chip} {level : Bool}

theorem settle_joined (hcascade : p.master.cascade.getLsbD 2 = true) (hid : p.slave.cascade.extractLsb' 0 3 = 2)
    (h : p.master.irr 2 = p.master.lines 2) : p.settle.Joined :=
  have hline := Chip.setLine_irr h p.slave.int.isSome
  ⟨hcascade, hid, hline.1, hline.2⟩

theorem Joined.onSlave (h : p.Joined) (hf : (f p.slave).config = p.slave.config) : (p.onSlave f).Joined :=
  settle_joined h.cascade ((congrArg (fun x => x.2.1.extractLsb' 0 3) hf).trans h.id) (h.irr.trans h.line.symm)

theorem Joined.onMaster (h : p.Joined) (hf : (f p.master).config = p.master.config)
    (hirr : (f p.master).irr 2 = p.master.irr 2) (hline : (f p.master).lines 2 = p.master.lines 2) :
    (p.onMaster f).Joined :=
  settle_joined ((congrArg (fun x => x.2.1.getLsbD 2) hf).trans h.cascade) h.id
    ((hirr.trans h.irr).trans (hline.trans h.line).symm)

theorem config_onSlave (hf : (f p.slave).config = p.slave.config) : (p.onSlave f).config = p.config :=
  congrArg (Prod.mk p.master.config) hf

theorem config_onMaster (hf : (f p.master).config = p.master.config) : (p.onMaster f).config = p.config :=
  congrArg (Prod.mk · p.slave.config) hf

/-! ## Changes of the inputs -/

theorem Armed.slaveLine (h : p.Armed k) (hm : m = k ∨ p.slave.masked m = true) (level : Bool) :
    (p.onSlave (·.setLine m level)).Armed k := by
  refine ⟨h.toJoined.onSlave rfl, h.master.setLine (.inl rfl) _, h.slave.setLine hm level, ?_⟩
  by_cases hmk : m = k
  · subst hmk
    have hline := Chip.setLine_irr h.seen level
    exact hline.1.trans hline.2.symm
  · have hirr : (p.slave.setLine m level).irr k = p.slave.irr k := Function.update_of_ne (Ne.symm hmk) _ _
    have hlines : (p.slave.setLine m level).lines k = p.slave.lines k := Function.update_of_ne (Ne.symm hmk) _ _
    exact (hirr.trans h.seen).trans hlines.symm

theorem Armed.masterLine (h : p.Armed k) (hm : m ≠ 2) (hmasked : p.master.masked m = true) (level : Bool) :
    (p.onMaster (·.setLine m level)).Armed k :=
  ⟨h.toJoined.onMaster rfl (Function.update_of_ne hm.symm _ _) (Function.update_of_ne hm.symm _ _),
    (h.master.setLine (.inr hmasked) level).setLine (.inl rfl) _, h.slave, h.seen⟩

theorem Serving.slaveLine (h : p.Serving k) (level : Bool) : (p.onSlave (·.setLine k level)).Serving k :=
  ⟨h.toJoined.onSlave rfl, h.master.setLine (.inl rfl) _, h.slave.setLine (.inl rfl) level⟩

theorem Ending.slaveLine (h : p.Ending k) (level : Bool) : (p.onSlave (·.setLine k level)).Ending k :=
  have hline := Chip.setLine_irr h.seen level
  ⟨h.toJoined.onSlave rfl, h.master.setLine (.inl rfl) _, h.slave.setLine (.inl rfl) level,
    hline.1.trans hline.2.symm⟩

/-! ## From the acknowledge to the end -/

theorem Armed.int (h : p.Armed k) : p.int = p.slave.lines k := by
  rw [Pair.int, h.master.int, h.irr, h.slave.int, h.seen]
  cases p.slave.lines k with
  | true => rfl
  | false => rfl

theorem Armed.acknowledge (h : p.Armed k) (hline : p.slave.lines k = true) :
    p.acknowledge.1 = some (p.slave.base + BitVec.ofNat 8 k) ∧ p.acknowledge.2.Serving k ∧
      p.acknowledge.2.config = p.config := by
  have hslave : p.slave.int = some k := by rw [h.slave.int, h.seen, hline, if_pos rfl]
  have hmaster : p.master.int = some 2 := by rw [h.master.int, h.irr, hslave]; rfl
  have hack : p.acknowledge =
      (p.slave.vector k, ({ master := p.master.take 2, slave := p.slave.take k } : Pair).settle) := by
    simp only [Pair.acknowledge, hmaster, hslave]
    exact (if_pos h.cascade).trans (if_pos h.id)
  rw [hack]
  have htaken := h.slave.take
  refine ⟨by rw [Chip.vector, if_pos h.slave.x86], ⟨?_, h.master.take.setLine (.inl rfl) _, htaken⟩, rfl⟩
  have hnone : (p.slave.take k).int = none := htaken.int
  have hlow := (p.master.take 2).setLine_low 2
  refine ⟨h.cascade, h.id, ?_, ?_⟩
  · simp only [settle, hnone, Option.isSome_none, hlow.1]
  · simp only [settle, hnone, Option.isSome_none, hlow.2]

theorem Serving.slaveEoi (h : p.Serving k) (hseen : p.slave.irr k = p.slave.lines k) :
    (p.onSlave (·.eoi)).Ending k := by
  refine ⟨h.toJoined.onSlave (Chip.config_eoi _), h.master.setLine (.inl rfl) _, h.slave.eoi, ?_⟩
  simp only [Pair.onSlave, settle, h.slave.eoi_eq, hseen]

theorem Ending.masterEoi (h : p.Ending k) : (p.onMaster (·.eoi)).Armed k := by
  refine ⟨h.toJoined.onMaster (Chip.config_eoi _) ?_ ?_, h.master.eoi.setLine (.inl rfl) _, h.slave, h.seen⟩
  · rw [h.master.eoi_eq]
  · rw [h.master.eoi_eq]

end

end Pair

end Pic8259
