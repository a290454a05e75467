import BootKernel.Lib.Memory
import Mathlib.Algebra.Order.Ring.Nat

/-!
# Interrupts in long mode

How an x86-64 processor at privilege level 0 takes an interrupt or an exception: it looks up the gate of the vector
in the interrupt descriptor table, pushes a frame on the stack, and goes on at the handler. What is wrong with a
gate is an exception of its own. Stack switches and addresses that are not canonical are left out.
-/

namespace LongMode

/-! ## Descriptors -/

structure Gate where
  offset : BitVec 64
  selector : BitVec 16
  ist : BitVec 3
  kind : BitVec 4
  /-- The bit that is clear in a descriptor of the system. -/
  segment : Bool
  dpl : BitVec 2
  present : Bool
deriving DecidableEq, Repr

def Gate.decode (g : BitVec 128) : Gate where
  offset := g.extractLsb' 64 32 ++ g.extractLsb' 48 16 ++ g.extractLsb' 0 16
  selector := g.extractLsb' 16 16
  ist := g.extractLsb' 32 3
  kind := g.extractLsb' 40 4
  segment := g.getLsbD 44
  dpl := g.extractLsb' 45 2
  present := g.getLsbD 47

def interruptGate : BitVec 4 := 0xE
def trapGate : BitVec 4 := 0xF

/-- The descriptor of a segment of 64-bit code at privilege level 0. -/
def isCode64 (d : BitVec 64) : Bool :=
  d.getLsbD 44 && d.getLsbD 43 && d.extractLsb' 45 2 == 0 && d.getLsbD 53 && !d.getLsbD 54

def isPresent (d : BitVec 64) : Bool := d.getLsbD 47

/-! ## The processor -/

/-- The descriptor tables: the limit and the base of the one for interrupts, and the one for segments. -/
structure Tables where
  idtLimit : BitVec 16
  idtBase : Nat
  gdt : List (BitVec 64)

structure Cpu where
  rip : BitVec 64
  cs : BitVec 16
  rflags : BitVec 64
  rsp : BitVec 64
  ss : BitVec 16
  cr2 : BitVec 64
deriving DecidableEq, Repr

def generalProtection : BitVec 8 := 13
def segmentNotPresent : BitVec 8 := 11
def doubleFault : BitVec 8 := 8
def pageFault : BitVec 8 := 14

/-- The exceptions that come with an error code. -/
def pushesCode (v : BitVec 8) : Bool := v ∈ [8, 10, 11, 12, 13, 14, 17, 21, 29, 30]

def contributory (v : BitVec 8) : Bool := v ∈ [0, 10, 11, 12, 13]

/-- The sixteen bytes at an address. -/
def load128 (m : Memory) (a : Nat) : BitVec 128 := m.load64 (a + 8) ++ m.load64 a

/-- The error code for a gate: its vector, the bit for the table, and the one that is clear when an instruction of the
program asked for the interrupt. -/
def gateCode (v : BitVec 8) (external : Bool) : BitVec 64 :=
  8 * v.setWidth 64 + 2 + if external then 1 else 0

def segmentCode (selector : BitVec 16) (external : Bool) : BitVec 64 :=
  (selector &&& 0xFFFC).setWidth 64 + if external then 1 else 0

/-- The code segment of a gate, or the exception that it gives. -/
def checkSegment (T : Tables) (selector : BitVec 16) (external : Bool) : Except (BitVec 8 × BitVec 64) Unit :=
  if selector &&& 0xFFFC = 0 then .error (generalProtection, if external then 1 else 0)
  else if selector.getLsbD 2 then .error (generalProtection, segmentCode selector external)
  else
    match T.gdt[selector.toNat / 8]? with
    | none => .error (generalProtection, segmentCode selector external)
    | some d =>
        if !isCode64 d then .error (generalProtection, segmentCode selector external)
        else if !isPresent d then .error (segmentNotPresent, segmentCode selector external)
        else .ok ()

/-- The gate of a vector, or the exception and its error code that looking for it gives. -/
def gateOf (T : Tables) (m : Memory) (v : BitVec 8) (external : Bool) : Except (BitVec 8 × BitVec 64) Gate :=
  if T.idtLimit.toNat < 16 * v.toNat + 15 then .error (generalProtection, gateCode v external)
  else
    let g := Gate.decode (load128 m (T.idtBase + 16 * v.toNat))
    if g.segment ∨ g.kind ≠ interruptGate ∧ g.kind ≠ trapGate then .error (generalProtection, gateCode v external)
    else if !g.present then .error (segmentNotPresent, gateCode v external)
    else (checkSegment T g.selector external).map fun _ => g

/-- An interrupt as it is delivered in the end. -/
structure Delivery where
  vector : BitVec 8
  code : Option (BitVec 64)
  gate : Gate
deriving DecidableEq, Repr

/-- `none` is a shutdown. An exception while another one is delivered is delivered after it, or becomes a double
fault. -/
def deliver (T : Tables) (m : Memory) (v : BitVec 8) (code : Option (BitVec 64)) (external : Bool) :
    Option Delivery :=
  let double := match gateOf T m doubleFault true with
    | .ok g => some ⟨doubleFault, some 0, g⟩
    | .error _ => none
  match gateOf T m v external with
  | .ok g => some ⟨v, code, g⟩
  | .error (fault, faultCode) =>
      if v = doubleFault then none
      else if contributory v || v == pageFault then double
      else
        match gateOf T m fault true with
        | .ok g => some ⟨fault, some faultCode, g⟩
        | .error _ => double

/-- Where the frame ends. -/
def Cpu.top (c : Cpu) : BitVec 64 := c.rsp &&& ~~~0xF

/-- The frame on the stack: the registers of the interrupted program, and the error code if there is one. -/
def pushFrame (c : Cpu) (code : Option (BitVec 64)) (m : Memory) : Memory × BitVec 64 :=
  let top := c.top
  let m := m.store64 (top - 8).toNat (c.ss.setWidth 64)
  let m := m.store64 (top - 16).toNat c.rsp
  let m := m.store64 (top - 24).toNat c.rflags
  let m := m.store64 (top - 32).toNat (c.cs.setWidth 64)
  let m := m.store64 (top - 40).toNat c.rip
  match code with
  | none => (m, top - 40)
  | some code => (m.store64 (top - 48).toNat code, top - 48)

/-! ## The frame -/

/-- The registers of the interrupted program, as a handler finds them. -/
structure FrameAt (m : Memory) (f : Nat) (c : Cpu) : Prop where
  ip : m.load64 f = c.rip
  cs : m.load64 (f + 8) = c.cs.setWidth 64
  flags : m.load64 (f + 16) = c.rflags
  sp : m.load64 (f + 24) = c.rsp
  ss : m.load64 (f + 32) = c.ss.setWidth 64

section
variable {m m' : Memory} {c : Cpu} {code : Option (BitVec 64)} {f a : Nat}

theorem FrameAt.keep (h : FrameAt m f c) (hm : ∀ x, f ≤ x → x < f + 40 → m' x = m x) : FrameAt m' f c where
  ip := (Memory.load64_congr fun x hlo hhi => hm x (by omega) (by omega)).trans h.ip
  cs := (Memory.load64_congr fun x hlo hhi => hm x (by omega) (by omega)).trans h.cs
  flags := (Memory.load64_congr fun x hlo hhi => hm x (by omega) (by omega)).trans h.flags
  sp := (Memory.load64_congr fun x hlo hhi => hm x (by omega) (by omega)).trans h.sp
  ss := (Memory.load64_congr fun x hlo hhi => hm x (by omega) (by omega)).trans h.ss

theorem Cpu.top_sub (hroom : 48 ≤ c.top.toNat) {k : BitVec 64} (hk : k.toNat ≤ 48) :
    (c.top - k).toNat = c.top.toNat - k.toNat :=
  BitVec.toNat_sub_of_le (BitVec.le_def.mpr (by omega))

theorem pushFrame_sp (c : Cpu) (code : Option (BitVec 64)) (m : Memory) :
    (pushFrame c code m).2 = c.top - if code.isSome then 48 else 40 := by
  cases code with
  | none | some _ => rfl

theorem pushFrame_frame (hroom : 48 ≤ c.top.toNat) (code : Option (BitVec 64)) (m : Memory) :
    FrameAt (pushFrame c code m).1 (c.top.toNat - 40) c := by
  have h₈ : (c.top - 8).toNat = c.top.toNat - 8 := Cpu.top_sub hroom (by decide)
  have h₁₆ : (c.top - 16).toNat = c.top.toNat - 16 := Cpu.top_sub hroom (by decide)
  have h₂₄ : (c.top - 24).toNat = c.top.toNat - 24 := Cpu.top_sub hroom (by decide)
  have h₃₂ : (c.top - 32).toNat = c.top.toNat - 32 := Cpu.top_sub hroom (by decide)
  have h₄₀ : (c.top - 40).toNat = c.top.toNat - 40 := Cpu.top_sub hroom (by decide)
  have h₄₈ : (c.top - 48).toNat = c.top.toNat - 48 := Cpu.top_sub hroom (by decide)
  have hframe : FrameAt (pushFrame c none m).1 (c.top.toNat - 40) c := by
    simp only [pushFrame, h₈, h₁₆, h₂₄, h₃₂, h₄₀]
    refine ⟨?_, ?_, ?_, ?_, ?_⟩
    · rw [Memory.load64_store64_same]
    · rw [Memory.load64_store64_of_disjoint (by omega), show c.top.toNat - 40 + 8 = c.top.toNat - 32 by omega,
        Memory.load64_store64_same]
    · rw [Memory.load64_store64_of_disjoint (by omega), Memory.load64_store64_of_disjoint (by omega),
        show c.top.toNat - 40 + 16 = c.top.toNat - 24 by omega, Memory.load64_store64_same]
    · rw [Memory.load64_store64_of_disjoint (by omega), Memory.load64_store64_of_disjoint (by omega),
        Memory.load64_store64_of_disjoint (by omega),
        show c.top.toNat - 40 + 24 = c.top.toNat - 16 by omega, Memory.load64_store64_same]
    · rw [Memory.load64_store64_of_disjoint (by omega), Memory.load64_store64_of_disjoint (by omega),
        Memory.load64_store64_of_disjoint (by omega), Memory.load64_store64_of_disjoint (by omega),
        show c.top.toNat - 40 + 32 = c.top.toNat - 8 by omega, Memory.load64_store64_same]
  cases code with
  | none => exact hframe
  | some code =>
      refine hframe.keep fun x hlo _ => ?_
      simp only [pushFrame, Memory.store64, h₄₈]
      exact if_neg (by omega)

theorem pushFrame_code (c : Cpu) (code : BitVec 64) (m : Memory) :
    (pushFrame c (some code) m).1.load64 (pushFrame c (some code) m).2.toNat = code :=
  Memory.load64_store64_same _ _ _

theorem pushFrame_outside (hroom : 48 ≤ c.top.toNat) (code : Option (BitVec 64)) (m : Memory) {x : Nat}
    (hx : x < c.top.toNat - 48 ∨ c.top.toNat ≤ x) : (pushFrame c code m).1 x = m x := by
  have hstore : ∀ (m : Memory) (k v : BitVec 64), 8 ≤ k.toNat → k.toNat ≤ 48 →
      m.store64 (c.top - k).toNat v x = m x := by
    intro m k v hlo hhi
    rw [Cpu.top_sub hroom hhi, Memory.store64]
    exact if_neg (by omega)
  have hframe : (pushFrame c none m).1 x = m x := by
    simp only [pushFrame]
    rw [hstore _ 40 _ (by decide) (by decide), hstore _ 32 _ (by decide) (by decide),
      hstore _ 24 _ (by decide) (by decide), hstore _ 16 _ (by decide) (by decide),
      hstore _ 8 _ (by decide) (by decide)]
  cases code with
  | none => exact hframe
  | some code =>
      refine Eq.trans ?_ hframe
      exact hstore _ 48 code (by decide) (by decide)

end

/-! ## Gates -/

section
variable {T : Tables} {m : Memory} {v w : BitVec 8} {code : Option (BitVec 64)} {e : BitVec 64} {external : Bool}
  {g : Gate} {a : Nat} {d : BitVec 128}

theorem load128_eq_of_bytes (h : ∀ i < 16, m (a + i) = d.extractLsb' (8 * i) 8) : load128 m a = d := by
  have hpart : ∀ k ≤ 8, m.load64 (a + k) = d.extractLsb' (8 * k) 64 := by
    intro k hk
    refine Memory.load64_eq_of_bytes fun i hi => ?_
    rw [Nat.add_assoc, h (k + i) (by omega)]
    apply BitVec.eq_of_getLsbD_eq
    intro j hj
    simp only [BitVec.getLsbD_extractLsb']
    grind
  have hlow : m.load64 a = d.extractLsb' 0 64 := hpart 0 (by omega)
  rw [load128, hpart 8 (by omega), hlow]
  apply BitVec.eq_of_getLsbD_eq
  intro j hj
  simp only [BitVec.getLsbD_append, BitVec.getLsbD_extractLsb']
  grind

theorem deliver_ok (h : gateOf T m v external = .ok g) (code : Option (BitVec 64)) :
    deliver T m v code external = some ⟨v, code, g⟩ := by
  simp only [deliver, h]

/-- An interrupt without a gate comes as the exception that this gives. -/
theorem deliver_fault (h : gateOf T m v external = .error (w, e)) (hdouble : v ≠ doubleFault)
    (hcontributory : contributory v = false) (hpage : v ≠ pageFault) (hg : gateOf T m w true = .ok g)
    (code : Option (BitVec 64)) : deliver T m v code external = some ⟨w, some e, g⟩ := by
  simp only [deliver, h, hdouble, hcontributory, hg, ↓reduceIte, Bool.false_or, beq_iff_eq, hpage]

end

end LongMode
