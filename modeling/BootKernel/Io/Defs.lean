import BootKernel.Lib.X86

/-!
# The port wrappers

`io_wrapper.asm`, which the kernel and its loader share. The arguments come in `rdi`, `rsi` and `rdx`, and a
result is left in `rax`. The variants for interrupt handlers save what they overwrite.
-/

namespace BootKernel

open X86

namespace IoWrapper

/-! ## The instructions -/

def outb : List Instr := [.mov16 .rdx .rdi, .mov8 .rax .rsi, .out8, .ret]

def inb : List Instr := [.mov16 .rdx .rdi, .in8, .movzx8 .rax .rax, .ret]

def outw : List Instr := [.mov16 .rdx .rdi, .mov16 .rax .rsi, .out16, .ret]

def inw : List Instr := [.mov16 .rdx .rdi, .in16, .movzx16 .rax .rax, .ret]

/-- The port goes into `dx` before the count is taken from `rdx`. -/
def insw : List Instr :=
  [.mov16 .rdx .rdi, .mov64 .rdi .rsi, .mov64 .rcx .rdx, .cld, .repInsw, .ret]

def outsw : List Instr := [.mov16 .rdx .rdi, .mov64 .rcx .rdx, .cld, .repOutsw, .ret]

def outbIrq : List Instr :=
  [.push .rax, .push .rdx, .mov16 .rdx .rdi, .mov8 .rax .rsi, .out8, .pop .rdx, .pop .rax, .ret]

def inbIrq : List Instr := [.push .rdx, .mov16 .rdx .rdi, .in8, .movzx8 .rax .rax, .pop .rdx, .ret]

def outwIrq : List Instr :=
  [.push .rax, .push .rdx, .mov16 .rdx .rdi, .mov16 .rax .rsi, .out16, .pop .rdx, .pop .rax, .ret]

def inwIrq : List Instr := [.push .rdx, .mov16 .rdx .rdi, .in16, .movzx16 .rax .rax, .pop .rdx, .ret]

def inswIrq : List Instr :=
  [.push .rcx, .push .rdx, .push .rdi, .mov16 .rdx .rdi, .mov64 .rdi .rsi, .mov64 .rcx .rdx, .cld, .repInsw,
    .pop .rdi, .pop .rdx, .pop .rcx, .ret]

def outswIrq : List Instr :=
  [.push .rcx, .push .rdx, .push .rsi, .mov16 .rdx .rdi, .mov64 .rcx .rdx, .cld, .repOutsw,
    .pop .rsi, .pop .rdx, .pop .rcx, .ret]

end IoWrapper

/-! ## What a call is for -/

inductive IoCall where
  | outb
  | inb
  | outw
  | inw
  | insw
  | outsw
deriving DecidableEq, Repr

def IoCall.code : IoCall → Bool → List Instr
  | .outb, irq => if irq then IoWrapper.outbIrq else IoWrapper.outb
  | .inb, irq => if irq then IoWrapper.inbIrq else IoWrapper.inb
  | .outw, irq => if irq then IoWrapper.outwIrq else IoWrapper.outw
  | .inw, irq => if irq then IoWrapper.inwIrq else IoWrapper.inw
  | .insw, irq => if irq then IoWrapper.inswIrq else IoWrapper.insw
  | .outsw, irq => if irq then IoWrapper.outswIrq else IoWrapper.outsw

/-- The words that `insw` and `outsw` move: the count that they are given, with the port in its low half. -/
def movedWords (port : BitVec 16) (count : BitVec 64) : Nat := (setLow16 count port).toNat

section
variable {δ : Type}

/-- The memory and the device after a call, and its result. -/
structure IoEffect (δ : Type) where
  ram : Memory
  dev : δ
  result : Option (BitVec 64)

def ioPort (s : State δ) : BitVec 16 := low16 (s.regs .rdi)

def ioWords (s : State δ) : Nat := movedWords (ioPort s) (s.regs .rdx)

def IoCall.effect (D : Device δ) (s : State δ) : IoCall → IoEffect δ
  | .outb => ⟨s.ram, D.write8 (ioPort s) (low8 (s.regs .rsi)) s.dev, none⟩
  | .inb =>
      let (v, d) := D.read8 (ioPort s) s.dev
      ⟨s.ram, d, some (v.setWidth 64)⟩
  | .outw => ⟨s.ram, D.write16 (ioPort s) (low16 (s.regs .rsi)) s.dev, none⟩
  | .inw =>
      let (v, d) := D.read16 (ioPort s) s.dev
      ⟨s.ram, d, some (v.setWidth 64)⟩
  | .insw =>
      let (ws, d) := D.reads (ioPort s) (ioWords s) s.dev
      ⟨s.ram.storeBytes (s.regs .rsi).toNat (2 * ioWords s) (wordBytes ws), d, none⟩
  | .outsw =>
      ⟨s.ram, D.writes (ioPort s) (loadWords s.ram (s.regs .rsi).toNat (ioWords s)) s.dev, none⟩

/-- The registers that a call may leave changed, apart from the stack pointer. -/
def IoCall.clobbers : IoCall → Bool → List Reg
  | .outb, irq => if irq then [] else [.rax, .rdx]
  | .inb, irq => if irq then [.rax] else [.rax, .rdx]
  | .outw, irq => if irq then [] else [.rax, .rdx]
  | .inw, irq => if irq then [.rax] else [.rax, .rdx]
  | .insw, irq => if irq then [] else [.rcx, .rdx, .rdi]
  | .outsw, irq => if irq then [] else [.rcx, .rdx, .rsi]

/-- The memory that a call moves words to or from. -/
def IoCall.buffer (s : State δ) : IoCall → Nat
  | .insw => 2 * ioWords s
  | .outsw => 2 * ioWords s
  | _ => 0

/-- There is room for what is saved, and the buffer neither wraps nor meets the stack. -/
structure IoCall.Callable (c : IoCall) (s : State δ) : Prop where
  stack : 24 ≤ (s.regs .rsp).toNat
  fits : (s.regs .rsi).toNat + c.buffer s < 2 ^ 64
  apart : (s.regs .rsi).toNat + c.buffer s ≤ (s.regs .rsp).toNat - 24 ∨
    (s.regs .rsp).toNat + 8 ≤ (s.regs .rsi).toNat ∨ c.buffer s = 0

/-- The call has returned to its caller, with this effect. The memory below the stack pointer is free for use. -/
structure IoCall.Returned (c : IoCall) (irq : Bool) (D : Device δ) (s s' : State δ) : Prop where
  rip : s'.rip = s.ram.load64 (s.regs .rsp).toNat
  rsp : s'.regs .rsp = s.regs .rsp + 8
  kept : ∀ r, r ≠ .rsp → r ∉ c.clobbers irq → s'.regs r = s.regs r
  dev : s'.dev = (c.effect D s).dev
  ram : ∀ a, a < (s.regs .rsp).toNat - 24 ∨ (s.regs .rsp).toNat ≤ a → s'.ram a = (c.effect D s).ram a
  result : ∀ v, (c.effect D s).result = some v → s'.regs .rax = v

end

end BootKernel
