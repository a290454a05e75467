import BootKernel.Lib.LongMode
import BootKernel.Lib.TextScreen
import BootKernel.Loader.Defs

/-!
# The exception handlers of the kernel loader

The handlers of `kernelLoader/idt.c` draw what they know on the screen and stop the processor for good. The
processor finds them through the table that `idt_init` has filled, and through the segments of
`bootloader/boot2.asm`.
-/

namespace BootKernel

open TextScreen LongMode

/-! ## The screen -/

def vgaGlyph (c : Char) : BitVec 16 := BitVec.ofNat 16 c.toNat ||| (0x07 <<< 8)

theorem vgaGlyph_toNat {c : Char} (h : c.toNat < 256) : (vgaGlyph c).toNat = 2 ^ 8 * 0x07 + c.toNat := by
  have hattr : (0x07 <<< 8 : BitVec 16).toNat = 2 ^ 8 * 0x07 := rfl
  rw [vgaGlyph, BitVec.toNat_or, BitVec.toNat_ofNat, Nat.mod_eq_of_lt (by omega), hattr, Nat.or_comm,
    Nat.two_pow_add_eq_or_of_lt h]

theorem vgaGlyph_digits : ∀ c ∈ hexDigits, ∀ c' ∈ hexDigits, vgaGlyph c = vgaGlyph c' → c = c' := by
  have hbyte : ∀ c ∈ hexDigits, c.toNat < 256 := by
    simp [hexDigits]
  intro c hc c' hc' h
  have hnat := congrArg BitVec.toNat h
  rw [vgaGlyph_toNat (hbyte c hc), vgaGlyph_toNat (hbyte c' hc')] at hnat
  exact Char.toNat_inj.mp (Nat.add_left_cancel hnat)

def vga : Screen where
  base := 0xB8000
  width := 80
  height := 25
  glyph := vgaGlyph
  digits := vgaGlyph_digits

def vgaHexDraw (value : BitVec 64) (row : Nat) (m : Memory) : Memory :=
  let offset := row * 80
  let m := vga.put offset '0' m
  let m := vga.put (offset + 1) 'x' m
  Loop.forRange 0 16 (fun k => vga.put (offset + 2 + k) (hexChar (nibble value k))) m

/-- Both kinds of handlers begin with a blank screen and the message. -/
def vgaMessage (msg : List Char) (m : Memory) : Memory :=
  let m := Loop.forRange 0 (80 * 25) (fun i => vga.put i ' ') m
  Loop.forRange 0 msg.length (fun i => vga.put i (msg.getD i ' ')) m

/-! ## The handlers -/

/-- The fields `ip`, `flags` and `sp` of a frame are read at 0, 16 and 24. -/
def isrGeneralExceptionNoEc (msg : List Char) (frame : BitVec 64) (m : Memory) : Memory :=
  let m := vgaMessage msg m
  let m := vgaHexDraw (m.load64 frame.toNat) 2 m
  let m := vgaHexDraw (m.load64 (frame + 24).toNat) 3 m
  vgaHexDraw (m.load64 (frame + 16).toNat) 4 m

/-- `cr2` and `rsp` are what the registers hold when they are read. -/
def isrGeneralExceptionEc (msg : List Char) (frame errorCode cr2 rsp : BitVec 64) (m : Memory) : Memory :=
  let m := vgaMessage msg m
  let m := vgaHexDraw errorCode 1 m
  let m := vgaHexDraw cr2 2 m
  let m := vgaHexDraw (m.load64 frame.toNat) 3 m
  let m := vgaHexDraw frame 4 m
  vgaHexDraw rsp 5 m

/-- A handler calls one of the two functions with its message. -/
inductive Isr where
  | noEc (msg : String)
  | ec (msg : String)
deriving DecidableEq, Repr

def isr0DivideError : Isr := .noEc "#DE Divide Error"
def isr1Debug : Isr := .noEc "#DB Debug"
def isr2Nmi : Isr := .noEc "Non-Maskable Interrupt"
def isr5Bound : Isr := .noEc "#BR BOUND Range Exceeded"
def isr6InvalidOpcode : Isr := .noEc "#UD Invalid Opcode"
def isr7DeviceNa : Isr := .noEc "#NM Device Not Available"
def isr8DoubleFault : Isr := .ec "#DF Double Fault"
def isr9CoprocessorOverrun : Isr := .noEc "Coprocessor Segment Overrun"
def isr10InvalidTss : Isr := .ec "#TS Invalid TSS"
def isr11SegNp : Isr := .ec "#NP Segment Not Present"
def isr12StackFault : Isr := .ec "#SS Stack Fault"
def isr13Gp : Isr := .ec "#GP General Protection"
def isr14PageFault : Isr := .ec "#PF Page Fault"
def isr16X87Fp : Isr := .noEc "#MF x87 FPU FP Error"
def isr17Alignment : Isr := .ec "#AC Alignment Check"
def isr18MachineCheck : Isr := .noEc "#MC Machine Check"
def isr19SimdFp : Isr := .noEc "#XM SIMD FP Exception"
def isr20Virtualization : Isr := .noEc "#VE Virtualization Exception"
def isr21ControlProtection : Isr := .ec "#CP Control Protection"

/-- The handlers in the order of `idt_init`. -/
def isrs : List (BitVec 8 × Isr) :=
  [(0, isr0DivideError), (1, isr1Debug), (2, isr2Nmi), (5, isr5Bound), (6, isr6InvalidOpcode), (7, isr7DeviceNa),
    (8, isr8DoubleFault), (9, isr9CoprocessorOverrun), (10, isr10InvalidTss), (11, isr11SegNp),
    (12, isr12StackFault), (13, isr13Gp), (14, isr14PageFault), (16, isr16X87Fp), (17, isr17Alignment),
    (18, isr18MachineCheck), (19, isr19SimdFp), (20, isr20Virtualization), (21, isr21ControlProtection)]

def Isr.msg : Isr → String
  | .noEc msg | .ec msg => msg

def Isr.hasEc : Isr → Bool
  | .noEc _ => false
  | .ec _ => true

/-- The frame is on the top of the stack, or behind the error code. -/
def Isr.run (cr2 rsp sp : BitVec 64) (m : Memory) : Isr → Memory
  | .noEc msg => isrGeneralExceptionNoEc msg.toList sp m
  | .ec msg => isrGeneralExceptionEc msg.toList (sp + 8) (m.load64 sp.toNat) cr2 rsp m

/-! ## Interrupts -/

/-- The segments at the label `gdt`. -/
def gdt : List (BitVec 64) := [0, 0x00CF9A000000FFFF, 0x00CF92000000FFFF, 0x00AF9A000000FFFF]

def Pc.tables (m : Pc) : Tables := ⟨m.idtr.1, m.idtr.2, gdt⟩

/-- The handler whose code is at an address. -/
def isrAt (sym : LoaderSymbols) (addr : BitVec 64) : Option Isr :=
  (isrs.find? fun x => sym.isr x.1 == addr).map (·.2)

/-- The memory in which the processor stops after an interrupt. -/
def interrupted (sym : LoaderSymbols) (m : Pc) (c : Cpu) (rsp : BitVec 64) (vec : BitVec 8)
    (code : Option (BitVec 64)) (external : Bool) : Option Memory := do
  let d ← deliver m.tables m.store.ram vec code external
  let isr ← isrAt sym d.gate.offset
  let (ram, sp) := pushFrame c d.code m.store.ram
  return isr.run c.cr2 rsp sp ram

end BootKernel
