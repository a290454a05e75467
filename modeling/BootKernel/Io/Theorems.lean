import BootKernel.Io.Defs

/-!
# Calls of the port wrappers

A wrapper is its body, between saving and restoring what the variant for interrupt handlers may not change. Each
body has the effect of its call, and saving registers around it changes nothing that the caller can see.
-/

namespace BootKernel

open X86

namespace IoCall

/-- The instructions before `ret` in the variant that saves nothing. -/
def body : IoCall → List Instr
  | .outb => [.mov16 .rdx .rdi, .mov8 .rax .rsi, .out8]
  | .inb => [.mov16 .rdx .rdi, .in8, .movzx8 .rax .rax]
  | .outw => [.mov16 .rdx .rdi, .mov16 .rax .rsi, .out16]
  | .inw => [.mov16 .rdx .rdi, .in16, .movzx16 .rax .rax]
  | .insw => [.mov16 .rdx .rdi, .mov64 .rdi .rsi, .mov64 .rcx .rdx, .cld, .repInsw]
  | .outsw => [.mov16 .rdx .rdi, .mov64 .rcx .rdx, .cld, .repOutsw]

def saved : IoCall → Bool → List Reg
  | _, false => []
  | .outb, true | .outw, true => [.rax, .rdx]
  | .inb, true | .inw, true => [.rdx]
  | .insw, true => [.rcx, .rdx, .rdi]
  | .outsw, true => [.rcx, .rdx, .rsi]

theorem code_eq (c : IoCall) (irq : Bool) : c.code irq = saving (c.saved irq) c.body ++ [.ret] := by
  cases irq with
  | false => cases c with
    | outb | inb | outw | inw | insw | outsw => rfl
  | true => cases c with
    | outb | inb | outw | inw | insw | outsw => rfl

theorem clobbers_saved (c : IoCall) (irq : Bool) (r : Reg) (h : r ∉ c.clobbers irq) :
    r ∈ c.saved irq ∨ r ∉ c.clobbers false := by
  cases irq with
  | false => exact .inr h
  | true => cases c with
    | outb | inb | outw | inw | insw | outsw => grind [clobbers, saved]

section
variable {δ : Type} {D : Device δ} {c : IoCall} {s u t : State δ} {v : BitVec 64} {n : Nat}

/-- The body of a wrapper has run, with the effect of its call. -/
structure Ran (c : IoCall) (D : Device δ) (s t : State δ) : Prop where
  rsp : t.regs .rsp = s.regs .rsp
  kept : ∀ r, r ∉ c.clobbers false → t.regs r = s.regs r
  dev : t.dev = (c.effect D s).dev
  ram : t.ram = (c.effect D s).ram
  result : ∀ v, (c.effect D s).result = some v → t.regs .rax = v

theorem ran_body (c : IoCall) (hfits : (s.regs .rsi).toNat + c.buffer s < 2 ^ 64) :
    c.Ran D s (D.run c.body s) := by
  cases c with
  | outb | inb | outw | inw =>
      refine ⟨?_, fun r hr => ?_, ?_, ?_, fun v hv => ?_⟩
      all_goals simp_all [body, Device.run, Device.exec, effect, ioPort, clobbers]
  | insw =>
      have hrun : D.run (body .insw) s = (D.insWord)^[ioWords s]
          { ((s.set .rdx (setLow16 (s.regs .rdx) (ioPort s))).set .rdi (s.regs .rsi)).set .rcx
            (setLow16 (s.regs .rdx) (ioPort s)) with df := false } := by
        simp [body, Device.run, Device.exec, ioPort, ioWords, movedWords]
      rw [hrun, insWord_iterate _ rfl (by simpa [buffer] using hfits)]
      refine ⟨?_, fun r hr => ?_, ?_, ?_, fun v hv => ?_⟩
      all_goals simp_all [effect, clobbers]
  | outsw =>
      have hrun : D.run (body .outsw) s = (D.outsWord)^[ioWords s]
          { (s.set .rdx (setLow16 (s.regs .rdx) (ioPort s))).set .rcx
            (setLow16 (s.regs .rdx) (ioPort s)) with df := false } := by
        simp [body, Device.run, Device.exec, ioPort, ioWords, movedWords]
      rw [hrun, outsWord_iterate _ rfl (by simpa [buffer] using hfits)]
      refine ⟨?_, fun r hr => ?_, ?_, ?_, fun v hv => ?_⟩
      all_goals simp_all [effect, clobbers]

theorem effect_outside (c : IoCall) (D : Device δ) {a : Nat}
    (ha : a < (s.regs .rsi).toNat ∨ (s.regs .rsi).toNat + c.buffer s ≤ a) : (c.effect D s).ram a = s.ram a := by
  cases c with
  | outb | inb | outw | inw | outsw => rfl
  | insw => exact Memory.storeBytes_outside _ _ _ _ ha

theorem result_saved (h : (c.effect D s).result = some v) (irq : Bool) : .rax ∉ c.saved irq := by
  cases irq with
  | false => exact List.not_mem_nil
  | true => cases c with
    | outb | outw | insw | outsw => cases h
    | inb | inw => decide

/-- The arguments of a call are not on the stack. -/
theorem args_pushed (hu : s.Pushed n u) :
    ioPort u = ioPort s ∧ ioWords u = ioWords s ∧ u.regs .rsi = s.regs .rsi := by
  have hport : ioPort u = ioPort s := by rw [ioPort, ioPort, hu.regs .rdi (by decide)]
  exact ⟨hport, by rw [ioWords, ioWords, hport, hu.regs .rdx (by decide)], hu.regs .rsi (by decide)⟩

theorem buffer_pushed (c : IoCall) (hu : s.Pushed n u) : c.buffer u = c.buffer s := by
  cases c with
  | outb | inb | outw | inw => rfl
  | insw | outsw => exact congrArg (2 * ·) (args_pushed hu).2.1

/-- What has been saved below the stack pointer makes no difference to a call whose buffer is elsewhere. -/
theorem effect_pushed (c : IoCall) (hu : s.Pushed n u) (hn : n ≤ 24) (hc : c.Callable s) :
    (c.effect D u).dev = (c.effect D s).dev ∧ (c.effect D u).result = (c.effect D s).result ∧
      (∀ a, a < (u.regs .rsp).toNat ∨ (s.regs .rsp).toNat ≤ a → (c.effect D u).ram a = (c.effect D s).ram a) ∧
      ∀ a, (u.regs .rsp).toNat ≤ a → a < (s.regs .rsp).toNat → (c.effect D u).ram a = u.ram a := by
  obtain ⟨hport, hwords, hsi⟩ := args_pushed hu
  have hsp := hu.rsp
  have hroom := hc.stack
  have happart := hc.apart
  refine ⟨?_, ?_, fun a ha => ?_, fun a ha ha' => c.effect_outside D ?_⟩
  · cases c with
    | outb | inb | outw | inw | insw => simp only [effect, hport, hwords, hsi, hu.dev]
    | outsw =>
        have hload : loadWords u.ram (s.regs .rsi).toNat (ioWords s) =
            loadWords s.ram (s.regs .rsi).toNat (ioWords s) := by
          simp only [buffer] at happart
          refine List.map_congr_left fun i hi => ?_
          have hi := List.mem_range.mp hi
          rw [load16, load16, hu.ram _ (by omega), hu.ram _ (by omega)]
        simp only [effect, hport, hwords, hsi, hu.dev, hload]
  · cases c with
    | outb | inb | outw | inw | insw | outsw => simp only [effect, hport, hu.dev]
  · cases c with
    | outb | inb | outw | inw | outsw => exact hu.ram a ha
    | insw =>
        simp only [effect, hport, hwords, hsi, hu.dev, Memory.storeBytes]
        split
        · rfl
        · exact hu.ram a ha
  · rw [c.buffer_pushed hu, hsi]
    omega

end

end IoCall

section
variable {δ : Type}

/-- A call of a wrapper returns to its caller with the effect of the call. Beside the result it changes no
register but those that its caller does not count on, and no memory but the buffer and what is below the stack. -/
theorem IoCall.returned (c : IoCall) (irq : Bool) (D : Device δ) (s : State δ) (hc : c.Callable s) :
    c.Returned irq D s (D.run (c.code irq) s) := by
  have hroom := hc.stack
  have hlen : (c.saved irq).length ≤ 3 := by
    cases irq with
    | false => exact Nat.zero_le 3
    | true => cases c with
      | outb | inb | outw | inw | insw | outsw => decide
  have hnsp : .rsp ∉ c.saved irq := by
    cases irq with
    | false => exact List.not_mem_nil
    | true => cases c with
      | outb | inb | outw | inw | insw | outsw => decide
  obtain ⟨u, hu, hrun⟩ := D.run_saving c.body (c.saved irq) s hnsp (by omega)
  have hsp := hu.rsp
  obtain ⟨hdev, hresult, hram, hsaved⟩ := c.effect_pushed (D := D) hu (by omega) hc
  have hfits : (u.regs .rsi).toNat + c.buffer u < 2 ^ 64 := by
    rw [c.buffer_pushed hu, (IoCall.args_pushed hu).2.2]
    exact hc.fits
  have hran := c.ran_body (D := D) hfits
  have hback := hrun hran.rsp fun a ha ha' => by rw [hran.ram, hsaved a ha ha']
  have hret : ((D.run c.body u).restore s (c.saved irq)).regs .rsp = s.regs .rsp := State.restore_same (.inl rfl)
  have hafter (a : Nat) (ha : a < (u.regs .rsp).toNat ∨ (s.regs .rsp).toNat ≤ a) :
      (D.run c.body u).ram a = (c.effect D s).ram a := by rw [hran.ram, hram a ha]
  rw [IoCall.code_eq, Device.run_append, hback]
  refine ⟨?_, ?_, fun r hr hclob => ?_, hran.dev.trans hdev, fun a ha => hafter a (by omega), fun v hv => ?_⟩
  · rw [D.ret_rip, hret]
    refine Memory.load64_congr fun a ha ha' => (hafter a (.inr ha)).trans (c.effect_outside D ?_)
    have := hc.apart
    omega
  · rw [D.ret_rsp, hret]
  · rw [D.ret_regs _ hr]
    by_cases hmem : r ∈ c.saved irq
    · exact State.restore_same (.inr hmem)
    · have hfree := (c.clobbers_saved irq r hclob).resolve_left hmem
      rw [State.restore_other (by simp [hr, hmem]), hran.kept r hfree, hu.regs r hr]
  · have hmem := IoCall.result_saved hv irq
    rw [D.ret_regs _ (by decide), State.restore_other (by simp [hmem])]
    exact hran.result v (hresult.trans hv)

end

end BootKernel
