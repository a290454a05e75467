import BootKernel.Loader.Idt.Table
import Mathlib.Data.List.Nodup

/-!
# What an exception leaves on the screen

Whatever interrupts the processor once the loader has run, a handler shows its message and the registers, and they
can be read off the screen.
-/

namespace BootKernel

open TextScreen LongMode

section
variable {m : Memory} {c : Cpu} {lines : List (List Char)} {msg : List Char} {frame : BitVec 64} {x : Nat}

/-! ## Drawing -/

theorem vgaMessage_eq (msg : List Char) (m : Memory) :
    vgaMessage msg m =
      Screen.drawRun vga 0 msg.length (fun i => msg.getD i ' ')
        (Screen.drawRun vga 0 (vga.width * vga.height) (fun _ => ' ') m) := by
  simp only [Screen.drawRun, Nat.zero_add]
  rfl

theorem vgaHexDraw_eq (v : BitVec 64) (row : Nat) (m : Memory) :
    vgaHexDraw v row m =
      Screen.drawRun vga (row * vga.width) (hexText v).length (fun k => (hexText v).getD k ' ') m := by
  have hdigits : Screen.drawRun vga (row * vga.width + 1 + 1) 16 (fun k => (hexText v).getD (k + 1 + 1) ' ') =
      Loop.forRange 0 16 fun k => vga.put (row * 80 + 2 + k) (hexChar (nibble v k)) := by
    refine Loop.forRange_congr fun k _ hk => ?_
    have hget : (hexText v).getD (k + 1 + 1) ' ' = hexChar (nibble v k) := by simp [hexText, hk]
    exact congrArg (vga.put (row * 80 + 2 + k)) hget
  have hlength : (hexText v).length = 16 + 1 + 1 := by simp [hexText]
  rw [hlength, Screen.drawRun_cons, Screen.drawRun_cons, hdigits]
  rfl

theorem vgaMessage_shows (hlen : msg.length ≤ 80) (m : Memory) :
    vga.Shows (vgaMessage msg m) ((List.replicate 25 []).set 0 msg) := by
  rw [vgaMessage_eq, ← Nat.zero_mul vga.width]
  exact Screen.shows_clear.drawLine (by decide) rfl hlen fun _ _ => rfl

theorem vgaHexDraw_shows (h : vga.Shows m lines) (row : Nat) (hrow : row < lines.length)
    (hblank : lines.getD row [] = []) (v : BitVec 64) : vga.Shows (vgaHexDraw v row m) (lines.set row (hexText v)) := by
  have hlength : (hexText v).length = 18 := by simp [hexText]
  rw [vgaHexDraw_eq]
  exact h.drawLine hrow hblank (hlength ▸ by decide) fun _ _ => rfl

theorem vgaMessage_off (hlen : msg.length ≤ 80) (m : Memory) (hx : vga.Off x) : vgaMessage msg m x = m x := by
  have hsize : vga.width * vga.height = 2000 := rfl
  rw [vgaMessage_eq, Screen.drawRun_off (by omega) hx, Screen.drawRun_off (by omega) hx]

theorem vgaHexDraw_off (v : BitVec 64) (row : Nat) (m : Memory) (hrow : row < 25) (hx : vga.Off x) :
    vgaHexDraw v row m x = m x := by
  have hfit : row * vga.width + (hexText v).length ≤ vga.width * vga.height := by
    have hlength : (hexText v).length = 18 := by simp [hexText]
    have hrow80 : row * vga.width = row * 80 := rfl
    have hsize : vga.width * vga.height = 2000 := rfl
    omega
  rw [vgaHexDraw_eq, Screen.drawRun_off hfit hx]

/-! ## The two functions -/

/-- The frame is not behind the screen. -/
def FrameOff (f : Nat) : Prop := f + 40 ≤ vga.base ∨ vga.base + 2 * (vga.width * vga.height) ≤ f

theorem FrameAt.drawn {m' : Memory} {f : Nat} (h : FrameAt m f c) (hf : FrameOff f)
    (hm : ∀ x, vga.Off x → m' x = m x) : FrameAt m' f c := by
  refine h.keep fun x hlo hhi => hm x ?_
  unfold FrameOff at hf
  unfold Screen.Off
  omega

theorem isrGeneralExceptionNoEc_shows (h : FrameAt m frame.toNat c) (hf : FrameOff frame.toNat)
    (hroom : frame.toNat + 40 ≤ 2 ^ 64) (hlen : msg.length ≤ 80) :
    vga.Shows (isrGeneralExceptionNoEc msg frame m) [msg, [], hexText c.rip, hexText c.rsp, hexText c.rflags] ∧
      ∀ x, vga.Off x → isrGeneralExceptionNoEc msg frame m x = m x := by
  have hsp : (frame + 24).toNat = frame.toNat + 24 := by bv_omega
  have hflags : (frame + 16).toNat = frame.toNat + 16 := by bv_omega
  have h₀ := FrameAt.drawn h hf fun x hx => vgaMessage_off hlen m hx
  have h₁ := FrameAt.drawn h₀ hf fun x hx => vgaHexDraw_off c.rip 2 _ (by decide) hx
  have h₂ := FrameAt.drawn h₁ hf fun x hx => vgaHexDraw_off c.rsp 3 _ (by decide) hx
  have hdraw : isrGeneralExceptionNoEc msg frame m =
      vgaHexDraw c.rflags 4 (vgaHexDraw c.rsp 3 (vgaHexDraw c.rip 2 (vgaMessage msg m))) := by
    simp only [isrGeneralExceptionNoEc]
    rw [h₀.ip, hsp, h₁.sp, hflags, h₂.flags]
  rw [hdraw]
  constructor
  · have hmsg := vgaMessage_shows hlen m
    have hip := vgaHexDraw_shows hmsg 2 (by simp) rfl c.rip
    have hrsp := vgaHexDraw_shows hip 3 (by simp) rfl c.rsp
    have hrflags := vgaHexDraw_shows hrsp 4 (by simp) rfl c.rflags
    exact Screen.Shows.dropBlank (k := 20) hrflags
  · intro x hx
    rw [vgaHexDraw_off _ _ _ (by decide) hx, vgaHexDraw_off _ _ _ (by decide) hx, vgaHexDraw_off _ _ _ (by decide) hx,
      vgaMessage_off hlen _ hx]

theorem isrGeneralExceptionEc_shows (h : FrameAt m frame.toNat c) (hf : FrameOff frame.toNat)
    (hlen : msg.length ≤ 80) (errorCode cr2 rsp : BitVec 64) :
    vga.Shows (isrGeneralExceptionEc msg frame errorCode cr2 rsp m)
        [msg, hexText errorCode, hexText cr2, hexText c.rip, hexText frame, hexText rsp] ∧
      ∀ x, vga.Off x → isrGeneralExceptionEc msg frame errorCode cr2 rsp m x = m x := by
  have h₀ := FrameAt.drawn h hf fun x hx => vgaMessage_off hlen m hx
  have h₁ := FrameAt.drawn h₀ hf fun x hx => vgaHexDraw_off errorCode 1 _ (by decide) hx
  have h₂ := FrameAt.drawn h₁ hf fun x hx => vgaHexDraw_off cr2 2 _ (by decide) hx
  have hdraw : isrGeneralExceptionEc msg frame errorCode cr2 rsp m =
      vgaHexDraw rsp 5 (vgaHexDraw frame 4 (vgaHexDraw c.rip 3
        (vgaHexDraw cr2 2 (vgaHexDraw errorCode 1 (vgaMessage msg m))))) := by
    simp only [isrGeneralExceptionEc]
    rw [h₂.ip]
  rw [hdraw]
  constructor
  · have hmsg := vgaMessage_shows hlen m
    have hcode := vgaHexDraw_shows hmsg 1 (by simp) rfl errorCode
    have hcr2 := vgaHexDraw_shows hcode 2 (by simp) rfl cr2
    have hip := vgaHexDraw_shows hcr2 3 (by simp) rfl c.rip
    have hframe := vgaHexDraw_shows hip 4 (by simp) rfl frame
    have hrsp := vgaHexDraw_shows hframe 5 (by simp) rfl rsp
    exact Screen.Shows.dropBlank (k := 19) hrsp
  · intro x hx
    rw [vgaHexDraw_off _ _ _ (by decide) hx, vgaHexDraw_off _ _ _ (by decide) hx, vgaHexDraw_off _ _ _ (by decide) hx,
      vgaHexDraw_off _ _ _ (by decide) hx, vgaHexDraw_off _ _ _ (by decide) hx, vgaMessage_off hlen _ hx]

/-! ## The handlers -/

theorem isrs_vectors : isrs.map Prod.fst = idtVectors := rfl

/-- A handler expects an error code where the processor pushes one. -/
theorem isrs_hasEc : ∀ p ∈ isrs, p.2.hasEc = pushesCode p.1 := by decide

theorem isrs_length : ∀ p ∈ isrs, p.2.msg.toList.length ≤ 80 := by
  simp [isrs, Isr.msg, isr0DivideError, isr1Debug, isr2Nmi, isr5Bound, isr6InvalidOpcode, isr7DeviceNa,
    isr8DoubleFault, isr9CoprocessorOverrun, isr10InvalidTss, isr11SegNp, isr12StackFault, isr13Gp, isr14PageFault,
    isr16X87Fp, isr17Alignment, isr18MachineCheck, isr19SimdFp, isr20Virtualization, isr21ControlProtection]

theorem isrs_nodup : (isrs.map Prod.fst).Nodup := by decide

theorem exists_isr {vec : BitVec 8} (h : vec ∈ idtVectors) : ∃ isr, (vec, isr) ∈ isrs := by
  rw [← isrs_vectors, List.mem_map] at h
  obtain ⟨p, hp, rfl⟩ := h
  exact ⟨p.2, hp⟩

theorem LoaderSymbols.Linked.isrAt {sym : LoaderSymbols} (h : sym.Linked) {vec : BitVec 8} {isr : Isr}
    (hmem : (vec, isr) ∈ isrs) : isrAt sym (sym.isr vec) = some isr := by
  have hvec : ∀ p ∈ isrs, p.1 ∈ idtVectors := fun p hp => isrs_vectors ▸ List.mem_map_of_mem hp
  have hfound : (isrs.find? fun p => sym.isr p.1 == sym.isr vec) = some (vec, isr) := by
    obtain ⟨p, hp⟩ : ∃ p, (isrs.find? fun p => sym.isr p.1 == sym.isr vec) = some p :=
      Option.isSome_iff_exists.mp (List.find?_isSome.mpr ⟨_, hmem, by simp⟩)
    have hpmem := List.mem_of_find?_eq_some hp
    have heq : sym.isr p.1 = sym.isr vec := by simpa using List.find?_some hp
    have hfst := h.distinct _ (hvec _ hpmem) _ (hvec _ hmem) heq
    rw [hp, List.inj_on_of_nodup_map isrs_nodup hpmem hmem hfst]
  rw [BootKernel.isrAt, hfound]
  rfl

end

/-! ## Exceptions -/

section
variable {sym : LoaderSymbols} {c : Cpu} {ram : Memory}

/-- The frame has room below the stack pointer, and is not behind the screen. -/
structure StackOff (c : Cpu) : Prop where
  room : 48 ≤ c.top.toNat
  apart : c.top.toNat ≤ vga.base ∨ vga.base + 2 * (vga.width * vga.height) + 48 ≤ c.top.toNat

/-- The vector and the error code with which an interrupt arrives. -/
def arrival (vec : BitVec 8) (code : Option (BitVec 64)) (external : Bool) : BitVec 8 × Option (BitVec 64) :=
  if idtVectors.contains vec then (vec, code) else (generalProtection, some (gateCode vec external))

theorem arrival_eq (vec : BitVec 8) (code : Option (BitVec 64)) (external : Bool) :
    arrival vec code external =
      if vec ∈ idtVectors then (vec, code) else (generalProtection, some (gateCode vec external)) := by
  simp only [arrival, List.contains_iff_mem]

/-- What the rows below the message show. -/
def exceptionRows (c : Cpu) (rsp : BitVec 64) : Option (BitVec 64) → List (Option (BitVec 64))
  | none => [none, some c.rip, some c.rsp, some c.rflags]
  | some code => [some code, some c.cr2, some c.rip, some (c.top - 40), some rsp]

def exceptionLines (isr : Isr) (c : Cpu) (rsp : BitVec 64) (code : Option (BitVec 64)) : List (List Char) :=
  isr.msg.toList :: (exceptionRows c rsp code).map fun v => v.elim [] hexText

/-- A handler shows what the processor has pushed. -/
theorem Isr.run_shows {vec : BitVec 8} {isr : Isr} (hmem : (vec, isr) ∈ isrs) (hc : StackOff c)
    {code : Option (BitVec 64)} (hcode : code.isSome = pushesCode vec) (rsp : BitVec 64) (ram : Memory) :
    vga.Shows (isr.run c.cr2 rsp (pushFrame c code ram).2 (pushFrame c code ram).1) (exceptionLines isr c rsp code) ∧
      ∀ x, vga.Off x → isr.run c.cr2 rsp (pushFrame c code ram).2 (pushFrame c code ram).1 x =
        (pushFrame c code ram).1 x := by
  have htop : (c.top - 40).toNat = c.top.toNat - 40 := Cpu.top_sub hc.room (by decide)
  have hlt := c.top.isLt
  have hframe : FrameAt (pushFrame c code ram).1 (c.top - 40).toNat c := htop ▸ pushFrame_frame hc.room code ram
  have hoff : FrameOff (c.top - 40).toNat := by
    have happart := hc.apart
    have hroom := hc.room
    unfold FrameOff
    omega
  have hfit : (c.top - 40).toNat + 40 ≤ 2 ^ 64 := by omega
  have hlen := isrs_length _ hmem
  have hec := isrs_hasEc _ hmem
  rw [← hcode] at hec
  cases isr with
  | noEc msg =>
      cases code with
      | some code => cases hec
      | none =>
          exact isrGeneralExceptionNoEc_shows hframe hoff hfit hlen
  | ec msg =>
      cases code with
      | none => cases hec
      | some code =>
          have hsp : (pushFrame c (some code) ram).2 + 8 = c.top - 40 := by
            rw [pushFrame_sp]
            simp only [Option.isSome_some, ↓reduceIte]
            bv_omega
          simp only [Isr.run, hsp, pushFrame_code]
          exact isrGeneralExceptionEc_shows hframe hoff hlen code c.cr2 rsp

theorem arrival_code {vec : BitVec 8} {code : Option (BitVec 64)} (hcode : code.isSome = pushesCode vec)
    (external : Bool) : (arrival vec code external).2.isSome = pushesCode (arrival vec code external).1 := by
  rw [arrival_eq]
  split
  · exact hcode
  · rfl

theorem TableIn.deliver (h : TableIn sym ram) (vec : BitVec 8) (code : Option (BitVec 64)) (external : Bool) :
    deliver ⟨256 * 16 - 1, sym.idt, gdt⟩ ram vec code external =
      some ⟨(arrival vec code external).1, (arrival vec code external).2,
        handlerGate sym (arrival vec code external).1⟩ := by
  rw [deliver_table h, arrival_eq]
  split
  · rfl
  · rfl

theorem arrival_mem (vec : BitVec 8) (code : Option (BitVec 64)) (external : Bool) :
    (arrival vec code external).1 ∈ idtVectors := by
  have hgeneral : generalProtection ∈ idtVectors := by decide
  rw [arrival_eq]
  split
  · assumption
  · exact hgeneral

/-- Where the table is loaded and in memory, every exception and every interrupt comes to a handler. -/
theorem TableIn.shown {m : Pc} (h : TableIn sym m.store.ram) (hsym : sym.Linked)
    (hidtr : m.idtr = (256 * 16 - 1, sym.idt)) (hc : StackOff c) {vec : BitVec 8} {code : Option (BitVec 64)}
    (hcode : code.isSome = pushesCode vec) (external : Bool) (rsp : BitVec 64) :
    let a := arrival vec code external
    ∃ isr shown, (a.1, isr) ∈ isrs ∧ interrupted sym m c rsp vec code external = some shown ∧
      vga.Shows shown (exceptionLines isr c rsp a.2) ∧
      (∀ i v, (exceptionRows c rsp a.2)[i]? = some (some v) → vga.readHex shown (i + 1) = some v) ∧
      ∀ x, vga.Off x → x < c.top.toNat - 48 ∨ c.top.toNat ≤ x → shown x = m.store.ram x := by
  intro a
  have htables : m.tables = ⟨256 * 16 - 1, sym.idt, gdt⟩ := by rw [Pc.tables, hidtr]
  obtain ⟨isr, hmem⟩ := exists_isr (arrival_mem vec code external)
  obtain ⟨hshows, hoff⟩ := isr.run_shows hmem hc (arrival_code hcode external) rsp m.store.ram
  refine ⟨isr, _, hmem, ?_, hshows, fun i v hrow => ?_, fun x hx hout => ?_⟩
  · rw [interrupted, htables, h.deliver]
    simp only [Option.bind_eq_bind, Option.bind_some, handlerGate, hsym.isrAt hmem]
    rfl
  · have hlt : i + 1 < vga.height := by
      have hi := (List.getElem?_eq_some_iff.mp hrow).1
      have hrows : (exceptionRows c rsp a.2).length ≤ 5 := by
        cases a.2 with
        | none | some _ => simp [exceptionRows]
      have hheight : vga.height = 25 := rfl
      omega
    refine hshows.readHex hlt (by decide) ?_
    rw [exceptionLines, List.getD_cons_succ, List.getD_eq_getElem?_getD, List.getElem?_map, hrow]
    rfl
  · rw [hoff x hx, pushFrame_outside hc.room _ _ hout]

/-- After the loader, every exception and every interrupt comes to a handler. The screen shows its message and, row
by row, the numbers that can be read back. A vector without a handler shows as a general protection fault whose
error code names the vector. Nothing else changes but the stack. -/
theorem exception_shown {dev : Pc → BitVec 16 → BitVec 8} {fuel : Nat} {m m' : Pc} {r : KmainEnd}
    (hsym : sym.Linked) (hrun : (pcBoard dev).run (kmain sym fuel) m = (r, m')) (hc : StackOff c) {vec : BitVec 8}
    {code : Option (BitVec 64)} (hcode : code.isSome = pushesCode vec) (external : Bool) (rsp : BitVec 64) :
    let a := arrival vec code external
    ∃ isr shown, (a.1, isr) ∈ isrs ∧ interrupted sym m' c rsp vec code external = some shown ∧
      vga.Shows shown (exceptionLines isr c rsp a.2) ∧
      (∀ i v, (exceptionRows c rsp a.2)[i]? = some (some v) → vga.readHex shown (i + 1) = some v) ∧
      ∀ x, vga.Off x → x < c.top.toNat - 48 ∨ c.top.toNat ≤ x → shown x = m'.store.ram x := by
  obtain ⟨hram, hidtr⟩ := kmain_memory hrun
  have htable : TableIn sym m'.store.ram := by
    rw [hram]
    exact hsym.table m
  exact htable.shown hsym hidtr hc hcode external rsp

def kernelCpu : Cpu := ⟨0x400000, 0x18, 0x202, 0x700000, 0x10, 0⟩

theorem kernelCpu_stackOff : StackOff kernelCpu := ⟨by decide, .inr (by decide)⟩

/-- The vector of the drive has no handler. -/
theorem exception_shown_drive :
    ∃ m', (pcBoard servingDrive).run (kmain linkedSymbols 1) (diskOf 0) = (.returned, m') ∧
      ∃ shown, interrupted linkedSymbols m' kernelCpu 0x6FFF00 46 none true = some shown ∧
        vga.readHex shown 1 = some (8 * 46 + 3) ∧ vga.readHex shown 3 = some 0x400000 := by
  obtain ⟨m', hrun⟩ := kmain_ends linkedSymbols (diskOf 0) rfl
  have hcode : (none : Option (BitVec 64)).isSome = pushesCode 46 := by decide
  obtain ⟨isr, shown, -, hshown, -, hread, -⟩ :=
    exception_shown linkedSymbols_linked hrun kernelCpu_stackOff hcode true 0x6FFF00
  exact ⟨m', hrun, shown, hshown, hread 0 _ rfl, hread 2 _ rfl⟩

end

end BootKernel
