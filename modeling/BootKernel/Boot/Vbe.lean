import BootKernel.Boot.E820
import BootKernel.Lib.X86

/-!
# The video mode

`get_vbe` in `bootloader/boot2.asm`, and the fields of `boot_info_t` in which the kernel finds what it has stored. The
one for the frame buffer is aligned where it is stored, and it is in a packed structure where it is read.
-/

namespace BootKernel

open X86

/-! ## Labels and fields -/

def vbeMode : BitVec 16 := 0x118

/-- `align 4`. -/
def align4 (a : Nat) : Nat := (a + 3) / 4 * 4

section
variable (bootinfo : Nat)

def vbeModeLabel : Nat := bootinfo + 2 + 64 * 24
def vbeWLabel : Nat := vbeModeLabel bootinfo + 2
def vbeHLabel : Nat := vbeWLabel bootinfo + 2
def vbePitchLabel : Nat := vbeHLabel bootinfo + 2
def vbeBppLabel : Nat := vbePitchLabel bootinfo + 2
def vbeFbLabel : Nat := align4 (vbeBppLabel bootinfo + 1)
def vbeModeInfoLabel : Nat := vbeFbLabel bootinfo + 4

end

/-- The fields of `boot_info_t` after the memory map. -/
structure VbeInfo where
  mode : BitVec 16
  w : BitVec 16
  h : BitVec 16
  pitch : BitVec 16
  bpp : BitVec 8
  fb : BitVec 32
deriving DecidableEq, Repr

/-- The fields in the packed structure, where `_pad` stands before the last one. -/
def bootInfoVbe (m : Memory) (bootinfo : Nat) : VbeInfo where
  mode := load16 m (bootinfo + 1538)
  w := load16 m (bootinfo + 1540)
  h := load16 m (bootinfo + 1542)
  pitch := load16 m (bootinfo + 1544)
  bpp := m (bootinfo + 1546)
  fb := load32 m (bootinfo + 1548)

/-! ## `get_vbe` -/

/-- Writing the low half of a register keeps the upper half. -/
def setLow (r : BitVec 32) (v : BitVec 16) : BitVec 32 := r.extractLsb' 16 16 ++ v

namespace RealMode

def setAl (s : RealMode) (v : BitVec 8) : RealMode := { s with eax := s.eax.extractLsb' 8 24 ++ v }

def al (s : RealMode) : BitVec 8 := s.eax.setWidth 8

def put8 (s : RealMode) (a : Nat) (v : BitVec 8) : RealMode := { s with mem := s.mem.store8 a v }

def put16 (s : RealMode) (a : Nat) (v : BitVec 16) : RealMode := { s with mem := store16 s.mem a v }

def put32 (s : RealMode) (a : Nat) (v : BitVec 32) : RealMode := { s with mem := store32 s.mem a v }

end RealMode

/-- The instructions at `.fail`. -/
def vbeFail (bootinfo : Nat) (s : RealMode) : RealMode :=
  let s := s.put32 (vbeFbLabel bootinfo) 0
  let s := s.put16 (vbePitchLabel bootinfo) 0
  let s := s.put16 (vbeWLabel bootinfo) 0
  let s := s.put16 (vbeHLabel bootinfo) 0
  let s := s.put8 (vbeBppLabel bootinfo) 0
  s.put16 (vbeModeLabel bootinfo) 0

/-- The instructions that copy the fields of the mode information block. -/
def vbeCopy (bootinfo : Nat) (s : RealMode) : RealMode :=
  let info := vbeModeInfoLabel bootinfo
  let s := s.setAx (load16 s.mem (info + 0x10))
  let s := s.put16 (vbePitchLabel bootinfo) s.ax
  let s := s.setAx (load16 s.mem (info + 0x12))
  let s := s.put16 (vbeWLabel bootinfo) s.ax
  let s := s.setAx (load16 s.mem (info + 0x14))
  let s := s.put16 (vbeHLabel bootinfo) s.ax
  let s := s.setAl (s.mem (info + 0x19))
  let s := s.put8 (vbeBppLabel bootinfo) s.al
  let s := { s with eax := load32 s.mem (info + 0x28) }
  s.put32 (vbeFbLabel bootinfo) s.eax

def getVbe (int10 : RealMode → RealMode) (bootinfo : Nat) (s : RealMode) : RealMode :=
  let s := s.setAx 0x4F01
  let s := { s with ecx := setLow s.ecx vbeMode }
  let s := { s with di := BitVec.ofNat 16 (vbeModeInfoLabel bootinfo) }
  let s := int10 s
  if s.ax ≠ 0x004F then vbeFail bootinfo s else
  let s := vbeCopy bootinfo s
  let s := s.setAx 0x4F02
  let s := { s with ebx := setLow s.ebx (vbeMode ||| 0x4000) }
  let s := int10 s
  if s.ax ≠ 0x004F then vbeFail bootinfo s else
  s.put16 (vbeModeLabel bootinfo) vbeMode

/-! ## The protocol -/

/-- Firmware that knows the mode, or does not, and sets it, or does not. -/
structure VbeFirmware (int10 : RealMode → RealMode) (block : Option (Nat → BitVec 8)) (sets : Bool) : Prop where
  knows : ∀ s, s.ax = 0x4F01 → s.ecx.setWidth 16 = vbeMode → ((int10 s).ax = 0x004F ↔ block.isSome = true)
  stores : ∀ s f, s.ax = 0x4F01 → s.ecx.setWidth 16 = vbeMode → block = some f →
    ∀ i < 256, (int10 s).mem (s.destination + i) = f i
  outside : ∀ s x, s.ax = 0x4F01 → x < s.destination ∨ s.destination + 256 ≤ x → (int10 s).mem x = s.mem x
  answers : ∀ s, s.ax = 0x4F02 → s.ebx.setWidth 16 = vbeMode ||| 0x4000 → ((int10 s).ax = 0x004F ↔ sets = true)
  keeps : ∀ s, s.ax = 0x4F02 → (int10 s).mem = s.mem

/-- What the kernel is to find. -/
def vbeShown (block : Option (Nat → BitVec 8)) (sets : Bool) : VbeInfo :=
  match block, sets with
  | some f, true =>
      { mode := vbeMode
        w := load16 f 0x12
        h := load16 f 0x14
        pitch := load16 f 0x10
        bpp := f 0x19
        fb := load32 f 0x28 }
  | _, _ => ⟨0, 0, 0, 0, 0, 0⟩

/-! ## What the instructions do -/

section
variable {int10 : RealMode → RealMode} {block : Option (Nat → BitVec 8)} {sets : Bool} {bootinfo x : Nat}
  {s : RealMode} {m : Memory}

namespace RealMode

@[simp] theorem setAx_mem (s : RealMode) (v : BitVec 16) : (s.setAx v).mem = s.mem := rfl
@[simp] theorem setAl_mem (s : RealMode) (v : BitVec 8) : (s.setAl v).mem = s.mem := rfl
@[simp] theorem put8_mem (s : RealMode) (a : Nat) (v : BitVec 8) : (s.put8 a v).mem = s.mem.store8 a v := rfl
@[simp] theorem put16_mem (s : RealMode) (a : Nat) (v : BitVec 16) : (s.put16 a v).mem = store16 s.mem a v := rfl
@[simp] theorem put32_mem (s : RealMode) (a : Nat) (v : BitVec 32) : (s.put32 a v).mem = store32 s.mem a v := rfl

@[simp] theorem al_setAl (s : RealMode) (v : BitVec 8) : (s.setAl v).al = v := by
  apply BitVec.eq_of_getLsbD_eq
  intro i hi
  rw [al, setAl, BitVec.getLsbD_setWidth, BitVec.getLsbD_append, if_pos hi, decide_eq_true hi, Bool.true_and]

end RealMode

@[simp] theorem setLow_low (r : BitVec 32) (v : BitVec 16) : (setLow r v).setWidth 16 = v := by
  apply BitVec.eq_of_getLsbD_eq
  intro i hi
  rw [setLow, BitVec.getLsbD_setWidth, BitVec.getLsbD_append, if_pos hi, decide_eq_true hi, Bool.true_and]

/-- The labels, as distances from `bootinfo`. -/
theorem vbe_labels (bootinfo : Nat) :
    vbeModeLabel bootinfo = bootinfo + 1538 ∧ vbeWLabel bootinfo = bootinfo + 1540 ∧
      vbeHLabel bootinfo = bootinfo + 1542 ∧ vbePitchLabel bootinfo = bootinfo + 1544 ∧
      vbeBppLabel bootinfo = bootinfo + 1546 ∧ vbeFbLabel bootinfo = align4 (bootinfo + 1547) ∧
      vbeModeInfoLabel bootinfo = align4 (bootinfo + 1547) + 4 :=
  ⟨rfl, rfl, rfl, rfl, rfl, rfl, rfl⟩

theorem align4_bounds (a : Nat) : a ≤ align4 a ∧ align4 a ≤ a + 3 := by
  unfold align4
  omega

/-- What is stored at the labels before the mode, from a block that begins at `info`. -/
def vbeStores (bootinfo info : Nat) (m : Memory) : Memory :=
  let m₁ := store16 m (vbePitchLabel bootinfo) (load16 m (info + 0x10))
  let m₂ := store16 m₁ (vbeWLabel bootinfo) (load16 m (info + 0x12))
  let m₃ := store16 m₂ (vbeHLabel bootinfo) (load16 m (info + 0x14))
  let m₄ := m₃.store8 (vbeBppLabel bootinfo) (m (info + 0x19))
  store32 m₄ (vbeFbLabel bootinfo) (load32 m (info + 0x28))

theorem vbeStores_before {info : Nat} (hx : x < bootinfo + 1538) : vbeStores bootinfo info m x = m x := by
  obtain ⟨-, hw, hh, hpitch, hbpp, hfb, -⟩ := vbe_labels bootinfo
  obtain ⟨hlo, -⟩ := align4_bounds (bootinfo + 1547)
  rw [vbeStores, store32_outside (by omega), Memory.store8, if_neg (by omega), store16_outside (by omega),
    store16_outside (by omega), store16_outside (by omega)]

theorem vbeFail_before (hx : x < bootinfo + 1538) (s : RealMode) : (vbeFail bootinfo s).mem x = s.mem x := by
  obtain ⟨hmode, hw, hh, hpitch, hbpp, hfb, -⟩ := vbe_labels bootinfo
  obtain ⟨hlo, -⟩ := align4_bounds (bootinfo + 1547)
  simp only [vbeFail, RealMode.put8_mem, RealMode.put16_mem, RealMode.put32_mem]
  rw [store16_outside (by omega), Memory.store8, if_neg (by omega), store16_outside (by omega),
    store16_outside (by omega), store16_outside (by omega), store32_outside (by omega)]

/-- The stores do not reach the block. -/
theorem vbeCopy_mem (bootinfo : Nat) (s : RealMode) :
    (vbeCopy bootinfo s).mem = vbeStores bootinfo (vbeModeInfoLabel bootinfo) s.mem := by
  obtain ⟨hmode, hw, hh, hpitch, hbpp, hfb, hinfo⟩ := vbe_labels bootinfo
  obtain ⟨hlo, hhi⟩ := align4_bounds (bootinfo + 1547)
  simp only [vbeCopy, vbeStores, RealMode.ax_setAx, RealMode.setAx_mem, RealMode.al_setAl, RealMode.setAl_mem,
    RealMode.put8_mem, RealMode.put16_mem, RealMode.put32_mem, hw, hh, hpitch, hbpp, hfb, hinfo]
  simp (disch := omega) only [load16_store16_of_disjoint, store16_outside, load32_store16_of_disjoint,
    load32_store8_of_disjoint]

/-! ## What the kernel reads -/

theorem load16_block {info k : Nat} {f : Nat → BitVec 8} (h : ∀ i < 256, m (info + i) = f i) (hk : k + 1 < 256) :
    load16 m (info + k) = load16 f k := by
  rw [load16, load16, Nat.add_assoc, h _ hk, h _ (by omega)]

theorem load32_block {info k : Nat} {f : Nat → BitVec 8} (h : ∀ i < 256, m (info + i) = f i) (hk : k + 3 < 256) :
    load32 m (info + k) = load32 f k := by
  rw [load32, load32, Nat.add_assoc, load16_block h (by omega), load16_block h (by omega)]

theorem align4_field (h : bootinfo % 4 = 0) : align4 (bootinfo + 1547) = bootinfo + 1548 := by
  unfold align4
  omega

theorem bootInfoVbe_stores {info : Nat} {f : Nat → BitVec 8} (halign : bootinfo % 4 = 0)
    (h : ∀ i < 256, m (info + i) = f i) :
    bootInfoVbe (store16 (vbeStores bootinfo info m) (vbeModeLabel bootinfo) vbeMode) bootinfo =
      vbeShown (some f) true := by
  obtain ⟨hmode, hw, hh, hpitch, hbpp, hfb, -⟩ := vbe_labels bootinfo
  rw [align4_field halign] at hfb
  have hbyte : ∀ (m : Memory) (v : BitVec 8), m.store8 (bootinfo + 1546) v (bootinfo + 1546) = v :=
    fun m v => if_pos rfl
  simp only [bootInfoVbe, vbeStores, vbeShown, hmode, hw, hh, hpitch, hbpp, hfb, load16_store16, VbeInfo.mk.injEq,
    true_and]
  simp (disch := omega) only [load16_store16_of_disjoint, load16_store32_of_disjoint, load16_store8_of_disjoint,
    load32_store16_of_disjoint, store16_outside, store32_outside, load16_store16, load32_store32, hbyte]
  exact ⟨load16_block h (by omega), load16_block h (by omega), load16_block h (by omega), h _ (by omega),
    load32_block h (by omega)⟩

theorem bootInfoVbe_fail (halign : bootinfo % 4 = 0) (s : RealMode) :
    bootInfoVbe (vbeFail bootinfo s).mem bootinfo = ⟨0, 0, 0, 0, 0, 0⟩ := by
  obtain ⟨hmode, hw, hh, hpitch, hbpp, hfb, -⟩ := vbe_labels bootinfo
  rw [align4_field halign] at hfb
  have hbyte : ∀ (m : Memory) (v : BitVec 8), m.store8 (bootinfo + 1546) v (bootinfo + 1546) = v :=
    fun m v => if_pos rfl
  simp only [bootInfoVbe, vbeFail, RealMode.put8_mem, RealMode.put16_mem, RealMode.put32_mem, hmode, hw, hh, hpitch,
    hbpp, hfb, load16_store16, VbeInfo.mk.injEq, true_and]
  simp (disch := omega) only [load16_store16_of_disjoint, load16_store8_of_disjoint, load32_store16_of_disjoint,
    load32_store8_of_disjoint, store16_outside, load16_store16, load32_store32, hbyte, and_self]

/-- The state in which the mode information is asked for. -/
def vbeRequest (bootinfo : Nat) (s : RealMode) : RealMode :=
  let s := s.setAx 0x4F01
  let s := { s with ecx := setLow s.ecx vbeMode }
  { s with di := BitVec.ofNat 16 (vbeModeInfoLabel bootinfo) }

theorem vbeRequest_destination (hes : s.es = 0) (hfit : bootinfo + 1554 < 2 ^ 16) :
    (vbeRequest bootinfo s).destination = vbeModeInfoLabel bootinfo := by
  obtain ⟨-, -, -, -, -, -, hinfo⟩ := vbe_labels bootinfo
  obtain ⟨-, hhi⟩ := align4_bounds (bootinfo + 1547)
  have hes' : (vbeRequest bootinfo s).es = 0 := hes
  have hdi : (vbeRequest bootinfo s).di = BitVec.ofNat 16 (vbeModeInfoLabel bootinfo) := rfl
  have hzero : (0 : BitVec 16).toNat = 0 := rfl
  rw [RealMode.destination, hes', hdi, hzero, BitVec.toNat_ofNat, Nat.mod_eq_of_lt (by omega)]
  omega

theorem getVbe_eq (int10 : RealMode → RealMode) (bootinfo : Nat) (s : RealMode) :
    getVbe int10 bootinfo s =
      (let s₁ := int10 (vbeRequest bootinfo s)
       if s₁.ax ≠ 0x004F then vbeFail bootinfo s₁ else
       let s₂ := (vbeCopy bootinfo s₁).setAx 0x4F02
       let s₃ := int10 { s₂ with ebx := setLow s₂.ebx (vbeMode ||| 0x4000) }
       if s₃.ax ≠ 0x004F then vbeFail bootinfo s₃ else s₃.put16 (vbeModeLabel bootinfo) vbeMode) := rfl

theorem vbeRequest_registers (bootinfo : Nat) (s : RealMode) :
    (vbeRequest bootinfo s).ax = 0x4F01 ∧ (vbeRequest bootinfo s).ecx.setWidth 16 = vbeMode :=
  ⟨RealMode.ax_setAx _ _, setLow_low _ _⟩

/-- Where the mode is set, with the block in the memory `m`. -/
theorem getVbe_set {f : Nat → BitVec 8} (hfw : VbeFirmware int10 (some f) true) (hes : s.es = 0)
    (hfit : bootinfo + 1554 < 2 ^ 16) :
    ∃ m : Memory, (∀ i < 256, m (vbeModeInfoLabel bootinfo + i) = f i) ∧
      (∀ x < vbeModeInfoLabel bootinfo, m x = s.mem x) ∧
      (getVbe int10 bootinfo s).mem =
        store16 (vbeStores bootinfo (vbeModeInfoLabel bootinfo) m) (vbeModeLabel bootinfo) vbeMode := by
  obtain ⟨hax, hcx⟩ := vbeRequest_registers bootinfo s
  have hdest := vbeRequest_destination hes hfit
  have hyes : ¬ (int10 (vbeRequest bootinfo s)).ax ≠ 0x004F := not_not.mpr ((hfw.knows _ hax hcx).mpr rfl)
  have hblock := hfw.stores _ f hax hcx rfl
  rw [hdest] at hblock
  refine ⟨_, hblock, fun x hx => hfw.outside _ x hax (.inl (hdest ▸ hx)), ?_⟩
  simp only [getVbe_eq, if_neg hyes]
  generalize hs₂ : (vbeCopy bootinfo (int10 (vbeRequest bootinfo s))).setAx 0x4F02 = s₂
  have hax₂ : s₂.ax = 0x4F02 := by rw [← hs₂, RealMode.ax_setAx]
  have hanswers := hfw.answers { s₂ with ebx := setLow s₂.ebx (vbeMode ||| 0x4000) } hax₂ (setLow_low _ _)
  rw [if_neg (not_not.mpr (hanswers.mpr rfl)), RealMode.put16_mem,
    hfw.keeps { s₂ with ebx := setLow s₂.ebx (vbeMode ||| 0x4000) } hax₂]
  simp only [← hs₂, RealMode.setAx_mem, vbeCopy_mem]

/-- Where the mode is not set, whatever has been copied before. -/
theorem getVbe_unset (hfw : VbeFirmware int10 block sets) (h : block = none ∨ sets = false) (hes : s.es = 0)
    (hfit : bootinfo + 1554 < 2 ^ 16) :
    ∃ s', getVbe int10 bootinfo s = vbeFail bootinfo s' ∧ ∀ x < bootinfo + 1538, s'.mem x = s.mem x := by
  obtain ⟨hax, hcx⟩ := vbeRequest_registers bootinfo s
  obtain ⟨-, -, -, -, -, -, hinfo⟩ := vbe_labels bootinfo
  obtain ⟨hlo, -⟩ := align4_bounds (bootinfo + 1547)
  have hask : ∀ x < bootinfo + 1538, (int10 (vbeRequest bootinfo s)).mem x = s.mem x := fun x hx =>
    hfw.outside _ x hax (.inl (by rw [vbeRequest_destination hes hfit]; omega))
  rw [getVbe_eq]
  by_cases hknown : (int10 (vbeRequest bootinfo s)).ax ≠ 0x004F
  · exact ⟨_, if_pos hknown, hask⟩
  · have hsome := (hfw.knows _ hax hcx).mp (not_not.mp hknown)
    have hsets : sets = false := h.resolve_left fun hnone => by simp [hnone] at hsome
    simp only [if_neg hknown]
    generalize hs₂ : (vbeCopy bootinfo (int10 (vbeRequest bootinfo s))).setAx 0x4F02 = s₂
    have hax₂ : s₂.ax = 0x4F02 := by rw [← hs₂, RealMode.ax_setAx]
    have hanswers := hfw.answers { s₂ with ebx := setLow s₂.ebx (vbeMode ||| 0x4000) } hax₂ (setLow_low _ _)
    have hkeeps := hfw.keeps { s₂ with ebx := setLow s₂.ebx (vbeMode ||| 0x4000) } hax₂
    refine ⟨_, if_pos fun heq => ?_, fun x hx => ?_⟩
    · exact absurd (hanswers.mp heq) (by simp [hsets])
    · rw [hkeeps, ← hs₂, RealMode.setAx_mem, vbeCopy_mem, vbeStores_before hx, hask x hx]

/-- The fields hold the information about the mode if it has been set, and zeros otherwise. -/
theorem getVbe_shown (hfw : VbeFirmware int10 block sets) (hes : s.es = 0) (hfit : bootinfo + 1554 < 2 ^ 16)
    (halign : bootinfo % 4 = 0) : bootInfoVbe (getVbe int10 bootinfo s).mem bootinfo = vbeShown block sets := by
  have hfail (h : block = none ∨ sets = false) :
      bootInfoVbe (getVbe int10 bootinfo s).mem bootinfo = ⟨0, 0, 0, 0, 0, 0⟩ := by
    obtain ⟨s', hs', -⟩ := getVbe_unset hfw h hes hfit
    rw [hs']
    exact bootInfoVbe_fail halign s'
  cases block with
  | none => exact hfail (.inl rfl)
  | some f =>
      cases sets with
      | false => exact hfail (.inr rfl)
      | true =>
          obtain ⟨m, hblock, -, hmem⟩ := getVbe_set hfw hes hfit
          rw [hmem]
          exact bootInfoVbe_stores halign hblock

/-- The memory map in front of the fields stays. -/
theorem getVbe_before (hfw : VbeFirmware int10 block sets) (hes : s.es = 0) (hfit : bootinfo + 1554 < 2 ^ 16)
    (hx : x < bootinfo + 1538) : (getVbe int10 bootinfo s).mem x = s.mem x := by
  have hunset (h : block = none ∨ sets = false) : (getVbe int10 bootinfo s).mem x = s.mem x := by
    obtain ⟨s', hs', hmem⟩ := getVbe_unset hfw h hes hfit
    rw [hs', vbeFail_before hx, hmem x hx]
  cases block with
  | none => exact hunset (.inl rfl)
  | some f =>
      cases sets with
      | false => exact hunset (.inr rfl)
      | true =>
          obtain ⟨hmode, -, -, -, -, -, hinfo⟩ := vbe_labels bootinfo
          obtain ⟨hlo, -⟩ := align4_bounds (bootinfo + 1547)
          obtain ⟨m, -, hm, hmem⟩ := getVbe_set hfw hes hfit
          rw [hmem, store16_outside (by omega), vbeStores_before hx, hm x (by omega)]

/-! ## A structure that is not aligned -/

def sampleModeInfo (i : Nat) : BitVec 8 := if i = 0x28 then 1 else 0

def sampleInt10 (s : RealMode) : RealMode :=
  if s.ax = 0x4F01 then { s with mem := s.mem.storeBytes s.destination 256 sampleModeInfo }.setAx 0x004F
  else s.setAx 0x004F

theorem sampleInt10_firmware : VbeFirmware sampleInt10 (some sampleModeInfo) true where
  knows s hax _ := by
    rw [sampleInt10, if_pos hax, RealMode.ax_setAx]
    simp
  stores s f hax _ hf i hi := by
    cases hf
    rw [sampleInt10, if_pos hax, RealMode.setAx_mem]
    exact Memory.storeBytes_apply _ _ _ _ hi
  outside s x hax hx := by
    rw [sampleInt10, if_pos hax, RealMode.setAx_mem]
    exact Memory.storeBytes_outside _ _ _ _ hx
  answers s hax _ := by
    have hne : ¬ s.ax = 0x4F01 := fun h => absurd (h.symm.trans hax) (by decide)
    rw [sampleInt10, if_neg hne, RealMode.ax_setAx]
    simp
  keeps s hax := by
    have hne : ¬ s.ax = 0x4F01 := fun h => absurd (h.symm.trans hax) (by decide)
    rw [sampleInt10, if_neg hne, RealMode.setAx_mem]

def emptyRealMode : RealMode := ⟨0, 0, 0, 0, 0, 0, 0, false, fun _ => 0⟩

theorem load32_low (m : Memory) (a : Nat) : (load32 m a).setWidth 8 = m a := by
  apply BitVec.eq_of_getLsbD_eq
  intro i hi
  rw [load32, BitVec.getLsbD_setWidth, BitVec.getLsbD_append, if_pos (by omega), load16, BitVec.getLsbD_append,
    if_pos hi, decide_eq_true hi, Bool.true_and]

/-- The lowest byte of the field for the frame buffer is not the one that was stored. -/
theorem vbeStores_misaligned {info : Nat} (halign : bootinfo % 4 ≠ 0) (hfb : load32 m (info + 0x28) = 1)
    (hm : m (bootinfo + 1548) = 0) :
    (bootInfoVbe (store16 (vbeStores bootinfo info m) (vbeModeLabel bootinfo) vbeMode) bootinfo).fb ≠ 1 := by
  obtain ⟨hmode, hw, hh, hpitch, hbpp, hlabel, -⟩ := vbe_labels bootinfo
  have hstore : ∀ m : Memory, m (bootinfo + 1548) = 0 →
      store32 m (vbeFbLabel bootinfo) 1 (bootinfo + 1548) = 0 := by
    intro m hm
    rw [hlabel]
    by_cases hone : bootinfo % 4 = 1
    · -- the second byte of the field is read as the first one
      have hfield : align4 (bootinfo + 1547) = bootinfo + 1547 := by
        unfold align4
        omega
      rw [hfield, store32, store16_outside (by omega)]
      exact Memory.storeBytes_apply m _ 2 _ (i := 1) (by omega)
    · have hfield : bootinfo + 1549 ≤ align4 (bootinfo + 1547) := by
        unfold align4
        omega
      rw [store32_outside (by omega), hm]
  have hbyte : store16 (vbeStores bootinfo info m) (vbeModeLabel bootinfo) vbeMode (bootinfo + 1548) = 0 := by
    rw [store16_outside (by omega), vbeStores, hfb]
    refine hstore _ ?_
    rw [Memory.store8, if_neg (by omega), store16_outside (by omega), store16_outside (by omega),
      store16_outside (by omega), hm]
  intro heq
  have hlow := load32_low (store16 (vbeStores bootinfo info m) (vbeModeLabel bootinfo) vbeMode) (bootinfo + 1548)
  rw [hbyte, show load32 _ _ = _ from heq] at hlow
  exact absurd hlow (by decide)

/-- The kernel finds what was stored, with all firmware, exactly if `bootinfo` is aligned. -/
theorem getVbe_shown_iff (hfit : bootinfo + 1554 < 2 ^ 16) :
    (∀ int10 block sets s, VbeFirmware int10 block sets → s.es = 0 →
      bootInfoVbe (getVbe int10 bootinfo s).mem bootinfo = vbeShown block sets) ↔ bootinfo % 4 = 0 := by
  constructor
  · intro hall
    by_contra halign
    obtain ⟨-, -, -, -, -, -, hinfo⟩ := vbe_labels bootinfo
    obtain ⟨hlo, -⟩ := align4_bounds (bootinfo + 1547)
    obtain ⟨m, hblock, hm, hmem⟩ := getVbe_set (s := emptyRealMode) sampleInt10_firmware rfl hfit
    have hshown := congrArg (·.fb) (hall _ _ _ emptyRealMode sampleInt10_firmware rfl)
    rw [hmem] at hshown
    have hfb : load32 m (vbeModeInfoLabel bootinfo + 0x28) = 1 := by
      rw [load32_block hblock (by omega)]
      decide
    exact vbeStores_misaligned halign hfb (hm _ (by omega)) hshown
  · exact fun halign _ _ _ _ hfw hes => getVbe_shown hfw hes hfit halign

/-- The place that the label has in stage 2. -/
theorem getVbe_shown_label :
    bootInfoVbe (getVbe sampleInt10 0x8150 emptyRealMode).mem 0x8150 = vbeShown (some sampleModeInfo) true :=
  (getVbe_shown_iff (by decide)).mpr rfl _ _ _ _ sampleInt10_firmware rfl

end

end BootKernel
