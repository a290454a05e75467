import BootKernel.Common
import BootKernel.Lib.Memory

/-!
# The memory map of the firmware

`get_e820_map` in `bootloader/boot2.asm`, register by register. The segment register DS is zero. The
firmware is a function of the whole state, and what is asked of it is the protocol of INT 15h, function
E820.
-/

namespace BootKernel

def e820Max : BitVec 16 := 64
def e820EntrySize : BitVec 16 := 24
def e820Function : BitVec 32 := 0xE820
def e820Signature : BitVec 32 := 0x534D4150

/-- The registers that the loop uses, the carry flag and the memory. -/
structure RealMode where
  eax : BitVec 32
  ebx : BitVec 32
  ecx : BitVec 32
  edx : BitVec 32
  di : BitVec 16
  bp : BitVec 16
  es : BitVec 16
  cf : Bool
  mem : Memory

namespace RealMode

def ax (s : RealMode) : BitVec 16 := s.eax.setWidth 16

/-- Writing AX keeps the upper half of EAX. -/
def setAx (s : RealMode) (v : BitVec 16) : RealMode :=
  { s with eax := (s.eax &&& 0xFFFF0000) ||| v.setWidth 32 }

@[simp] theorem ax_setAx (s : RealMode) (v : BitVec 16) : (s.setAx v).ax = v := by
  apply BitVec.eq_of_getLsbD_eq
  intro i hi
  simp [ax, setAx, hi]

@[simp] theorem eax_setAx_high (s : RealMode) (v : BitVec 16) :
    (s.setAx v).eax &&& 0xFFFF0000 = s.eax &&& 0xFFFF0000 := by
  have hmask : ∀ i < 16, (0xFFFF0000 : BitVec 32).getLsbD i = false := by decide
  apply BitVec.eq_of_getLsbD_eq
  intro i hi
  by_cases hlow : i < 16
  · simp only [BitVec.getLsbD_and, hmask i hlow, Bool.and_false]
  · have hv : v.getLsbD i = false := BitVec.getLsbD_of_ge v i (by omega)
    simp [setAx, hv]

/-- The physical address of ES:DI. -/
def destination (s : RealMode) : Nat := s.es.toNat * 16 + s.di.toNat

end RealMode

/-- One INT 15h: the state in which it is issued, and the carry flag that it returns. -/
structure Int15Call where
  request : RealMode
  carry : Bool

/-- The label `e820_map`, which follows the word `e820_count` at the label `bootinfo`. -/
def e820Map (bootinfo : BitVec 16) : BitVec 16 := bootinfo + 2

/-- The instructions from `.e820_loop` up to the interrupt. -/
def e820Request (bootinfo : BitVec 16) (s : RealMode) : RealMode :=
  let s := { s with eax := e820Function, edx := e820Signature, ecx := 24 }
  let s := { s with di := e820Map bootinfo }
  let s := s.setAx s.bp
  let s := s.setAx (s.ax * e820EntrySize)
  { s with di := s.di + s.ax }

/-- The instructions before `.e820_loop`. -/
def e820Start (s : RealMode) : RealMode := { s with ebx := 0, bp := 0 }

/-- The loop; `none` is a loop that has not ended after the given number of turns. -/
def e820Loop (int15 : RealMode → RealMode) (bootinfo : BitVec 16) :
    Nat → RealMode → List Int15Call → Option (RealMode × List Int15Call)
  | 0, _, _ => none
  | fuel + 1, s, calls =>
      let request := e820Request bootinfo s
      let s := int15 request
      let calls := calls ++ [⟨request, s.cf⟩]
      if s.cf then some (s, calls) else
      let s := { s with bp := s.bp + 1 }
      if e820Max ≤ s.bp then some (s, calls)
      else if s.ebx ≠ 0 then e820Loop int15 bootinfo fuel s calls
      else some (s, calls)

def getE820Map (int15 : RealMode → RealMode) (bootinfo : BitVec 16) (fuel : Nat) (s : RealMode) :
    Option (RealMode × List Int15Call) :=
  match e820Loop int15 bootinfo fuel (e820Start s) [] with
  | none => none
  | some (s, calls) =>
      some ({ s with mem := s.mem.storeBytes bootinfo.toNat 2 fun i => s.bp.extractLsb' (8 * i) 8 }, calls)

/-! ## The protocol -/

/-- The bytes of a descriptor, the first field in the lowest ones. -/
def E820Entry.byte (e : E820Entry) (k : Nat) : BitVec 8 :=
  (e.attr ++ e.type ++ e.length ++ e.base : BitVec 192).extractLsb' (8 * k) 8

/-- Firmware that gives out the descriptors one after the other. `cont i` is the value of EBX that asks for
the descriptor `i`. -/
structure Conforms (int15 : RealMode → RealMode) (map : List E820Entry) (cont : Nat → BitVec 32) : Prop where
  nonempty : map ≠ []
  first : cont 0 = 0
  later : ∀ i < map.length, i ≠ 0 → cont i ≠ 0
  stores : ∀ s i e, map[i]? = some e → s.eax = e820Function → s.edx = e820Signature → s.ecx = 24 → s.ebx = cont i →
    (int15 s).cf = false ∧ (int15 s).mem = s.mem.storeBytes s.destination 24 e.byte ∧
      (int15 s).ebx = if i + 1 < map.length then cont (i + 1) else 0
  refuses : ∀ s, s.eax ≠ e820Function → (int15 s).cf = true
  keeps : ∀ s, (int15 s).bp = s.bp ∧ (int15 s).es = s.es

/-- What the kernel is to find at `bootinfo`: the number of descriptors, at most 64, and the descriptors. -/
structure MapRead (bootinfo : BitVec 16) (map : List E820Entry) (s : RealMode) : Prop where
  count : (s.mem (bootinfo.toNat + 1) ++ s.mem bootinfo.toNat : BitVec 16).toNat = min map.length 64
  entries : ∀ i e k, i < min map.length 64 → map[i]? = some e → k < 24 →
    s.mem ((e820Map bootinfo).toNat + 24 * i + k) = e.byte k

/-- Each call asks for the function, and for the place of its descriptor. -/
def CallsRight (bootinfo : BitVec 16) (calls : List Int15Call) : Prop :=
  ∀ i call, calls[i]? = some call → call.request.eax = e820Function ∧
    call.request.di = e820Map bootinfo + e820EntrySize * BitVec.ofNat 16 i

/-! ## What the loop asks for -/

section
variable {int15 : RealMode → RealMode} {bootinfo : BitVec 16} {s : RealMode} {fuel : Nat}

/-- The index is scaled in AX, where the number of the function was. -/
theorem e820Request_eax (bootinfo : BitVec 16) (s : RealMode) :
    (e820Request bootinfo s).eax = (s.bp * e820EntrySize).setWidth 32 := by
  have hhigh : e820Function &&& 0xFFFF0000 = 0 := by decide
  simp only [e820Request]
  rw [RealMode.setAx, RealMode.eax_setAx_high, RealMode.ax_setAx, hhigh]
  exact BitVec.zero_or

/-- So no call asks for the function. -/
theorem e820Request_eax_ne (bootinfo : BitVec 16) (h : s.bp < e820Max) :
    (e820Request bootinfo s).eax ≠ e820Function := by
  have hlt : s.bp.toNat < 64 := BitVec.lt_def.mp h
  have hsize : e820EntrySize.toNat = 24 := rfl
  have hfun : e820Function.toNat = 0xE820 := rfl
  intro heq
  have hnat := congrArg BitVec.toNat heq
  rw [e820Request_eax, BitVec.toNat_setWidth, BitVec.toNat_mul, hsize, hfun] at hnat
  omega

/-- When the first call is refused, the loop ends with BP as it was. -/
theorem getE820Map_refused (hfuel : 0 < fuel) (hcarry : (int15 (e820Request bootinfo (e820Start s))).cf = true) :
    ∃ t, getE820Map int15 bootinfo fuel s = some (t, [⟨e820Request bootinfo (e820Start s), true⟩]) ∧
      ∀ i < 2, t.mem (bootinfo.toNat + i) =
        (int15 (e820Request bootinfo (e820Start s))).bp.extractLsb' (8 * i) 8 := by
  obtain ⟨n, rfl⟩ : ∃ n, fuel = n + 1 := ⟨fuel - 1, by omega⟩
  refine ⟨{ int15 (e820Request bootinfo (e820Start s)) with
    mem := (int15 (e820Request bootinfo (e820Start s))).mem.storeBytes bootinfo.toNat 2 fun i =>
      (int15 (e820Request bootinfo (e820Start s))).bp.extractLsb' (8 * i) 8 }, ?_, fun i hi => ?_⟩
  · simp only [getE820Map, e820Loop, hcarry, ↓reduceIte, List.nil_append]
  · simp [Memory.storeBytes, hi]

end

/-! ## The memory map that is read -/

section
variable {int15 : RealMode → RealMode} {bootinfo : BitVec 16} {s : RealMode} {fuel : Nat} {map : List E820Entry}
  {cont : Nat → BitVec 32}

theorem Conforms.getE820Map_refused (h : Conforms int15 map cont) (bootinfo : BitVec 16) (s : RealMode)
    (hfuel : 0 < fuel) :
    ∃ t calls, getE820Map int15 bootinfo fuel s = some (t, calls) ∧
      (t.mem (bootinfo.toNat + 1) ++ t.mem bootinfo.toNat : BitVec 16) = 0 ∧ ¬ CallsRight bootinfo calls := by
  have hne : (e820Request bootinfo (e820Start s)).eax ≠ e820Function :=
    e820Request_eax_ne bootinfo (show (0 : BitVec 16) < e820Max by decide)
  have hbp : (int15 (e820Request bootinfo (e820Start s))).bp = 0 := (h.keeps _).1
  obtain ⟨t, heq, hcount⟩ := BootKernel.getE820Map_refused hfuel (h.refuses _ hne)
  have hlow := hcount 0 (by decide)
  have hhigh := hcount 1 (by decide)
  rw [hbp] at hlow hhigh
  refine ⟨t, _, heq, ?_, fun hright => hne (hright 0 _ rfl).1⟩
  rw [Nat.add_zero] at hlow
  rw [hlow, hhigh]
  rfl

theorem not_mapRead (hmap : map ≠ []) (hcount : (s.mem (bootinfo.toNat + 1) ++ s.mem bootinfo.toNat : BitVec 16) = 0) :
    ¬ MapRead bootinfo map s := by
  intro hread
  have hzero := hread.count
  have hpos := List.length_pos_iff.mpr hmap
  have hnat : (0 : BitVec 16).toNat = 0 := rfl
  rw [hcount, hnat] at hzero
  omega

/-- Whatever descriptors the firmware has, `get_e820_map` ends without one of them: the number of the function
is overwritten before the first call. -/
theorem getE820Map_empty (int15 : RealMode → RealMode) (map : List E820Entry) (cont : Nat → BitVec 32)
    (bootinfo : BitVec 16) (s : RealMode) (fuel : Nat) (h : Conforms int15 map cont) (hfuel : 0 < fuel) :
    ∃ t calls, getE820Map int15 bootinfo fuel s = some (t, calls) ∧
      ¬ MapRead bootinfo map t ∧ ¬ CallsRight bootinfo calls := by
  obtain ⟨t, calls, heq, hcount, hcalls⟩ := h.getE820Map_refused bootinfo s hfuel
  exact ⟨t, calls, heq, not_mapRead h.nonempty hcount, hcalls⟩

end

/-- Firmware with one descriptor. -/
def sampleInt15 (s : RealMode) : RealMode :=
  if s.eax = e820Function ∧ s.edx = e820Signature ∧ s.ecx = 24 ∧ s.ebx = 0 then
    { s with
      eax := e820Signature
      ebx := 0
      cf := false
      mem := s.mem.storeBytes s.destination 24 (E820Entry.byte ⟨0, 0x9FC00, 1, 0⟩) }
  else { s with cf := true }

theorem sampleInt15_conforms : Conforms sampleInt15 [⟨0, 0x9FC00, 1, 0⟩] fun _ => 0 where
  nonempty := by simp
  first := rfl
  later := by
    intro i hi hne
    simp at hi
    omega
  stores := by
    intro s i e he heax hedx hecx hebx
    cases i with
    | zero =>
        cases he
        simp [sampleInt15, heax, hedx, hecx, hebx]
    | succ i => simp at he
  refuses := by
    intro s hne
    simp [sampleInt15, hne]
  keeps := by
    intro s
    simp only [sampleInt15]
    split
    · exact ⟨rfl, rfl⟩
    · exact ⟨rfl, rfl⟩

/-- The state in which the second stage starts. -/
def sampleRealMode : RealMode where
  eax := 0
  ebx := 0
  ecx := 0
  edx := 0x80
  di := 0
  bp := 0
  es := 0
  cf := false
  mem := fun _ => 0

theorem getE820Map_empty_sample :
    ∃ t calls, getE820Map sampleInt15 0x8180 64 sampleRealMode = some (t, calls) ∧
      ¬ MapRead 0x8180 [⟨0, 0x9FC00, 1, 0⟩] t ∧ ¬ CallsRight 0x8180 calls :=
  getE820Map_empty sampleInt15 _ _ 0x8180 sampleRealMode 64 sampleInt15_conforms (by decide)

/-- With one descriptor the loop issues one call, with EAX zero. -/
theorem getE820Map_refused_sample :
    Conforms sampleInt15 [⟨0, 0x9FC00, 1, 0⟩] (fun _ => 0) ∧
      ∃ t call, getE820Map sampleInt15 0x8180 64 sampleRealMode = some (t, [call]) ∧
        call.request.eax = 0 ∧ call.carry = true ∧ ¬ MapRead 0x8180 [⟨0, 0x9FC00, 1, 0⟩] t := by
  refine ⟨sampleInt15_conforms, ?_⟩
  have hcarry : (sampleInt15 (e820Request 0x8180 (e820Start sampleRealMode))).cf = true := by decide
  have hbp : (sampleInt15 (e820Request 0x8180 (e820Start sampleRealMode))).bp = 0 := by decide
  obtain ⟨t, heq, hcount⟩ := getE820Map_refused (show 0 < 64 by decide) hcarry
  refine ⟨t, _, heq, by decide, rfl, not_mapRead (by simp) ?_⟩
  have hlow := hcount 0 (by decide)
  have hhigh := hcount 1 (by decide)
  rw [hbp] at hlow hhigh
  rw [Nat.add_zero] at hlow
  rw [hlow, hhigh]
  rfl

end BootKernel
