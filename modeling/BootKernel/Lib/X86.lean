import BootKernel.Lib.Memory
import Mathlib.Algebra.Order.Ring.Nat
import Mathlib.Logic.Function.Iterate

/-!
# Straight-line x86-64 code with port accesses

Sixteen registers with their low views, the direction flag, a byte memory, and a device behind the ports that
takes and gives bytes and words. A repeated string instruction moves one word after the other.
-/

namespace X86

variable {δ : Type}

inductive Reg where
  | rax | rbx | rcx | rdx | rsi | rdi | rbp | rsp
  | r8 | r9 | r10 | r11 | r12 | r13 | r14 | r15
deriving DecidableEq, Repr

/-- What is behind the ports. -/
structure Device (δ : Type) where
  read8 : BitVec 16 → δ → BitVec 8 × δ
  read16 : BitVec 16 → δ → BitVec 16 × δ
  write8 : BitVec 16 → BitVec 8 → δ → δ
  write16 : BitVec 16 → BitVec 16 → δ → δ

@[ext]
structure State (δ : Type) where
  regs : Reg → BitVec 64
  df : Bool
  rip : BitVec 64
  ram : Memory
  dev : δ

/-! ## Registers -/

/-- A write of the low half of a register's low half keeps the rest, as does one of its low byte. -/
def setLow16 (v : BitVec 64) (w : BitVec 16) : BitVec 64 := v.extractLsb' 16 48 ++ w

def setLow8 (v : BitVec 64) (w : BitVec 8) : BitVec 64 := v.extractLsb' 8 56 ++ w

def low16 (v : BitVec 64) : BitVec 16 := v.setWidth 16

def low8 (v : BitVec 64) : BitVec 8 := v.setWidth 8

@[simp] theorem low16_setLow16 (v : BitVec 64) (w : BitVec 16) : low16 (setLow16 v w) = w := by
  apply BitVec.eq_of_getLsbD_eq
  intro i hi
  simp only [low16, setLow16, BitVec.getLsbD_setWidth, BitVec.getLsbD_append, hi, decide_true, Bool.true_and,
    ↓reduceIte]

@[simp] theorem low8_setLow8 (v : BitVec 64) (w : BitVec 8) : low8 (setLow8 v w) = w := by
  apply BitVec.eq_of_getLsbD_eq
  intro i hi
  simp only [low8, setLow8, BitVec.getLsbD_setWidth, BitVec.getLsbD_append, hi, decide_true, Bool.true_and,
    ↓reduceIte]

/-- A value with another low half than its own. -/
theorem setLow16_toNat (v : BitVec 64) (w : BitVec 16) :
    (setLow16 v w).toNat = v.toNat / 2 ^ 16 * 2 ^ 16 + w.toNat := by
  have hv := v.isLt
  have hw := w.isLt
  rw [setLow16, BitVec.toNat_append, BitVec.extractLsb'_toNat, Nat.shiftRight_eq_div_pow,
    Nat.mod_eq_of_lt (by omega), Nat.shiftLeft_eq, Nat.mul_comm, ← Nat.two_pow_add_eq_or_of_lt hw]

def State.set (s : State δ) (r : Reg) (v : BitVec 64) : State δ :=
  { s with regs := Function.update s.regs r v }

section
variable (s : State δ) (r q : Reg) (v : BitVec 64)

@[simp] theorem State.set_df : (s.set r v).df = s.df := rfl
@[simp] theorem State.set_rip : (s.set r v).rip = s.rip := rfl
@[simp] theorem State.set_ram : (s.set r v).ram = s.ram := rfl
@[simp] theorem State.set_dev : (s.set r v).dev = s.dev := rfl

@[simp] theorem State.set_regs : (s.set r v).regs q = if q = r then v else s.regs q :=
  Function.update_apply s.regs r v q

end

/-! ## Words -/

def load16 (m : Memory) (a : Nat) : BitVec 16 := m (a + 1) ++ m a

def store16 (m : Memory) (a : Nat) (w : BitVec 16) : Memory :=
  m.storeBytes a 2 fun i => w.extractLsb' (8 * i) 8

def load32 (m : Memory) (a : Nat) : BitVec 32 := load16 m (a + 2) ++ load16 m a

def store32 (m : Memory) (a : Nat) (v : BitVec 32) : Memory :=
  store16 (store16 m a (v.extractLsb' 0 16)) (a + 2) (v.extractLsb' 16 16)

section
variable {m m' : Memory} {a b x : Nat} {w : BitVec 16} {v : BitVec 32}

theorem store16_outside (hx : x < a ∨ a + 2 ≤ x) : store16 m a w x = m x :=
  Memory.storeBytes_outside m a 2 _ hx

theorem store32_outside (hx : x < a ∨ a + 4 ≤ x) : store32 m a v x = m x := by
  rw [store32, store16_outside (by omega), store16_outside (by omega)]

theorem load16_store16 : load16 (store16 m a w) a = w := by
  have hlow : store16 m a w a = w.extractLsb' (8 * 0) 8 := Memory.storeBytes_apply m a 2 _ (i := 0) (by omega)
  have hhigh : store16 m a w (a + 1) = w.extractLsb' (8 * 1) 8 := Memory.storeBytes_apply m a 2 _ (i := 1) (by omega)
  rw [load16, hlow, hhigh]
  apply BitVec.eq_of_getLsbD_eq
  intro k hk
  simp only [BitVec.getLsbD_append, BitVec.getLsbD_extractLsb']
  grind

theorem load16_congr (h : ∀ x, a ≤ x → x < a + 2 → m' x = m x) : load16 m' a = load16 m a := by
  rw [load16, load16, h (a + 1) (by omega) (by omega), h a (by omega) (by omega)]

theorem load16_store16_of_disjoint (h : b + 2 ≤ a ∨ a + 2 ≤ b) : load16 (store16 m a w) b = load16 m b :=
  load16_congr fun _ hlo hhi => store16_outside (by omega)

theorem load32_congr (h : ∀ x, a ≤ x → x < a + 4 → m' x = m x) : load32 m' a = load32 m a := by
  rw [load32, load32, load16_congr fun x hlo hhi => h x (by omega) (by omega),
    load16_congr fun x hlo hhi => h x (by omega) (by omega)]

theorem load16_store32_of_disjoint (h : b + 2 ≤ a ∨ a + 4 ≤ b) : load16 (store32 m a v) b = load16 m b :=
  load16_congr fun _ hlo hhi => store32_outside (by omega)

theorem load16_store8_of_disjoint {c : BitVec 8} (h : b + 2 ≤ a ∨ a < b) : load16 (m.store8 a c) b = load16 m b :=
  load16_congr fun x hlo hhi => if_neg (by omega)

theorem load32_store16_of_disjoint (h : b + 4 ≤ a ∨ a + 2 ≤ b) : load32 (store16 m a w) b = load32 m b :=
  load32_congr fun _ hlo hhi => store16_outside (by omega)

theorem load32_store8_of_disjoint {c : BitVec 8} (h : b + 4 ≤ a ∨ a < b) : load32 (m.store8 a c) b = load32 m b :=
  load32_congr fun x hlo hhi => if_neg (by omega)

theorem load32_store32 : load32 (store32 m a v) a = v := by
  rw [load32, store32, load16_store16, load16_store16_of_disjoint (by omega), load16_store16]
  apply BitVec.eq_of_getLsbD_eq
  intro k hk
  simp only [BitVec.getLsbD_append, BitVec.getLsbD_extractLsb']
  grind

end

/-- The bytes of a list of words, the low byte of each first. -/
def wordBytes (ws : List (BitVec 16)) (i : Nat) : BitVec 8 := (ws.getD (i / 2) 0).extractLsb' (8 * (i % 2)) 8

def loadWords (m : Memory) (a n : Nat) : List (BitVec 16) := (List.range n).map fun i => load16 m (a + 2 * i)

/-- The words that a device gives in turn. -/
def Device.reads (D : Device δ) (port : BitVec 16) : Nat → δ → List (BitVec 16) × δ
  | 0, d => ([], d)
  | n + 1, d =>
      let (w, d) := D.read16 port d
      let (ws, d) := D.reads port n d
      (w :: ws, d)

def Device.writes (D : Device δ) (port : BitVec 16) (ws : List (BitVec 16)) (d : δ) : δ :=
  ws.foldl (fun d w => D.write16 port w d) d

/-! ## Instructions -/

inductive Instr where
  | mov64 (dst src : Reg)
  | mov16 (dst src : Reg)
  | mov8 (dst src : Reg)
  /-- `movzx` to 32 bits, which clears the upper half. -/
  | movzx8 (dst src : Reg)
  | movzx16 (dst src : Reg)
  | push (src : Reg)
  | pop (dst : Reg)
  /-- `out dx, al` and the like. -/
  | out8
  | out16
  | in8
  | in16
  | cld
  | repInsw
  | repOutsw
  | ret
deriving DecidableEq, Repr

/-- What a string instruction adds to its pointers. -/
def State.stride (s : State δ) : BitVec 64 := if s.df then -2 else 2

def Device.insWord (D : Device δ) (s : State δ) : State δ :=
  let r := D.read16 (low16 (s.regs .rdx)) s.dev
  let a := s.regs .rdi
  let n := s.regs .rcx
  ({ s with ram := store16 s.ram a.toNat r.1, dev := r.2 }.set .rdi (a + s.stride)).set .rcx (n - 1)

def Device.outsWord (D : Device δ) (s : State δ) : State δ :=
  let a := s.regs .rsi
  let n := s.regs .rcx
  ({ s with dev := D.write16 (low16 (s.regs .rdx)) (load16 s.ram a.toNat) s.dev }.set .rsi
    (a + s.stride)).set .rcx (n - 1)

def Device.exec (D : Device δ) (s : State δ) : Instr → State δ
  | .mov64 dst src => s.set dst (s.regs src)
  | .mov16 dst src => s.set dst (setLow16 (s.regs dst) (low16 (s.regs src)))
  | .mov8 dst src => s.set dst (setLow8 (s.regs dst) (low8 (s.regs src)))
  | .movzx8 dst src => s.set dst ((low8 (s.regs src)).setWidth 64)
  | .movzx16 dst src => s.set dst ((low16 (s.regs src)).setWidth 64)
  | .push src =>
      let sp := s.regs .rsp - 8
      { s with ram := s.ram.store64 sp.toNat (s.regs src) }.set .rsp sp
  | .pop dst =>
      let sp := s.regs .rsp
      (s.set .rsp (sp + 8)).set dst (s.ram.load64 sp.toNat)
  | .out8 => { s with dev := D.write8 (low16 (s.regs .rdx)) (low8 (s.regs .rax)) s.dev }
  | .out16 => { s with dev := D.write16 (low16 (s.regs .rdx)) (low16 (s.regs .rax)) s.dev }
  | .in8 =>
      let r := D.read8 (low16 (s.regs .rdx)) s.dev
      { s with dev := r.2 }.set .rax (setLow8 (s.regs .rax) r.1)
  | .in16 =>
      let r := D.read16 (low16 (s.regs .rdx)) s.dev
      { s with dev := r.2 }.set .rax (setLow16 (s.regs .rax) r.1)
  | .cld => { s with df := false }
  | .repInsw => (D.insWord)^[(s.regs .rcx).toNat] s
  | .repOutsw => (D.outsWord)^[(s.regs .rcx).toNat] s
  | .ret => { s with rip := s.ram.load64 (s.regs .rsp).toNat }.set .rsp (s.regs .rsp + 8)

def Device.run (D : Device δ) (p : List Instr) (s : State δ) : State δ := p.foldl D.exec s

/-! ## Repeated string instructions -/

section
variable {D : Device δ} {w : BitVec 16} {ws : List (BitVec 16)}

theorem wordBytes_cons (w : BitVec 16) (ws : List (BitVec 16)) (i : Nat) :
    wordBytes (w :: ws) (2 + i) = wordBytes ws i := by
  rw [wordBytes, wordBytes, Nat.add_div_left i (by omega), Nat.add_mod_left, List.getD_cons_succ]

theorem wordBytes_head (ws : List (BitVec 16)) {i : Nat} (hi : i < 2) :
    w.extractLsb' (8 * i) 8 = wordBytes (w :: ws) i := by
  rw [wordBytes, Nat.div_eq_of_lt hi, Nat.mod_eq_of_lt hi, List.getD_cons_zero]

/-- The two bytes of a word. -/
theorem extract_word (f : Nat → BitVec 8) {i : Nat} (hi : i < 2) : (f 1 ++ f 0).extractLsb' (8 * i) 8 = f i := by
  obtain rfl | rfl : i = 0 ∨ i = 1 := by omega
  · exact BitVec.extractLsb'_append_eq_right
  · exact BitVec.extractLsb'_append_eq_left

theorem store16_words (m : Memory) (a n : Nat) (w : BitVec 16) (ws : List (BitVec 16)) :
    (store16 m a w).storeBytes (a + 2) n (wordBytes ws) = m.storeBytes a (2 + n) (wordBytes (w :: ws)) := by
  rw [← Memory.storeBytes_append, store16, Memory.storeBytes_congr m a 2 _ fun i hi => wordBytes_head ws hi]
  exact Memory.storeBytes_congr _ _ _ _ fun i _ => (wordBytes_cons w ws i).symm

theorem loadWords_succ (m : Memory) (a n : Nat) :
    loadWords m a (n + 1) = load16 m a :: loadWords m (a + 2) n := by
  rw [loadWords, List.range_succ_eq_map, List.map_cons, List.map_map]
  refine congrArg (List.cons _) (List.map_congr_left fun i _ => ?_)
  simp only [Function.comp_apply]
  exact congrArg (load16 m) (by omega)

/-- Upwards, the words that the device gives are stored behind one another. -/
theorem insWord_iterate (n : Nat) {s : State δ} (hdf : s.df = false)
    (hfit : (s.regs .rdi).toNat + 2 * n < 2 ^ 64) :
    (D.insWord)^[n] s =
      ({ s with
        ram := s.ram.storeBytes (s.regs .rdi).toNat (2 * n)
          (wordBytes (D.reads (low16 (s.regs .rdx)) n s.dev).1)
        dev := (D.reads (low16 (s.regs .rdx)) n s.dev).2 }.set .rdi
          (s.regs .rdi + BitVec.ofNat 64 (2 * n))).set .rcx (s.regs .rcx - BitVec.ofNat 64 n) := by
  induction n generalizing s with
  | zero =>
      simp [State.set, Device.reads, Memory.storeBytes_zero]
  | succ n ih =>
      have hnext : (s.regs .rdi + 2).toNat = (s.regs .rdi).toNat + 2 := by bv_omega
      have hstep : D.insWord s =
          ({ s with
            ram := store16 s.ram (s.regs .rdi).toNat (D.read16 (low16 (s.regs .rdx)) s.dev).1
            dev := (D.read16 (low16 (s.regs .rdx)) s.dev).2 }.set .rdi (s.regs .rdi + 2)).set .rcx
              (s.regs .rcx - 1) := by
        simp only [Device.insWord, State.stride, hdf, Bool.false_eq_true, ↓reduceIte]
      rw [Function.iterate_succ_apply, hstep, ih (by simp [hdf]) (by simp; omega)]
      refine State.ext (funext fun r => ?_) rfl rfl ?_ ?_
      · simp only [State.set_regs, reduceCtorEq, ↓reduceIte]
        by_cases hcx : r = .rcx
        · simp only [hcx, ↓reduceIte]
          bv_omega
        · by_cases hdi : r = .rdi
          · simp only [hdi, ↓reduceIte, reduceCtorEq]
            bv_omega
          · simp only [hcx, hdi, ↓reduceIte]
      · simp only [State.set_ram, State.set_regs, reduceCtorEq, ↓reduceIte, hnext, State.set_dev,
          store16_words, Device.reads]
        rw [Nat.mul_add, Nat.add_comm (2 * n)]
      · simp only [State.set_dev, State.set_regs, reduceCtorEq, ↓reduceIte, Device.reads]

/-- Upwards, the words in the memory are given to the device in turn. -/
theorem outsWord_iterate (n : Nat) {s : State δ} (hdf : s.df = false)
    (hfit : (s.regs .rsi).toNat + 2 * n < 2 ^ 64) :
    (D.outsWord)^[n] s =
      ({ s with dev := D.writes (low16 (s.regs .rdx)) (loadWords s.ram (s.regs .rsi).toNat n) s.dev }.set .rsi
        (s.regs .rsi + BitVec.ofNat 64 (2 * n))).set .rcx (s.regs .rcx - BitVec.ofNat 64 n) := by
  induction n generalizing s with
  | zero =>
      simp [State.set, Device.writes, loadWords]
  | succ n ih =>
      have hnext : (s.regs .rsi + 2).toNat = (s.regs .rsi).toNat + 2 := by bv_omega
      have hstep : D.outsWord s =
          ({ s with dev := D.write16 (low16 (s.regs .rdx)) (load16 s.ram (s.regs .rsi).toNat) s.dev }.set .rsi
            (s.regs .rsi + 2)).set .rcx (s.regs .rcx - 1) := by
        simp only [Device.outsWord, State.stride, hdf, Bool.false_eq_true, ↓reduceIte]
      rw [Function.iterate_succ_apply, hstep, ih (by simp [hdf]) (by simp; omega)]
      refine State.ext (funext fun r => ?_) rfl rfl rfl ?_
      · simp only [State.set_regs, reduceCtorEq, ↓reduceIte]
        by_cases hcx : r = .rcx
        · simp only [hcx, ↓reduceIte]
          bv_omega
        · by_cases hsi : r = .rsi
          · simp only [hsi, ↓reduceIte, reduceCtorEq]
            bv_omega
          · simp only [hcx, hsi, ↓reduceIte]
      · simp only [State.set_dev, State.set_ram, State.set_regs, reduceCtorEq, ↓reduceIte, hnext,
          loadWords_succ, Device.writes, List.foldl_cons]

end

/-! ## Saving registers -/

/-- Code between saving registers and restoring them. -/
def saving : List Reg → List Instr → List Instr
  | [], p => p
  | r :: rs, p => .push r :: saving rs p ++ [.pop r]

/-- With `n` bytes saved, only the stack pointer and these bytes differ. -/
structure State.Pushed (n : Nat) (s u : State δ) : Prop where
  rsp : (u.regs .rsp).toNat + n = (s.regs .rsp).toNat
  regs : ∀ r, r ≠ .rsp → u.regs r = s.regs r
  ram : ∀ a, a < (u.regs .rsp).toNat ∨ (s.regs .rsp).toNat ≤ a → u.ram a = s.ram a
  df : u.df = s.df
  rip : u.rip = s.rip
  dev : u.dev = s.dev

/-- A state with the stack pointer and some registers of another. -/
def State.restore (t s : State δ) (rs : List Reg) : State δ :=
  { t with regs := fun r => if r = .rsp ∨ r ∈ rs then s.regs r else t.regs r }

section
variable {D : Device δ} {p : List Instr} {s t u v : State δ} {rs : List Reg} {r : Reg} {m n : Nat}

theorem State.restore_same (h : r = .rsp ∨ r ∈ rs) : (t.restore s rs).regs r = s.regs r := if_pos h

theorem State.restore_other (h : ¬ (r = .rsp ∨ r ∈ rs)) : (t.restore s rs).regs r = t.regs r := if_neg h

@[simp] theorem State.restore_ram : (t.restore s rs).ram = t.ram := rfl
@[simp] theorem State.restore_dev : (t.restore s rs).dev = t.dev := rfl

theorem Device.run_cons (i : Instr) (p : List Instr) (s : State δ) : D.run (i :: p) s = D.run p (D.exec s i) := rfl

theorem Device.run_append (p p' : List Instr) (s : State δ) : D.run (p ++ p') s = D.run p' (D.run p s) :=
  List.foldl_append

theorem State.Pushed.refl (s : State δ) : s.Pushed 0 s := ⟨rfl, fun _ _ => rfl, fun _ _ => rfl, rfl, rfl, rfl⟩

theorem State.Pushed.trans (h : s.Pushed m u) (h' : u.Pushed n v) : s.Pushed (n + m) v where
  rsp := by
    have := h.rsp
    have := h'.rsp
    omega
  regs r hr := (h'.regs r hr).trans (h.regs r hr)
  ram a ha := by
    have := h.rsp
    have := h'.rsp
    exact (h'.ram a (by omega)).trans (h.ram a (by omega))
  df := h'.df.trans h.df
  rip := h'.rip.trans h.rip
  dev := h'.dev.trans h.dev

theorem Device.exec_push (D : Device δ) (r : Reg) (hroom : 8 ≤ (s.regs .rsp).toNat) :
    s.Pushed 8 (D.exec s (.push r)) := by
  have hsp : (s.regs .rsp - 8).toNat + 8 = (s.regs .rsp).toNat := by bv_omega
  refine ⟨?_, fun q hq => ?_, fun a ha => ?_, rfl, rfl, rfl⟩
  · simpa only [Device.exec, State.set_regs, ↓reduceIte] using hsp
  · simp only [Device.exec, State.set_regs, if_neg hq]
  · simp only [Device.exec, State.set_regs, ↓reduceIte, State.set_ram, Memory.store64] at ha ⊢
    exact if_neg (by omega)

theorem Device.exec_pop (D : Device δ) (s : State δ) (r q : Reg) :
    (D.exec s (.pop r)).regs q =
      if q = r then s.ram.load64 (s.regs .rsp).toNat else if q = .rsp then s.regs .rsp + 8 else s.regs q := by
  simp only [Device.exec, State.set_regs]

theorem Device.ret_rip (D : Device δ) (s : State δ) : (D.run [.ret] s).rip = s.ram.load64 (s.regs .rsp).toNat := rfl

theorem Device.ret_regs (D : Device δ) (s : State δ) (hr : r ≠ .rsp) : (D.run [.ret] s).regs r = s.regs r :=
  (State.set_regs _ _ _ _).trans (if_neg hr)

theorem Device.ret_rsp (D : Device δ) (s : State δ) : (D.run [.ret] s).regs .rsp = s.regs .rsp + 8 :=
  (State.set_regs _ _ _ _).trans (if_pos rfl)

/-- What code does that leaves the stack pointer and the saved registers alone, when it is run between saving
and restoring. -/
theorem Device.run_saving (D : Device δ) (p : List Instr) (rs : List Reg) (s : State δ) (hrs : .rsp ∉ rs)
    (hroom : 8 * rs.length ≤ (s.regs .rsp).toNat) :
    ∃ u, s.Pushed (8 * rs.length) u ∧
      ((D.run p u).regs .rsp = u.regs .rsp →
        (∀ a, (u.regs .rsp).toNat ≤ a → a < (s.regs .rsp).toNat → (D.run p u).ram a = u.ram a) →
        D.run (saving rs p) s = (D.run p u).restore s rs) := by
  induction rs generalizing s with
  | nil =>
      refine ⟨s, .refl s, fun hsp _ => State.ext (funext fun r => ?_) rfl rfl rfl rfl⟩
      by_cases hr : r = .rsp
      · rw [State.restore_same (.inl hr), hr]
        exact hsp
      · rw [State.restore_other (by simp [hr])]
        rfl
  | cons r rs ih =>
      obtain ⟨hr, hrs⟩ := not_or.mp fun h => hrs (List.mem_cons.mpr h)
      have hroom : 8 * rs.length + 8 ≤ (s.regs .rsp).toNat := hroom
      have hpush := D.exec_push r (s := s) (by omega)
      have hat : (D.exec s (.push r)).regs .rsp = s.regs .rsp - 8 := by
        simp only [Device.exec, State.set_regs, ↓reduceIte]
      have hsp := hpush.rsp
      obtain ⟨u, hu, hrun⟩ := ih (D.exec s (.push r)) hrs (by omega)
      refine ⟨u, hpush.trans hu, fun hkept hsaved => ?_⟩
      have hbody := hrun hkept fun a ha ha' => hsaved a ha (by omega)
      have husp := hu.rsp
      have hvalue : (D.run p u).ram.load64 ((D.exec s (.push r)).regs .rsp).toNat = s.regs r := by
        refine Eq.trans ?_ (Memory.load64_store64_same s.ram (s.regs .rsp - 8).toNat (s.regs r))
        rw [hat] at hsp husp ⊢
        exact Memory.load64_congr fun a ha ha' =>
          (hsaved a (by omega) (by omega)).trans (hu.ram a (.inr (by rw [hat]; exact ha)))
      rw [saving, List.cons_append, Device.run_cons, Device.run_append, hbody]
      have hbefore : ((D.run p u).restore (D.exec s (.push r)) rs).regs .rsp = (D.exec s (.push r)).regs .rsp :=
        State.restore_same (.inl rfl)
      refine State.ext (funext fun q => ?_) rfl rfl rfl rfl
      refine (D.exec_pop _ r q).trans ?_
      rw [hbefore, State.restore_ram, hvalue]
      by_cases hq : q = r
      · rw [if_pos hq, State.restore_same (.inr (by simp [hq])), hq]
      · rw [if_neg hq]
        by_cases hqsp : q = .rsp
        · rw [if_pos hqsp, State.restore_same (.inl hqsp), hat, hqsp, BitVec.sub_add_cancel]
        · rw [if_neg hqsp]
          by_cases hmem : q ∈ rs
          · rw [State.restore_same (.inr hmem), State.restore_same (.inr (by simp [hmem])), hpush.regs q hqsp]
          · rw [State.restore_other (by simp [hqsp, hmem]), State.restore_other (by simp [hqsp, hq, hmem])]

end

end X86
