import BootKernel.Lib.Loop
import BootKernel.Lib.X86
import Mathlib.Data.List.GetD

/-!
# A screen of text in memory

A screen is a run of 16-bit cells, row after row. What is drawn on it is described line by line, and a number that
is drawn in hexadecimal digits is read back from its cells.
-/

namespace TextScreen

open X86

def hexDigits : List Char := ['0', '1', '2', '3', '4', '5', '6', '7', '8', '9', 'A', 'B', 'C', 'D', 'E', 'F']

/-- Where the cells are, and the cell for each character. No two digits look the same. -/
structure Screen where
  base : Nat
  width : Nat
  height : Nat
  glyph : Char → BitVec 16
  digits : ∀ c ∈ hexDigits, ∀ c' ∈ hexDigits, glyph c = glyph c' → c = c'

/-- The digit with the weight 16 to the power of `15 - k`. -/
def nibble (v : BitVec 64) (k : Nat) : Nat := ((v >>> (60 - 4 * k)) &&& 0xF).toNat

def hexChar (d : Nat) : Char := hexDigits.getD d ' '

def hexText (v : BitVec 64) : List Char := '0' :: 'x' :: (List.range 16).map fun k => hexChar (nibble v k)

namespace Screen

variable (S : Screen)

def put (i : Nat) (c : Char) (m : Memory) : Memory := store16 m (S.base + 2 * i) (S.glyph c)

def cellAt (m : Memory) (i : Nat) : BitVec 16 := load16 m (S.base + 2 * i)

/-- The address is not of a cell. -/
def Off (x : Nat) : Prop := x < S.base ∨ S.base + 2 * (S.width * S.height) ≤ x

/-- The cells show the lines, which are blank after their last character, as is everything after the last line. -/
def Shows (m : Memory) (lines : List (List Char)) : Prop :=
  ∀ i < S.width * S.height, S.cellAt m i = S.glyph ((lines.getD (i / S.width) []).getD (i % S.width) ' ')

/-! ## Cells -/

section
variable {S} {m : Memory} {i j n : Nat} {c : Char} {f : Nat → Char} {x : Nat}

theorem cellAt_put_same : S.cellAt (S.put i c m) i = S.glyph c := load16_store16

theorem put_outside (hx : x < S.base + 2 * i ∨ S.base + 2 * i + 2 ≤ x) : S.put i c m x = m x := store16_outside hx

theorem cellAt_put_ne (h : j ≠ i) : S.cellAt (S.put i c m) j = S.cellAt m j :=
  load16_store16_of_disjoint (by omega)

/-- The characters of `f` in the `n` cells from `i`. -/
def drawRun (S : Screen) (i n : Nat) (f : Nat → Char) : Memory → Memory :=
  Loop.forRange 0 n fun k => S.put (i + k) (f k)

theorem drawRun_succ : S.drawRun i (n + 1) f m = S.put (i + n) (f n) (S.drawRun i n f m) :=
  Loop.forRange_succ (Nat.zero_le n) _ m

theorem drawRun_cons :
    S.drawRun i (n + 1) f m = S.drawRun (i + 1) n (fun k => f (k + 1)) (S.put i (f 0) m) := by
  induction n with
  | zero => rfl
  | succ n ih =>
      rw [drawRun_succ, ih, drawRun_succ]
      exact congrArg (S.put · (f (n + 1)) _) (by omega)

theorem cellAt_drawRun :
    S.cellAt (S.drawRun i n f m) j = if i ≤ j ∧ j < i + n then S.glyph (f (j - i)) else S.cellAt m j := by
  induction n with
  | zero =>
      rw [if_neg (by omega)]
      rfl
  | succ n ih =>
      rw [drawRun_succ]
      by_cases hlast : j = i + n
      · subst hlast
        rw [cellAt_put_same, if_pos (by omega), Nat.add_sub_cancel_left]
      · rw [cellAt_put_ne hlast, ih]
        by_cases hin : i ≤ j ∧ j < i + n
        · rw [if_pos hin, if_pos (by omega)]
        · rw [if_neg hin, if_neg (by omega)]

theorem drawRun_off (hn : i + n ≤ S.width * S.height) (hx : S.Off x) : S.drawRun i n f m x = m x := by
  unfold Off at hx
  induction n with
  | zero => rfl
  | succ n ih =>
      rw [drawRun_succ, put_outside (by omega)]
      exact ih (by omega)

end

/-! ## Lines -/

section
variable {S} {m : Memory} {lines : List (List Char)} {row n : Nat} {text : List Char} {f : Nat → Char}

theorem getD_blank (k i : Nat) : (List.replicate k ([] : List Char)).getD i [] = [] := by
  by_cases h : i < k
  · exact List.getD_replicate _ h
  · exact List.getD_eq_default _ _ (by simpa using h)

theorem shows_clear : S.Shows (S.drawRun 0 (S.width * S.height) (fun _ => ' ') m) (List.replicate S.height []) := by
  intro i hi
  rw [cellAt_drawRun, if_pos (by omega), getD_blank, List.getD_nil]

/-- Drawing a line on a blank row of a screen. -/
theorem Shows.drawLine (h : S.Shows m lines) (hrow : row < lines.length) (hblank : lines.getD row [] = [])
    (hn : text.length ≤ S.width) (hf : ∀ k < text.length, f k = text.getD k ' ') :
    S.Shows (S.drawRun (row * S.width) text.length f m) (lines.set row text) := by
  intro i hi
  have hwidth : 0 < S.width := Nat.pos_of_mul_pos_right (Nat.zero_lt_of_lt hi)
  have hdiv := Nat.div_add_mod i S.width
  have hmod := Nat.mod_lt i hwidth
  rw [Nat.mul_comm] at hdiv
  rw [cellAt_drawRun]
  by_cases hr : i / S.width = row
  · rw [hr] at hdiv ⊢
    rw [List.getD_eq_getElem?_getD (l := lines.set row text), List.getElem?_set_self hrow, Option.getD_some]
    by_cases hk : i % S.width < text.length
    · rw [if_pos (by omega), ← hf _ hk]
      exact congrArg (fun k => S.glyph (f k)) (by omega)
    · rw [if_neg (by omega), h i hi, hr, hblank, List.getD_nil, List.getD_eq_default _ _ (by omega)]
  · have hout : ¬ (row * S.width ≤ i ∧ i < row * S.width + text.length) := by
      rintro ⟨hlo, hhi⟩
      refine hr (Nat.div_eq_of_lt_le hlo ?_)
      rw [Nat.succ_mul]
      omega
    rw [if_neg hout, h i hi, List.getD_eq_getElem?_getD (l := lines.set row text),
      List.getElem?_set_ne (Ne.symm hr), ← List.getD_eq_getElem?_getD]

/-- Blank lines at the end can be left out. -/
theorem Shows.dropBlank {k : Nat} (h : S.Shows m (lines ++ List.replicate k [])) : S.Shows m lines := by
  intro i hi
  rw [h i hi]
  by_cases hr : i / S.width < lines.length
  · rw [List.getD_append _ _ _ _ hr]
  · rw [List.getD_append_right _ _ _ _ (by omega), List.getD_eq_default lines _ (by omega), getD_blank]

end

/-! ## Numbers -/

/-- The digit that a cell shows. -/
def digitOf (w : BitVec 16) : Option Nat := (List.range 16).find? fun d => w == S.glyph (hexChar d)

/-- The number that the `n` cells from `i` show. -/
def readDigits (m : Memory) (i : Nat) : Nat → Option (BitVec 64)
  | 0 => some 0
  | n + 1 => do
      let v ← readDigits m i n
      let d ← S.digitOf (S.cellAt m (i + n))
      return (v <<< 4) ||| BitVec.ofNat 64 d

/-- The number in a row. -/
def readHex (m : Memory) (row : Nat) : Option (BitVec 64) :=
  let i := row * S.width
  if S.cellAt m i = S.glyph '0' ∧ S.cellAt m (i + 1) = S.glyph 'x' then S.readDigits m (i + 2) 16 else none

section
variable {S} {m : Memory} {i n row : Nat} {v : BitVec 64}

theorem nibble_lt (v : BitVec 64) (k : Nat) : nibble v k < 16 := by
  have h : ((v >>> (60 - 4 * k)) &&& 0xF).toNat ≤ 15 := by
    rw [BitVec.toNat_and]
    exact Nat.and_le_right
  exact Nat.lt_succ_of_le h

theorem digitOf_glyph {d : Nat} (hd : d < 16) : S.digitOf (S.glyph (hexChar d)) = some d := by
  have hmem : ∀ d < 16, hexChar d ∈ hexDigits := by decide
  have hinj : ∀ d < 16, ∀ d' < 16, hexChar d = hexChar d' → d = d' := by decide
  rw [digitOf, List.find?_eq_some_iff_getElem]
  refine ⟨by simp, d, by simpa using hd, by simp, fun j hj => ?_⟩
  have hj16 : j < 16 := by omega
  have hne : S.glyph (hexChar d) ≠ S.glyph (hexChar j) := fun h =>
    absurd (hinj d hd j hj16 (S.digits _ (hmem d hd) _ (hmem j hj16) h)) (by omega)
  simpa using hne

/-- A digit is shifted in from the right. -/
theorem shift_nibble (v : BitVec 64) {k : Nat} (hk : k < 16) :
    ((v >>> (64 - 4 * k)) <<< 4) ||| BitVec.ofNat 64 (nibble v k) = v >>> (60 - 4 * k) := by
  have hmask : ∀ i < 64, (0xF : BitVec 64).getLsbD i = decide (i < 4) := by decide
  apply BitVec.eq_of_getLsbD_eq
  intro i hi
  rw [nibble, BitVec.ofNat_toNat, BitVec.setWidth_eq]
  simp only [BitVec.getLsbD_or, BitVec.getLsbD_shiftLeft, BitVec.getLsbD_ushiftRight, BitVec.getLsbD_and, hmask i hi]
  by_cases hlow : i < 4
  · simp [hlow]
  · have hsum : 64 - 4 * k + (i - 4) = 60 - 4 * k + i := by omega
    simp [hlow, hi, hsum]

theorem readDigits_eq (h : ∀ k < 16, S.cellAt m (i + k) = S.glyph (hexChar (nibble v k))) (hn : n ≤ 16) :
    S.readDigits m i n = some (v >>> (64 - 4 * n)) := by
  induction n with
  | zero => exact congrArg some (BitVec.ushiftRight_eq_zero (by omega)).symm
  | succ n ih =>
      rw [readDigits, ih (by omega), h n (by omega), Option.bind_eq_bind, Option.bind_some, Option.bind_eq_bind,
        digitOf_glyph (nibble_lt v n), Option.bind_some, shift_nibble v (by omega)]
      exact congrArg (fun k => some (v >>> k)) (by omega)

/-- A number on the screen is read back. -/
theorem Shows.readHex {lines : List (List Char)} (h : S.Shows m lines) (hrow : row < S.height) (hwidth : 18 ≤ S.width)
    (hline : lines.getD row [] = hexText v) : S.readHex m row = some v := by
  have hcell : ∀ k < 18, S.cellAt m (row * S.width + k) = S.glyph ((hexText v).getD k ' ') := by
    intro k hk
    have hlt : row * S.width + k < S.width * S.height := by
      calc row * S.width + k < row * S.width + S.width := by omega
        _ = (row + 1) * S.width := (Nat.succ_mul _ _).symm
        _ ≤ S.height * S.width := Nat.mul_le_mul_right _ hrow
        _ = S.width * S.height := Nat.mul_comm _ _
    have hdiv : (row * S.width + k) / S.width = row := by
      rw [Nat.mul_comm, Nat.mul_add_div (by omega), Nat.div_eq_of_lt (by omega), Nat.add_zero]
    have hmod : (row * S.width + k) % S.width = k := by
      rw [Nat.mul_comm, Nat.mul_add_mod, Nat.mod_eq_of_lt (by omega)]
    rw [h _ hlt, hdiv, hmod, hline]
  have hdigit : ∀ k < 16, S.cellAt m (row * S.width + 2 + k) = S.glyph (hexChar (nibble v k)) := by
    intro k hk
    rw [Nat.add_assoc, hcell (2 + k) (by omega), Nat.add_comm 2 k]
    simp [hexText, hk]
  rw [Screen.readHex, if_pos ⟨hcell 0 (by omega), hcell 1 (by omega)⟩, readDigits_eq hdigit (Nat.le_refl _)]
  simp

end

end Screen

end TextScreen
