import BootKernel.Vmm.Defs
import BootKernel.Lib.Radix

/-!
# The hardware walk

The x86-64 walk of four levels, as a lookup in a radix tree: the nodes are physical frames, read as
tables of 512 entries, and depth 0 is the PML4. A present entry with the PS bit ends the walk above
the last level: in a PDPT with a page of 1 GiB and in a page directory with one of 2 MiB. In the PML4
the bit is reserved, and nothing is translated.
-/

namespace BootKernel

/-- The frame that an entry points to. -/
def entryFrame (e : BitVec 64) : Nat := (e &&& pageAddrMask).toNat / 4096

/-- How the processor reads an entry at a given depth. -/
def entrySlot (depth : Nat) (e : BitVec 64) : Radix.Slot Nat (BitVec 64) :=
  if e &&& pagePresent = 0 then .empty
  else if 3 ≤ depth ∨ e &&& psBit ≠ 0 then .leaf e
  else .node (entryFrame e)

/-- Entry `i` of the table in the frame `f`. -/
def tableEntry (mem : Memory) (f : Nat) (i : Fin 512) : BitVec 64 := mem.load64 (f * 4096 + 8 * i)

def slots (mem : Memory) : Radix.Heap Nat (Fin 512) (BitVec 64) :=
  fun depth f i => entrySlot depth (tableEntry mem f i)

/-- The nine bits of an address from bit `shift` on. -/
def vaIndex (va : BitVec 64) (shift : Nat) : Fin 512 :=
  ⟨va.toNat / 2 ^ shift % 512, Nat.mod_lt _ (by omega)⟩

/-- The indexes of an address in the tables of the four levels. -/
def vaPath (va : BitVec 64) : List (Fin 512) := levelsShift.map (vaIndex va)

/-- The entry in which the walk of an address ends, with its depth. -/
def walk (mem : Memory) (root : Nat) (va : BitVec 64) : Option (Nat × BitVec 64) :=
  Radix.lookup (slots mem) 0 root (vaPath va)

/-- The physical address that the walk from a value of CR3 gives. -/
def translate (mem : Memory) (cr3 va : BitVec 64) : Option (BitVec 64) :=
  match walk mem (entryFrame cr3) va with
  | some (3, e) => some ((e &&& pageAddrMask) ||| (va &&& 0xFFF))
  | some (2, e) => some ((e &&& 0x000FFFFFFFE00000) ||| (va &&& 0x1FFFFF))
  | some (1, e) => some ((e &&& 0x000FFFFFC0000000) ||| (va &&& 0x3FFFFFFF))
  | _ => none

/-- Bits 47 to 63 of the address are equal. -/
def Canonical (va : BitVec 64) : Prop := va.toNat < 2 ^ 47 ∨ 2 ^ 64 - 2 ^ 47 ≤ va.toNat

/-! ## Indexes and paths -/

variable {va vb : BitVec 64} {shift : Nat}

/-- The index that the code computes is the index of the walk. -/
theorem index_toNat (va : BitVec 64) (shift : Nat) :
    ((va >>> shift) &&& 0x1FF).toNat = (vaIndex va shift : Nat) := by
  rw [BitVec.toNat_and, BitVec.toNat_ushiftRight, Nat.shiftRight_eq_div_pow]
  exact Nat.and_two_pow_sub_one_eq_mod _ 9

theorem vaPath_eq (va : BitVec 64) :
    vaPath va = [vaIndex va 39, vaIndex va 30, vaIndex va 21, vaIndex va 12] := rfl

theorem vaIndex_inj : vaIndex va shift = vaIndex vb shift ↔
    va.toNat / 2 ^ shift % 512 = vb.toNat / 2 ^ shift % 512 := by
  simp [vaIndex]

/-- Two addresses have one path if and only if they agree in bits 12 to 47. -/
theorem vaPath_inj : vaPath va = vaPath vb ↔ va.toNat / 2 ^ 12 % 2 ^ 36 = vb.toNat / 2 ^ 12 % 2 ^ 36 := by
  simp only [vaPath_eq, List.cons.injEq, and_true, vaIndex_inj]
  omega

/-- Two addresses share a PDPT slot if and only if they agree in bits 30 to 47. -/
theorem pdptPath_prefix_iff : [vaIndex va 39, vaIndex va 30] <+: vaPath vb ↔
    vb.toNat / 2 ^ 30 % 2 ^ 18 = va.toNat / 2 ^ 30 % 2 ^ 18 := by
  simp only [vaPath_eq, List.cons_prefix_cons, List.nil_prefix, and_true, vaIndex_inj]
  omega

theorem vaPath_prefix_iff : vaPath va <+: vaPath vb ↔ vaPath vb = vaPath va := by
  constructor
  · intro h
    exact (h.eq_of_length rfl).symm
  · intro h
    rw [h]

/-! ## Entries -/

variable {e : BitVec 64} {depth : Nat}

theorem entryFrame_lt (e : BitVec 64) : entryFrame e < 2 ^ 40 := by
  have hle : (e &&& pageAddrMask).toNat ≤ pageAddrMask.toNat := by
    rw [BitVec.toNat_and]
    exact Nat.and_le_right
  have hmask : pageAddrMask.toNat < 2 ^ 52 := by decide
  rw [entryFrame]
  omega

theorem and_pageAddrMask_toNat (e : BitVec 64) :
    (e &&& pageAddrMask).toNat = entryFrame e * 4096 := by
  have hshift : e &&& pageAddrMask = ((e &&& pageAddrMask) >>> 12) <<< 12 := by
    apply BitVec.eq_of_getLsbD_eq
    intro i hi
    have hlow : ∀ i < 12, pageAddrMask.getLsbD i = false := by decide
    by_cases h : i < 12
    · simp [h, hlow i h]
    · simp [h, hi, show 12 + (i - 12) = i by omega]
  have hlt := (e &&& pageAddrMask).isLt
  rw [entryFrame]
  have hnat := congrArg BitVec.toNat hshift
  rw [BitVec.toNat_shiftLeft, BitVec.toNat_ushiftRight, Nat.shiftLeft_eq,
    Nat.shiftRight_eq_div_pow] at hnat
  omega

theorem entrySlot_empty (h : e &&& pagePresent = 0) : entrySlot depth e = .empty := if_pos h

theorem entrySlot_eq_node {f : Nat} : entrySlot depth e = .node f ↔
    e &&& pagePresent ≠ 0 ∧ depth < 3 ∧ e &&& psBit = 0 ∧ entryFrame e = f := by
  simp only [entrySlot]
  split
  · rename_i hpres
    exact ⟨nofun, fun h => absurd hpres h.1⟩
  · rename_i hpres
    split
    · rename_i hleaf
      refine ⟨nofun, ?_⟩
      rintro ⟨_, hlt, hps, _⟩
      rcases hleaf with h | h
      · omega
      · exact absurd hps h
    · rename_i hnode
      simp only [not_or, Nat.not_le, ne_eq, not_not] at hnode
      simp only [Radix.Slot.node.injEq]
      exact ⟨fun h => ⟨hpres, hnode.1, hnode.2, h⟩, fun h => h.2.2.2⟩

theorem entrySlot_eq_leaf {l : BitVec 64} : entrySlot depth e = .leaf l ↔
    e &&& pagePresent ≠ 0 ∧ (3 ≤ depth ∨ e &&& psBit ≠ 0) ∧ e = l := by
  simp only [entrySlot]
  split
  · rename_i hpres
    exact ⟨nofun, fun h => absurd hpres h.1⟩
  · rename_i hpres
    split
    · rename_i hleaf
      simp only [Radix.Slot.leaf.injEq]
      exact ⟨fun h => ⟨hpres, hleaf, h⟩, fun h => h.2.2⟩
    · rename_i hnode
      exact ⟨nofun, fun h => absurd h.2.1 hnode⟩

theorem entrySlot_eq_empty : entrySlot depth e = .empty ↔ e &&& pagePresent = 0 := by
  refine ⟨fun h => ?_, entrySlot_empty⟩
  by_contra hpres
  rw [entrySlot, if_neg hpres] at h
  split at h <;> cases h

theorem and_twoPow_eq_zero {k : Nat} (hk : k < 64) :
    e &&& BitVec.twoPow 64 k = 0 ↔ e.getLsbD k = false := by
  rw [BitVec.and_twoPow]
  cases h : e.getLsbD k with
  | false => simp
  | true =>
      simp only [↓reduceIte, Bool.true_eq_false, iff_false]
      intro hzero
      have hbit := congrArg (fun x : BitVec 64 => x.getLsbD k) hzero
      simp [hk] at hbit

theorem present_eq_zero : e &&& pagePresent = 0 ↔ e.getLsbD 0 = false :=
  and_twoPow_eq_zero (by decide)

theorem ps_eq_zero : e &&& psBit = 0 ↔ e.getLsbD 7 = false :=
  and_twoPow_eq_zero (by decide)

end BootKernel
