import BootKernel.Vmm.Walk
import BootKernel.Pmm.Lemmas.Bitmap
import Mathlib.Logic.Relation

/-!
# Page tables as an unshared radix tree

The two things that the code does to a tree of tables: it links a fresh zeroed frame into an empty
slot, and it writes a slot that is not a link. Each is described once, with what it leaves alone, and
the walkers are sequences of such steps.
-/

namespace BootKernel

open Radix

/-! ## Tables in memory -/

/-- The memory after the frame has been cleared. -/
def zeroFrame (mem : Memory) (g : Nat) : Memory := fun x => if x / 4096 = g then 0 else mem x

section
variable {mem : Memory} {f g n : Nat} {i j : Fin 512} {v : BitVec 64}

theorem tableEntry_store64_same (mem : Memory) (n : Nat) (i : Fin 512) (v : BitVec 64) :
    tableEntry (mem.store64 (n * 4096 + 8 * i) v) n i = v :=
  Memory.load64_store64_same mem _ v

theorem tableEntry_store64_ne (h : ¬ (f = n ∧ j = i)) :
    tableEntry (mem.store64 (n * 4096 + 8 * i) v) f j = tableEntry mem f j := by
  apply Memory.load64_store64_of_disjoint
  have hi := i.isLt
  have hj := j.isLt
  have hne : f ≠ n ∨ (j : Nat) ≠ i := by
    by_cases hf : f = n
    · exact Or.inr fun hji => h ⟨hf, Fin.ext hji⟩
    · exact Or.inl hf
  omega

theorem tableEntry_zeroFrame_self (mem : Memory) (g : Nat) (i : Fin 512) :
    tableEntry (zeroFrame mem g) g i = 0 := by
  have hi := i.isLt
  apply Memory.load64_zero
  intro x hlo hhi
  exact if_pos (by omega)

theorem tableEntry_zeroFrame_ne (h : f ≠ g) : tableEntry (zeroFrame mem g) f i = tableEntry mem f i := by
  have hi := i.isLt
  apply Memory.load64_congr
  intro x hlo hhi
  exact if_neg (by omega)

theorem slots_store64_differsAt (mem : Memory) (n : Nat) (i : Fin 512) (v : BitVec 64) :
    DiffersAt (slots mem) (slots (mem.store64 (n * 4096 + 8 * i) v)) n i := by
  intro d f j h
  simp only [slots, tableEntry_store64_ne h]

theorem slots_store64_self (mem : Memory) (d n : Nat) (i : Fin 512) (v : BitVec 64) :
    slots (mem.store64 (n * 4096 + 8 * i) v) d n i = entrySlot d v := by
  simp only [slots, tableEntry_store64_same]

theorem store64_of_frame_ne {x : Nat} (h : x / 4096 ≠ n) :
    mem.store64 (n * 4096 + 8 * i) v x = mem x := by
  have hi := i.isLt
  exact if_neg (by omega)

end

/-! ## Link entries -/

/-- The entry that links a table: `new_frame | PAGE_PRESENT | PAGE_WRITABLE`. -/
def linkEntry (g : Nat) : BitVec 64 := frameAddr g ||| pagePresent ||| pageWritable

section
variable {g i : Nat}

theorem getLsbD_frameAddr_low (hi : i < 12) : (frameAddr g).getLsbD i = false := by
  have hshift : frameAddr g = BitVec.ofNat 64 g <<< 12 := by
    apply BitVec.eq_of_toNat_eq
    rw [frameAddr, BitVec.toNat_shiftLeft, BitVec.toNat_ofNat, BitVec.toNat_ofNat, Nat.shiftLeft_eq]
    omega
  rw [hshift]
  simp [hi]

theorem frameAddr_and_mask (hg : g < 2 ^ 40) : frameAddr g &&& pageAddrMask = frameAddr g := by
  apply BitVec.eq_of_getLsbD_eq
  intro i hi
  have hmask : ∀ i < 64, pageAddrMask.getLsbD i = decide (12 ≤ i ∧ i < 52) := by decide
  rw [BitVec.getLsbD_and, hmask i hi]
  by_cases hlow : i < 12
  · rw [getLsbD_frameAddr_low hlow, Bool.false_and]
  · by_cases hhigh : i < 52
    · simp [Nat.le_of_not_lt hlow, hhigh]
    · have hlt : (frameAddr g).toNat < 2 ^ i := by
        rw [frameAddr_toNat (by omega)]
        calc g * 4096 < 2 ^ 52 := by omega
          _ ≤ 2 ^ i := Nat.pow_le_pow_right (by omega) (by omega)
      have hzero : (frameAddr g).getLsbD i = false := Nat.testBit_lt_two_pow hlt
      rw [hzero, Bool.false_and]

theorem linkEntry_present (g : Nat) : linkEntry g &&& pagePresent ≠ 0 := by
  rw [ne_eq, present_eq_zero]
  simp [linkEntry, pagePresent]

theorem linkEntry_ps (g : Nat) : linkEntry g &&& psBit = 0 := by
  rw [ps_eq_zero, linkEntry, BitVec.getLsbD_or, BitVec.getLsbD_or,
    getLsbD_frameAddr_low (by omega)]
  decide

theorem linkEntry_and_mask (hg : g < 2 ^ 40) : linkEntry g &&& pageAddrMask = frameAddr g := by
  have hflags : (pagePresent ||| pageWritable) &&& pageAddrMask = 0 := by decide
  rw [linkEntry, BitVec.or_assoc, BitVec.and_or_distrib_right, hflags, frameAddr_and_mask hg]
  exact BitVec.or_zero

theorem entryFrame_linkEntry (hg : g < 2 ^ 40) : entryFrame (linkEntry g) = g := by
  rw [entryFrame, linkEntry_and_mask hg, frameAddr_toNat (by omega)]
  omega

theorem entrySlot_linkEntry {d : Nat} (hg : g < 2 ^ 40) (hd : d < 3) :
    entrySlot d (linkEntry g) = .node g :=
  entrySlot_eq_node.mpr ⟨linkEntry_present g, hd, linkEntry_ps g, entryFrame_linkEntry hg⟩

end

/-! ## Well-formed trees -/

/-- The tree of tables from a root frame: no table is shared, and every table is marked as used. -/
structure PageTree (c : Core) (root : Nat) : Prop where
  root_lt : root < 2 ^ 40
  unshared : Unshared (slots c.mem) root
  used : ∀ f, Reaches (slots c.mem) root f → c.pmm.used f = true

section
variable {c c' : Core} {root f n g : Nat} {i : Fin 512} {p q : List (Fin 512)} {v : BitVec 64}

theorem PageTree.reaches_lt (ht : PageTree c root) (hf : Reaches (slots c.mem) root f) :
    f < 2 ^ 40 := by
  obtain ⟨p, hp⟩ := hf
  rcases List.eq_nil_or_concat p with rfl | ⟨q, j, rfl⟩
  · cases hp
    exact ht.root_lt
  · obtain ⟨n, _, hs⟩ := descend_snoc.mp (by simpa using hp)
    rw [← (entrySlot_eq_node.mp hs).2.2.2]
    exact entryFrame_lt _

theorem PageTree.fresh (ht : PageTree c root) (hfree : c.pmm.used g = false) :
    ¬ Reaches (slots c.mem) root g := by
  intro hr
  rw [ht.used g hr] at hfree
  cases hfree

/-- Only what the tables hold and what is marked as used matters. -/
theorem PageTree.congr (ht : PageTree c root)
    (hmem : ∀ d f i, Reaches (slots c.mem) root f → slots c'.mem d f i = slots c.mem d f i)
    (hused : ∀ f, Reaches (slots c.mem) root f → c'.pmm.used f = true) : PageTree c' root where
  root_lt := ht.root_lt
  unshared := ht.unshared.congr fun p => (congr_reaches hmem p).1
  used := by
    rintro f ⟨p, hp⟩
    rw [(congr_reaches hmem p).1] at hp
    exact hused f ⟨p, hp⟩

theorem PageTree.of_zero (hroot : root < 2 ^ 40) (hused : c.pmm.used root = true)
    (hzero : ∀ i, tableEntry c.mem root i = 0) :
    PageTree c root ∧ (∀ q, q ≠ [] → descend (slots c.mem) 0 root q = none) ∧
      ∀ q, lookup (slots c.mem) 0 root q = none := by
  have hempty : ∀ i, slots c.mem 0 root i = .empty := by
    intro i
    rw [slots, hzero]
    exact entrySlot_empty (by decide)
  have hdesc : ∀ q, q ≠ [] → descend (slots c.mem) 0 root q = none := by
    intro q hq
    cases q with
    | nil => exact absurd rfl hq
    | cons i q => simp only [descend, hempty]
  refine ⟨⟨hroot, ?_, ?_⟩, hdesc, ?_⟩
  · intro q q' f hq hq'
    have hnil : ∀ q, descend (slots c.mem) 0 root q = some f → q = [] := by
      intro q hq
      by_contra hne
      rw [hdesc q hne] at hq
      cases hq
    rw [hnil q hq, hnil q' hq']
  · rintro f ⟨q, hq⟩
    by_cases hne : q = []
    · rw [hne] at hq
      cases hq
      exact hused
    · rw [hdesc q hne] at hq
      cases hq
  · intro q
    cases q with
    | nil => rfl
    | cons i q => simp only [lookup, hempty]

/-! ## Linking a fresh table -/

/-- The memory after the frame `g` has been cleared and linked into slot `i` of the table `n`. -/
def linkTable (mem : Memory) (n : Nat) (i : Fin 512) (g : Nat) : Memory :=
  (zeroFrame mem g).store64 (n * 4096 + 8 * i) (linkEntry g)

/-- A free frame is taken, cleared and linked into an empty slot above the last level. -/
inductive LinkStep (root : Nat) : Core → Core → Prop
  | mk {c : Core} {p n i g} (hp : descend (slots c.mem) 0 root p = some n) (hlen : p.length < 3)
      (hempty : slots c.mem p.length n i = .empty) (hfree : c.pmm.used g = false) (hg : g < 2 ^ 30) :
      LinkStep root c
        { mem := linkTable c.mem n i g, pmm := frameBitmapSet c.pmm (BitVec.ofNat 64 g) }

/-- What a link does to the tree: `p ++ [i]` becomes the path of `g`, and no lookup changes. -/
structure Linked (c : Core) (c' : Core) (root : Nat) (p : List (Fin 512)) (n : Nat) (i : Fin 512)
    (g : Nat) : Prop where
  tree : PageTree c' root
  descend : ∀ q f, descend (slots c'.mem) 0 root q = some f ↔
    descend (slots c.mem) 0 root q = some f ∨ q = p ++ [i] ∧ f = g
  lookup : ∀ q, lookup (slots c'.mem) 0 root q = lookup (slots c.mem) 0 root q

theorem Linked.nodePaths (h : Linked c c' root p n i g) :
    Radix.nodePaths (slots c'.mem) root = insert (p ++ [i]) (Radix.nodePaths (slots c.mem) root) := by
  ext q
  simp only [Radix.nodePaths, Set.mem_ofPred_eq, Set.mem_insert_iff, h.descend]
  constructor
  · rintro ⟨f, hold | ⟨rfl, rfl⟩⟩
    · exact Or.inr ⟨f, hold⟩
    · exact Or.inl rfl
  · rintro (rfl | ⟨f, hold⟩)
    · exact ⟨g, Or.inr ⟨rfl, rfl⟩⟩
    · exact ⟨f, Or.inl hold⟩

theorem PageTree.link (ht : PageTree c root) (hp : descend (slots c.mem) 0 root p = some n)
    (hlen : p.length < 3) (hempty : slots c.mem p.length n i = .empty)
    (hfree : c.pmm.used g = false) (hg : g < 2 ^ 30) :
    Linked c { mem := linkTable c.mem n i g, pmm := frameBitmapSet c.pmm (BitVec.ofNat 64 g) }
      root p n i g := by
  have hfresh := ht.fresh hfree
  have hng : n ≠ g := fun h => hfresh (h ▸ ⟨p, hp⟩)
  -- clearing the frame is not seen from the root
  have hzero : ∀ d f j, Reaches (slots c.mem) root f →
      slots (zeroFrame c.mem g) d f j = slots c.mem d f j := by
    intro d f j hf
    have hfg : f ≠ g := fun h => hfresh (h ▸ hf)
    simp only [slots, tableEntry_zeroFrame_ne hfg]
  have hu : Unshared (slots (zeroFrame c.mem g)) root :=
    ht.unshared.congr fun q => (congr_reaches hzero q).1
  have hp' : Radix.descend (slots (zeroFrame c.mem g)) 0 root p = some n := by
    rw [(congr_reaches hzero p).1, hp]
  have hold : slots (zeroFrame c.mem g) p.length n i = .empty := by
    rw [hzero _ _ _ ⟨p, hp⟩, hempty]
  -- the store is then a link of an empty node
  have hdiff : DiffersAt (slots (zeroFrame c.mem g)) (slots (linkTable c.mem n i g)) n i :=
    slots_store64_differsAt _ n i _
  have hnew : slots (linkTable c.mem n i g) p.length n i = .node g := by
    rw [linkTable, slots_store64_self, entrySlot_linkEntry (by omega) hlen]
  have hgempty : ∀ d j, slots (linkTable c.mem n i g) d g j = .empty := by
    intro d j
    rw [hdiff d g j (fun h => hng h.1.symm), slots, tableEntry_zeroFrame_self]
    exact entrySlot_empty (by decide)
  have hgfresh : ¬ Reaches (slots (zeroFrame c.mem g)) root g := by
    rintro ⟨q, hq⟩
    rw [(congr_reaches hzero q).1] at hq
    exact hfresh ⟨q, hq⟩
  have hdesc : ∀ q f, Radix.descend (slots (linkTable c.mem n i g)) 0 root q = some f ↔
      Radix.descend (slots c.mem) 0 root q = some f ∨ q = p ++ [i] ∧ f = g := by
    intro q f
    rw [hdiff.descend_of_link hu hp' hold hnew hgempty, (congr_reaches hzero q).1]
  refine ⟨⟨ht.root_lt, hdiff.unshared_of_link hu hp' hold hnew hgempty hgfresh, ?_⟩, hdesc, ?_⟩
  · rintro f ⟨q, hq⟩
    have hidx : (BitVec.ofNat 64 g).toNat = g := frameIdx_toNat (by omega)
    rw [used_frameBitmapSet, hidx]
    rcases (hdesc q f).mp hq with hq | ⟨-, rfl⟩
    · rw [ht.used f ⟨q, hq⟩, Bool.or_true]
    · simp
  · intro q
    rw [hdiff.lookup_of_link hu hp' hold hnew hgempty, (congr_reaches hzero q).2]

/-! ## Writing a slot that is not a link -/

/-- The memory after slot `i` of the table `n` has been written. -/
def setEntry (mem : Memory) (n : Nat) (i : Fin 512) (v : BitVec 64) : Memory :=
  mem.store64 (n * 4096 + 8 * i) v

theorem PageTree.setEntry_descend (ht : PageTree c root)
    (hp : descend (slots c.mem) 0 root p = some n) (hold : ∀ f, slots c.mem p.length n i ≠ .node f)
    (hnew : ∀ f, entrySlot p.length v ≠ .node f) (q : List (Fin 512)) :
    descend (slots (setEntry c.mem n i v)) 0 root q = descend (slots c.mem) 0 root q := by
  refine (slots_store64_differsAt c.mem n i v).descend_of_not_node ht.unshared hp hold ?_ q
  intro f
  rw [slots_store64_self]
  exact hnew f

theorem PageTree.setEntry_nodePaths (ht : PageTree c root)
    (hp : descend (slots c.mem) 0 root p = some n) (hold : ∀ f, slots c.mem p.length n i ≠ .node f)
    (hnew : ∀ f, entrySlot p.length v ≠ .node f) :
    nodePaths (slots (setEntry c.mem n i v)) root = nodePaths (slots c.mem) root := by
  ext q
  rw [nodePaths, nodePaths, Set.mem_ofPred_eq, Set.mem_ofPred_eq, ht.setEntry_descend hp hold hnew q]

theorem PageTree.setEntry (ht : PageTree c root)
    (hp : descend (slots c.mem) 0 root p = some n) (hold : ∀ f, slots c.mem p.length n i ≠ .node f)
    (hnew : ∀ f, entrySlot p.length v ≠ .node f) :
    PageTree { c with mem := setEntry c.mem n i v } root where
  root_lt := ht.root_lt
  unshared := ht.unshared.congr (ht.setEntry_descend hp hold hnew)
  used := by
    rintro f ⟨q, hq⟩
    rw [ht.setEntry_descend hp hold hnew] at hq
    exact ht.used f ⟨q, hq⟩

/-- The lookups through the written slot end there; all others are as before. -/
theorem PageTree.setEntry_lookup (ht : PageTree c root)
    (hp : descend (slots c.mem) 0 root p = some n) (q : List (Fin 512))
    (hnew : ∀ f, entrySlot p.length v ≠ .node f) :
    lookup (slots (BootKernel.setEntry c.mem n i v)) 0 root q =
      if p ++ [i] <+: q then (if v &&& pagePresent = 0 then none else some (p.length, v))
      else lookup (slots c.mem) 0 root q := by
  have hdiff := slots_store64_differsAt c.mem n i v
  split
  · rename_i hpre
    obtain ⟨s, rfl⟩ := hpre
    have hp' := hdiff.descend_self ht.unshared hp
    rw [List.append_assoc, List.singleton_append, BootKernel.setEntry, lookup_snoc hp',
      slots_store64_self, Nat.zero_add]
    cases hs : entrySlot p.length v with
    | empty => rw [if_pos (entrySlot_eq_empty.mp hs)]
    | node f => exact absurd hs (hnew f)
    | leaf l =>
        obtain ⟨hpres, -, rfl⟩ := entrySlot_eq_leaf.mp hs
        rw [if_neg hpres]
  · rename_i hpre
    exact (hdiff.congr_off_path ht.unshared hp hpre).2

end

end BootKernel
