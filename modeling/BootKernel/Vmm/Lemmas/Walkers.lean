import BootKernel.Vmm.Lemmas.Machine

/-!
# What the walkers do to a tree

A walker goes down from the root and, when it may create tables, grows the tree by links of fresh
frames. Growing changes no walk. At its end stands the table that holds the entry of the address.
-/

namespace BootKernel

open Radix

/-! ## Growing -/

def Grow (root : Nat) : Core → Core → Prop := Relation.ReflTransGen (LinkStep root)

/-- What growing keeps. -/
structure Grown (root : Nat) (c c' : Core) : Prop where
  tree : PageTree c' root
  lookup : ∀ q, lookup (slots c'.mem) 0 root q = lookup (slots c.mem) 0 root q
  descend : ∀ q f, descend (slots c.mem) 0 root q = some f → descend (slots c'.mem) 0 root q = some f

section
variable {c c' : Core} {root : Nat}

theorem PageTree.grow (ht : PageTree c root) (hgrow : Grow root c c') : Grown root c c' := by
  induction hgrow with
  | refl => exact ⟨ht, fun _ => rfl, fun _ _ h => h⟩
  | tail _ hstep ih =>
      cases hstep with
      | mk hp hlen hempty hfree hg =>
          have hlink := ih.tree.link hp hlen hempty hfree hg
          refine ⟨hlink.tree, fun q => (hlink.lookup q).trans (ih.lookup q), fun q f hq => ?_⟩
          exact (hlink.descend q f).mpr (Or.inl (ih.descend q f hq))

/-- No entry above the last level ends the walk. -/
def WalksToPt (mem : Memory) (root : Nat) (va : BitVec 64) : Prop :=
  ∀ d e, walk mem root va = some (d, e) → d = 3

theorem WalksToPt.grow {va : BitVec 64} (hps : WalksToPt c.mem root va) (hg : Grown root c c') :
    WalksToPt c'.mem root va := by
  intro d e hwalk
  rw [walk, hg.lookup] at hwalk
  exact hps d e hwalk

/-- On the way to the last table there is no leaf. -/
theorem WalksToPt.not_leaf {mem : Memory} {va : BitVec 64} {pre q : List (Fin 512)} {n : Nat}
    {i : Fin 512} (hps : WalksToPt mem root va) (hpath : vaPath va = pre ++ i :: q)
    (hlen : pre.length < 3) (hp : Radix.descend (slots mem) 0 root pre = some n) (e : BitVec 64) :
    slots mem pre.length n i ≠ .leaf e := by
  intro hleaf
  have hdepth := hps (0 + pre.length) e (by rw [walk, hpath, lookup_snoc hp, Nat.zero_add, hleaf])
  omega

/-- On that way a present entry links a table. -/
theorem WalksToPt.follow {mem : Memory} {va : BitVec 64} {pre q : List (Fin 512)} {n : Nat}
    {i : Fin 512} (hps : WalksToPt mem root va) (hpath : vaPath va = pre ++ i :: q)
    (hlen : pre.length < 3) (hp : Radix.descend (slots mem) 0 root pre = some n)
    (hpres : tableEntry mem n i &&& pagePresent ≠ 0) :
    Radix.descend (slots mem) 0 root (pre ++ [i]) = some (entryFrame (tableEntry mem n i)) := by
  refine descend_snoc.mpr ⟨n, hp, ?_⟩
  rw [Nat.zero_add]
  cases hs : slots mem pre.length n i with
  | empty => exact absurd (entrySlot_eq_empty.mp hs) hpres
  | leaf e => exact absurd hs (hps.not_leaf hpath hlen hp e)
  | node f => rw [(entrySlot_eq_node.mp hs).2.2.2]

end

/-! ## One level of a walker -/

section
variable {create : Bool} {va : BitVec 64} {shift n : Nat} {shifts : List Nat} {m : Machine}

/-- The machine after the entry of `va` in the table `n` has been read. -/
def Machine.readEntry (m : Machine) (n : Nat) (i : Fin 512) : Machine :=
  m.emit (.load (n * 4096 + 8 * i))

@[simp] theorem Machine.readEntry_mem (m : Machine) (n : Nat) (i : Fin 512) :
    (m.readEntry n i).mem = m.mem := rfl

@[simp] theorem Machine.failures_readEntry (m : Machine) (n : Nat) (i : Fin 512) :
    (m.readEntry n i).failures = m.failures := failures_emit (by simp) m

/-- The machine after the walk has created a table in an empty slot and gone on to it. -/
def Machine.enterNew (m : Machine) (n : Nat) (i : Fin 512) (g : Nat) : Machine :=
  ((m.readEntry n i).createTable n i g).emit (.follow (linkEntry g))

theorem Machine.failures_le_enterNew (m : Machine) (n : Nat) (i : Fin 512) (g : Nat) :
    m.failures ≤ (m.enterNew n i g).failures := by
  refine Nat.le_trans ?_ (failures_le_emit _ _)
  rw [failures_createTable]
  exact m.failures_le_emit _

theorem vmmPteGetLoop_present (hn : n < 2 ^ 51)
    (hpres : tableEntry m.mem n (vaIndex va shift) &&& pagePresent ≠ 0) :
    vmmPteGetLoop create va (shift :: shifts) (frameAddr n) m =
      vmmPteGetLoop create va shifts (frameAddr (entryFrame (tableEntry m.mem n (vaIndex va shift))))
        ((m.readEntry n (vaIndex va shift)).emit (.follow (tableEntry m.mem n (vaIndex va shift)))) := by
  have hload := m.load64_entry .hhdm hn va shift
  simp only [Window.base] at hload
  simp only [vmmPteGetLoop, hload, hpres, ↓reduceIte, and_pageAddrMask]
  rfl

/-- An empty slot ends the walk, unless a table can be created in it. -/
theorem vmmPteGetLoop_absent (hn : n < 2 ^ 51)
    (habs : tableEntry m.mem n (vaIndex va shift) &&& pagePresent = 0) :
    (create = false ∧ vmmPteGetLoop create va (shift :: shifts) (frameAddr n) m =
        (none, m.readEntry n (vaIndex va shift))) ∨
    (create = true ∧ (∀ f < 2 ^ 30, m.pmm.used f = true) ∧
      vmmPteGetLoop create va (shift :: shifts) (frameAddr n) m =
        (none, (m.readEntry n (vaIndex va shift)).emit (.alloc pmmInvalidFrame))) ∨
    (create = true ∧ ∃ g, Machine.Taken m.pmm g ∧
      vmmPteGetLoop create va (shift :: shifts) (frameAddr n) m =
        vmmPteGetLoop create va shifts (frameAddr g) (m.enterNew n (vaIndex va shift) g)) := by
  have hload := m.load64_entry .hhdm hn va shift
  simp only [Window.base] at hload
  cases create with
  | false =>
      left
      simp only [vmmPteGetLoop, hload, habs, ↓reduceIte, Bool.not_false]
      exact ⟨trivial, rfl⟩
  | true =>
      right
      rcases (m.readEntry n (vaIndex va shift)).frameAlloc_cases with
        ⟨hfail, hfull⟩ | ⟨g, htaken, hok⟩
      · left
        refine ⟨rfl, hfull, ?_⟩
        rw [Machine.readEntry] at hfail
        simp only [vmmPteGetLoop, hload, habs, ↓reduceIte, Bool.not_true, Bool.false_eq_true, hfail]
        rfl
      · right
        have hlt := htaken.lt
        refine ⟨rfl, g, htaken, ?_⟩
        have hnew := Machine.createTable_eq .hhdm hn (show g < 2 ^ 51 by omega) va shift
          (m.readEntry n (vaIndex va shift))
        have hmask : linkEntry g &&& pageAddrMask = frameAddr g := linkEntry_and_mask (by omega)
        rw [linkEntry] at hmask
        rw [Machine.readEntry] at hok
        simp only [Window.base] at hnew
        simp only [vmmPteGetLoop, hload, habs, ↓reduceIte, Bool.not_true, Bool.false_eq_true, hok,
          frameAddr_ne_invalid, hmask]
        simp only [Machine.readEntry] at hnew
        rw [hnew]
        rfl

theorem vmmPteGetOfflineLoop_present (hn : n < 2 ^ 51)
    (hpres : tableEntry m.mem n (vaIndex va shift) &&& pagePresent ≠ 0) :
    vmmPteGetOfflineLoop create va (shift :: shifts) (frameAddr n) m =
      vmmPteGetOfflineLoop create va shifts
        (frameAddr (entryFrame (tableEntry m.mem n (vaIndex va shift))))
        ((m.readEntry n (vaIndex va shift)).emit (.follow (tableEntry m.mem n (vaIndex va shift)))) := by
  have hload := m.load64_entry .identity hn va shift
  simp only [Window.base] at hload
  simp only [vmmPteGetOfflineLoop, hload, hpres, ↓reduceIte, and_pageAddrMask]
  rfl

theorem vmmPteGetOfflineLoop_failures (create : Bool) (va : BitVec 64) (shifts : List Nat)
    (table : BitVec 64) (m : Machine) :
    m.failures ≤ (vmmPteGetOfflineLoop create va shifts table m).2.failures := by
  induction shifts generalizing table m with
  | nil => exact Nat.le_refl _
  | cons shift shifts ih =>
      simp only [vmmPteGetOfflineLoop]
      split
      · split
        · exact m.failures_le_emit _
        · refine Nat.le_trans ?_ (ih _ _)
          refine Nat.le_trans ?_ (Machine.failures_le_emit _ _)
          rw [Machine.failures_store64, Machine.failures_zero]
          exact Nat.le_trans (m.failures_le_emit _) (Machine.failures_le_frameAlloc _)
      · exact Nat.le_trans (Nat.le_trans (m.failures_le_emit _) (Machine.failures_le_emit _ _)) (ih _ _)

/-- The early walker does not notice that an allocation has failed. -/
theorem vmmPteGetOfflineLoop_absent (hn : n < 2 ^ 51)
    (habs : tableEntry m.mem n (vaIndex va shift) &&& pagePresent = 0) :
    ((∀ f < 2 ^ 30, m.pmm.used f = true) ∧
      m.failures < (vmmPteGetOfflineLoop true va (shift :: shifts) (frameAddr n) m).2.failures) ∨
    ∃ g, Machine.Taken m.pmm g ∧
      vmmPteGetOfflineLoop true va (shift :: shifts) (frameAddr n) m =
        vmmPteGetOfflineLoop true va shifts (frameAddr g) (m.enterNew n (vaIndex va shift) g) := by
  have hload := m.load64_entry .identity hn va shift
  simp only [Window.base] at hload
  rcases (m.readEntry n (vaIndex va shift)).frameAlloc_cases with ⟨hfail, hfull⟩ | ⟨g, htaken, hok⟩
  · left
    refine ⟨hfull, ?_⟩
    rw [Machine.readEntry] at hfail
    simp only [vmmPteGetOfflineLoop, hload, habs, ↓reduceIte, Bool.not_true, Bool.false_eq_true,
      hfail]
    refine Nat.lt_of_lt_of_le ?_ (vmmPteGetOfflineLoop_failures _ _ _ _ _)
    refine Nat.lt_of_lt_of_le ?_ (Machine.failures_le_emit _ _)
    rw [Machine.failures_store64, Machine.failures_zero, Machine.failures_emit_fail]
    exact Nat.lt_succ_of_le (m.failures_le_emit _)
  · right
    have hlt := htaken.lt
    refine ⟨g, htaken, ?_⟩
    have hnew := Machine.createTable_eq .identity hn (show g < 2 ^ 51 by omega) va shift
      (m.readEntry n (vaIndex va shift))
    have hmask : linkEntry g &&& pageAddrMask = frameAddr g := linkEntry_and_mask (by omega)
    rw [linkEntry] at hmask
    rw [Machine.readEntry] at hok hnew
    simp only [Window.base] at hnew
    simp only [vmmPteGetOfflineLoop, hload, habs, ↓reduceIte, Bool.not_true, Bool.false_eq_true, hok,
      hmask]
    rw [hnew]
    rfl

end

/-! ## Descents -/

/-- The walk from the table `n` to the table `t` through the levels of the given shifts. -/
inductive Descent (create : Bool) (va : BitVec 64) :
    List Nat → Nat → Machine → Nat → Machine → Prop
  | here {n m} : Descent create va [] n m n m
  | follow {shift shifts n m t m'}
      (hpres : tableEntry m.mem n (vaIndex va shift) &&& pagePresent ≠ 0)
      (hrest : Descent create va shifts (entryFrame (tableEntry m.mem n (vaIndex va shift)))
        ((m.readEntry n (vaIndex va shift)).emit (.follow (tableEntry m.mem n (vaIndex va shift)))) t m') :
      Descent create va (shift :: shifts) n m t m'
  | enter {shift shifts n m t m' g}
      (hcreate : create = true)
      (habs : tableEntry m.mem n (vaIndex va shift) &&& pagePresent = 0)
      (htaken : Machine.Taken m.pmm g)
      (hrest : Descent create va shifts g (m.enterNew n (vaIndex va shift) g) t m') :
      Descent create va (shift :: shifts) n m t m'

/-- The walk ends early: it reads an empty slot and creates no table there. -/
inductive Stuck (create : Bool) (m : Machine) (n : Nat) (i : Fin 512) : Machine → Prop
  | absent (hcreate : create = false) : Stuck create m n i (m.readEntry n i)
  | full (hcreate : create = true) (hfull : ∀ f < 2 ^ 30, m.pmm.used f = true) :
      Stuck create m n i ((m.readEntry n i).emit (.alloc pmmInvalidFrame))

section
variable {create : Bool} {va : BitVec 64} {n : Nat} {shifts : List Nat} {m : Machine}

theorem vmmPteGetLoop_descent (create : Bool) (va : BitVec 64) (shifts : List Nat) (m : Machine)
    (hn : n < 2 ^ 51) :
    (∃ t m', vmmPteGetLoop create va shifts (frameAddr n) m = (some (frameAddr t), m') ∧
      Descent create va shifts n m t m') ∨
    ∃ above shift below t m₁ m', shifts = above ++ shift :: below ∧
      Descent create va above n m t m₁ ∧
      tableEntry m₁.mem t (vaIndex va shift) &&& pagePresent = 0 ∧
      Stuck create m₁ t (vaIndex va shift) m' ∧
      vmmPteGetLoop create va shifts (frameAddr n) m = (none, m') := by
  induction shifts generalizing n m with
  | nil => exact Or.inl ⟨n, m, rfl, .here⟩
  | cons shift shifts ih =>
      by_cases hpres : tableEntry m.mem n (vaIndex va shift) &&& pagePresent = 0
      · rcases vmmPteGetLoop_absent hn hpres with
          ⟨hcreate, hstop⟩ | ⟨hcreate, hfull, hstop⟩ | ⟨hcreate, g, htaken, hgo⟩
        · exact Or.inr ⟨[], shift, shifts, n, m, _, rfl, .here, hpres, .absent hcreate, hstop⟩
        · exact Or.inr ⟨[], shift, shifts, n, m, _, rfl, .here, hpres, .full hcreate hfull, hstop⟩
        · have hlt := htaken.lt
          rw [hgo]
          rcases ih (m.enterNew n (vaIndex va shift) g) (show g < 2 ^ 51 by omega) with
            ⟨t, m', heq, hd⟩ | ⟨above, s, below, t, m₁, m', rfl, hd, habs, hstuck, heq⟩
          · exact Or.inl ⟨t, m', heq, .enter hcreate hpres htaken hd⟩
          · exact Or.inr ⟨shift :: above, s, below, t, m₁, m', rfl, .enter hcreate hpres htaken hd,
              habs, hstuck, heq⟩
      · have hlt := entryFrame_lt (tableEntry m.mem n (vaIndex va shift))
        rw [vmmPteGetLoop_present hn hpres]
        rcases ih (n := entryFrame (tableEntry m.mem n (vaIndex va shift))) _ (by omega) with
          ⟨t, m', heq, hd⟩ | ⟨above, s, below, t, m₁, m', rfl, hd, habs, hstuck, heq⟩
        · exact Or.inl ⟨t, m', heq, .follow hpres hd⟩
        · exact Or.inr ⟨shift :: above, s, below, t, m₁, m', rfl, .follow hpres hd, habs, hstuck, heq⟩

/-- The early walker reaches its table, or the frames run out at some level and it goes on all the
same. -/
theorem vmmPteGetOfflineLoop_descent (va : BitVec 64) (shifts : List Nat) (m : Machine)
    (hn : n < 2 ^ 51) :
    (m.failures < (vmmPteGetOfflineLoop true va shifts (frameAddr n) m).2.failures ∧
      ∃ above shift below t m₁, shifts = above ++ shift :: below ∧ Descent true va above n m t m₁ ∧
        tableEntry m₁.mem t (vaIndex va shift) &&& pagePresent = 0 ∧ ∀ f < 2 ^ 30, m₁.pmm.used f = true) ∨
    ∃ t m', vmmPteGetOfflineLoop true va shifts (frameAddr n) m = (some (frameAddr t), m') ∧
      Descent true va shifts n m t m' := by
  induction shifts generalizing n m with
  | nil => exact Or.inr ⟨n, m, rfl, .here⟩
  | cons shift shifts ih =>
      by_cases hpres : tableEntry m.mem n (vaIndex va shift) &&& pagePresent = 0
      · rcases vmmPteGetOfflineLoop_absent hn hpres with ⟨hfull, hfail⟩ | ⟨g, htaken, hgo⟩
        · exact Or.inl ⟨hfail, [], shift, shifts, n, m, rfl, .here, hpres, hfull⟩
        · have hlt := htaken.lt
          rw [hgo]
          rcases ih (m.enterNew n (vaIndex va shift) g) (show g < 2 ^ 51 by omega) with
            ⟨hfail, above, s, below, t, m₁, rfl, hd, habs, hfull⟩ | ⟨t, m', heq, hd⟩
          · exact Or.inl ⟨Nat.lt_of_le_of_lt (m.failures_le_enterNew n (vaIndex va shift) g) hfail,
              shift :: above, s, below, t, m₁, rfl, .enter rfl hpres htaken hd, habs, hfull⟩
          · exact Or.inr ⟨t, m', heq, .enter rfl hpres htaken hd⟩
      · have hlt := entryFrame_lt (tableEntry m.mem n (vaIndex va shift))
        rw [vmmPteGetOfflineLoop_present hn hpres]
        rcases ih (n := entryFrame (tableEntry m.mem n (vaIndex va shift))) _ (by omega) with
          ⟨hfail, above, s, below, t, m₁, rfl, hd, habs, hfull⟩ | ⟨t, m', heq, hd⟩
        · refine Or.inl ⟨Nat.lt_of_le_of_lt ?_ hfail, shift :: above, s, below, t, m₁, rfl,
            .follow hpres hd, habs, hfull⟩
          exact Nat.le_trans (m.failures_le_emit _) (Machine.failures_le_emit _ _)
        · exact Or.inr ⟨t, m', heq, .follow hpres hd⟩

/-- A descent in an unshared tree that meets no leaf grows the tree by the tables on its way, and ends in
the table that the processor's walk ends in. -/
theorem Descent.grow_paths {root t : Nat} {m' : Machine} (pre rest : List (Fin 512))
    (hd : Descent create va shifts n m t m') (ht : PageTree m.toCore root)
    (hp : descend (slots m.mem) 0 root pre = some n) (hps : WalksToPt m.mem root va)
    (hpath : vaPath va = pre ++ shifts.map (vaIndex va) ++ rest) (hlen : pre.length + shifts.length ≤ 3) :
    (Grow root m.toCore m'.toCore ∧ m'.cr3 = m.cr3 ∧
      descend (slots m'.mem) 0 root (pre ++ shifts.map (vaIndex va)) = some t) ∧
    nodePaths (slots m'.mem) root = nodePaths (slots m.mem) root ∪ branch pre (shifts.map (vaIndex va)) := by
  induction hd generalizing pre with
  | @here n m =>
      have hpre : pre ∈ nodePaths (slots m.mem) root := ⟨n, hp⟩
      refine ⟨⟨Relation.ReflTransGen.refl, rfl, ?_⟩, ?_⟩
      · rw [List.map_nil, List.append_nil, hp]
      · rw [List.map_nil, branch_nil, Set.union_singleton, Set.insert_eq_of_mem hpre]
  | @follow shift shifts n m t m' hpres hrest ih =>
      simp only [List.length_cons] at hlen
      have hpre : pre ∈ nodePaths (slots m.mem) root := ⟨n, hp⟩
      have hpath' : vaPath va = pre ++ [vaIndex va shift] ++ shifts.map (vaIndex va) ++ rest := by
        simpa using hpath
      have hstep := hps.follow (by simpa using hpath) (by omega) hp hpres
      obtain ⟨⟨hgrow, hcr3, hend⟩, hpaths⟩ := ih _ ht hstep hps hpath'
        (by simp only [List.length_append, List.length_singleton]; omega)
      refine ⟨⟨hgrow, hcr3, by simpa using hend⟩, hpaths.trans ?_⟩
      rw [List.map_cons, branch_cons, Set.union_insert, Set.insert_eq_of_mem (Set.mem_union_left _ hpre)]
      rfl
  | @enter shift shifts n m t m' g hcreate habs htaken hrest ih =>
      simp only [List.length_cons] at hlen
      have hpre : pre ∈ nodePaths (slots m.mem) root := ⟨n, hp⟩
      have hpath' : vaPath va = pre ++ [vaIndex va shift] ++ shifts.map (vaIndex va) ++ rest := by
        simpa using hpath
      have hempty : slots m.mem pre.length n (vaIndex va shift) = .empty := entrySlot_empty habs
      have hstep : LinkStep root m.toCore (m.enterNew n (vaIndex va shift) g).toCore :=
        .mk hp (by omega) hempty htaken.free htaken.lt
      have hgrown := ht.grow (.single hstep)
      have hlink := ht.link hp (by omega) hempty htaken.free htaken.lt
      have hnext := (hlink.descend (pre ++ [vaIndex va shift]) g).mpr (Or.inr ⟨rfl, rfl⟩)
      obtain ⟨⟨hgrow, hcr3, hend⟩, hpaths⟩ := ih _ hgrown.tree hnext (hps.grow hgrown) hpath'
        (by simp only [List.length_append, List.length_singleton]; omega)
      refine ⟨⟨.head hstep hgrow, hcr3, by simpa using hend⟩, hpaths.trans ?_⟩
      have hnew : nodePaths (slots (m.enterNew n (vaIndex va shift) g).mem) root =
          insert (pre ++ [vaIndex va shift]) (nodePaths (slots m.mem) root) := hlink.nodePaths
      rw [hnew, List.map_cons, branch_cons, Set.union_insert, Set.insert_eq_of_mem (Set.mem_union_left _ hpre),
        Set.insert_union, Set.insert_eq_of_mem (Set.mem_union_right _ (self_mem_branch _ _))]

theorem Descent.grow {root t : Nat} {m' : Machine} (pre rest : List (Fin 512))
    (hd : Descent create va shifts n m t m') (ht : PageTree m.toCore root)
    (hp : descend (slots m.mem) 0 root pre = some n) (hps : WalksToPt m.mem root va)
    (hpath : vaPath va = pre ++ shifts.map (vaIndex va) ++ rest) (hlen : pre.length + shifts.length ≤ 3) :
    Grow root m.toCore m'.toCore ∧ m'.cr3 = m.cr3 ∧
      descend (slots m'.mem) 0 root (pre ++ shifts.map (vaIndex va)) = some t :=
  (hd.grow_paths pre rest ht hp hps hpath hlen).1

/-- Without the right to create tables, a descent only reads. -/
theorem Descent.core_eq {t : Nat} {m' : Machine} (hd : Descent false va shifts n m t m') :
    m'.toCore = m.toCore := by
  generalize hcreate : false = create at hd
  induction hd with
  | here => rfl
  | follow _ _ ih => exact ih
  | enter htrue _ _ _ _ => cases hcreate.trans htrue

theorem Stuck.core_eq {i : Fin 512} {m' : Machine} (h : Stuck create m n i m') :
    m'.toCore = m.toCore ∧ m'.cr3 = m.cr3 := by
  cases h with
  | absent _ => exact ⟨rfl, rfl⟩
  | full _ _ => exact ⟨rfl, rfl⟩

end

/-! ## The online walker -/

/-- The path to the page table of an address. -/
def ptPath (va : BitVec 64) : List (Fin 512) := (levelsShift.take 3).map (vaIndex va)

theorem vaPath_eq_ptPath (va : BitVec 64) : vaPath va = ptPath va ++ [vaIndex va 12] := rfl

section
variable {va : BitVec 64} {root : Nat} {m : Machine}

/-- `vmm_pte_get` grows the tree, and a pointer that it returns is the slot of the address. -/
theorem vmmPteGet_spec (create : Bool) (ht : PageTree m.toCore root) (hps : WalksToPt m.mem root va) :
    ∃ pte m', vmmPteGet (frameAddr root) va create m = (pte, m') ∧
      Grow root m.toCore m'.toCore ∧ m'.cr3 = m.cr3 ∧ (create = false → m'.toCore = m.toCore) ∧
      (pte = 0 ∨ ∃ t < 2 ^ 51, descend (slots m'.mem) 0 root (ptPath va) = some t ∧
        pte = entryPtr (Window.hhdm.base (frameAddr t)) ((va >>> 12) &&& 0x1FF)) := by
  have hroot := ht.root_lt
  rcases vmmPteGetLoop_descent create va (levelsShift.take 3) m (show root < 2 ^ 51 by omega) with
    ⟨t, m', heq, hd⟩ | ⟨above, shift, below, t, m₁, m', hsplit, hd, habs, hstuck, heq⟩
  · obtain ⟨hgrow, hcr3, hend⟩ :=
      hd.grow [] [vaIndex va 12] ht rfl hps rfl (by decide)
    have hlt := (ht.grow hgrow).tree.reaches_lt ⟨_, hend⟩
    refine ⟨_, m', by rw [vmmPteGet, heq]; rfl, hgrow, hcr3, ?_, Or.inr ⟨t, by omega, hend, rfl⟩⟩
    rintro rfl
    exact hd.core_eq
  · have hpath : vaPath va =
        [] ++ above.map (vaIndex va) ++ (vaIndex va shift :: below.map (vaIndex va) ++ [vaIndex va 12]) := by
      rw [vaPath_eq_ptPath, ptPath, hsplit]
      simp
    have hlen := congrArg List.length hsplit
    simp only [List.length_take, List.length_append, List.length_cons, levelsShift,
      List.length_nil] at hlen
    obtain ⟨hgrow, hcr3, -⟩ := hd.grow [] _ ht rfl hps hpath
      (by simp only [List.length_nil]; omega)
    obtain ⟨hcore, hcr3'⟩ := hstuck.core_eq
    refine ⟨0, m', by rw [vmmPteGet, heq], hcore ▸ hgrow, hcr3'.trans hcr3, ?_, Or.inl rfl⟩
    rintro rfl
    exact hcore.trans hd.core_eq

theorem vmmPteGet_found {t : Nat} (create : Bool) (ht : PageTree m.toCore root) (hps : WalksToPt m.mem root va)
    (hend : descend (slots m.mem) 0 root (ptPath va) = some t) :
    (vmmPteGet (frameAddr root) va create m).1 =
      entryPtr (Window.hhdm.base (frameAddr t)) ((va >>> 12) &&& 0x1FF) := by
  have hroot := ht.root_lt
  rcases vmmPteGetLoop_descent create va (levelsShift.take 3) m (show root < 2 ^ 51 by omega) with
    ⟨t', m', heq, hd⟩ | ⟨above, shift, below, t', m₁, m', hsplit, hd, habs, -, -⟩
  · obtain ⟨hgrow, -, hend'⟩ := hd.grow [] [vaIndex va 12] ht rfl hps rfl (by decide)
    have hsame := (ht.grow hgrow).descend _ _ hend
    rw [List.nil_append] at hend'
    cases hend'.symm.trans hsame
    rw [vmmPteGet, heq]
    rfl
  · -- the walk cannot get stuck, since the path goes on
    have hpt : ptPath va = above.map (vaIndex va) ++ vaIndex va shift :: below.map (vaIndex va) := by
      rw [ptPath, hsplit, List.map_append, List.map_cons]
    have hlen := congrArg List.length hsplit
    simp only [List.length_take, List.length_append, List.length_cons, levelsShift,
      List.length_nil] at hlen
    obtain ⟨hgrow, -, hend'⟩ := hd.grow [] (vaIndex va shift :: below.map (vaIndex va) ++ [vaIndex va 12]) ht
      rfl hps (by rw [vaPath_eq_ptPath, hpt]; simp) (by simp only [List.length_nil]; omega)
    have hsame := (ht.grow hgrow).descend _ _ hend
    have hempty : slots m₁.mem (0 + (above.map (vaIndex va)).length) t' (vaIndex va shift) = .empty :=
      entrySlot_empty habs
    rw [hpt, descend_append, ← List.nil_append (above.map _), hend', List.nil_append, Option.bind_some, descend,
      hempty] at hsame
    cases hsame

/-- What `vmm_page_map` writes into the slot of a page. -/
def pageEntry (paddr flags : BitVec 64) : BitVec 64 := (paddr &&& pageAddrMask) ||| flags ||| pagePresent

/-- `vmm_page_map` grows the tree, and then either gives up or writes the slot of the address. -/
theorem vmmPageMap_cases (paddr flags : BitVec 64) (ht : PageTree m.toCore root)
    (hps : WalksToPt m.mem root va) :
    ∃ m₁, Grow root m.toCore m₁.toCore ∧ m₁.cr3 = m.cr3 ∧
      (vmmPageMap (frameAddr root) va paddr flags m = (false, m₁) ∨
      ∃ t, descend (slots m₁.mem) 0 root (ptPath va) = some t ∧
        vmmPageMap (frameAddr root) va paddr flags m =
          (true, invlpg va (m₁.setEntry t (vaIndex va 12) (pageEntry paddr flags)))) := by
  obtain ⟨pte, m₁, heq, hgrow, hcr3, -, hpte⟩ := vmmPteGet_spec true ht hps
  refine ⟨m₁, hgrow, hcr3, ?_⟩
  by_cases hnull : pte = 0
  · left
    simp only [vmmPageMap, heq, hnull, ↓reduceIte]
  · right
    obtain hzero | ⟨t, hlt, hend, rfl⟩ := hpte
    · exact absurd hzero hnull
    · refine ⟨t, hend, ?_⟩
      simp only [vmmPageMap, heq, hnull, ↓reduceIte, Machine.store64_entry .hhdm hlt, pageEntry]

/-- A `vmm_page_map` that succeeds grows the tree and then writes the slot of the address. -/
theorem vmmPageMap_success {paddr flags : BitVec 64} (ht : PageTree m.toCore root)
    (hps : WalksToPt m.mem root va) (hok : (vmmPageMap (frameAddr root) va paddr flags m).1 = true) :
    ∃ c t, Grow root m.toCore c ∧ descend (slots c.mem) 0 root (ptPath va) = some t ∧
      (vmmPageMap (frameAddr root) va paddr flags m).2.cr3 = m.cr3 ∧
      (vmmPageMap (frameAddr root) va paddr flags m).2.toCore =
        { c with mem := BootKernel.setEntry c.mem t (vaIndex va 12) (pageEntry paddr flags) } := by
  obtain ⟨m₁, hgrow, hcr3, hmap⟩ := vmmPageMap_cases paddr flags ht hps
  rcases hmap with heq | ⟨t, hend, heq⟩
  · rw [heq] at hok
    cases hok
  · rw [heq]
    exact ⟨m₁.toCore, t, hgrow, hend, hcr3, rfl⟩

theorem pageEntry_present (paddr flags : BitVec 64) : pageEntry paddr flags &&& pagePresent ≠ 0 := by
  rw [ne_eq, present_eq_zero]
  simp [pageEntry, pagePresent]

theorem pageEntry_and_mask {flags : BitVec 64} (hflags : flags &&& pageAddrMask = 0)
    (paddr : BitVec 64) : pageEntry paddr flags &&& pageAddrMask = paddr &&& pageAddrMask := by
  have hpresent : pagePresent &&& pageAddrMask = 0 := by decide
  rw [pageEntry, BitVec.and_or_distrib_right, BitVec.and_or_distrib_right, hflags, hpresent,
    BitVec.and_assoc, BitVec.and_self]
  simp only [BitVec.ofNat_eq_ofNat, BitVec.or_zero]

theorem entrySlot_pt_ne_node {q : List (Fin 512)} (hq : q.length = 3) (e : BitVec 64) (f : Nat) :
    entrySlot q.length e ≠ .node f := by
  rw [hq]
  intro h
  exact absurd (entrySlot_eq_node.mp h).2.1 (by omega)

theorem ptPath_length (va : BitVec 64) : (ptPath va).length = 3 := rfl

/-- Writing the slot of a page changes the walk of that page, and no other. -/
theorem PageTree.setPage {c : Core} {t : Nat} (ht : PageTree c root)
    (hend : descend (slots c.mem) 0 root (ptPath va) = some t) (v : BitVec 64) :
    PageTree { c with mem := BootKernel.setEntry c.mem t (vaIndex va 12) v } root ∧
      ∀ vb, walk (BootKernel.setEntry c.mem t (vaIndex va 12) v) root vb =
        if vaPath vb = vaPath va then (if v &&& pagePresent = 0 then none else some (3, v))
        else walk c.mem root vb := by
  have hnew := entrySlot_pt_ne_node (ptPath_length va) v
  refine ⟨ht.setEntry hend (entrySlot_pt_ne_node (ptPath_length va) _) hnew, fun vb => ?_⟩
  rw [walk, ht.setEntry_lookup hend _ hnew, ← vaPath_eq_ptPath, walk]
  simp only [vaPath_prefix_iff, ptPath_length]

/-- The walk of an address whose page table is known ends in the slot. -/
theorem walk_of_pt {mem : Memory} {t : Nat} (hend : descend (slots mem) 0 root (ptPath va) = some t)
    (hpres : tableEntry mem t (vaIndex va 12) &&& pagePresent ≠ 0) :
    walk mem root va = some (3, tableEntry mem t (vaIndex va 12)) := by
  have hleaf : slots mem 3 t (vaIndex va 12) = .leaf (tableEntry mem t (vaIndex va 12)) :=
    entrySlot_eq_leaf.mpr ⟨hpres, Or.inl (Nat.le_refl 3), rfl⟩
  rw [walk, vaPath_eq_ptPath, lookup_snoc hend, ptPath_length, Nat.zero_add, hleaf]

/-- A walk through all four levels ends in the slot of a page table. -/
theorem pt_of_walk {mem : Memory} {e : BitVec 64} (hwalk : walk mem root va = some (3, e)) :
    ∃ t, descend (slots mem) 0 root (ptPath va) = some t ∧ tableEntry mem t (vaIndex va 12) = e := by
  obtain ⟨q, i, rest, t, hpath, hdepth, hdesc, hleaf⟩ := lookup_eq_some hwalk
  rw [vaPath_eq_ptPath] at hpath
  have hlen : (ptPath va).length = q.length := by
    rw [ptPath_length]
    omega
  obtain ⟨rfl, hrest⟩ := List.append_inj hpath hlen
  cases hrest
  exact ⟨t, hdesc, (entrySlot_eq_leaf.mp hleaf).2.2⟩

theorem walk_of_pt_absent {mem : Memory} {t : Nat} (hend : descend (slots mem) 0 root (ptPath va) = some t)
    (habs : tableEntry mem t (vaIndex va 12) &&& pagePresent = 0) : walk mem root va = none := by
  have hempty : slots mem 3 t (vaIndex va 12) = .empty := entrySlot_empty habs
  rw [walk, vaPath_eq_ptPath, lookup_snoc hend, ptPath_length, Nat.zero_add, hempty]

/-- `vmm_page_unmap` changes nothing, or reads and clears the slot of the address. -/
theorem vmmPageUnmap_cases (ht : PageTree m.toCore root) (hps : WalksToPt m.mem root va) :
    ∃ m₁ : Machine, m₁.toCore = m.toCore ∧ m₁.cr3 = m.cr3 ∧
      (vmmPageUnmap (frameAddr root) va (some 0) m = (false, some 0, m₁) ∨
      ∃ t, descend (slots m.mem) 0 root (ptPath va) = some t ∧
        vmmPageUnmap (frameAddr root) va (some 0) m =
          (true, some (tableEntry m.mem t (vaIndex va 12) &&& pageAddrMask),
            invlpg va ((m₁.readEntry t (vaIndex va 12)).setEntry t (vaIndex va 12) 0))) := by
  obtain ⟨pte, m₁, heq, -, hcr3, hcore, hpte⟩ := vmmPteGet_spec false ht hps
  refine ⟨m₁, hcore rfl, hcr3, ?_⟩
  by_cases hnull : pte = 0
  · left
    simp only [vmmPageUnmap, heq, hnull, ↓reduceIte]
  · right
    obtain hzero | ⟨t, hlt, hend, rfl⟩ := hpte
    · exact absurd hzero hnull
    · have hload : ∀ m : Machine, m.load64 .hhdm
          (entryPtr (Window.hhdm.base (frameAddr t)) ((va >>> 12) &&& 0x1FF)) =
            (tableEntry m.mem t (vaIndex va 12), m.readEntry t (vaIndex va 12)) :=
        fun m => m.load64_entry .hhdm hlt va 12
      rw [hcore rfl] at hend
      refine ⟨t, hend, ?_⟩
      simp only [vmmPageUnmap, heq, hnull, ↓reduceIte, hload, Machine.store64_entry .hhdm hlt, hcore rfl]

theorem PageTree.setPage_reaches {c : Core} {t f : Nat} (ht : PageTree c root)
    (hend : descend (slots c.mem) 0 root (ptPath va) = some t) (v : BitVec 64) :
    Reaches (slots (BootKernel.setEntry c.mem t (vaIndex va 12) v)) root f ↔ Reaches (slots c.mem) root f := by
  have hsame := ht.setEntry_descend (i := vaIndex va 12) hend
    (entrySlot_pt_ne_node (ptPath_length va) _) (entrySlot_pt_ne_node (ptPath_length va) v)
  simp only [Reaches, hsame]

end

/-! ## Clean page tables -/

/-- In a page table an entry that is not present is zero. -/
def CleanTables (c : Core) (root : Nat) : Prop :=
  ∀ q t i, q.length = 3 → descend (slots c.mem) 0 root q = some t →
    tableEntry c.mem t i &&& pagePresent = 0 → tableEntry c.mem t i = 0

section
variable {c c' : Core} {root : Nat} {va v : BitVec 64}

theorem CleanTables.link (h : CleanTables c root) (ht : PageTree c root) (hstep : LinkStep root c c') :
    CleanTables c' root := by
  cases hstep with
  | @mk p n i g hp hlen hempty hfree hg =>
      have hlink := ht.link hp hlen hempty hfree hg
      have hng : n ≠ g := fun h => ht.fresh hfree (h ▸ ⟨p, hp⟩)
      intro q t j hq hqt habs
      rcases (hlink.descend q t).mp hqt with hold | ⟨-, rfl⟩
      · have htn : t ≠ n := by
          rintro rfl
          rw [ht.unshared q p t hold hp] at hq
          omega
        have htg : t ≠ g := fun h => ht.fresh hfree (h ▸ ⟨q, hold⟩)
        have hsame : tableEntry (linkTable c.mem n i g) t j = tableEntry c.mem t j := by
          rw [linkTable, tableEntry_store64_ne fun h => htn h.1, tableEntry_zeroFrame_ne htg]
        exact hsame.trans (h q t j hq hold (hsame ▸ habs))
      · have hnew : tableEntry (linkTable c.mem n i t) t j = 0 := by
          rw [linkTable, tableEntry_store64_ne fun h => hng h.1.symm, tableEntry_zeroFrame_self]
        exact hnew

theorem CleanTables.grow (h : CleanTables c root) (ht : PageTree c root) (hgrow : Grow root c c') :
    CleanTables c' root := by
  induction hgrow with
  | refl => exact h
  | tail hprev hstep ih => exact ih.link (ht.grow hprev).tree hstep

theorem CleanTables.setPage {t : Nat} (h : CleanTables c root) (ht : PageTree c root)
    (hend : descend (slots c.mem) 0 root (ptPath va) = some t)
    (hv : v &&& pagePresent = 0 → v = 0) :
    CleanTables { c with mem := setEntry c.mem t (vaIndex va 12) v } root := by
  intro q n j hq hqn habs
  rw [ht.setEntry_descend hend (entrySlot_pt_ne_node (ptPath_length va) _)
    (entrySlot_pt_ne_node (ptPath_length va) v)] at hqn
  simp only [setEntry] at habs ⊢
  by_cases hslot : n = t ∧ j = vaIndex va 12
  · obtain ⟨rfl, rfl⟩ := hslot
    rw [tableEntry_store64_same] at habs ⊢
    exact hv habs
  · rw [tableEntry_store64_ne hslot] at habs ⊢
    exact h q n j hq hqn habs

end

end BootKernel
