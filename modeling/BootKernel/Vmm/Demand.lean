import BootKernel.Vmm.Failures
import Mathlib.Data.Set.Card

/-!
# How many frames `vmm_init` takes

Every table that is created takes one frame, so the free frames and the tables together stay the same
number as long as no allocation fails. The tables that `vmm_init` needs are known beforehand, and an
allocation fails exactly if there are fewer free frames than tables needed.
-/

namespace BootKernel

open Radix

/-! ## Frames against tables -/

/-- The free frames among those that an allocation looks at. -/
def spareFrames (p : Pmm) : Set Nat := {f | f < 2 ^ 30 ∧ p.used f = false}

/-- The paths to the tables of a tree. -/
abbrev tablePaths (root : Nat) (c : Core) : Set (List (Fin 512)) := nodePaths (slots c.mem) root

/-- Free frames and tables together. -/
structure Budget (n root : Nat) (c : Core) : Prop where
  finite : (tablePaths root c).Finite
  total : (spareFrames c.pmm).ncard + (tablePaths root c).ncard = n

section
variable {p : Pmm} {c c' : Core} {root g n : Nat} {D : Set (List (Fin 512))}

theorem spareFrames_finite (p : Pmm) : (spareFrames p).Finite :=
  (Set.finite_lt_nat (2 ^ 30)).subset fun _ hf => hf.1

theorem spareFrames_set (hg : g < 2 ^ 30) :
    spareFrames (frameBitmapSet p (BitVec.ofNat 64 g)) = spareFrames p \ {g} := by
  ext f
  simp only [spareFrames, Set.mem_ofPred_eq, Set.mem_sdiff, Set.mem_singleton_iff, used_frameBitmapSet,
    frameIdx_toNat (show g < 2 ^ 64 by omega), Bool.or_eq_false_iff, decide_eq_false_iff_not]
  exact ⟨fun h => ⟨⟨h.1, h.2.2⟩, h.2.1⟩, fun h => ⟨h.1.1, h.2, h.1.2⟩⟩

theorem spareFrames_set_ncard (hg : g < 2 ^ 30) (hfree : p.used g = false) :
    (spareFrames (frameBitmapSet p (BitVec.ofNat 64 g))).ncard + 1 = (spareFrames p).ncard := by
  have hmem : g ∈ spareFrames p := ⟨hg, hfree⟩
  rw [spareFrames_set hg]
  exact Set.ncard_sdiff_singleton_add_one hmem (spareFrames_finite p)

theorem spareFrames_full (hfull : ∀ f < 2 ^ 30, p.used f = true) : spareFrames p = ∅ := by
  rw [Set.eq_empty_iff_forall_notMem]
  rintro f ⟨hf, hfree⟩
  rw [hfull f hf] at hfree
  cases hfree

theorem Budget.link (hb : Budget n root c) (ht : PageTree c root) (hstep : LinkStep root c c') :
    Budget n root c' := by
  cases hstep with
  | @mk p t i g hp hlen hempty hfree hg =>
      have hlink := ht.link hp hlen hempty hfree hg
      have hnew : p ++ [i] ∉ tablePaths root c := by
        rintro ⟨f, hf⟩
        rw [descend_snoc_of_not_node hp fun m => by simp [hempty]] at hf
        cases hf
      have hspare := spareFrames_set_ncard hg hfree
      constructor
      · rw [tablePaths, hlink.nodePaths]
        exact hb.finite.insert _
      · rw [tablePaths, hlink.nodePaths, Set.ncard_insert_of_notMem hnew hb.finite, ← hb.total, ← hspare]
        exact Nat.add_right_comm _ _ 1

theorem Budget.grow (hb : Budget n root c) (ht : PageTree c root) (hgrow : Grow root c c') :
    Budget n root c' := by
  induction hgrow with
  | refl => exact hb
  | tail hprev hstep ih => exact ih.link (ht.grow hprev).tree hstep

/-- When the frames have run out before a table that is needed, they were too few. -/
theorem Budget.exhausted {q : List (Fin 512)} (hb : Budget n root c) (hfull : ∀ f < 2 ^ 30, c.pmm.used f = true)
    (hD : D.Finite) (hsub : tablePaths root c ⊆ D) (hq : q ∈ D) (hnot : q ∉ tablePaths root c) :
    n < D.ncard := by
  rw [← hb.total, spareFrames_full hfull, Set.ncard_empty, Nat.zero_add]
  exact Set.ncard_lt_ncard (Set.ssubset_iff_exists.mpr ⟨hsub, q, hq, hnot⟩) hD

end

/-! ## A state against its demand -/

/-- No allocation has failed, and the tables are `D`. -/
structure Tallied (n fails root : Nat) (D : Set (List (Fin 512))) (m : Machine) : Prop where
  failures : m.failures = fails
  paths : tablePaths root m.toCore = D
  budget : Budget n root m.toCore

/-- The tables are `D`, or an allocation has failed and the frames were too few for them. -/
def Counted (n fails root : Nat) (D : Set (List (Fin 512))) (m : Machine) : Prop :=
  D.Finite ∧ ((fails < m.failures ∧ n < D.ncard) ∨ Tallied n fails root D m)

section
variable {n fails root : Nat} {D D' : Set (List (Fin 512))} {m m' : Machine}

/-- Only the failures, the allocator and the paths matter. -/
theorem Tallied.congr (h : Tallied n fails root D m) (hsame : m'.failures = m.failures) (hpmm : m'.pmm = m.pmm)
    (hpaths : tablePaths root m'.toCore = tablePaths root m.toCore) : Tallied n fails root D m' := by
  refine ⟨hsame.trans h.failures, hpaths.trans h.paths, ?_, ?_⟩
  · rw [hpaths]
    exact h.budget.finite
  · rw [hpmm, hpaths]
    exact h.budget.total

theorem Tallied.finite (h : Tallied n fails root D m) : D.Finite := by
  rw [← h.paths]
  exact h.budget.finite

theorem Tallied.counted (h : Tallied n fails root D m) : Counted n fails root D m := ⟨h.finite, Or.inr h⟩

theorem Tallied.enough (h : Tallied n fails root D m) : D.ncard ≤ n := by
  rw [← h.budget.total, h.paths]
  exact Nat.le_add_left _ _

theorem Counted.few (h : Counted n fails root D m) (hfailed : fails < m.failures) : n < D.ncard := by
  rcases h.2 with ⟨-, hfew⟩ | h
  · exact hfew
  · exact absurd h.failures (Nat.ne_of_gt hfailed)

theorem Counted.enough (h : Counted n fails root D m) (hsame : m.failures = fails) : D.ncard ≤ n := by
  rcases h.2 with ⟨hfailed, -⟩ | h
  · exact absurd hsame (Nat.ne_of_gt hfailed)
  · exact h.enough

/-- After a failure nothing more needs to be known. -/
theorem Counted.failed (h : Counted n fails root D m) (hfailed : fails < m.failures) (hmono : m.failures ≤ m'.failures)
    (hD : D ⊆ D') (hD' : D'.Finite) : Counted n fails root D' m' :=
  ⟨hD', Or.inl ⟨Nat.lt_of_lt_of_le hfailed hmono,
    Nat.lt_of_lt_of_le (h.few hfailed) (Set.ncard_le_ncard hD hD')⟩⟩

end

/-! ## The direct map -/

/-- The root, and the PDPTs of the first `k` GiB of the direct map. -/
def directTables (k : Nat) : Set (List (Fin 512)) :=
  {q | q = [] ∨ ∃ j < k, q = [vaIndex (BitVec.ofNat 64 (j * 2 ^ 30) + hhdmOffset) 39]}

theorem directTables_zero : directTables 0 = {[]} := by
  ext q
  simp [directTables]

theorem directTables_succ (k : Nat) : directTables (k + 1) =
    insert [vaIndex (BitVec.ofNat 64 (k * 2 ^ 30) + hhdmOffset) 39] (directTables k) := by
  ext q
  simp only [directTables, Set.mem_ofPred_eq, Set.mem_insert_iff, Nat.lt_succ_iff_lt_or_eq]
  constructor
  · rintro (rfl | ⟨j, hj | rfl, rfl⟩)
    · exact Or.inr (Or.inl rfl)
    · exact Or.inr (Or.inr ⟨j, hj, rfl⟩)
    · exact Or.inl rfl
  · rintro (rfl | rfl | ⟨j, hj, rfl⟩)
    · exact Or.inr ⟨k, Or.inr rfl, rfl⟩
    · exact Or.inl rfl
    · exact Or.inr ⟨j, Or.inl hj, rfl⟩

theorem directTables_ncard_le (k : Nat) : (directTables k).ncard ≤ k + 1 := by
  induction k with
  | zero => rw [directTables_zero, Set.ncard_singleton]
  | succ k ih =>
      rw [directTables_succ]
      exact (Set.ncard_insert_le _ _).trans (Nat.succ_le_succ ih)

theorem directTables_mono {j k : Nat} (h : j ≤ k) : directTables j ⊆ directTables k := by
  rintro q (rfl | ⟨i, hi, rfl⟩)
  · exact Or.inl rfl
  · exact Or.inr ⟨i, Nat.lt_of_lt_of_le hi h, rfl⟩

theorem directTables_finite (k : Nat) : (directTables k).Finite := by
  induction k with
  | zero =>
      refine (Set.finite_singleton []).subset ?_
      rintro q (rfl | ⟨j, hj, -⟩)
      · exact Set.mem_singleton _
      · exact absurd hj (Nat.not_lt_zero _)
  | succ k ih =>
      rw [directTables_succ]
      exact ih.insert _

section
variable {c₀ : Core} {n fails root k : Nat} {m m' : Machine} {fuel : Nat} {r : Bool}

/-- Writing a leaf of the direct map adds no table. -/
theorem Tallied.writeHuge {D : Set (List (Fin 512))} {va paddr flags : BitVec 64} (h : Tallied n fails root D m)
    (htree : HhdmTree c₀ root k m.toCore) (hpres : tableEntry m.mem root (vaIndex va 39) &&& pagePresent ≠ 0) :
    Tallied n fails root D (m.writeHuge root va paddr flags) := by
  have hdesc := htree.descend_root hpres
  refine h.congr ?_ rfl (htree.tree.setEntry_nodePaths hdesc (htree.pdpt_ne_node hdesc) ?_)
  · rw [Machine.writeHuge, Machine.failures_setEntry, Machine.failures_emit (by simp),
      Machine.failures_readEntry]
  · exact fun f hs => hugeEntry_ps _ _ (entrySlot_eq_node.mp hs).2.2.1

theorem vmmPage1gbMapOffline_tallied {p : BitVec 64} (flags : BitVec 64) (htree : HhdmTree c₀ root k m.toCore)
    (hp : p.toNat = k * 2 ^ 30) (h : Tallied n fails root (directTables k) m) :
    if (vmmPage1gbMapOffline (frameAddr root) (p + hhdmOffset) p flags m).1 then
      Tallied n fails root (directTables (k + 1)) (vmmPage1gbMapOffline (frameAddr root) (p + hhdmOffset) p flags m).2
    else n < (directTables (k + 1)).ncard := by
  have hroot := htree.tree.root_lt
  have hread : Tallied n fails root (directTables k) (m.readEntry root (vaIndex (p + hhdmOffset) 39)) :=
    h.congr (m.failures_readEntry _ _) rfl rfl
  have haddr : BitVec.ofNat 64 (k * 2 ^ 30) = p := by
    rw [← hp, BitVec.ofNat_toNat, BitVec.setWidth_eq]
  rw [directTables_succ, haddr]
  by_cases hpres : tableEntry m.mem root (vaIndex (p + hhdmOffset) 39) &&& pagePresent = 0
  · have hempty : slots m.mem 0 root (vaIndex (p + hhdmOffset) 39) = .empty := entrySlot_empty hpres
    rcases vmmPage1gbMapOffline_absent (p + hhdmOffset) p flags
      (show root < 2 ^ 51 by omega) hpres with ⟨hfull, heq⟩ | ⟨g, htaken, heq⟩
    · rw [heq, if_neg Bool.false_ne_true]
      refine h.budget.exhausted (q := [vaIndex (p + hhdmOffset) 39]) hfull (h.finite.insert _) ?_
        (Set.mem_insert _ _) ?_
      · rw [h.paths]
        exact Set.subset_insert _ _
      · rintro ⟨f, hf⟩
        simp only [descend, hempty] at hf
        cases hf
    · rw [heq, if_pos rfl]
      have hlinked := htree.tree.link (p := []) rfl (by decide) hempty htaken.free htaken.lt
      have hstep : LinkStep root m.toCore _ := .mk (p := []) rfl (by decide) hempty htaken.free htaken.lt
      have hnew : Tallied n fails root (insert [vaIndex (p + hhdmOffset) 39] (directTables k))
          ((m.readEntry root (vaIndex (p + hhdmOffset) 39)).createTable root (vaIndex (p + hhdmOffset) 39) g) := by
        refine ⟨?_, ?_, h.budget.link htree.tree hstep⟩
        · rw [Machine.failures_createTable, Machine.failures_readEntry, h.failures]
        · rw [← h.paths]
          exact hlinked.nodePaths
      have hentry : tableEntry ((m.readEntry root (vaIndex (p + hhdmOffset) 39)).createTable root
          (vaIndex (p + hhdmOffset) 39) g).mem root (vaIndex (p + hhdmOffset) 39) = linkEntry g :=
        tableEntry_store64_same _ _ _ _
      have htree' : HhdmTree c₀ root k ((m.readEntry root (vaIndex (p + hhdmOffset) 39)).createTable root
          (vaIndex (p + hhdmOffset) 39) g).toCore := htree.link hempty htaken.free htaken.lt
      exact hnew.writeHuge htree' (hentry.symm ▸ linkEntry_present g)
  · have hmem : [vaIndex (p + hhdmOffset) 39] ∈ directTables k := by
      rw [← h.paths]
      exact ⟨_, htree.descend_root hpres⟩
    rw [vmmPage1gbMapOffline_present (show root < 2 ^ 51 by omega) hpres, if_pos rfl,
      Set.insert_eq_of_mem hmem]
    exact hread.writeHuge htree hpres

theorem vmmHhdmCreate_tallied (htree : HhdmTree c₀ root 0 m.toCore)
    (hceil : (pmmHighestAddressGet m.pmm).toNat ≤ 2 ^ 48) (h : Tallied n fails root (directTables 0) m)
    (hloop : vmmHhdmCreate fuel (frameAddr root) m = some (r, m')) :
    if r then Tallied n fails root (directTables (gibCount (pmmHighestAddressGet m.pmm))) m'
    else n < (directTables (gibCount (pmmHighestAddressGet m.pmm))).ncard := by
  rw [vmmHhdmCreate] at hloop
  generalize pmmHighestAddressGet m.pmm = c at hceil hloop ⊢
  have hzero : (0 : BitVec 64).toNat = 0 := rfl
  refine Loop.forStep_rule_of_eq
    (fun p (s : Machine) => (HhdmTree c₀ root (p / 2 ^ 30) s.toCore ∧
      Tallied n fails root (directTables (p / 2 ^ 30)) s) ∧ p % 2 ^ 30 = 0 ∧ p < c.toNat + 2 ^ 30)
    (fun r (s : Machine) => if r then Tallied n fails root (directTables (gibCount c)) s
      else n < (directTables (gibCount c)).ncard)
    (by rw [gibSize_toNat]; omega) (by rw [gibSize_toNat]; omega) ?_ ?_
    ⟨⟨by rw [hzero]; exact htree, by rw [hzero]; exact h⟩, by omega, by omega⟩ hloop
  · rintro p s hlt ⟨⟨hs, htally⟩, hmod, -⟩
    have hlt' := BitVec.lt_def.mp hlt
    have hnext : (p.toNat + 2 ^ 30) / 2 ^ 30 = p.toNat / 2 ^ 30 + 1 := by omega
    obtain ⟨r, s', heq, hturn⟩ := vmmPage1gbMapOffline_step (p := p) hs (by omega) (by omega)
    have hcount := vmmPage1gbMapOffline_tallied (p := p) (pageWritable ||| pageNx) hs (by omega) htally
    rw [heq] at hcount
    rw [gibSize_toNat, heq]
    cases r with
    | false =>
        refine Nat.lt_of_lt_of_le hcount (Set.ncard_le_ncard (directTables_mono ?_) (directTables_finite _))
        rw [gibCount]
        omega
    | true =>
        refine ⟨⟨hnext ▸ hturn.1, hnext ▸ hcount⟩, by omega, by omega⟩
  · rintro p s hge ⟨⟨-, htally⟩, hmod, hlt⟩
    have hcount : p / 2 ^ 30 = gibCount c := by
      rw [gibCount]
      omega
    exact hcount ▸ htally

end

/-! ## One page of `vmm_kernel_map` -/

section
variable {n fails root : Nat} {D : Set (List (Fin 512))} {m m' : Machine} {va : BitVec 64}

theorem Descent.failures_eq {create : Bool} {shifts : List Nat} {s t : Nat}
    (hd : Descent create va shifts s m t m') : m'.failures = m.failures := by
  induction hd with
  | here => rfl
  | follow _ _ ih => rw [ih, Machine.failures_emit (by simp), Machine.failures_readEntry]
  | enter _ _ _ _ ih =>
      rw [ih, Machine.enterNew, Machine.failures_emit (by simp), Machine.failures_createTable,
        Machine.failures_readEntry]

theorem branch_finite (p q : List (Fin 512)) : (branch p q).Finite := by
  induction q generalizing p with
  | nil =>
      rw [branch_nil]
      exact Set.finite_singleton p
  | cons i q ih =>
      rw [branch_cons]
      exact (ih _).insert p

theorem branch_mono {p q q' : List (Fin 512)} (h : q <+: q') : branch p q ⊆ branch p q' := by
  rintro s ⟨t, ht, rfl⟩
  exact ⟨t, ht.trans h, rfl⟩

theorem vmmPageMapInternal_counted {c₀ : Core} {k : Nat} {S : Set Nat} (paddr flags : BitVec 64)
    (hzero : c₀.pmm.used 0 = true) (hlow : pageNumber va < 2 ^ 35)
    (hboot : OrFailed fails (BootTree c₀ root k S) m) (h : Counted n fails root D m) :
    Counted n fails root (D ∪ branch [] (ptPath va))
      (vmmPageMapInternal (frameAddr root) va paddr flags m) := by
  have hfin : (D ∪ branch [] (ptPath va)).Finite := h.1.union (branch_finite _ _)
  have hfails := vmmPageMapInternal_failures (frameAddr root) va paddr flags m
  rcases h.2 with ⟨hfailed, -⟩ | ⟨hsame, rfl, hb⟩
  · refine h.failed hfailed ?_ Set.subset_union_left hfin
    rw [hfails]
    exact vmmPteGetOfflineLoop_failures _ _ _ _ _
  · replace hboot : BootTree c₀ root k S m.toCore := hboot.elim (fun hlt => by omega) And.right
    have ht := hboot.tree
    have hps := hboot.walksToPt hlow
    have hroot := ht.root_lt
    rcases vmmPteGetOfflineLoop_descent va (levelsShift.take 3) m (show root < 2 ^ 51 by omega) with
      ⟨hfail, above, shift, below, t, m₁, hsplit, hd, habs, hfull⟩ | ⟨t, m₁, heq, hd⟩
    · -- the frames run out at a table that the page needs
      have hpt : ptPath va = above.map (vaIndex va) ++ vaIndex va shift :: below.map (vaIndex va) := by
        rw [ptPath, hsplit, List.map_append, List.map_cons]
      have hlen := congrArg List.length hsplit
      simp only [List.length_take, List.length_append, List.length_cons, levelsShift,
        List.length_nil] at hlen
      obtain ⟨⟨hgrow, -, hend⟩, hpaths⟩ :=
        hd.grow_paths [] (vaIndex va shift :: below.map (vaIndex va) ++ [vaIndex va 12])
        ht rfl hps (by rw [vaPath_eq_ptPath, hpt]; simp) (by simp only [List.length_nil]; omega)
      have hempty : slots m₁.mem (0 + (above.map (vaIndex va)).length) t (vaIndex va shift) = .empty :=
        entrySlot_empty habs
      refine ⟨hfin, Or.inl ⟨by rw [hfails]; omega, ?_⟩⟩
      refine (hb.grow ht hgrow).exhausted hfull hfin ?_
        (q := above.map (vaIndex va) ++ [vaIndex va shift]) ?_ ?_
      · rw [tablePaths, hpaths]
        exact Set.union_subset_union_right _ (branch_mono (hpt ▸ List.prefix_append _ _))
      · refine Or.inr (mem_branch_nil.mpr ?_)
        rw [hpt]
        simp
      · rintro ⟨f, hf⟩
        rw [List.nil_append] at hend
        rw [descend_snoc_of_not_node hend fun _ => by rw [hempty]; simp] at hf
        cases hf
    · obtain ⟨⟨hgrow, -, hend⟩, hpaths⟩ := hd.grow_paths [] [vaIndex va 12] ht rfl hps rfl (by decide)
      have hboot₁ := hboot.grow hgrow
      have hlt := hboot₁.tree.reaches_lt ⟨_, hend⟩
      have hcounted : Tallied n fails root (tablePaths root m.toCore ∪ branch [] (ptPath va)) m₁ :=
        ⟨hd.failures_eq.trans hsame, hpaths, hb.grow ht hgrow⟩
      rw [vmmPageMapInternal_of_walk paddr flags heq (by omega) (hboot₁.pt_ne_zero hzero hend)]
      exact (hcounted.congr m₁.failures_setEntry rfl (hboot₁.tree.setEntry_nodePaths hend
        (entrySlot_pt_ne_node (ptPath_length va) _) (entrySlot_pt_ne_node (ptPath_length va) _))).counted

end

/-! ## `vmm_init` -/

/-- The tables on the way to the pages `S`. -/
def identityTables (S : Set Nat) : Set (List (Fin 512)) := {q | ∃ f ∈ S, q <+: ptPath (frameAddr f)}

/-- Every table that `vmm_init` needs: the root, the PDPTs of the direct map, and the tables on the way to
the identity pages. -/
def bootTables (env : BootEnv) (ceiling : BitVec 64) : Set (List (Fin 512)) :=
  directTables (gibCount ceiling) ∪ identityTables env.identityPages

theorem identityTables_empty : identityTables ∅ = ∅ := by
  ext q
  simp [identityTables]

theorem identityTables_insert (f : Nat) (S : Set Nat) :
    identityTables (insert f S) = identityTables S ∪ branch [] (ptPath (frameAddr f)) := by
  ext q
  simp only [identityTables, Set.mem_ofPred_eq, Set.mem_insert_iff, Set.mem_union, mem_branch_nil,
    exists_eq_or_imp]
  exact Or.comm

section
variable {fuel root : Nat} {env : BootEnv} {m m₁ : Machine} {r : Bool}

theorem Tallied.start (htaken : Machine.Taken m.pmm root) (hcore : m₁.toCore = rootCore m.toCore root)
    (hsame : m₁.failures = m.failures) :
    Tallied (spareFrames m.pmm).ncard m.failures root (directTables 0) m₁ := by
  have hpaths : tablePaths root m₁.toCore = directTables 0 := by
    ext q
    rw [hcore, directTables_zero, Set.mem_singleton_iff]
    constructor
    · rintro ⟨f, hf⟩
      exact ((rootCore_descend htaken).mp hf).1
    · rintro rfl
      exact ⟨root, rfl⟩
  refine ⟨hsame, hpaths, ?_, ?_⟩
  · rw [hpaths]
    exact directTables_finite 0
  · rw [hpaths, directTables_zero, Set.ncard_singleton, hcore]
    exact spareFrames_set_ncard htaken.lt htaken.free

/-- The direct map has the tables that its addresses need, and no others. -/
theorem vmmHhdmCreate_tables (htaken : Machine.Taken m.pmm root) (hcore : m₁.toCore = rootCore m.toCore root)
    (hceil : (pmmHighestAddressGet m.pmm).toNat ≤ 2 ^ 48) {m₂ : Machine}
    (hrun : vmmHhdmCreate fuel (frameAddr root) m₁ = some (true, m₂)) :
    tablePaths root m₂.toCore = directTables (gibCount (pmmHighestAddressGet m.pmm)) := by
  have hceil₁ : pmmHighestAddressGet m₁.pmm = pmmHighestAddressGet m.pmm := by
    rw [hcore, rootCore_ceiling]
  have hstart : HhdmTree (rootCore m.toCore root) root 0 m₁.toCore := by
    rw [hcore]
    exact HhdmTree.start htaken
  have htally := vmmHhdmCreate_tallied hstart (by rw [hceil₁]; exact hceil)
    (Tallied.start (m := { m with trace := m₁.trace }) htaken hcore rfl) hrun
  rw [if_pos rfl, hceil₁] at htally
  exact htally.paths

theorem vmmKernelMap_counted {n fails k : Nat} {c₀ : Core} (hlow : env.Low) (hfuel : 2 ^ 64 ≤ fuel)
    (hzero : c₀.pmm.used 0 = true) (hboot : BootTree c₀ root k ∅ m.toCore)
    (h : Tallied n fails root (directTables k) m) :
    ∃ m', vmmKernelMap fuel env (frameAddr root) m = some m' ∧
      Counted n fails root (directTables k ∪ identityTables env.identityPages) m' := by
  have hstart : OrFailed fails (BootTree c₀ root k ∅) m ∧
      Counted n fails root (directTables k ∪ identityTables ∅) m := by
    rw [identityTables_empty, Set.union_empty]
    exact ⟨Or.inr ⟨Nat.le_of_eq h.failures.symm, hboot⟩, h.counted⟩
  obtain ⟨m', heq, -, hcounted⟩ := vmmKernelMap_rule
    (T := fun S m => OrFailed fails (BootTree c₀ root k S) m ∧
      Counted n fails root (directTables k ∪ identityTables S) m) hlow
    (by
      rintro S va m hva hpage ⟨hboot, hcounted⟩
      have haddr : frameAddr (va.toNat / 4096) = va := by
        apply BitVec.eq_of_toNat_eq
        rw [frameAddr_toNat (by omega)]
        omega
      refine ⟨vmmPageMapInternal_step va hzero hboot hva hpage, ?_⟩
      rw [identityTables_insert, haddr, ← Set.union_assoc]
      exact vmmPageMapInternal_counted va pageWritable hzero (by rw [pageNumber]; omega) hboot hcounted)
    hstart hfuel
  exact ⟨m', heq, hcounted⟩

/-- `vmm_kernel_map` is not entered, for want of frames for the direct map, or it is entered and counts
against the tables needed. -/
theorem vmmInit_entered (hlow : env.Low) (hceil : (pmmHighestAddressGet m.pmm).toNat ≤ 2 ^ 47)
    (hfuel : 2 ^ 64 ≤ fuel) :
    ((m.frameAlloc.1 ≠ pmmInvalidFrame → ∀ m₁, vmmHhdmCreate fuel m.frameAlloc.1
        (zero .identity m.frameAlloc.1 4096 m.frameAlloc.2) ≠ some (true, m₁)) ∧
      (spareFrames m.pmm).ncard < (directTables (gibCount (pmmHighestAddressGet m.pmm))).ncard) ∨
    ∃ m₁ m₂, m.frameAlloc.1 ≠ pmmInvalidFrame ∧
      vmmHhdmCreate fuel m.frameAlloc.1 (zero .identity m.frameAlloc.1 4096 m.frameAlloc.2) =
        some (true, m₁) ∧
      vmmKernelMap fuel env m.frameAlloc.1 m₁ = some m₂ ∧
      (directTables (gibCount (pmmHighestAddressGet m.pmm))).ncard ≤ (spareFrames m.pmm).ncard ∧
      Counted (spareFrames m.pmm).ncard m₁.failures (entryFrame m.frameAlloc.1)
        (bootTables env (pmmHighestAddressGet m.pmm)) m₂ := by
  rcases frameAlloc_root m with ⟨hfail, hfull⟩ | ⟨root, htaken, hroot, hclear⟩
  · refine Or.inl ⟨fun hne => absurd (by rw [hfail]) hne, ?_⟩
    have hspare : spareFrames m.pmm = ∅ := spareFrames_full hfull
    rw [hspare, Set.ncard_empty]
    exact (Set.ncard_pos (directTables_finite _)).mpr ⟨[], Or.inl rfl⟩
  · have hlt := htaken.lt
    have hceil' : pmmHighestAddressGet (m.takeRoot root).pmm = pmmHighestAddressGet m.pmm :=
      rootCore_ceiling m.toCore root
    have hstart : HhdmTree (rootCore m.toCore root) root 0 (m.takeRoot root).toCore := HhdmTree.start htaken
    have hceil₁ : (pmmHighestAddressGet (m.takeRoot root).pmm).toNat ≤ 2 ^ 48 := by
      rw [hceil']
      omega
    obtain ⟨r, m₁, hhhdm, hpost⟩ := vmmHhdmCreate_spec hstart hceil₁ hfuel
    have htally := vmmHhdmCreate_tallied hstart hceil₁
      (Tallied.start htaken rfl (m.failures_takeRoot root)) hhhdm
    rw [hceil'] at hpost htally
    rw [hclear, hroot]
    cases r with
    | false =>
        refine Or.inl ⟨fun _ m' heq => ?_, htally⟩
        rw [hhhdm] at heq
        cases heq
    | true =>
        have hk : gibCount (pmmHighestAddressGet m.pmm) ≤ 2 ^ 17 := by
          rw [gibCount]
          omega
        obtain ⟨m₂, hkernel, hcount⟩ := vmmKernelMap_counted hlow hfuel (rootCore_used_zero htaken)
          (hpost.1.boot hk) htally
        have hfails : m₁.failures = m.failures := htally.failures
        rw [← hfails] at hcount
        refine Or.inr ⟨m₁, m₂, frameAddr_ne_invalid root, hhhdm, hkernel, htally.enough, ?_⟩
        rw [entryFrame_frameAddr (by omega)]
        exact hcount

/-- With a ceiling of at most 2^47, no allocation of `vmm_kernel_map` fails exactly if the free frames are
too few for the direct map or enough for all tables. -/
theorem kernelMapRoomy_iff (hlow : env.Low) (hceil : (pmmHighestAddressGet m.pmm).toNat ≤ 2 ^ 47)
    (hfuel : 2 ^ 64 ≤ fuel) :
    KernelMapRoomy fuel env m ↔
      (spareFrames m.pmm).ncard < (directTables (gibCount (pmmHighestAddressGet m.pmm))).ncard ∨
        (bootTables env (pmmHighestAddressGet m.pmm)).ncard ≤ (spareFrames m.pmm).ncard := by
  rcases vmmInit_entered hlow hceil hfuel with ⟨hnever, hfew⟩ | ⟨m₁, m₂, halloc, hhhdm, hkernel, henough, hcount⟩
  · exact iff_of_true (fun m₁ m₂ halloc hhhdm _ => absurd hhhdm (hnever halloc m₁)) (Or.inl hfew)
  · constructor
    · intro hroomy
      exact Or.inr (hcount.enough (hroomy m₁ m₂ halloc hhhdm hkernel))
    · rintro (hfew | hall) m₁' m₂' - hhhdm' hkernel'
      · omega
      · rw [hhhdm] at hhhdm'
        cases hhhdm'
        rw [hkernel] at hkernel'
        cases hkernel'
        rcases hcount.2 with ⟨-, hfew⟩ | htally
        · exact absurd hall (Nat.not_le_of_lt hfew)
        · exact htally.failures

end

end BootKernel
