import BootKernel.Pmm.Entries
import BootKernel.Vmm.Demand
import BootKernel.Vmm.Lemmas.Room
import BootKernel.Vmm.Ownership
import BootKernel.Vmm.Pool
import Mathlib.Data.Set.Finite.List

/-!
# Allocations of a page that fail

`vmm_page_alloc` takes the frame of the page before the frames of the tables, and gives nothing back when
the tables cannot be had. What a failed call leaves behind is told from the free frames and the tables
that are missing.
-/

namespace BootKernel

open Radix

variable {ceiling va flags paddr : BitVec 64} {root g n t : Nat} {c c' : Core} {m m₁ : Machine}

/-- The tables that are missing on the way to a page. -/
def missingTables (mem : Memory) (root : Nat) (va : BitVec 64) : Set (List (Fin 512)) :=
  branch [] (ptPath va) \ nodePaths (slots mem) root

/-! ## The tables that are needed -/

theorem descend_length {mem : Memory} {q : List (Fin 512)} {f : Nat}
    (h : descend (slots mem) 0 root q = some f) : q.length ≤ 3 := by
  rcases List.eq_nil_or_concat q with rfl | ⟨q, i, rfl⟩
  · exact Nat.zero_le 3
  · obtain ⟨n, -, hs⟩ := descend_snoc.mp (by simpa using h)
    have hdepth := (entrySlot_eq_node.mp hs).2.1
    simp only [List.concat_eq_append, List.length_append, List.length_singleton]
    omega

theorem nodePaths_finite (mem : Memory) (root : Nat) : (nodePaths (slots mem) root).Finite := by
  refine (List.finite_length_le (Fin 512) 3).subset ?_
  rintro q ⟨f, hf⟩
  exact descend_length hf

theorem missingTables_finite (mem : Memory) (root : Nat) (va : BitVec 64) :
    (missingTables mem root va).Finite := (branch_finite _ _).subset Set.sdiff_subset

/-- The tables of the tree and the missing ones together. -/
theorem missingTables_add (mem : Memory) (root : Nat) (va : BitVec 64) :
    (missingTables mem root va).ncard + (nodePaths (slots mem) root).ncard =
      (nodePaths (slots mem) root ∪ branch [] (ptPath va)).ncard := by
  rw [Set.union_comm]
  exact Set.ncard_sdiff_add_ncard _ _ (branch_finite _ _) (nodePaths_finite mem root)

/-- Where a descent gets stuck, a table of the page is missing. -/
theorem Descent.missing {above below : List Nat} {shift : Nat} (ht : PageTree m.toCore root)
    (hps : WalksToPt m.mem root va) (hsplit : levelsShift.take 3 = above ++ shift :: below)
    (hd : Descent true va above root m t m₁)
    (habs : tableEntry m₁.mem t (vaIndex va shift) &&& pagePresent = 0) :
    Grow root m.toCore m₁.toCore ∧
      tablePaths root m₁.toCore ⊆ tablePaths root m.toCore ∪ branch [] (ptPath va) ∧
      ∃ q ∈ branch [] (ptPath va), q ∉ tablePaths root m₁.toCore := by
  have hpt : ptPath va = above.map (vaIndex va) ++ vaIndex va shift :: below.map (vaIndex va) := by
    rw [ptPath, hsplit, List.map_append, List.map_cons]
  have hlen := congrArg List.length hsplit
  simp only [List.length_take, List.length_append, List.length_cons, levelsShift,
    List.length_nil] at hlen
  obtain ⟨⟨hgrow, -, hend⟩, hpaths⟩ := hd.grow_paths []
    (vaIndex va shift :: below.map (vaIndex va) ++ [vaIndex va 12]) ht rfl hps
    (by rw [vaPath_eq_ptPath, hpt]; simp) (by simp only [List.length_nil]; omega)
  have hempty : slots m₁.mem (0 + (above.map (vaIndex va)).length) t (vaIndex va shift) = .empty :=
    entrySlot_empty habs
  refine ⟨hgrow, ?_, above.map (vaIndex va) ++ [vaIndex va shift], ?_, ?_⟩
  · rw [tablePaths, hpaths]
    exact Set.union_subset_union_right _ (branch_mono (hpt ▸ List.prefix_append _ _))
  · rw [mem_branch_nil, hpt]
    simp
  · rintro ⟨f, hf⟩
    rw [List.nil_append] at hend
    rw [descend_snoc_of_not_node hend fun _ => by rw [hempty]; simp] at hf
    cases hf

/-- `vmm_page_map` succeeds just when there is a frame for each missing table. -/
theorem vmmPageMap_succeeds_iff (paddr flags : BitVec 64) (ht : PageTree m.toCore root)
    (hlow : LowTables root m.toCore) (hps : WalksToPt m.mem root va) :
    (vmmPageMap (frameAddr root) va paddr flags m).1 = true ↔
      (missingTables m.mem root va).ncard ≤ (spareFrames m.pmm).ncard := by
  have hroot := ht.root_lt
  have hsum := missingTables_add m.mem root va
  have hbudget : Budget ((spareFrames m.pmm).ncard + (nodePaths (slots m.mem) root).ncard) root
      m.toCore := ⟨nodePaths_finite m.mem root, rfl⟩
  rcases vmmPteGetLoop_descent true va (levelsShift.take 3) m (show root < 2 ^ 51 by omega) with
    ⟨t, m', heq, hd⟩ | ⟨above, shift, below, t, m₁, m', hsplit, hd, habs, hstuck, heq⟩
  · obtain ⟨⟨hgrow, -, hend⟩, hpaths⟩ := hd.grow_paths [] [vaIndex va 12] ht rfl hps rfl (by decide)
    have hlt := hlow.grow ht hgrow t ⟨_, hend⟩
    have hget : vmmPteGet (frameAddr root) va true m =
        (entryPtr (Window.hhdm.base (frameAddr t)) ((va >>> 12) &&& 0x1FF), m') := by
      rw [vmmPteGet, heq]
      rfl
    have htotal : (spareFrames m'.pmm).ncard + (nodePaths (slots m'.mem) root).ncard =
        (spareFrames m.pmm).ncard + (nodePaths (slots m.mem) root).ncard := (hbudget.grow ht hgrow).total
    have hunion : nodePaths (slots m'.mem) root =
        nodePaths (slots m.mem) root ∪ branch [] (ptPath va) := hpaths
    have henough : (missingTables m.mem root va).ncard ≤ (spareFrames m.pmm).ncard := by
      rw [hunion, ← hsum] at htotal
      omega
    simp only [vmmPageMap, hget, if_neg (hhdm_entryPtr_ne_zero hlt va)]
    exact iff_of_true trivial henough
  · obtain ⟨hgrow, hsub, q, hq, hnot⟩ := Descent.missing ht hps hsplit hd habs
    have hfull : ∀ f < 2 ^ 30, m₁.pmm.used f = true := by
      cases hstuck with
      | absent hcreate => cases hcreate
      | full _ hfull => exact hfull
    have hfew := (hbudget.grow ht hgrow).exhausted hfull
      ((nodePaths_finite m.mem root).union (branch_finite _ _)) hsub (Or.inr hq) hnot
    have hget : vmmPteGet (frameAddr root) va true m = (0, m') := by
      rw [vmmPteGet, heq]
    simp only [vmmPageMap, hget, if_pos]
    refine iff_of_false (by simp) fun henough => ?_
    rw [← hsum] at hfew
    exact absurd henough (by omega)

/-! ## The frame of the page -/

/-- A frame in use that is no table becomes none. -/
theorem Grow.not_table (hgrow : Grow root c c') (ht : PageTree c root) (hused : c.pmm.used g = true)
    (hg : ¬ Reaches (slots c.mem) root g) :
    c'.pmm.used g = true ∧ ¬ Reaches (slots c'.mem) root g := by
  induction hgrow with
  | refl => exact ⟨hused, hg⟩
  | tail hprev hstep ih =>
      cases hstep with
      | @mk p n i g' hp hlen hempty hfree hg' =>
          obtain ⟨hused₁, hnot₁⟩ := ih
          have hlink := (ht.grow hprev).tree.link hp hlen hempty hfree hg'
          refine ⟨?_, ?_⟩
          · rw [used_set (by omega), hused₁, Bool.or_true]
          · rintro ⟨q, hq⟩
            rcases (hlink.descend q g).mp hq with hq | ⟨-, rfl⟩
            · exact hnot₁ ⟨q, hq⟩
            · rw [hused₁] at hfree
              cases hfree

/-- `vmm_page_map` makes no table of a frame in use. -/
theorem vmmPageMap_not_table (paddr flags : BitVec 64) (ht : PageTree m.toCore root)
    (hps : WalksToPt m.mem root va) (hused : m.pmm.used g = true)
    (hg : ¬ Reaches (slots m.mem) root g) :
    (vmmPageMap (frameAddr root) va paddr flags m).2.cr3 = m.cr3 ∧
      (vmmPageMap (frameAddr root) va paddr flags m).2.pmm.used g = true ∧
      ¬ Reaches (slots (vmmPageMap (frameAddr root) va paddr flags m).2.mem) root g := by
  obtain ⟨m₁, hgrow, hcr3, hmap⟩ := vmmPageMap_cases paddr flags ht hps
  obtain ⟨hused₁, hnot₁⟩ := hgrow.not_table ht hused hg
  rcases hmap with heq | ⟨t, hend, heq⟩
  · rw [heq]
    exact ⟨hcr3, hused₁, hnot₁⟩
  · rw [heq]
    refine ⟨hcr3, hused₁, fun h => hnot₁ ?_⟩
    exact ((ht.grow hgrow).tree.setPage_reaches hend (pageEntry paddr flags)).mp h

/-! ## Failed calls -/

/-- A tree of the kernel: its tables are frames of the allocator, and no walk outside the direct map
meets a large page. -/
structure KernelTree (ceiling : BitVec 64) (root : Nat) (c : Core) : Prop where
  tree : PageTree c root
  low : LowTables root c
  small : ∀ va, OutsideHhdm ceiling va → WalksToPt c.mem root va

/-- If the call returns `NULL`, every frame that was free is still free or is a table of the tree. -/
def NullKeepsFrames (m : Machine) (va flags : BitVec 64) : Prop :=
  (vmmPageAlloc va flags m).1 = 0 → ∀ f ∈ spareFrames m.pmm,
    f ∈ spareFrames (vmmPageAlloc va flags m).2.pmm ∨
      Reaches (slots (vmmPageAlloc va flags m).2.mem) (rootFrame (vmmPageAlloc va flags m).2) f

/-- A call that returns `NULL` keeps the frames just when it finds no frame for the page, or when there
are frames for the page and for all of its tables, and the page is not that of the null pointer. -/
theorem nullKeepsFrames_iff (m : Machine) (ceiling va flags : BitVec 64)
    (h : KernelTree ceiling (rootFrame m) m.toCore) (hva : OutsideHhdm ceiling va) :
    NullKeepsFrames m va flags ↔
      spareFrames m.pmm = ∅ ∨
        va ≠ 0 ∧ (missingTables m.mem (rootFrame m) va).ncard < (spareFrames m.pmm).ncard := by
  rcases vmmPageAlloc_cases va flags m with ⟨-, hfull⟩ | ⟨g, m₁, htaken, -, hcr3₁, hcore, hcall⟩
  · have hempty := spareFrames_full hfull
    refine iff_of_true (fun _ f hf => ?_) (Or.inl hempty)
    rw [hempty] at hf
    exact absurd hf (Set.notMem_empty f)
  · have hlt := htaken.lt
    have hmem : g ∈ spareFrames m.pmm := ⟨hlt, htaken.free⟩
    have hcount := spareFrames_set_ncard hlt htaken.free
    have hroot : rootFrame m₁ = rootFrame m := congrArg entryFrame hcr3₁
    have htree := h.tree.taken htaken
    rw [← hcore] at htree
    have hlow : LowTables (rootFrame m) m₁.toCore := by
      rw [hcore]
      exact h.low
    have hps : WalksToPt m₁.mem (rootFrame m) va := by
      rw [hcore]
      exact h.small va hva
    have hmap := vmmPageMap_succeeds_iff (frameAddr g) flags htree hlow hps
    obtain ⟨hcr3, hgused, hgnot⟩ := vmmPageMap_not_table (g := g) (frameAddr g) flags htree hps
      (by rw [hcore, used_set (by omega)]; simp)
      (by rw [hcore]; exact h.tree.fresh htaken.free)
    have henough : (missingTables m₁.mem (rootFrame m) va).ncard ≤ (spareFrames m₁.pmm).ncard ↔
        (missingTables m.mem (rootFrame m) va).ncard < (spareFrames m.pmm).ncard := by
      rw [hcore, ← hcount]
      exact Nat.lt_succ_iff.symm
    -- the frame of the page is lost whenever the call returns `NULL`
    have hlost : NullKeepsFrames m va flags ↔ (vmmPageAlloc va flags m).1 ≠ 0 := by
      constructor
      · intro hkeeps hnull
        rcases hkeeps hnull g hmem with ⟨-, hfree⟩ | htable
        · rw [hcall, hgused] at hfree
          cases hfree
        · rw [hcall] at htable
          have hsame : rootFrame
              (vmmPageMap (frameAddr (rootFrame m)) va (frameAddr g) flags m₁).2 = rootFrame m :=
            (congrArg entryFrame hcr3).trans hroot
          simp only [hsame] at htable
          exact hgnot htable
      · exact fun hne hnull => absurd hnull hne
    rw [hlost, hcall, or_iff_right (Set.nonempty_iff_ne_empty.mp ⟨g, hmem⟩), ← henough, ← hmap]
    cases (vmmPageMap (frameAddr (rootFrame m)) va (frameAddr g) flags m₁).1 with
    | false => simp
    | true => simp

/-! ## The last frame -/

/-- A machine whose tree is one cleared table. -/
def zeroTree (p : Pmm) : Machine where
  mem := fun _ => 0
  pmm := p
  cr3 := frameAddr 0x4000
  trace := []

theorem zeroTree_kernelTree (ceiling : BitVec 64) {p : Pmm} (hused : p.used 0x4000 = true) :
    KernelTree ceiling (rootFrame (zeroTree p)) (zeroTree p).toCore ∧
      ∀ q, q ≠ [] → descend (slots (zeroTree p).mem) 0 (rootFrame (zeroTree p)) q = none := by
  have hroot : rootFrame (zeroTree p) = 0x4000 := entryFrame_frameAddr (by decide)
  rw [hroot]
  obtain ⟨htree, hdesc, hlookup⟩ :=
    PageTree.of_zero (c := (zeroTree p).toCore) (by decide) hused fun _ => Memory.load64_zero fun _ _ _ => rfl
  refine ⟨⟨htree, ?_, fun va _ d e hwalk => ?_⟩, hdesc⟩
  · rintro f ⟨q, hq⟩
    by_cases hne : q = []
    · subst hne
      cases hq
      decide
    · rw [hdesc q hne] at hq
      cases hq
  · have hnone := hlookup (vaPath va)
    rw [walk, hnone] at hwalk
    cases hwalk

theorem nullKeepsFrames_full : NullKeepsFrames (zeroTree markedPmm) 0x1000 pageWritable := by
  refine (nullKeepsFrames_iff _ 0 0x1000 pageWritable (zeroTree_kernelTree 0 (markedPmm_used _)).1
    ⟨Or.inl (by decide), by decide⟩).mpr (Or.inl ?_)
  exact spareFrames_full fun f _ => markedPmm_used f

/-- One frame is free: the call takes it for the page, finds none for the first table, and returns
`NULL`. -/
theorem nullKeepsFrames_last : ¬ ∀ (m : Machine) (ceiling va flags : BitVec 64),
    KernelTree ceiling (rootFrame m) m.toCore → OutsideHhdm ceiling va → NullKeepsFrames m va flags := by
  intro h
  obtain ⟨p, hp⟩ : ∃ p, p = frameBitmapClear markedPmm 0x4001 := ⟨_, rfl⟩
  have hfree (f : Nat) : p.used f = false ↔ f = 0x4001 := by
    rw [hp, used_frameBitmapClear, markedPmm_used]
    simp
  have hused : p.used 0x4000 = true := by
    rw [← Bool.not_eq_false, hfree]
    decide
  have hspare : spareFrames p = {0x4001} := by
    ext f
    simp only [spareFrames, Set.mem_ofPred_eq, hfree, Set.mem_singleton_iff, and_iff_right_iff_imp]
    rintro rfl
    decide
  obtain ⟨htree, hdesc⟩ := zeroTree_kernelTree 0 hused
  have hva : OutsideHhdm 0 0x1000 := ⟨Or.inl (by decide), by decide⟩
  have hkeeps := h (zeroTree p) 0 0x1000 pageWritable htree hva
  rw [nullKeepsFrames_iff _ 0 _ _ htree hva, show spareFrames (zeroTree p).pmm = {0x4001} from hspare,
    Set.ncard_singleton, Nat.lt_one_iff, Set.ncard_eq_zero (missingTables_finite _ _ _)] at hkeeps
  rcases hkeeps with hempty | ⟨-, hnone⟩
  · exact Set.singleton_ne_empty _ hempty
  · have hmissing : [vaIndex 0x1000 39] ∈ missingTables (zeroTree p).mem (rootFrame (zeroTree p)) 0x1000 := by
      refine ⟨mem_branch_nil.mpr ⟨[vaIndex 0x1000 30, vaIndex 0x1000 21], rfl⟩, ?_⟩
      rintro ⟨f, hf⟩
      rw [hdesc _ (by simp)] at hf
      cases hf
    rw [hnone] at hmissing
    exact hmissing

end BootKernel
