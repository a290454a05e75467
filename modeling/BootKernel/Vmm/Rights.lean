import BootKernel.Boot.Reserved
import BootKernel.Vmm.Unmap

/-!
# The rights of a page

The processor allows a write or a user access only if all four entries of the walk allow it, and forbids
execution if one of them does. The links that `vmm_pte_get` writes are writable and not for the user.
-/

namespace BootKernel

open Radix

/-- All entries of the walk have the bit. -/
def WalkAllows (bit : BitVec 64) (mem : Memory) (root : Nat) (va : BitVec 64) : Prop :=
  ∀ depth e, WalkReads mem root va depth e → e &&& bit ≠ 0

/-- Some entry of the walk has the bit. -/
def WalkForbids (bit : BitVec 64) (mem : Memory) (root : Nat) (va : BitVec 64) : Prop :=
  ∃ depth e, WalkReads mem root va depth e ∧ e &&& bit ≠ 0

/-- The page is mapped with exactly the rights of the flags, where NXE is set. -/
structure RightsExact (flags : BitVec 64) (mem : Memory) (root : Nat) (va : BitVec 64) : Prop where
  mapped : ∃ e, walk mem root va = some (3, e)
  writable : WalkAllows pageWritable mem root va ↔ flags &&& pageWritable ≠ 0
  user : WalkAllows pageUser mem root va ↔ flags &&& pageUser ≠ 0
  nx : WalkForbids pageNx mem root va ↔ flags &&& pageNx ≠ 0

/-- Every link of the tree is one that `vmm_pte_get` writes. -/
def LinksBuilt (root : Nat) (c : Core) : Prop :=
  ∀ q n i f, descend (slots c.mem) 0 root q = some n → slots c.mem q.length n i = .node f →
    tableEntry c.mem n i = linkEntry f

/-! ## The links -/

section

variable {root t : Nat} {va v : BitVec 64} {c c' : Core} {m : Machine}

theorem LinksBuilt.link (h : LinksBuilt root c) (ht : PageTree c root) (hstep : LinkStep root c c') :
    LinksBuilt root c' := by
  cases hstep with
  | @mk p n i g hp hlen hempty hfree hg =>
      have hlink := ht.link hp hlen hempty hfree hg
      have hng : n ≠ g := fun h => ht.fresh hfree (h ▸ ⟨p, hp⟩)
      intro q f j f' hq hnode
      simp only [slots, linkTable] at hnode ⊢
      by_cases hslot : f = n ∧ j = i
      · obtain ⟨rfl, rfl⟩ := hslot
        rw [tableEntry_store64_same] at hnode ⊢
        rw [← (entrySlot_eq_node.mp hnode).2.2.2, entryFrame_linkEntry (by omega)]
      · rw [tableEntry_store64_ne hslot] at hnode ⊢
        rcases (hlink.descend q f).mp hq with hold | ⟨-, rfl⟩
        · have hfg : f ≠ g := fun h => ht.fresh hfree (h ▸ ⟨q, hold⟩)
          rw [tableEntry_zeroFrame_ne hfg] at hnode ⊢
          exact h q f j f' hold hnode
        · rw [tableEntry_zeroFrame_self, entrySlot_empty (by decide)] at hnode
          cases hnode

theorem LinksBuilt.grow (h : LinksBuilt root c) (ht : PageTree c root) (hgrow : Grow root c c') :
    LinksBuilt root c' := by
  induction hgrow with
  | refl => exact h
  | tail hprev hstep ih => exact ih.link (ht.grow hprev).tree hstep

theorem LinksBuilt.setPage (h : LinksBuilt root c) (ht : PageTree c root)
    (hend : descend (slots c.mem) 0 root (ptPath va) = some t) :
    LinksBuilt root { c with mem := setEntry c.mem t (vaIndex va 12) v } := by
  have hdesc := ht.setEntry_descend (i := vaIndex va 12) hend (entrySlot_pt_ne_node (ptPath_length va) _)
    (entrySlot_pt_ne_node (ptPath_length va) v)
  intro q n j f hq hnode
  rw [hdesc] at hq
  simp only [slots, setEntry] at hnode ⊢
  by_cases hslot : n = t ∧ j = vaIndex va 12
  · obtain ⟨rfl, rfl⟩ := hslot
    rw [tableEntry_store64_same] at hnode
    rw [ht.unshared q (ptPath va) n hq hend] at hnode
    exact absurd hnode (entrySlot_pt_ne_node (ptPath_length va) v f)
  · rw [tableEntry_store64_ne hslot] at hnode ⊢
    exact h q n j f hq hnode

theorem vmmPageMap_linksBuilt (paddr flags : BitVec 64) (h : LinksBuilt root m.toCore)
    (ht : PageTree m.toCore root) (hps : WalksToPt m.mem root va) :
    LinksBuilt root (vmmPageMap (frameAddr root) va paddr flags m).2.toCore := by
  obtain ⟨m₁, hgrow, -, hmap⟩ := vmmPageMap_cases paddr flags ht hps
  have h₁ := h.grow ht hgrow
  rcases hmap with heq | ⟨t, hend, heq⟩
  · rw [heq]
    exact h₁
  · rw [heq]
    exact h₁.setPage (ht.grow hgrow).tree hend

theorem linksBuilt_of_zero (hzero : ∀ i, tableEntry c.mem root i = 0)
    (hdesc : ∀ q, q ≠ [] → descend (slots c.mem) 0 root q = none) : LinksBuilt root c := by
  intro q n i f hq hnode
  by_cases hne : q = []
  · subst hne
    cases hq
    rw [slots, hzero, entrySlot_empty (by decide)] at hnode
    cases hnode
  · rw [hdesc q hne] at hq
    cases hq

/-! ## The entries of a walk -/

/-- The walk of a page reads three links and then the entry of the page. -/
theorem WalkReads.cases {depth : Nat} {e : BitVec 64} (h : LinksBuilt root c)
    (hend : descend (slots c.mem) 0 root (ptPath va) = some t) (hreads : WalkReads c.mem root va depth e) :
    (depth = 3 ∧ e = tableEntry c.mem t (vaIndex va 12)) ∨ ∃ f < 2 ^ 40, e = linkEntry f := by
  obtain ⟨q, i, rest, n, hpath, hdepth, hq, rfl⟩ := hreads
  rw [vaPath_eq_ptPath] at hpath
  rcases List.eq_nil_or_concat rest with rfl | ⟨rest', j, rfl⟩
  · obtain ⟨rfl, hi⟩ := List.append_inj' hpath rfl
    cases hi
    rw [hend] at hq
    cases hq
    exact Or.inl ⟨hdepth.symm, rfl⟩
  · rw [List.concat_eq_append, ← List.cons_append, ← List.append_assoc] at hpath
    obtain ⟨hpt, -⟩ := List.append_inj' hpath rfl
    rw [hpt, List.append_cons, descend_append] at hend
    obtain ⟨f, hf, -⟩ := Option.bind_eq_some_iff.mp hend
    obtain ⟨n', hn', hnode⟩ := descend_snoc.mp hf
    rw [hq] at hn'
    cases hn'
    rw [Nat.zero_add] at hnode
    have hlink : tableEntry c.mem n i = linkEntry f := h q n i f hq hnode
    refine Or.inr ⟨f, ?_, hlink⟩
    rw [← (entrySlot_eq_node.mp hnode).2.2.2]
    exact entryFrame_lt _

theorem walkReads_root (mem : Memory) (root : Nat) (va : BitVec 64) :
    WalkReads mem root va 0 (tableEntry mem root (vaIndex va 39)) :=
  ⟨[], vaIndex va 39, _, root, vaPath_eq va, rfl, rfl, rfl⟩

theorem walkReads_pt {mem : Memory} (hend : descend (slots mem) 0 root (ptPath va) = some t) :
    WalkReads mem root va 3 (tableEntry mem t (vaIndex va 12)) :=
  ⟨ptPath va, vaIndex va 12, [], t, vaPath_eq_ptPath va, rfl, hend, rfl⟩

/-- A right that every link grants is decided by the entry of the page. -/
theorem LinksBuilt.allows_iff {bit : BitVec 64} (h : LinksBuilt root c)
    (hend : descend (slots c.mem) 0 root (ptPath va) = some t)
    (hbit : ∀ f < 2 ^ 40, linkEntry f &&& bit ≠ 0) :
    WalkAllows bit c.mem root va ↔ tableEntry c.mem t (vaIndex va 12) &&& bit ≠ 0 := by
  refine ⟨fun hall => hall 3 _ (walkReads_pt hend), fun hleaf depth e hreads => ?_⟩
  rcases hreads.cases h hend with ⟨-, rfl⟩ | ⟨f, hf, rfl⟩
  · exact hleaf
  · exact hbit f hf

/-- A right that no link grants is lost on the way. -/
theorem LinksBuilt.not_allows {bit : BitVec 64} (h : LinksBuilt root c)
    (hend : descend (slots c.mem) 0 root (ptPath va) = some t)
    (hbit : ∀ f < 2 ^ 40, linkEntry f &&& bit = 0) : ¬ WalkAllows bit c.mem root va := by
  intro hall
  have hroot := walkReads_root c.mem root va
  have hset := hall 0 _ hroot
  rcases hroot.cases h hend with ⟨habs, -⟩ | ⟨f, hf, hlink⟩
  · cases habs
  · rw [hlink, hbit f hf] at hset
    exact hset rfl

/-- So is a ban that no link imposes. -/
theorem LinksBuilt.forbids_iff {bit : BitVec 64} (h : LinksBuilt root c)
    (hend : descend (slots c.mem) 0 root (ptPath va) = some t)
    (hbit : ∀ f < 2 ^ 40, linkEntry f &&& bit = 0) :
    WalkForbids bit c.mem root va ↔ tableEntry c.mem t (vaIndex va 12) &&& bit ≠ 0 := by
  refine ⟨?_, fun hleaf => ⟨3, _, walkReads_pt hend, hleaf⟩⟩
  rintro ⟨depth, e, hreads, hset⟩
  rcases hreads.cases h hend with ⟨-, rfl⟩ | ⟨f, hf, rfl⟩
  · exact hset
  · exact absurd (hbit f hf) hset

end

/-! ## The bits of the entries -/

section

variable {g : Nat} {bit : BitVec 64}

theorem linkEntry_writable (g : Nat) : linkEntry g &&& pageWritable ≠ 0 := by
  have hself : pageWritable &&& pageWritable ≠ 0 := by decide
  rw [linkEntry, BitVec.and_or_distrib_right]
  intro hzero
  exact hself (BitVec.or_eq_zero_iff.mp hzero).2

theorem linkEntry_user (hg : g < 2 ^ 40) : linkEntry g &&& pageUser = 0 := by
  have haddr : frameAddr g &&& pageUser = 0 := by
    have hmask : pageAddrMask &&& pageUser = 0 := by decide
    rw [← frameAddr_and_mask hg, BitVec.and_assoc, hmask]
    exact BitVec.and_zero
  rw [linkEntry, BitVec.and_or_distrib_right, BitVec.and_or_distrib_right, haddr]
  decide

/-- Outside the address and the present bit, the entry of a page has the bits of its flags. -/
theorem pageEntry_and (paddr flags : BitVec 64) (haddr : pageAddrMask &&& bit = 0) (hpres : pagePresent &&& bit = 0) :
    pageEntry paddr flags &&& bit = flags &&& bit := by
  rw [pageEntry, BitVec.and_or_distrib_right, BitVec.and_or_distrib_right, BitVec.and_assoc, haddr, hpres]
  simp

end

/-- After a `vmm_page_map` that succeeds, the page has exactly the rights of the flags if and only if
these do not ask for the user's. -/
theorem vmmPageMap_rights_iff {root : Nat} {va : BitVec 64} {m : Machine} (ht : PageTree m.toCore root)
    (hlinks : LinksBuilt root m.toCore) (hps : WalksToPt m.mem root va) (paddr flags : BitVec 64)
    (hok : (vmmPageMap (frameAddr root) va paddr flags m).1 = true) :
    RightsExact flags (vmmPageMap (frameAddr root) va paddr flags m).2.mem root va ↔ flags &&& pageUser = 0 := by
  have hbuilt := vmmPageMap_linksBuilt paddr flags hlinks ht hps
  obtain ⟨c, t, hgrow, hend, -, hcore⟩ := vmmPageMap_success ht hps hok
  rw [hcore] at hbuilt
  have hmem : (vmmPageMap (frameAddr root) va paddr flags m).2.mem =
      setEntry c.mem t (vaIndex va 12) (pageEntry paddr flags) := congrArg Core.mem hcore
  have hend' :
      descend (slots (setEntry c.mem t (vaIndex va 12) (pageEntry paddr flags))) 0 root (ptPath va) = some t := by
    rw [(ht.grow hgrow).tree.setEntry_descend hend (entrySlot_pt_ne_node (ptPath_length va) _)
      (entrySlot_pt_ne_node (ptPath_length va) _), hend]
  have hleaf : tableEntry (setEntry c.mem t (vaIndex va 12) (pageEntry paddr flags)) t (vaIndex va 12) =
      pageEntry paddr flags := tableEntry_store64_same _ _ _ _
  have hwritable := hbuilt.allows_iff hend' fun f _ => linkEntry_writable f
  have huser := hbuilt.not_allows hend' fun f hf => linkEntry_user hf
  have hnx := hbuilt.forbids_iff hend' fun f hf => (plainEntry_linkEntry hf).1
  rw [hmem]
  refine ⟨fun h => ?_, fun hflags => ?_⟩
  · by_contra hset
    exact huser (h.user.mpr hset)
  · have hpres : tableEntry (setEntry c.mem t (vaIndex va 12) (pageEntry paddr flags)) t (vaIndex va 12) &&&
        pagePresent ≠ 0 := by
      rw [hleaf]
      exact pageEntry_present paddr flags
    refine ⟨⟨pageEntry paddr flags, ?_⟩, ?_, ?_, ?_⟩
    · rw [walk_of_pt hend' hpres, hleaf]
    · rw [hwritable, hleaf, pageEntry_and paddr flags (by decide) (by decide)]
    · exact iff_of_false huser fun hset => hset hflags
    · rw [hnx, hleaf, pageEntry_and paddr flags (by decide) (by decide)]

/-! ## One page -/

theorem fourFree_linksBuilt : LinksBuilt 0x4000 (zeroTree fourFreePmm).toCore := by
  obtain ⟨-, -, hdesc, -⟩ := fourFree_tree
  exact linksBuilt_of_zero (fun _ => Memory.load64_zero fun _ _ _ => rfl) hdesc

theorem vmmPageMap_rights_kernel : RightsExact (pageWritable ||| pageNx)
    (vmmPageMap (frameAddr 0x4000) 0x1000 0x5000 (pageWritable ||| pageNx) (zeroTree fourFreePmm)).2.mem
    0x4000 0x1000 := by
  obtain ⟨htree, -⟩ := fourFree_tree
  exact (vmmPageMap_rights_iff htree fourFree_linksBuilt (fourFree_walksToPt 0x1000) _ _
    (fourFree_map 0x1000 0x5000 _)).mpr (by decide)

/-- A page for the user that the user cannot access. -/
theorem vmmPageMap_rights_user : LinksBuilt 0x4000 (zeroTree fourFreePmm).toCore ∧
    (vmmPageMap (frameAddr 0x4000) 0x1000 0x5000 (pageWritable ||| pageUser) (zeroTree fourFreePmm)).1 = true ∧
    ¬ RightsExact (pageWritable ||| pageUser)
      (vmmPageMap (frameAddr 0x4000) 0x1000 0x5000 (pageWritable ||| pageUser) (zeroTree fourFreePmm)).2.mem
      0x4000 0x1000 := by
  obtain ⟨htree, -⟩ := fourFree_tree
  have hok := fourFree_map 0x1000 0x5000 (pageWritable ||| pageUser)
  refine ⟨fourFree_linksBuilt, hok, fun h => ?_⟩
  exact absurd ((vmmPageMap_rights_iff htree fourFree_linksBuilt (fourFree_walksToPt 0x1000) _ _ hok).mp h)
    (by decide)

end BootKernel
