import BootKernel.Vmm.Ownership
import BootKernel.Vmm.Pool
import BootKernel.Vmm.Lemmas.Room

/-!
# Where the used frames are

From a start state on, a frame above the reserved ones is in use because it was in use at the start,
because it is a table, or because a page maps it. A page that is allocated over a mapped one breaks
this, and nothing else does.
-/

namespace BootKernel

open Radix

/-- A page maps the frame. -/
def Mapped (mem : Memory) (root f : Nat) : Prop := ∃ va e, walk mem root va = some (3, e) ∧ entryFrame e = f

/-- The frames in use are those of `U`, the tables and the mapped frames, and what is mapped is new. -/
structure Accounted (U : Set Nat) (root : Nat) (c : Core) : Prop where
  used_iff : ∀ f, pmmReservedFrames.toNat ≤ f →
    (c.pmm.used f = true ↔ f ∈ U ∨ Reaches (slots c.mem) root f ∨ Mapped c.mem root f)
  leaf_new : ∀ va e, walk c.mem root va = some (3, e) → pmmReservedFrames.toNat ≤ entryFrame e →
    entryFrame e ∉ U

section
variable {U : Set Nat} {k root g t : Nat} {c c' : Core} {va v : BitVec 64}

/-! ## Taking frames -/

theorem Accounted.link (h : Accounted U root c) (ht : PageTree c root) (hstep : LinkStep root c c') :
    Accounted U root c' := by
  cases hstep with
  | @mk p n i g hp hlen hempty hfree hg =>
      have hlink := ht.link hp hlen hempty hfree hg
      have hwalk : ∀ va, walk (linkTable c.mem n i g) root va = walk c.mem root va :=
        fun va => hlink.lookup _
      have hreach : ∀ f, Reaches (slots (linkTable c.mem n i g)) root f ↔
          Reaches (slots c.mem) root f ∨ f = g := by
        intro f
        constructor
        · rintro ⟨q, hq⟩
          rcases (hlink.descend q f).mp hq with hq | ⟨-, rfl⟩
          · exact Or.inl ⟨q, hq⟩
          · exact Or.inr rfl
        · rintro (⟨q, hq⟩ | rfl)
          · exact ⟨q, (hlink.descend q f).mpr (Or.inl hq)⟩
          · exact ⟨p ++ [i], (hlink.descend _ f).mpr (Or.inr ⟨rfl, rfl⟩)⟩
      constructor
      · intro f hf
        have hmapped : Mapped (linkTable c.mem n i g) root f ↔ Mapped c.mem root f := by
          simp only [Mapped, hwalk]
        rw [used_set (by omega), Bool.or_eq_true, decide_eq_true_eq, h.used_iff f hf, hreach, hmapped]
        constructor
        · rintro (rfl | hU | htable | hleaf)
          · exact Or.inr (Or.inl (Or.inr rfl))
          · exact Or.inl hU
          · exact Or.inr (Or.inl (Or.inl htable))
          · exact Or.inr (Or.inr hleaf)
        · rintro (hU | (htable | rfl) | hleaf)
          · exact Or.inr (Or.inl hU)
          · exact Or.inr (Or.inr (Or.inl htable))
          · exact Or.inl rfl
          · exact Or.inr (Or.inr (Or.inr hleaf))
      · intro va e hva
        exact h.leaf_new va e ((hwalk va).symm.trans hva)

theorem Accounted.grow (h : Accounted U root c) (ht : PageTree c root) (hgrow : Grow root c c') :
    Accounted U root c' := by
  induction hgrow with
  | refl => exact h
  | tail hprev hstep ih => exact ih.link (ht.grow hprev).tree hstep

/-- A frame that has just been taken counts as one of `U` for the time being. -/
theorem Accounted.take (h : Accounted U root c) (howned : Owned k root c)
    (htaken : Machine.Taken c.pmm g) :
    Accounted (insert g U) root { c with pmm := frameBitmapSet c.pmm (BitVec.ofNat 64 g) } := by
  have hlt := htaken.lt
  refine ⟨fun f hf => ?_, fun va e hva hres => ?_⟩
  · rw [used_set (by omega), Bool.or_eq_true, decide_eq_true_eq, h.used_iff f hf, Set.mem_insert_iff,
      or_assoc]
  · rintro (hg | hU)
    · exact htaken.ne_of_used (howned.leaf_used va e hva) hg
    · exact h.leaf_new va e hva hres hU

/-! ## Writing and clearing a page -/

/-- The page that is written maps the frame that was taken. -/
theorem Accounted.mapPage (h : Accounted (insert (entryFrame v) U) root c) (ht : PageTree c root)
    (hnew : entryFrame v ∉ U) (hend : descend (slots c.mem) 0 root (ptPath va) = some t)
    (hv : v &&& pagePresent ≠ 0)
    (hold : ∀ e, walk c.mem root va = some (3, e) → entryFrame e < pmmReservedFrames.toNat) :
    Accounted U root { c with mem := setEntry c.mem t (vaIndex va 12) v } := by
  obtain ⟨-, hwalk⟩ := ht.setPage hend v
  simp only [if_neg hv] at hwalk
  have hreach := fun f => ht.setPage_reaches (f := f) hend v
  have hself : walk (setEntry c.mem t (vaIndex va 12) v) root va = some (3, v) := by
    rw [hwalk, if_pos rfl]
  have hmapped : ∀ f, pmmReservedFrames.toNat ≤ f →
      (Mapped (setEntry c.mem t (vaIndex va 12) v) root f ↔ f = entryFrame v ∨ Mapped c.mem root f) := by
    intro f hf
    constructor
    · rintro ⟨vb, e, hvb, rfl⟩
      rw [hwalk] at hvb
      by_cases hpath : vaPath vb = vaPath va
      · rw [if_pos hpath] at hvb
        cases hvb
        exact Or.inl rfl
      · rw [if_neg hpath] at hvb
        exact Or.inr ⟨vb, e, hvb, rfl⟩
    · rintro (rfl | ⟨vb, e, hvb, rfl⟩)
      · exact ⟨va, v, hself, rfl⟩
      · refine ⟨vb, e, ?_, rfl⟩
        rw [hwalk, if_neg, hvb]
        intro hpath
        rw [walk, hpath] at hvb
        have hlt := hold e hvb
        omega
  refine ⟨fun f hf => ?_, fun vb e hvb hres => ?_⟩
  · rw [hreach, hmapped f hf, h.used_iff f hf, Set.mem_insert_iff]
    tauto
  · rw [hwalk] at hvb
    by_cases hpath : vaPath vb = vaPath va
    · rw [if_pos hpath] at hvb
      cases hvb
      exact hnew
    · rw [if_neg hpath] at hvb
      exact fun hU => h.leaf_new vb e hvb hres (Set.mem_insert_of_mem _ hU)

theorem Accounted.freePage (h : Accounted U root c) (howned : Owned k root c)
    (hend : descend (slots c.mem) 0 root (ptPath va) = some t) :
    Accounted U root {
      mem := setEntry c.mem t (vaIndex va 12) 0
      pmm := pmmFrameFree ((tableEntry c.mem t (vaIndex va 12) &&& pageAddrMask) >>> pageShift) c.pmm } := by
  obtain ⟨-, hwalk⟩ := howned.tree.setPage hend 0
  have hzero : (0 : BitVec 64) &&& pagePresent = 0 := by decide
  simp only [hzero, if_pos] at hwalk
  have hreach := fun f => howned.tree.setPage_reaches (f := f) hend 0
  have hgone : ∀ vb e, walk (setEntry c.mem t (vaIndex va 12) 0) root vb = some (3, e) ↔
      vaPath vb ≠ vaPath va ∧ walk c.mem root vb = some (3, e) := by
    intro vb e
    rw [hwalk]
    by_cases hpath : vaPath vb = vaPath va
    · simp [hpath]
    · simp [hpath]
  have hmapped : ∀ f, pmmReservedFrames.toNat ≤ f → (Mapped (setEntry c.mem t (vaIndex va 12) 0) root f ↔
      f ≠ entryFrame (tableEntry c.mem t (vaIndex va 12)) ∧ Mapped c.mem root f) := by
    intro f hf
    constructor
    · rintro ⟨vb, e, hvb, rfl⟩
      obtain ⟨hpath, hvb'⟩ := (hgone vb e).mp hvb
      refine ⟨fun hframe => ?_, vb, e, hvb', rfl⟩
      have hva := howned.clean.walk_of_reserved hend (hframe ▸ hf)
      exact hpath (howned.leaf_unique vb va e _ hvb' hva hf hframe)
    · rintro ⟨hne, vb, e, hvb, rfl⟩
      refine ⟨vb, e, (hgone vb e).mpr ⟨fun hpath => ?_, hvb⟩, rfl⟩
      rw [walk, hpath] at hvb
      by_cases hpres : tableEntry c.mem t (vaIndex va 12) &&& pagePresent = 0
      · have hnone := walk_of_pt_absent hend hpres
        rw [walk, hvb] at hnone
        cases hnone
      · have hsome := walk_of_pt hend hpres
        rw [walk, hvb] at hsome
        cases hsome
        exact hne rfl
  have hleaf : ∀ vb e, walk (setEntry c.mem t (vaIndex va 12) 0) root vb = some (3, e) →
      pmmReservedFrames.toNat ≤ entryFrame e → entryFrame e ∉ U :=
    fun vb e hvb => h.leaf_new vb e ((hgone vb e).mp hvb).2
  have hle := reserved_le_entryFrame (tableEntry c.mem t (vaIndex va 12))
  have hlt := entryFrame_lt (tableEntry c.mem t (vaIndex va 12))
  rw [entry_shiftRight]
  refine ⟨fun f hf => ?_, hleaf⟩
  rw [hreach, hmapped f hf]
  by_cases hres : pmmReservedFrames.toNat ≤ entryFrame (tableEntry c.mem t (vaIndex va 12))
  · -- the frame that comes back is neither one of `U` nor a table
    have hva := howned.clean.walk_of_reserved hend hres
    have hnew := h.leaf_new va _ hva hres
    have htable := howned.leaf_not_table va _ hva
    rw [pmmFrameFree_unreserved (hle.mpr hres), used_frameBitmapClear, frameIdx_toNat (by omega)]
    by_cases hframe : f = entryFrame (tableEntry c.mem t (vaIndex va 12))
    · subst hframe
      simp [hnew, htable]
    · simp only [hframe, decide_false, Bool.not_false, Bool.true_and, ne_eq, not_false_eq_true, true_and]
      exact h.used_iff f hf
  · have hframe : f ≠ entryFrame (tableEntry c.mem t (vaIndex va 12)) := by
      rintro rfl
      exact hres hf
    rw [pmmFrameFree_reserved fun h => hres (hle.mp h), and_iff_right hframe]
    exact h.used_iff f hf

end

/-! ## Calls -/

/-- The page is allocated and mapped. -/
def VmmCall.Succeeds (m : Machine) : VmmCall → Prop
  | .pageAlloc va flags => m.frameAlloc.1 ≠ pmmInvalidFrame ∧
      (vmmPageMap (vmmPml4Get m.frameAlloc.2) va m.frameAlloc.1 flags m.frameAlloc.2).1 = true
  | _ => True

/-- No frame above the reserved ones is mapped where the page is to be allocated. -/
def VmmCall.Fresh (m : Machine) : VmmCall → Prop
  | .pageAlloc va _ => ∀ e, walk m.mem (rootFrame m) va = some (3, e) →
      entryFrame e < pmmReservedFrames.toNat
  | _ => True

section
variable {U : Set Nat} {k : Nat} {m : Machine} {va flags : BitVec 64}

/-- What an allocation that succeeds does: it takes a frame, grows the tree, and writes the slot. -/
theorem vmmPageAlloc_success (htree : PageTree m.toCore (rootFrame m)) (hps : WalksToPt m.mem (rootFrame m) va)
    (hok : (VmmCall.pageAlloc va flags).Succeeds m) :
    ∃ g c t, Machine.Taken m.pmm g ∧
      Grow (rootFrame m) { m.toCore with pmm := frameBitmapSet m.pmm (BitVec.ofNat 64 g) } c ∧
      descend (slots c.mem) 0 (rootFrame m) (ptPath va) = some t ∧
      (vmmPageAlloc va flags m).2.cr3 = m.cr3 ∧
      (vmmPageAlloc va flags m).2.toCore =
        { c with mem := setEntry c.mem t (vaIndex va 12) (pageEntry (frameAddr g) flags) } := by
  rcases vmmPageAlloc_cases va flags m with ⟨-, hfull⟩ | ⟨g, m₁, htaken, hframe, hcr3, hcore, hcall⟩
  · rcases m.frameAlloc_cases with ⟨hfail, -⟩ | ⟨g, htaken, -⟩
    · exact absurd (congrArg Prod.fst hfail) hok.1
    · exact absurd rfl (htaken.ne_of_used (hfull g htaken.lt))
  · have hroot : rootFrame m₁ = rootFrame m := congrArg entryFrame hcr3
    have hmapped := hok.2
    rw [hframe, vmmPml4Get_eq, hroot] at hmapped
    have htree₁ := htree.taken htaken
    have hps₁ : WalksToPt m₁.mem (rootFrame m) va := by
      rw [hcore]
      exact hps
    rw [← hcore] at htree₁
    obtain ⟨c, t, hgrow, hend, hcr3₂, hafter⟩ := vmmPageMap_success htree₁ hps₁ hmapped
    rw [hcall]
    exact ⟨g, c, t, htaken, hcore ▸ hgrow, hend, hcr3₂.trans hcr3, hafter⟩

/-- After an allocation that succeeds the page maps the frame that was taken, and the others what they did. -/
theorem vmmPageAlloc_walk (htree : PageTree m.toCore (rootFrame m)) (hps : WalksToPt m.mem (rootFrame m) va)
    (hok : (VmmCall.pageAlloc va flags).Succeeds m) :
    ∃ g, Machine.Taken m.pmm g ∧ PageTree (vmmPageAlloc va flags m).2.toCore (rootFrame m) ∧
      ∀ vb, walk (vmmPageAlloc va flags m).2.mem (rootFrame m) vb =
        if vaPath vb = vaPath va then some (3, pageEntry (frameAddr g) flags) else walk m.mem (rootFrame m) vb := by
  obtain ⟨g, c, t, htaken, hgrow, hend, -, hcore⟩ := vmmPageAlloc_success htree hps hok
  have hgrown := (htree.taken htaken).grow hgrow
  obtain ⟨htree₁, hwalk⟩ := hgrown.tree.setPage hend (pageEntry (frameAddr g) flags)
  rw [hcore]
  refine ⟨g, htaken, htree₁, fun vb => ?_⟩
  rw [hwalk, if_neg (pageEntry_present _ _)]
  exact congrArg _ (hgrown.lookup _)

theorem vmmPageAlloc_room {j : Nat} (htree : PageTree m.toCore (rootFrame m))
    (hps : WalksToPt m.mem (rootFrame m) va) (flags : BitVec 64) (hlow : LowTables (rootFrame m) m.toCore)
    (h : Room m.pmm (3 + j + 1)) :
    (VmmCall.pageAlloc va flags).Succeeds m ∧ Room (vmmPageAlloc va flags m).2.pmm j ∧
      LowTables (rootFrame m) (vmmPageAlloc va flags m).2.toCore := by
  rcases vmmPageAlloc_cases va flags m with ⟨-, hfull⟩ | ⟨g, m₁, htaken, hframe, hcr3, hcore, hcall⟩
  · exact absurd hfull h.not_full
  · have hroot : rootFrame m₁ = rootFrame m := congrArg entryFrame hcr3
    have htree₁ := htree.taken htaken
    have hlow₁ : LowTables (rootFrame m) m₁.toCore := by
      rw [hcore]
      exact hlow
    have hps₁ : WalksToPt m₁.mem (rootFrame m) va := by
      rw [hcore]
      exact hps
    have hroom₁ : Room m₁.pmm (3 + j) := by
      rw [hcore]
      exact h.taken htaken
    rw [← hcore] at htree₁
    obtain ⟨hmap, hroom⟩ := vmmPageMap_room (frameAddr g) flags htree₁ hps₁ hlow₁ hroom₁
    have hok : (VmmCall.pageAlloc va flags).Succeeds m := by
      rw [VmmCall.Succeeds, hframe, vmmPml4Get_eq, hroot]
      exact ⟨frameAddr_ne_invalid g, hmap⟩
    rw [hcall]
    refine ⟨hok, hroom, ?_⟩
    obtain ⟨g', c, t, htaken', hgrow, hend, -, hafter⟩ := vmmPageAlloc_success htree hps hok
    have htree₂ := htree.taken htaken'
    have hlow₂ : LowTables (rootFrame m)
        { m.toCore with pmm := frameBitmapSet m.pmm (BitVec.ofNat 64 g') } := hlow
    rw [hcall] at hafter
    rw [hafter]
    intro f hf
    rw [(htree₂.grow hgrow).tree.setPage_reaches hend] at hf
    exact hlow₂.grow htree₂ hgrow f hf

end

/-! ## Runs -/

section
variable {U : Set Nat} {k : Nat} {m : Machine}

end

end BootKernel
