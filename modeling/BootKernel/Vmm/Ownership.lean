import BootKernel.Vmm.Calls
import BootKernel.Pmm.FreeSet
import BootKernel.Vmm.Lemmas.Boot

/-!
# Who owns a frame

The bitmap and the tree are kept together by the order of the calls alone. The invariant says what
every frame is for: the reserved frames stay in use, tables and mapped frames are in use, no frame is
both, and a frame above the reserved ones is mapped once.
-/

namespace BootKernel

open Radix

/-- The invariant of `vmm_page_alloc` and `vmm_page_free` on a tree whose large pages are the first
`k` GiB of the direct map. -/
structure Owned (k root : Nat) (c : Core) : Prop where
  tree : PageTree c root
  clean : CleanTables c root
  reserved : ∀ f < pmmReservedFrames.toNat, c.pmm.used f = true
  past : ∀ f, coveredFrames ≤ f → f < scannedFrames → c.pmm.used f = true
  unreserved : ∀ f, Reaches (slots c.mem) root f → pmmReservedFrames.toNat ≤ f
  large : ∀ va d e, walk c.mem root va = some (d, e) → d ≠ 3 → hhdmSlot va < k
  leaf_used : ∀ va e, walk c.mem root va = some (3, e) → c.pmm.used (entryFrame e) = true
  leaf_lt : ∀ va e, walk c.mem root va = some (3, e) → entryFrame e < coveredFrames
  leaf_not_table : ∀ va e, walk c.mem root va = some (3, e) → ¬ Reaches (slots c.mem) root (entryFrame e)
  leaf_unique : ∀ va vb e e', walk c.mem root va = some (3, e) → walk c.mem root vb = some (3, e') →
    pmmReservedFrames.toNat ≤ entryFrame e → entryFrame e = entryFrame e' → vaPath va = vaPath vb

/-- A frame that is in use without being in the tree. -/
structure Spare (root : Nat) (c : Core) (g : Nat) : Prop where
  used : c.pmm.used g = true
  lt : g < coveredFrames
  not_table : ¬ Reaches (slots c.mem) root g
  not_leaf : ∀ va e, walk c.mem root va = some (3, e) → entryFrame e ≠ g

/-- The part of the invariant that does not ask which frames are used for what: tables and mapped frames are
in use and apart from each other. -/
structure Apart (k root : Nat) (c : Core) : Prop where
  tree : PageTree c root
  clean : CleanTables c root
  large : ∀ va d e, walk c.mem root va = some (d, e) → d ≠ 3 → hhdmSlot va < k
  leaf_used : ∀ va e, walk c.mem root va = some (3, e) → c.pmm.used (entryFrame e) = true
  leaf_not_table : ∀ va e, walk c.mem root va = some (3, e) → ¬ Reaches (slots c.mem) root (entryFrame e)
  leaf_unique : ∀ va vb e e', walk c.mem root va = some (3, e) → walk c.mem root vb = some (3, e') →
    pmmReservedFrames.toNat ≤ entryFrame e → entryFrame e = entryFrame e' → vaPath va = vaPath vb

/-- A frame in use that is neither a table nor mapped. -/
structure Loose (root : Nat) (c : Core) (g : Nat) : Prop where
  used : c.pmm.used g = true
  not_table : ¬ Reaches (slots c.mem) root g
  not_leaf : ∀ va e, walk c.mem root va = some (3, e) → entryFrame e ≠ g

section
variable {k root g t : Nat} {c c' : Core} {va : BitVec 64} {p : Pmm}

theorem Owned.apart (h : Owned k root c) : Apart k root c :=
  ⟨h.tree, h.clean, h.large, h.leaf_used, h.leaf_not_table, h.leaf_unique⟩

theorem Spare.loose (h : Spare root c g) : Loose root c g := ⟨h.used, h.not_table, h.not_leaf⟩

theorem Apart.walksToPt (h : Apart k root c) (hva : ¬ hhdmSlot va < k) : WalksToPt c.mem root va := by
  intro d e hwalk
  by_contra hd
  exact hva (h.large va d e hwalk hd)

theorem Owned.walksToPt (h : Owned k root c) (hva : ¬ hhdmSlot va < k) : WalksToPt c.mem root va :=
  h.apart.walksToPt hva

/-! ## Taking frames -/

theorem used_set (hg : g < 2 ^ 64) (f : Nat) :
    (frameBitmapSet p (BitVec.ofNat 64 g)).used f = (decide (f = g) || p.used f) := by
  rw [used_frameBitmapSet, frameIdx_toNat hg]

theorem used_set_of_used (hg : g < 2 ^ 64) {f : Nat} (hf : p.used f = true) :
    (frameBitmapSet p (BitVec.ofNat 64 g)).used f = true := by
  rw [used_set hg, hf, Bool.or_true]

theorem Grow.used (hgrow : Grow root c c') {f : Nat} (hf : c.pmm.used f = true) : c'.pmm.used f = true := by
  induction hgrow with
  | refl => exact hf
  | tail _ hstep ih =>
      cases hstep with
      | mk _ _ _ _ hg => exact used_set_of_used (by omega) ih

/-- More frames in use do no harm. -/
theorem Apart.mono (h : Apart k root c) (hmem : c'.mem = c.mem)
    (hused : ∀ f, c.pmm.used f = true → c'.pmm.used f = true) : Apart k root c' := by
  obtain ⟨mem, pmm⟩ := c
  obtain ⟨mem', pmm'⟩ := c'
  cases hmem
  exact ⟨h.tree.congr (fun _ _ _ _ => rfl) fun f hf => hused f (h.tree.used f hf), h.clean, h.large,
    fun va e hwalk => hused _ (h.leaf_used va e hwalk), h.leaf_not_table, h.leaf_unique⟩

theorem Owned.mono (h : Owned k root c) (hmem : c'.mem = c.mem)
    (hused : ∀ f, c.pmm.used f = true → c'.pmm.used f = true) : Owned k root c' := by
  have hapart := h.apart.mono hmem hused
  obtain ⟨mem, pmm⟩ := c
  obtain ⟨mem', pmm'⟩ := c'
  cases hmem
  exact ⟨hapart.tree, hapart.clean, fun f hf => hused f (h.reserved f hf),
    fun f hlo hhi => hused f (h.past f hlo hhi), h.unreserved, hapart.large, hapart.leaf_used, h.leaf_lt,
    hapart.leaf_not_table, hapart.leaf_unique⟩

theorem PageTree.taken (h : PageTree c root) (htaken : Machine.Taken c.pmm g) :
    PageTree { c with pmm := frameBitmapSet c.pmm (BitVec.ofNat 64 g) } root := by
  have hlt := htaken.lt
  exact h.congr (fun _ _ _ _ => rfl) fun f hf => used_set_of_used (by omega) (h.used f hf)

theorem Apart.take (h : Apart k root c) (htaken : Machine.Taken c.pmm g) :
    Apart k root { c with pmm := frameBitmapSet c.pmm (BitVec.ofNat 64 g) } ∧
      Loose root { c with pmm := frameBitmapSet c.pmm (BitVec.ofNat 64 g) } g := by
  have hlt := htaken.lt
  have hfree := htaken.free
  refine ⟨h.mono rfl fun f hf => used_set_of_used (by omega) hf, ?_, h.tree.fresh hfree, ?_⟩
  · rw [used_set (by omega)]
    simp
  · rintro va e hwalk rfl
    rw [h.leaf_used va e hwalk] at hfree
    cases hfree

theorem Owned.take (h : Owned k root c) (htaken : Machine.Taken c.pmm g) :
    Owned k root { c with pmm := frameBitmapSet c.pmm (BitVec.ofNat 64 g) } ∧
      Spare root { c with pmm := frameBitmapSet c.pmm (BitVec.ofNat 64 g) } g := by
  have hlt := htaken.lt
  have hscan := scannedFrames_eq
  have hfree := htaken.free
  obtain ⟨-, hloose⟩ := h.apart.take htaken
  refine ⟨h.mono rfl fun f hf => used_set_of_used (by omega) hf, hloose.used, ?_, hloose.not_table,
    hloose.not_leaf⟩
  by_contra hge
  rw [h.past g (by omega) (by omega)] at hfree
  cases hfree

theorem Apart.link (h : Apart k root c) (hstep : LinkStep root c c') : Apart k root c' := by
  have hclean := h.clean.link h.tree hstep
  cases hstep with
  | @mk p n i g hp hlen hempty hfree hg =>
      have hlink := h.tree.link hp hlen hempty hfree hg
      have hwalk : ∀ va, walk (linkTable c.mem n i g) root va = walk c.mem root va :=
        fun va => hlink.lookup _
      refine ⟨hlink.tree, hclean, fun va d e hva => ?_, fun va e hva => ?_, fun va e hva => ?_,
        fun va vb e e' hva hvb => ?_⟩
      · exact h.large va d e ((hwalk va).symm.trans hva)
      · exact used_set_of_used (by omega) (h.leaf_used va e ((hwalk va).symm.trans hva))
      · rintro ⟨q, hq⟩
        have hva' := (hwalk va).symm.trans hva
        rcases (hlink.descend q _).mp hq with hq | ⟨-, hframe⟩
        · exact h.leaf_not_table va e hva' ⟨q, hq⟩
        · rw [← hframe, h.leaf_used va e hva'] at hfree
          cases hfree
      · exact h.leaf_unique va vb e e' ((hwalk va).symm.trans hva) ((hwalk vb).symm.trans hvb)

theorem Owned.link (h : Owned k root c) (hstep : LinkStep root c c') : Owned k root c' := by
  have hapart := h.apart.link hstep
  cases hstep with
  | @mk p n i g hp hlen hempty hfree hg =>
      have hlink := h.tree.link hp hlen hempty hfree hg
      refine ⟨hapart.tree, hapart.clean, fun f hf => used_set_of_used (by omega) (h.reserved f hf),
        fun f hlo hhi => used_set_of_used (by omega) (h.past f hlo hhi), ?_, hapart.large, hapart.leaf_used,
        fun va e hva => h.leaf_lt va e ((hlink.lookup _).symm.trans hva), hapart.leaf_not_table,
        hapart.leaf_unique⟩
      rintro f ⟨q, hq⟩
      rcases (hlink.descend q f).mp hq with hq | ⟨-, rfl⟩
      · exact h.unreserved f ⟨q, hq⟩
      · by_contra hlt
        rw [h.reserved f (by omega)] at hfree
        cases hfree

/-- Tables are made of free frames, so a frame in use stays out of the tree. -/
theorem Loose.link (h : Loose root c g) (ht : PageTree c root) (hstep : LinkStep root c c') :
    Loose root c' g := by
  cases hstep with
  | @mk p n i g' hp hlen hempty hfree hg =>
      have hlink := ht.link hp hlen hempty hfree hg
      refine ⟨used_set_of_used (by omega) h.used, ?_,
        fun va e hva => h.not_leaf va e ((hlink.lookup _).symm.trans hva)⟩
      rintro ⟨q, hq⟩
      rcases (hlink.descend q g).mp hq with hq | ⟨-, rfl⟩
      · exact h.not_table ⟨q, hq⟩
      · rw [h.used] at hfree
        cases hfree

theorem Apart.grow (h : Apart k root c) (hgrow : Grow root c c') : Apart k root c' := by
  induction hgrow with
  | refl => exact h
  | tail _ hstep ih => exact ih.link hstep

theorem Owned.grow (h : Owned k root c) (hgrow : Grow root c c') : Owned k root c' := by
  induction hgrow with
  | refl => exact h
  | tail _ hstep ih => exact ih.link hstep

theorem Loose.grow (h : Loose root c g) (ht : PageTree c root) (hgrow : Grow root c c') :
    Loose root c' g := by
  induction hgrow with
  | refl => exact h
  | tail hprev hstep ih => exact ih.link (ht.grow hprev).tree hstep

theorem Spare.grow (h : Spare root c g) (ht : PageTree c root) (hgrow : Grow root c c') :
    Spare root c' g := by
  have hloose := h.loose.grow ht hgrow
  exact ⟨hloose.used, h.lt, hloose.not_table, hloose.not_leaf⟩

/-! ## Writing and clearing a page -/

/-- A leaf after a page has been written is the new one, or one of another page that was there before. -/
theorem PageTree.leaf_setPage {d : Nat} {v e vb : BitVec 64} (ht : PageTree c root)
    (hend : descend (slots c.mem) 0 root (ptPath va) = some t)
    (hvb : walk (BootKernel.setEntry c.mem t (vaIndex va 12) v) root vb = some (d, e)) :
    vaPath vb = vaPath va ∧ d = 3 ∧ e = v ∧ v &&& pagePresent ≠ 0 ∨
      vaPath vb ≠ vaPath va ∧ walk c.mem root vb = some (d, e) := by
  rw [(ht.setPage hend v).2] at hvb
  by_cases hpath : vaPath vb = vaPath va
  · rw [if_pos hpath] at hvb
    split at hvb
    · cases hvb
    · rename_i hpres
      cases hvb
      exact Or.inl ⟨hpath, rfl, rfl, hpres⟩
  · rw [if_neg hpath] at hvb
    exact Or.inr ⟨hpath, hvb⟩

theorem Apart.mapPage {v : BitVec 64} (h : Apart k root c) (hs : Loose root c (entryFrame v))
    (hend : descend (slots c.mem) 0 root (ptPath va) = some t) (hv : v &&& pagePresent ≠ 0) :
    Apart k root { c with mem := setEntry c.mem t (vaIndex va 12) v } := by
  have hreach : ∀ f, Reaches (slots (setEntry c.mem t (vaIndex va 12) v)) root f →
      Reaches (slots c.mem) root f := fun _ => (h.tree.setPage_reaches hend v).mp
  refine ⟨(h.tree.setPage hend v).1, h.clean.setPage h.tree hend fun habs => absurd habs hv,
    fun vb d e hvb hd => ?_, fun vb e hvb => ?_, fun vb e hvb htable => ?_,
    fun vb vb' e e' hvb hvb' hres hframe => ?_⟩
  · rcases h.tree.leaf_setPage hend hvb with ⟨-, hdepth, -⟩ | ⟨-, hold⟩
    · exact absurd hdepth hd
    · exact h.large vb d e hold hd
  · rcases h.tree.leaf_setPage hend hvb with ⟨-, -, rfl, -⟩ | ⟨-, hold⟩
    · exact hs.used
    · exact h.leaf_used vb e hold
  · rcases h.tree.leaf_setPage hend hvb with ⟨-, -, rfl, -⟩ | ⟨-, hold⟩
    · exact hs.not_table (hreach _ htable)
    · exact h.leaf_not_table vb e hold (hreach _ htable)
  · rcases h.tree.leaf_setPage hend hvb with ⟨hpath, -, rfl, -⟩ | ⟨-, hold⟩
    · rcases h.tree.leaf_setPage hend hvb' with ⟨hpath', -⟩ | ⟨-, hold'⟩
      · rw [hpath, hpath']
      · exact absurd hframe.symm (hs.not_leaf vb' e' hold')
    · rcases h.tree.leaf_setPage hend hvb' with ⟨-, -, rfl, -⟩ | ⟨-, hold'⟩
      · exact absurd hframe (hs.not_leaf vb e hold)
      · exact h.leaf_unique vb vb' e e' hold hold' hres hframe

theorem Owned.mapPage {v : BitVec 64} (h : Owned k root c) (hs : Spare root c (entryFrame v))
    (hend : descend (slots c.mem) 0 root (ptPath va) = some t) (hv : v &&& pagePresent ≠ 0) :
    Owned k root { c with mem := setEntry c.mem t (vaIndex va 12) v } := by
  have hapart := h.apart.mapPage hs.loose hend hv
  refine ⟨hapart.tree, hapart.clean, h.reserved, h.past,
    fun f hf => h.unreserved f ((h.tree.setPage_reaches hend v).mp hf), hapart.large, hapart.leaf_used,
    fun vb e hvb => ?_, hapart.leaf_not_table, hapart.leaf_unique⟩
  rcases h.tree.leaf_setPage hend hvb with ⟨-, -, rfl, -⟩ | ⟨-, hold⟩
  · exact hs.lt
  · exact h.leaf_lt vb e hold

/-- Clearing the entry of a page takes its leaf away, and no other. -/
theorem PageTree.leaf_clearPage {d : Nat} {e vb : BitVec 64} (ht : PageTree c root)
    (hend : descend (slots c.mem) 0 root (ptPath va) = some t)
    (hvb : walk (BootKernel.setEntry c.mem t (vaIndex va 12) 0) root vb = some (d, e)) :
    vaPath vb ≠ vaPath va ∧ walk c.mem root vb = some (d, e) := by
  rcases ht.leaf_setPage hend hvb with ⟨-, -, -, hpres⟩ | hold
  · exact absurd (by decide) hpres
  · exact hold

theorem Apart.clearPage (h : Apart k root c) (hend : descend (slots c.mem) 0 root (ptPath va) = some t) :
    Apart k root { c with mem := setEntry c.mem t (vaIndex va 12) 0 } ∧
      ∀ e, walk c.mem root va = some (3, e) → pmmReservedFrames.toNat ≤ entryFrame e →
        Loose root { c with mem := setEntry c.mem t (vaIndex va 12) 0 } (entryFrame e) := by
  have hreach : ∀ f, Reaches (slots (setEntry c.mem t (vaIndex va 12) 0)) root f →
      Reaches (slots c.mem) root f := fun _ => (h.tree.setPage_reaches hend 0).mp
  constructor
  · refine ⟨(h.tree.setPage hend 0).1, h.clean.setPage h.tree hend fun _ => rfl,
      fun vb d e hvb => h.large vb d e (h.tree.leaf_clearPage hend hvb).2,
      fun vb e hvb => h.leaf_used vb e (h.tree.leaf_clearPage hend hvb).2,
      fun vb e hvb htable => h.leaf_not_table vb e (h.tree.leaf_clearPage hend hvb).2 (hreach _ htable),
      fun vb vb' e e' hvb hvb' => h.leaf_unique vb vb' e e' (h.tree.leaf_clearPage hend hvb).2
        (h.tree.leaf_clearPage hend hvb').2⟩
  · intro e he hres
    refine ⟨h.leaf_used va e he, fun htable => ?_, fun vb e' hvb hframe => ?_⟩
    · exact h.leaf_not_table va e he (hreach _ htable)
    · obtain ⟨hpath, hvb'⟩ := h.tree.leaf_clearPage hend hvb
      exact hpath (h.leaf_unique va vb e e' he hvb' hres hframe.symm).symm

theorem Owned.clearPage (h : Owned k root c) (hend : descend (slots c.mem) 0 root (ptPath va) = some t) :
    Owned k root { c with mem := setEntry c.mem t (vaIndex va 12) 0 } ∧
      ∀ e, walk c.mem root va = some (3, e) → pmmReservedFrames.toNat ≤ entryFrame e →
        Spare root { c with mem := setEntry c.mem t (vaIndex va 12) 0 } (entryFrame e) := by
  obtain ⟨hapart, hloose⟩ := h.apart.clearPage hend
  refine ⟨⟨hapart.tree, hapart.clean, h.reserved, h.past,
    fun f hf => h.unreserved f ((h.tree.setPage_reaches hend 0).mp hf), hapart.large, hapart.leaf_used,
    fun vb e hvb => h.leaf_lt vb e (h.tree.leaf_clearPage hend hvb).2, hapart.leaf_not_table,
    hapart.leaf_unique⟩, fun e he hres => ?_⟩
  have hl := hloose e he hres
  exact ⟨hl.used, h.leaf_lt va e he, hl.not_table, hl.not_leaf⟩

theorem used_clear_of_ne (hg : g < 2 ^ 64) {f : Nat} (hne : f ≠ g) (hf : p.used f = true) :
    (frameBitmapClear p (BitVec.ofNat 64 g)).used f = true := by
  rw [used_frameBitmapClear, frameIdx_toNat hg, hf, decide_eq_false hne]
  rfl

theorem Apart.release (h : Apart k root c) (hs : Loose root c g) (hg : g < 2 ^ 64) :
    Apart k root { c with pmm := frameBitmapClear c.pmm (BitVec.ofNat 64 g) } := by
  have htable : ∀ f, Reaches (slots c.mem) root f → f ≠ g := by
    rintro f hf rfl
    exact hs.not_table hf
  exact ⟨h.tree.congr (fun _ _ _ _ => rfl) fun f hf => used_clear_of_ne hg (htable f hf) (h.tree.used f hf),
    h.clean, h.large, fun va e hva => used_clear_of_ne hg (hs.not_leaf va e hva) (h.leaf_used va e hva),
    h.leaf_not_table, h.leaf_unique⟩

theorem Owned.release (h : Owned k root c) (hs : Spare root c g) (hg : pmmReservedFrames.toNat ≤ g) :
    Owned k root { c with pmm := frameBitmapClear c.pmm (BitVec.ofNat 64 g) } := by
  have hlt := hs.lt
  have hcov := coveredFrames_eq
  have hapart := h.apart.release hs.loose (by omega)
  exact ⟨hapart.tree, hapart.clean, fun f hf => used_clear_of_ne (by omega) (by omega) (h.reserved f hf),
    fun f hlo hhi => used_clear_of_ne (by omega) (by omega) (h.past f hlo hhi), h.unreserved, hapart.large,
    hapart.leaf_used, h.leaf_lt, hapart.leaf_not_table, hapart.leaf_unique⟩

end

/-! ## Freeing a page -/

section
variable {k root t : Nat} {c : Core} {va : BitVec 64}

/-- The index that `vmm_page_free` makes of an entry is the frame that the entry names. -/
theorem entry_shiftRight (e : BitVec 64) :
    (e &&& pageAddrMask) >>> pageShift = BitVec.ofNat 64 (entryFrame e) := by
  have hlt := entryFrame_lt e
  rw [and_pageAddrMask, frameAddr_shiftRight (by omega)]

theorem reserved_le_entryFrame (e : BitVec 64) :
    pmmReservedFrames ≤ BitVec.ofNat 64 (entryFrame e) ↔ pmmReservedFrames.toNat ≤ entryFrame e := by
  have hlt := entryFrame_lt e
  rw [BitVec.le_def, frameIdx_toNat (by omega)]

/-- A slot of a clean page table that names a frame above the reserved ones maps the page. -/
theorem CleanTables.walk_of_reserved (h : CleanTables c root)
    (hend : descend (slots c.mem) 0 root (ptPath va) = some t)
    (hres : pmmReservedFrames.toNat ≤ entryFrame (tableEntry c.mem t (vaIndex va 12))) :
    walk c.mem root va = some (3, tableEntry c.mem t (vaIndex va 12)) := by
  refine walk_of_pt hend fun habs => ?_
  -- an entry that is not present is zero, and so names a reserved frame
  rw [h _ t _ (ptPath_length va) hend habs] at hres
  exact absurd hres (by decide)

theorem Apart.freePage (h : Apart k root c)
    (hend : descend (slots c.mem) 0 root (ptPath va) = some t) :
    Apart k root {
      mem := setEntry c.mem t (vaIndex va 12) 0
      pmm := pmmFrameFree ((tableEntry c.mem t (vaIndex va 12) &&& pageAddrMask) >>> pageShift) c.pmm } := by
  have hle := reserved_le_entryFrame (tableEntry c.mem t (vaIndex va 12))
  have hlt := entryFrame_lt (tableEntry c.mem t (vaIndex va 12))
  obtain ⟨hclear, hloose⟩ := h.clearPage hend
  rw [entry_shiftRight]
  by_cases hres : pmmReservedFrames.toNat ≤ entryFrame (tableEntry c.mem t (vaIndex va 12))
  · rw [pmmFrameFree_unreserved (hle.mpr hres)]
    exact hclear.release (hloose _ (h.clean.walk_of_reserved hend hres) hres) (by omega)
  · rw [pmmFrameFree_reserved fun h => hres (hle.mp h)]
    exact hclear

/-- Freeing the frame that a slot names, after the slot has been cleared. -/
theorem Owned.freePage (h : Owned k root c)
    (hend : descend (slots c.mem) 0 root (ptPath va) = some t) :
    Owned k root {
      mem := setEntry c.mem t (vaIndex va 12) 0
      pmm := pmmFrameFree ((tableEntry c.mem t (vaIndex va 12) &&& pageAddrMask) >>> pageShift) c.pmm } := by
  have hle := reserved_le_entryFrame (tableEntry c.mem t (vaIndex va 12))
  obtain ⟨hclear, hspare⟩ := h.clearPage hend
  rw [entry_shiftRight]
  by_cases hres : pmmReservedFrames.toNat ≤ entryFrame (tableEntry c.mem t (vaIndex va 12))
  · rw [pmmFrameFree_unreserved (hle.mpr hres)]
    exact hclear.release (hspare _ (h.clean.walk_of_reserved hend hres) hres) hres
  · rw [pmmFrameFree_reserved fun h => hres (hle.mp h)]
    exact hclear

end

/-! ## Calls -/

/-- What an invariant of the tree and of the spare frames has to allow for the calls to keep it. -/
structure PageRules (k root : Nat) (I : Core → Prop) (S : Core → Nat → Prop) : Prop where
  tree : ∀ {c}, I c → PageTree c root
  walksToPt : ∀ {c va}, I c → ¬ hhdmSlot va < k → WalksToPt c.mem root va
  take : ∀ {c g}, I c → Machine.Taken c.pmm g →
    I { c with pmm := frameBitmapSet c.pmm (BitVec.ofNat 64 g) } ∧
      S { c with pmm := frameBitmapSet c.pmm (BitVec.ofNat 64 g) } g
  grow : ∀ {c c'}, I c → Grow root c c' → I c'
  grow_spare : ∀ {c c' g}, I c → S c g → Grow root c c' → S c' g
  mapPage : ∀ {c va v t}, I c → S c (entryFrame v) → descend (slots c.mem) 0 root (ptPath va) = some t →
    v &&& pagePresent ≠ 0 → I { c with mem := setEntry c.mem t (vaIndex va 12) v }
  freePage : ∀ {c va t}, I c → descend (slots c.mem) 0 root (ptPath va) = some t → I {
    mem := setEntry c.mem t (vaIndex va 12) 0
    pmm := pmmFrameFree ((tableEntry c.mem t (vaIndex va 12) &&& pageAddrMask) >>> pageShift) c.pmm }

/-- The calls that own frames: a page outside the direct map, without address bits in the flags. -/
def VmmCall.Owning (k : Nat) : VmmCall → Prop
  | .pageAlloc va flags => ¬ hhdmSlot va < k ∧ flags &&& pageAddrMask = 0
  | .pageFree va _ => ¬ hhdmSlot va < k
  | _ => False

section
variable {k g : Nat} {m : Machine} {va flags : BitVec 64} {I : Core → Prop} {S : Core → Nat → Prop}

theorem entryFrame_pageEntry (hg : g < 2 ^ 40) (hflags : flags &&& pageAddrMask = 0) :
    entryFrame (pageEntry (frameAddr g) flags) = g := by
  rw [entryFrame, pageEntry_and_mask hflags, ← entryFrame, entryFrame_frameAddr hg]

theorem PageRules.pageMap (r : PageRules k (rootFrame m) I S) (h : I m.toCore) (hs : S m.toCore g)
    (hg : g < 2 ^ 40) (hva : ¬ hhdmSlot va < k) (hflags : flags &&& pageAddrMask = 0) :
    (vmmPageMap (vmmPml4Get m) va (frameAddr g) flags m).2.cr3 = m.cr3 ∧
      I (vmmPageMap (vmmPml4Get m) va (frameAddr g) flags m).2.toCore := by
  obtain ⟨m₁, hgrow, hcr3, hmap⟩ := vmmPageMap_cases (frameAddr g) flags (r.tree h) (r.walksToPt h hva)
  have h₁ := r.grow h hgrow
  have hs₁ := r.grow_spare h hs hgrow
  rw [vmmPml4Get_eq]
  rcases hmap with heq | ⟨t, hend, heq⟩
  · rw [heq]
    exact ⟨hcr3, h₁⟩
  · rw [heq]
    exact ⟨hcr3, r.mapPage h₁ ((entryFrame_pageEntry hg hflags).symm ▸ hs₁) hend (pageEntry_present _ _)⟩

/-- `vmm_page_alloc` finds no frame, or is `vmm_page_map` on a frame that it has taken. -/
theorem vmmPageAlloc_cases (va flags : BitVec 64) (m : Machine) :
    (vmmPageAlloc va flags m = (0, m.emit (.alloc pmmInvalidFrame)) ∧ ∀ f < 2 ^ 30, m.pmm.used f = true) ∨
    ∃ g m₁, Machine.Taken m.pmm g ∧
      m.frameAlloc = (frameAddr g, m₁) ∧ m₁.cr3 = m.cr3 ∧
      m₁.toCore = { m.toCore with pmm := frameBitmapSet m.pmm (BitVec.ofNat 64 g) } ∧
      vmmPageAlloc va flags m =
        (if (vmmPageMap (frameAddr (rootFrame m)) va (frameAddr g) flags m₁).1 then va else 0,
          (vmmPageMap (frameAddr (rootFrame m)) va (frameAddr g) flags m₁).2) := by
  rcases m.frameAlloc_cases with ⟨hfail, hfull⟩ | ⟨g, htaken, hok⟩
  · left
    simp only [vmmPageAlloc, hfail, ↓reduceIte]
    exact ⟨trivial, hfull⟩
  · right
    refine ⟨g, _, htaken, hok, rfl, rfl, ?_⟩
    generalize hm₁ : Machine.emit _ _ = m₁ at hok ⊢
    have hroot : rootFrame m₁ = rootFrame m := by
      rw [← hm₁]
      rfl
    simp only [vmmPageAlloc, hok, frameAddr_ne_invalid, ↓reduceIte, vmmPml4Get_eq, hroot]
    cases (vmmPageMap (frameAddr (rootFrame m)) va (frameAddr g) flags m₁).1 with
    | false => rfl
    | true => rfl

theorem PageRules.pageAlloc (r : PageRules k (rootFrame m) I S) (h : I m.toCore) (hva : ¬ hhdmSlot va < k)
    (hflags : flags &&& pageAddrMask = 0) :
    (vmmPageAlloc va flags m).2.cr3 = m.cr3 ∧ I (vmmPageAlloc va flags m).2.toCore := by
  rcases vmmPageAlloc_cases va flags m with ⟨hcall, -⟩ | ⟨g, m₁, htaken, -, hcr3, hcore, hcall⟩
  · rw [hcall]
    exact ⟨rfl, h⟩
  · have hlt := htaken.lt
    obtain ⟨h₁, hs₁⟩ := r.take h htaken
    have hroot : rootFrame m₁ = rootFrame m := congrArg entryFrame hcr3
    rw [← hcore] at h₁ hs₁
    rw [← hroot] at r
    rw [hcall, ← hcr3, ← hroot, ← vmmPml4Get_eq]
    exact r.pageMap h₁ hs₁ (by omega) hva hflags

theorem PageRules.pageFree (r : PageRules k (rootFrame m) I S) (flags : BitVec 64) (h : I m.toCore)
    (hva : ¬ hhdmSlot va < k) :
    (vmmPageFree va flags m).cr3 = m.cr3 ∧ I (vmmPageFree va flags m).toCore := by
  obtain ⟨m₁, hcore, hcr3, hunmap⟩ := vmmPageUnmap_cases (r.tree h) (r.walksToPt h hva)
  rw [vmmPageFree, vmmPml4Get_eq]
  rcases hunmap with heq | ⟨t, hend, heq⟩
  · rw [heq]
    exact ⟨hcr3, hcore ▸ h⟩
  · rw [heq]
    have hfree := r.freePage h hend
    rw [← hcore] at hfree
    exact ⟨hcr3, hcore ▸ hfree⟩

theorem PageRules.call (r : PageRules k (rootFrame m) I S) {c : VmmCall} (h : I m.toCore) (hc : c.Owning k) :
    (vmmCall m c).cr3 = m.cr3 ∧ I (vmmCall m c).toCore := by
  cases c with
  | pageMap _ _ _ => exact hc.elim
  | pageUnmap _ _ => exact hc.elim
  | pageAlloc va flags => exact r.pageAlloc h hc.1 hc.2
  | pageFree va flags => exact r.pageFree flags h hc

end

section
variable {k root : Nat} {m : Machine} {va : BitVec 64}

theorem apart_rules : PageRules k root (Apart k root) (Loose root) where
  tree h := h.tree
  walksToPt h := h.walksToPt
  take h := h.take
  grow h := h.grow
  grow_spare h hs := hs.grow h.tree
  mapPage h := h.mapPage
  freePage h := h.freePage

end

/-! ## The state after `vmm_init` -/

/-- A leaf of the last level of the tree that `vmm_init` loads is one of the identity pages. -/
theorem BootTree.leaf_reserved {c₀ c : Core} {root k : Nat} {S : Set Nat} (h : BootTree c₀ root k S c)
    (hS : ∀ f ∈ S, f < pmmReservedFrames.toNat) (va e : BitVec 64)
    (hwalk : walk c.mem root va = some (3, e)) : entryFrame e < pmmReservedFrames.toNat := by
  by_cases hhigh : 2 ^ 35 ≤ pageNumber va
  · rw [h.high va hhigh] at hwalk
    split at hwalk <;> simp at hwalk
  · by_cases hin : pageNumber va ∈ S
    · rw [h.mapped va (by omega) hin] at hwalk
      simp only [Option.some.injEq, Prod.mk.injEq, true_and] at hwalk
      have hframe : entryFrame (pageEntry (frameAddr (pageNumber va)) pageWritable) = pageNumber va := by
        rw [entryFrame, pageEntry_and_mask (by decide), ← entryFrame, entryFrame_frameAddr (by omega)]
      rw [← hwalk, hframe]
      exact hS _ hin
    · rw [h.unmapped va (by omega) hin] at hwalk
      cases hwalk

theorem BootTree.table_unreserved {c₀ c : Core} {root k : Nat} {S : Set Nat} (h : BootTree c₀ root k S c)
    (hres : ∀ f < pmmReservedFrames.toNat, c₀.pmm.used f = true) (hroot : pmmReservedFrames.toNat ≤ root)
    (f : Nat) (hf : Reaches (slots c.mem) root f) : pmmReservedFrames.toNat ≤ f := by
  rcases h.confined.fresh f hf with rfl | hfree
  · exact hroot
  · by_contra hlt
    rw [hres f (by omega)] at hfree
    cases hfree

theorem BootTree.apart {c₀ c : Core} {root k : Nat} {S : Set Nat} (h : BootTree c₀ root k S c)
    (hres : ∀ f < pmmReservedFrames.toNat, c₀.pmm.used f = true) (hroot : pmmReservedFrames.toNat ≤ root)
    (hS : ∀ f ∈ S, f < pmmReservedFrames.toNat) : Apart k root c := by
  have hleaf := h.leaf_reserved hS
  refine ⟨h.tree, h.clean, fun va d e hwalk hd => ?_,
    fun va e hwalk => h.confined.used _ (hres _ (hleaf va e hwalk)), fun va e hwalk htable => ?_,
    fun va vb e e' hwalk _ hge => ?_⟩
  · by_cases hhigh : 2 ^ 35 ≤ pageNumber va
    · rw [h.high va hhigh] at hwalk
      by_contra hslot
      rw [if_neg hslot] at hwalk
      cases hwalk
    · exact absurd (h.walksToPt (by omega) d e hwalk) hd
  · have hlt := hleaf va e hwalk
    have hge := h.table_unreserved hres hroot _ htable
    omega
  · have hlt := hleaf va e hwalk
    omega

/-- The tree that `vmm_init` loads is owned when the identity pages lie in the reserved frames. -/
theorem BootTree.owned {c₀ c : Core} {root k : Nat} {S : Set Nat} (h : BootTree c₀ root k S c)
    (hres : ∀ f < pmmReservedFrames.toNat, c₀.pmm.used f = true)
    (hpast : ∀ f, coveredFrames ≤ f → f < scannedFrames → c₀.pmm.used f = true)
    (hroot : pmmReservedFrames.toNat ≤ root) (hS : ∀ f ∈ S, f < pmmReservedFrames.toNat) :
    Owned k root c := by
  have hcov := coveredFrames_eq
  have hresv := pmmReservedFrames_toNat
  have hapart := h.apart hres hroot hS
  refine ⟨hapart.tree, hapart.clean, fun f hf => h.confined.used f (hres f hf),
    fun f hlo hhi => h.confined.used f (hpast f hlo hhi), h.table_unreserved hres hroot, hapart.large,
    hapart.leaf_used, fun va e hwalk => ?_, hapart.leaf_not_table, hapart.leaf_unique⟩
  have hlt := h.leaf_reserved hS va e hwalk
  omega

/-! ## What the invariant is for -/

/-- The address lies outside the direct map of the ceiling. -/
def OutsideHhdm (ceiling va : BitVec 64) : Prop :=
  Canonical va ∧ ¬ (hhdmOffset.toNat ≤ va.toNat ∧
    va.toNat < hhdmOffset.toNat + gibCount ceiling * 2 ^ 30)

/-- Allocating or freeing a page outside the direct map, without address bits in the flags. -/
def VmmCall.PageCall (ceiling : BitVec 64) : VmmCall → Prop
  | .pageAlloc va flags => OutsideHhdm ceiling va ∧ flags &&& pageAddrMask = 0
  | .pageFree va _ => OutsideHhdm ceiling va
  | _ => False

theorem OutsideHhdm.not_slot {ceiling va : BitVec 64} (h : OutsideHhdm ceiling va)
    (hceil : ceiling.toNat ≤ 2 ^ 47) : ¬ hhdmSlot va < gibCount ceiling := by
  obtain ⟨hcanon, hout⟩ := h
  have hlt := va.isLt
  rw [hhdmOffset_toNat] at hout
  rw [gibCount] at hout ⊢
  rw [hhdmSlot]
  rcases hcanon with hva | hva <;> omega

theorem VmmCall.PageCall.owning {ceiling : BitVec 64} {c : VmmCall} (h : c.PageCall ceiling)
    (hceil : ceiling.toNat ≤ 2 ^ 47) : c.Owning (gibCount ceiling) := by
  cases c with
  | pageMap _ _ _ => exact h
  | pageUnmap _ _ => exact h
  | pageAlloc va flags => exact ⟨h.1.not_slot hceil, h.2⟩
  | pageFree va flags => exact OutsideHhdm.not_slot h hceil

end BootKernel
