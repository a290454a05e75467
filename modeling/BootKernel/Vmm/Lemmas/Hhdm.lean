import BootKernel.Vmm.Lemmas.Walkers

/-!
# The higher-half direct map

`vmm_hhdm_create` on a cleared root. After `k` turns the tree holds the leaves of the first `k` GiB,
wherever their virtual addresses wrap to, and the tables are made of frames that were free before.
-/

namespace BootKernel

open Radix

/-! ## Where the early tables come from -/

/-- Since `c₀` the tree has only taken frames that were free there, and written only to its tables. -/
structure Confined (root : Nat) (c₀ c : Core) : Prop where
  used : ∀ f, c₀.pmm.used f = true → c.pmm.used f = true
  fresh : ∀ f, Reaches (slots c.mem) root f → f = root ∨ c₀.pmm.used f = false
  frame : ∀ x, c₀.pmm.used (x / 4096) = true → x / 4096 ≠ root → c.mem x = c₀.mem x

section
variable {c₀ c c' : Core} {root : Nat}

theorem Confined.link (hc : Confined root c₀ c) (ht : PageTree c root) (hstep : LinkStep root c c') :
    Confined root c₀ c' := by
  cases hstep with
  | @mk p n i g hp hlen hempty hfree hg =>
      have hlink := ht.link hp hlen hempty hfree hg
      have hidx : (BitVec.ofNat 64 g).toNat = g := frameIdx_toNat (by omega)
      have hfree₀ : c₀.pmm.used g = false := by
        rw [Bool.eq_false_iff]
        intro hused
        rw [hc.used g hused] at hfree
        cases hfree
      refine ⟨fun f hf => ?_, ?_, fun x hx hroot => ?_⟩
      · rw [used_frameBitmapSet, hc.used f hf, Bool.or_true]
      · rintro f ⟨q, hq⟩
        rcases (hlink.descend q f).mp hq with hq | ⟨-, rfl⟩
        · exact hc.fresh f ⟨q, hq⟩
        · exact Or.inr hfree₀
      · have hxg : x / 4096 ≠ g := by
          rintro rfl
          rw [hfree₀] at hx
          cases hx
        have hxn : x / 4096 ≠ n := by
          rintro rfl
          rcases hc.fresh _ ⟨p, hp⟩ with h | h
          · exact hroot h
          · rw [h] at hx
            cases hx
        have hlinked : linkTable c.mem n i g x = c.mem x := by
          rw [linkTable, store64_of_frame_ne hxn, zeroFrame, if_neg hxg]
        exact hlinked.trans (hc.frame x hx hroot)

theorem Confined.grow (hc : Confined root c₀ c) (ht : PageTree c root) (hgrow : Grow root c c') :
    Confined root c₀ c' := by
  induction hgrow with
  | refl => exact hc
  | tail hprev hstep ih => exact ih.link (ht.grow hprev).tree hstep

theorem Confined.setEntry (hc : Confined root c₀ c) (ht : PageTree c root) {p : List (Fin 512)}
    {n : Nat} {i : Fin 512} {v : BitVec 64} (hp : descend (slots c.mem) 0 root p = some n)
    (hold : ∀ f, slots c.mem p.length n i ≠ .node f) (hnew : ∀ f, entrySlot p.length v ≠ .node f) :
    Confined root c₀ { c with mem := BootKernel.setEntry c.mem n i v } := by
  refine ⟨hc.used, ?_, fun x hx hroot => ?_⟩
  · rintro f ⟨q, hq⟩
    rw [ht.setEntry_descend hp hold hnew] at hq
    exact hc.fresh f ⟨q, hq⟩
  · have hxn : x / 4096 ≠ n := by
      rintro rfl
      rcases hc.fresh _ ⟨p, hp⟩ with h | h
      · exact hroot h
      · rw [h] at hx
        cases hx
    rw [← hc.frame x hx hroot]
    exact store64_of_frame_ne hxn

theorem Confined.tableEntry_eq (hc : Confined root c₀ c) {f : Nat} (hused : c₀.pmm.used f = true)
    (hroot : f ≠ root) (i : Fin 512) : tableEntry c.mem f i = tableEntry c₀.mem f i := by
  have hi := i.isLt
  apply Memory.load64_congr
  intro x hlo hhi
  obtain rfl : x / 4096 = f := by omega
  exact hc.frame x hused hroot

end

/-! ## One leaf of 1 GiB -/

/-- What `vmm_page_1gb_map_offline` writes into the slot of a PDPT. -/
def hugeEntry (paddr flags : BitVec 64) : BitVec 64 :=
  (paddr &&& 0x000FFFFFC0000000) ||| flags ||| pagePresent ||| psBit

theorem hugeEntry_present (paddr flags : BitVec 64) : hugeEntry paddr flags &&& pagePresent ≠ 0 := by
  rw [ne_eq, present_eq_zero]
  simp [hugeEntry, pagePresent]

theorem hugeEntry_ps (paddr flags : BitVec 64) : hugeEntry paddr flags &&& psBit ≠ 0 := by
  rw [ne_eq, ps_eq_zero, hugeEntry, BitVec.getLsbD_or, Bool.or_eq_false_iff, not_and]
  intro _
  decide

section
variable {root : Nat} {va paddr flags : BitVec 64} {m : Machine}

/-- The second half of the function: it reads the slot of the PML4 again, goes on to the PDPT that the
slot names, and writes a slot there. -/
def Machine.writeHuge (m : Machine) (root : Nat) (va paddr flags : BitVec 64) : Machine :=
  ((m.readEntry root (vaIndex va 39)).emit (.follow (tableEntry m.mem root (vaIndex va 39)))).setEntry
    (entryFrame (tableEntry m.mem root (vaIndex va 39))) (vaIndex va 30) (hugeEntry paddr flags)

theorem vmmPage1gbMapOffline_present (hroot : root < 2 ^ 51)
    (hpres : tableEntry m.mem root (vaIndex va 39) &&& pagePresent ≠ 0) :
    vmmPage1gbMapOffline (frameAddr root) va paddr flags m =
      (true, (m.readEntry root (vaIndex va 39)).writeHuge root va paddr flags) := by
  have hload : ∀ m : Machine, m.load64 .identity (entryPtr (frameAddr root) ((va >>> 39) &&& 0x1FF)) =
      (tableEntry m.mem root (vaIndex va 39), m.readEntry root (vaIndex va 39)) :=
    fun m => m.load64_entry .identity hroot va 39
  have hmask : ∀ e : BitVec 64, e &&& 0x000FFFFFFFFFF000 = frameAddr (entryFrame e) := and_pageAddrMask
  have hlt := entryFrame_lt (tableEntry m.mem root (vaIndex va 39))
  have hstore : ∀ m' : Machine, m'.store64 .identity
      (entryPtr (frameAddr (entryFrame (tableEntry m.mem root (vaIndex va 39))))
        ((va >>> 30) &&& 0x1FF)) (hugeEntry paddr flags) =
        m'.setEntry (entryFrame (tableEntry m.mem root (vaIndex va 39))) (vaIndex va 30)
          (hugeEntry paddr flags) :=
    fun m' => m'.store64_entry .identity (by omega) va 30 _
  rw [hugeEntry] at hstore
  simp only [vmmPage1gbMapOffline, hload, hpres, ↓reduceIte, Bool.not_true, Bool.false_eq_true, hmask,
    Machine.readEntry_mem, hstore]
  rfl

/-- With an empty slot in the PML4 the function allocates the PDPT first, and tests the result. -/
theorem vmmPage1gbMapOffline_absent (va paddr flags : BitVec 64) (hroot : root < 2 ^ 51)
    (habs : tableEntry m.mem root (vaIndex va 39) &&& pagePresent = 0) :
    ((∀ f < 2 ^ 30, m.pmm.used f = true) ∧ vmmPage1gbMapOffline (frameAddr root) va paddr flags m =
      (false, (m.readEntry root (vaIndex va 39)).emit (.alloc pmmInvalidFrame))) ∨
    ∃ g, Machine.Taken m.pmm g ∧ vmmPage1gbMapOffline (frameAddr root) va paddr flags m =
      (true, ((m.readEntry root (vaIndex va 39)).createTable root (vaIndex va 39) g).writeHuge root va
        paddr flags) := by
  have hload : ∀ m : Machine, m.load64 .identity (entryPtr (frameAddr root) ((va >>> 39) &&& 0x1FF)) =
      (tableEntry m.mem root (vaIndex va 39), m.readEntry root (vaIndex va 39)) :=
    fun m => m.load64_entry .identity hroot va 39
  rcases (m.readEntry root (vaIndex va 39)).frameAlloc_cases with ⟨hfail, hfull⟩ | ⟨g, htaken, hok⟩
  · left
    refine ⟨hfull, ?_⟩
    simp only [vmmPage1gbMapOffline, hload, habs, ↓reduceIte, hfail, Bool.not_false]
  · right
    have hlt := htaken.lt
    have hnew := Machine.createTable_eq .identity hroot (show g < 2 ^ 51 by omega) va 39
      (m.readEntry root (vaIndex va 39))
    simp only [Window.base] at hnew
    have hlinked : tableEntry ((m.readEntry root (vaIndex va 39)).createTable root (vaIndex va 39) g).mem
        root (vaIndex va 39) = linkEntry g := tableEntry_store64_same _ _ _ _
    have hmask : linkEntry g &&& 0x000FFFFFFFFFF000 = frameAddr g := linkEntry_and_mask (by omega)
    have hstore : ∀ m' : Machine, m'.store64 .identity
        (entryPtr (frameAddr g) ((va >>> 30) &&& 0x1FF)) (hugeEntry paddr flags) =
          m'.setEntry g (vaIndex va 30) (hugeEntry paddr flags) :=
      fun m' => m'.store64_entry .identity (by omega) va 30 _
    rw [hugeEntry] at hstore
    refine ⟨g, htaken, ?_⟩
    simp only [vmmPage1gbMapOffline, hload, habs, ↓reduceIte, hok, frameAddr_ne_invalid, hnew,
      Bool.not_true, Bool.false_eq_true, hlinked, hmask, hstore, Machine.writeHuge,
      entryFrame_linkEntry (show g < 2 ^ 40 by omega), hugeEntry]

/-- The function fails to allocate, or it writes a slot of the PDPT that the slot of the PML4 names,
which it has linked before if it was empty. -/
theorem vmmPage1gbMapOffline_cases (hroot : root < 2 ^ 51) :
    (∃ m', vmmPage1gbMapOffline (frameAddr root) va paddr flags m = (false, m') ∧
      m.failures < m'.failures ∧ ∀ f < 2 ^ 30, m.pmm.used f = true) ∨
    ∃ (m₁ : Machine) (n : Nat), vmmPage1gbMapOffline (frameAddr root) va paddr flags m =
        (true, m₁.setEntry n (vaIndex va 30) (hugeEntry paddr flags)) ∧
      tableEntry m₁.mem root (vaIndex va 39) &&& pagePresent ≠ 0 ∧
      entryFrame (tableEntry m₁.mem root (vaIndex va 39)) = n ∧ m₁.failures = m.failures ∧
      (m₁.toCore = m.toCore ∨ tableEntry m.mem root (vaIndex va 39) &&& pagePresent = 0 ∧
        ∃ g, Machine.Taken m.pmm g ∧ m₁.toCore = (m.createTable root (vaIndex va 39) g).toCore) := by
  have hfollow : ∀ (m : Machine) (e : BitVec 64),
      ((m.readEntry root (vaIndex va 39)).emit (.follow e)).failures = m.failures := by
    intro m e
    rw [Machine.failures_emit (by simp), Machine.failures_readEntry]
  by_cases hpres : tableEntry m.mem root (vaIndex va 39) &&& pagePresent = 0
  · rcases vmmPage1gbMapOffline_absent va paddr flags hroot hpres with ⟨hfull, heq⟩ | ⟨g, htaken, heq⟩
    · refine Or.inl ⟨_, heq, ?_, hfull⟩
      rw [Machine.failures_emit_fail]
      exact Nat.lt_succ_of_le (m.failures_le_emit _)
    · have hlt := htaken.lt
      have hlinked : tableEntry ((m.readEntry root (vaIndex va 39)).createTable root (vaIndex va 39) g).mem
          root (vaIndex va 39) = linkEntry g := tableEntry_store64_same _ _ _ _
      refine Or.inr ⟨_, _, heq, ?_, rfl, ?_, Or.inr ⟨hpres, g, htaken, rfl⟩⟩
      · exact hlinked.symm ▸ linkEntry_present g
      · rw [hfollow, Machine.failures_createTable, Machine.failures_readEntry]
  · refine Or.inr ⟨_, _, vmmPage1gbMapOffline_present hroot hpres, hpres, rfl, ?_, Or.inl rfl⟩
    rw [hfollow, Machine.failures_readEntry]

end

/-! ## The loop over the ceiling -/

/-- The GiB of the direct map that an address falls into, counting from `HHDM_OFFSET` round the
48-bit address space. -/
def hhdmSlot (va : BitVec 64) : Nat := (va.toNat / 2 ^ 30 + 2 ^ 17) % 2 ^ 18

/-- The leaf of a GiB of the direct map. -/
def hhdmEntry (j : Nat) : BitVec 64 := hugeEntry (BitVec.ofNat 64 (j * 2 ^ 30)) (pageWritable ||| pageNx)

/-- The tree after `k` turns of `vmm_hhdm_create`. -/
structure HhdmTree (c₀ : Core) (root k : Nat) (c : Core) : Prop where
  tree : PageTree c root
  confined : Confined root c₀ c
  shallow : ∀ q, 2 ≤ q.length → descend (slots c.mem) 0 root q = none
  walk : ∀ va, walk c.mem root va =
    if hhdmSlot va < k then some (1, hhdmEntry (hhdmSlot va)) else none

section
variable {c₀ : Core} {root k n : Nat} {va : BitVec 64} {m : Machine}

theorem HhdmTree.link {c : Core} {i : Fin 512} {g : Nat} (h : HhdmTree c₀ root k c)
    (hempty : slots c.mem 0 root i = .empty) (hfree : c.pmm.used g = false) (hg : g < 2 ^ 30) :
    HhdmTree c₀ root k
      { mem := linkTable c.mem root i g, pmm := frameBitmapSet c.pmm (BitVec.ofNat 64 g) } := by
  have hlink := h.tree.link (p := []) rfl (by decide) hempty hfree hg
  have hstep : LinkStep root c _ := .mk (p := []) rfl (by decide) hempty hfree hg
  refine ⟨hlink.tree, h.confined.link h.tree hstep, fun q hq => ?_, fun va => ?_⟩
  · rw [Option.eq_none_iff_forall_ne_some]
    intro f hf
    rcases (hlink.descend q f).mp hf with hf | ⟨rfl, -⟩
    · rw [h.shallow q hq] at hf
      cases hf
    · exact absurd hq (by simp)
  · rw [BootKernel.walk, hlink.lookup]
    exact h.walk va

/-- In the root of such a tree a slot that is present is a link. -/
theorem HhdmTree.descend_root {c : Core} (h : HhdmTree c₀ root k c)
    (hpres : tableEntry c.mem root (vaIndex va 39) &&& pagePresent ≠ 0) :
    descend (slots c.mem) 0 root [vaIndex va 39] =
      some (entryFrame (tableEntry c.mem root (vaIndex va 39))) := by
  have hslot : ∀ e, slots c.mem 0 root (vaIndex va 39) ≠ .leaf e := by
    intro e hleaf
    have hwalk := h.walk va
    simp only [BootKernel.walk, vaPath_eq, lookup, hleaf] at hwalk
    split at hwalk <;> simp at hwalk
  cases hs : slots c.mem 0 root (vaIndex va 39) with
  | empty => exact absurd (entrySlot_eq_empty.mp hs) hpres
  | leaf e => exact absurd hs (hslot e)
  | node f => simp only [descend, hs, (entrySlot_eq_node.mp hs).2.2.2]

theorem HhdmTree.pdpt_ne_node {c : Core} (h : HhdmTree c₀ root k c)
    (hn : descend (slots c.mem) 0 root [vaIndex va 39] = some n) (f : Nat) :
    slots c.mem [vaIndex va 39].length n (vaIndex va 30) ≠ .node f := by
  intro hs
  have hdeep : descend (slots c.mem) 0 root ([vaIndex va 39] ++ [vaIndex va 30]) = some f :=
    descend_snoc.mpr ⟨n, hn, by rw [Nat.zero_add]; exact hs⟩
  rw [h.shallow _ (by simp)] at hdeep
  cases hdeep

theorem hhdmEntry_ne_node (j d f : Nat) : entrySlot d (hhdmEntry j) ≠ .node f :=
  fun hs => hugeEntry_ps _ _ (entrySlot_eq_node.mp hs).2.2.1

theorem HhdmTree.setEntry_descend {c : Core} (h : HhdmTree c₀ root k c)
    (hn : descend (slots c.mem) 0 root [vaIndex va 39] = some n) (q : List (Fin 512)) :
    descend (slots (BootKernel.setEntry c.mem n (vaIndex va 30) (hhdmEntry k))) 0 root q =
      descend (slots c.mem) 0 root q :=
  h.tree.setEntry_descend hn (h.pdpt_ne_node hn) (hhdmEntry_ne_node k _) q

theorem HhdmTree.setEntry {c : Core} (h : HhdmTree c₀ root k c) (hva : hhdmSlot va = k)
    (hn : descend (slots c.mem) 0 root [vaIndex va 39] = some n) :
    HhdmTree c₀ root (k + 1)
      { c with mem := BootKernel.setEntry c.mem n (vaIndex va 30) (hhdmEntry k) } := by
  have hold : ∀ f, slots c.mem [vaIndex va 39].length n (vaIndex va 30) ≠ .node f := h.pdpt_ne_node hn
  have hnew : ∀ f, entrySlot [vaIndex va 39].length (hhdmEntry k) ≠ .node f := hhdmEntry_ne_node k _
  refine ⟨h.tree.setEntry hn hold hnew, h.confined.setEntry h.tree hn hold hnew, fun q hq => ?_,
    fun vb => ?_⟩
  · exact (h.setEntry_descend hn q).trans (h.shallow q hq)
  · have hslot : [vaIndex va 39] ++ [vaIndex va 30] <+: vaPath vb ↔ hhdmSlot vb = k := by
      rw [List.singleton_append, pdptPath_prefix_iff, ← hva, hhdmSlot, hhdmSlot]
      omega
    rw [BootKernel.walk, h.tree.setEntry_lookup hn _ hnew]
    simp only [hslot]
    by_cases hk : hhdmSlot vb = k
    · have hpres : hhdmEntry k &&& pagePresent ≠ 0 := hugeEntry_present _ _
      rw [if_pos hk, if_neg hpres, hk, if_pos (Nat.lt_succ_self k)]
      rfl
    · rw [if_neg hk]
      exact (h.walk vb).trans (if_congr (by omega) rfl rfl)

/-- One turn adds the leaf of the next GiB and keeps every table, or fails to allocate. -/
theorem vmmPage1gbMapOffline_step {p : BitVec 64} (h : HhdmTree c₀ root k m.toCore) (hk : k < 2 ^ 18)
    (hp : p.toNat = k * 2 ^ 30) :
    ∃ r m', vmmPage1gbMapOffline (frameAddr root) (p + hhdmOffset) p (pageWritable ||| pageNx) m =
        (r, m') ∧
      if r then HhdmTree c₀ root (k + 1) m'.toCore ∧ m.failures ≤ m'.failures ∧
        ∀ q f, descend (slots m.mem) 0 root q = some f → descend (slots m'.mem) 0 root q = some f
      else m.failures < m'.failures := by
  have hroot := h.tree.root_lt
  have hslot : hhdmSlot (p + hhdmOffset) = k := by
    rw [hhdmSlot, BitVec.toNat_add, hhdmOffset_toNat, hp]
    omega
  have hentry : hugeEntry p (pageWritable ||| pageNx) = hhdmEntry k := by
    rw [hhdmEntry, ← hp, BitVec.ofNat_toNat, BitVec.setWidth_eq]
  rcases vmmPage1gbMapOffline_cases (m := m) (show root < 2 ^ 51 by omega) with
    ⟨m', heq, hfail, -⟩ | ⟨m₁, n, heq, hpres, hn, hfails, hcore⟩
  · exact ⟨false, m', heq, hfail⟩
  · obtain ⟨h₁, hkeep⟩ : HhdmTree c₀ root k m₁.toCore ∧
        ∀ q f, descend (slots m.mem) 0 root q = some f → descend (slots m₁.mem) 0 root q = some f := by
      rcases hcore with hcore | ⟨habs, g, htaken, hcore⟩
      · rw [hcore]
        exact ⟨h, fun _ _ hq => hq⟩
      · rw [hcore]
        have hempty : slots m.mem 0 root (vaIndex (p + hhdmOffset) 39) = .empty := entrySlot_empty habs
        have hlink := h.tree.link (p := []) rfl (by decide) hempty htaken.free htaken.lt
        exact ⟨h.link hempty htaken.free htaken.lt, fun q f hq => (hlink.descend q f).mpr (Or.inl hq)⟩
    have hdesc := h₁.descend_root hpres
    rw [hn] at hdesc
    rw [hentry] at heq
    refine ⟨true, _, heq, h₁.setEntry hslot hdesc, ?_, fun q f hq => ?_⟩
    · rw [Machine.failures_setEntry, hfails]
    · exact (h₁.setEntry_descend hdesc q).trans (hkeep q f hq)

/-- A turn whose slot of the PML4 is still empty links the frame that is taken next. -/
theorem vmmPage1gbMapOffline_step_new {p : BitVec 64} {g : Nat} (h : HhdmTree c₀ root k m.toCore)
    (hk : k < 2 ^ 18) (hp : p.toNat = k * 2 ^ 30)
    (habs : tableEntry m.mem root (vaIndex (p + hhdmOffset) 39) &&& pagePresent = 0)
    (htaken : Machine.Taken m.pmm g) :
    ∃ m', vmmPage1gbMapOffline (frameAddr root) (p + hhdmOffset) p (pageWritable ||| pageNx) m =
        (true, m') ∧ HhdmTree c₀ root (k + 1) m'.toCore ∧
      descend (slots m'.mem) 0 root [vaIndex (p + hhdmOffset) 39] = some g := by
  have hroot := h.tree.root_lt
  have hslot : hhdmSlot (p + hhdmOffset) = k := by
    rw [hhdmSlot, BitVec.toNat_add, hhdmOffset_toNat, hp]
    omega
  have hentry : hugeEntry p (pageWritable ||| pageNx) = hhdmEntry k := by
    rw [hhdmEntry, ← hp, BitVec.ofNat_toNat, BitVec.setWidth_eq]
  rcases vmmPage1gbMapOffline_cases (m := m) (show root < 2 ^ 51 by omega) with
    ⟨m', -, -, hfull⟩ | ⟨m₁, n, heq, hpres, hn, -, hcore⟩
  · exact absurd rfl (htaken.ne_of_used (hfull g htaken.lt))
  · rcases hcore with hcore | ⟨-, g', htaken', hcore⟩
    · rw [hcore] at hpres
      exact absurd habs hpres
    · have hempty : slots m.mem 0 root (vaIndex (p + hhdmOffset) 39) = .empty := entrySlot_empty habs
      have hlink := h.tree.link (p := []) rfl (by decide) hempty htaken'.free htaken'.lt
      have h₁ : HhdmTree c₀ root k m₁.toCore := by
        rw [hcore]
        exact h.link hempty htaken'.free htaken'.lt
      have hdesc := h₁.descend_root hpres
      have hnew : descend (slots m₁.mem) 0 root [vaIndex (p + hhdmOffset) 39] = some g' := by
        rw [hcore]
        exact (hlink.descend _ _).mpr (Or.inr ⟨rfl, rfl⟩)
      rw [hn] at hdesc
      rw [hentry] at heq
      refine ⟨_, heq, h₁.setEntry hslot hdesc, ?_⟩
      rw [htaken.unique htaken']
      exact (h₁.setEntry_descend hdesc _).trans hnew

/-- How many leaves of 1 GiB the direct map takes. -/
def gibCount (ceiling : BitVec 64) : Nat := (ceiling.toNat + (2 ^ 30 - 1)) / 2 ^ 30

/-- The loop of `vmm_hhdm_create` from some GiB on: it maps the ceiling, rounded up to whole GiB, or
fails to allocate. -/
theorem hhdmLoop_spec {fuel : Nat} {c : BitVec 64} (start : BitVec 64) (h : HhdmTree c₀ root k m.toCore)
    (hceil : c.toNat ≤ 2 ^ 48) (hstart : start.toNat = k * 2 ^ 30) (hle : start.toNat < c.toNat + 2 ^ 30)
    (hfuel : c.toNat - start.toNat < fuel) :
    ∃ r m', Loop.forStep c gibSize (fun p m => vmmPage1gbMapOffline (frameAddr root) (p + hhdmOffset) p
        (pageWritable ||| pageNx) m) fuel start m = some (r, m') ∧
      if r then HhdmTree c₀ root (gibCount c) m'.toCore ∧ m.failures ≤ m'.failures ∧
        ∀ q f, descend (slots m.mem) 0 root q = some f → descend (slots m'.mem) 0 root q = some f
      else m.failures < m'.failures := by
  have hk : start.toNat / 2 ^ 30 = k := by omega
  refine Loop.forStep_rule
    (fun p (s : Machine) => (HhdmTree c₀ root (p / 2 ^ 30) s.toCore ∧ m.failures ≤ s.failures ∧
      ∀ q f, descend (slots m.mem) 0 root q = some f → descend (slots s.mem) 0 root q = some f) ∧
      p % 2 ^ 30 = 0 ∧ p < c.toNat + 2 ^ 30)
    (fun r (s : Machine) =>
      if r then HhdmTree c₀ root (gibCount c) s.toCore ∧ m.failures ≤ s.failures ∧
        ∀ q f, descend (slots m.mem) 0 root q = some f → descend (slots s.mem) 0 root q = some f
      else m.failures < s.failures)
    (by rw [gibSize_toNat]; omega) (by rw [gibSize_toNat]; omega) ?_ ?_
    ⟨⟨hk ▸ h, Nat.le_refl _, fun _ _ hq => hq⟩, by omega, hle⟩ hfuel
  · rintro p s hlt ⟨⟨htree, hfails, hkeep⟩, hmod, -⟩
    have hlt' := BitVec.lt_def.mp hlt
    obtain ⟨r, s', heq, hturn⟩ :=
      vmmPage1gbMapOffline_step (p := p) htree (by omega) (by omega)
    rw [gibSize_toNat, heq]
    cases r with
    | false => exact Nat.lt_of_le_of_lt hfails hturn
    | true =>
        obtain ⟨htree', hfails', hkeep'⟩ := hturn
        have hnext : (p.toNat + 2 ^ 30) / 2 ^ 30 = p.toNat / 2 ^ 30 + 1 := by omega
        exact ⟨⟨hnext ▸ htree', Nat.le_trans hfails hfails', fun q f hq => hkeep' q f (hkeep q f hq)⟩,
          by omega, by omega⟩
  · rintro p s hge ⟨⟨htree, hrest⟩, hmod, hlt⟩
    have hcount : p / 2 ^ 30 = gibCount c := by
      rw [gibCount]
      omega
    exact ⟨hcount ▸ htree, hrest⟩

theorem vmmHhdmCreate_spec {fuel : Nat} (h : HhdmTree c₀ root 0 m.toCore)
    (hceil : (pmmHighestAddressGet m.pmm).toNat ≤ 2 ^ 48) (hfuel : 2 ^ 64 ≤ fuel) :
    ∃ r m', vmmHhdmCreate fuel (frameAddr root) m = some (r, m') ∧
      if r then HhdmTree c₀ root (gibCount (pmmHighestAddressGet m.pmm)) m'.toCore ∧
        m.failures ≤ m'.failures
      else m.failures < m'.failures := by
  have hzero : (0 : BitVec 64).toNat = 0 := rfl
  obtain ⟨r, m', heq, hpost⟩ :=
    hhdmLoop_spec 0 h hceil hzero (by omega) (show _ < fuel by omega)
  refine ⟨r, m', heq, ?_⟩
  cases r with
  | false => exact hpost
  | true => exact ⟨hpost.1, hpost.2.1⟩

end

end BootKernel
