import BootKernel.Vmm.Supply

/-!
# Reserved bits in the new tables

`enter_long_mode` sets LME in EFER and nothing else. While NXE is clear, bit 63 of an entry is reserved,
and an access whose walk meets a present entry with a reserved bit set faults.
-/

namespace BootKernel

open Radix

/-- The value that `enter_long_mode` writes back to EFER. -/
def enterLongModeEfer (efer : BitVec 64) : BitVec 64 := efer ||| (1 <<< 8)

def eferNxe : BitVec 64 := 1 <<< 11

/-- The bits of a present entry that have to be zero when physical addresses have 52 bits. -/
def reservedBits (efer : BitVec 64) (depth : Nat) (e : BitVec 64) : BitVec 64 :=
  (if efer &&& eferNxe = 0 then pageNx else 0) |||
    if depth = 0 then psBit
    else if depth = 1 ∧ e &&& psBit ≠ 0 then 0x3FFFE000
    else if depth = 2 ∧ e &&& psBit ≠ 0 then 0x1FE000
    else 0

/-- The walk of an address reads the entry `e` at the given depth. -/
def WalkReads (mem : Memory) (root : Nat) (va : BitVec 64) (depth : Nat) (e : BitVec 64) : Prop :=
  ∃ q i rest n, vaPath va = q ++ i :: rest ∧ q.length = depth ∧
    descend (slots mem) 0 root q = some n ∧ tableEntry mem n i = e

/-- No present entry on the walk has a reserved bit set. -/
def WalkValid (efer : BitVec 64) (mem : Memory) (root : Nat) (va : BitVec 64) : Prop :=
  ∀ depth e, WalkReads mem root va depth e → e &&& pagePresent ≠ 0 → e &&& reservedBits efer depth e = 0

/-- The walks of the direct map are valid. -/
def DirectMapValid (efer ceiling : BitVec 64) (mem : Memory) (root : Nat) : Prop :=
  ∀ pa, pa < ceiling → WalkValid efer mem root (hhdmOffset + pa)

/-- So are those of the direct map and of the kernel image. -/
def TablesValid (efer ceiling : BitVec 64) (env : BootEnv) (mem : Memory) (root : Nat) : Prop :=
  DirectMapValid efer ceiling mem root ∧
    ∀ va, env.image.kernelStart ≤ va → va < env.image.kernelEnd → WalkValid efer mem root va

/-- What `vmm_hhdm_create` leaves in the tables is valid, and so is what `vmm_init` loads. -/
def InitEntriesValid (efer : BitVec 64) (fuel : Nat) (env : BootEnv) (m : Machine) : Prop :=
  (∀ m₁, vmmHhdmCreate fuel m.frameAlloc.1 (zero .identity m.frameAlloc.1 4096 m.frameAlloc.2) =
      some (true, m₁) →
    DirectMapValid efer (pmmHighestAddressGet m.pmm) m₁.mem (entryFrame m.frameAlloc.1)) ∧
  ∀ m', vmmInit fuel env m = some (true, m') →
    TablesValid efer (pmmHighestAddressGet m.pmm) env m'.mem (rootFrame m')

/-! ## The bits of the entries -/

section
variable {efer e : BitVec 64} {depth g : Nat}

theorem nx_eq_zero : e &&& pageNx = 0 ↔ e.getLsbD 63 = false := and_twoPow_eq_zero (by decide)

theorem enterLongModeEfer_nxe (h : efer &&& eferNxe = 0) : enterLongModeEfer efer &&& eferNxe = 0 := by
  have hlme : (1 <<< 8 : BitVec 64) &&& eferNxe = 0 := by decide
  rw [enterLongModeEfer, BitVec.and_or_distrib_right, h, hlme]
  rfl

/-- A large page without execution is never valid while NXE is clear. -/
theorem reserved_of_nx (hnxe : efer &&& eferNxe = 0) (hnx : e &&& pageNx ≠ 0) :
    e &&& reservedBits efer depth e ≠ 0 := by
  intro hzero
  rw [reservedBits, if_pos hnxe, BitVec.and_or_distrib_left] at hzero
  exact hnx (BitVec.or_eq_zero_iff.mp hzero).1

/-- Neither NX nor PS is set, as in a link and in the entry of a writable page. -/
def PlainEntry (e : BitVec 64) : Prop := e &&& pageNx = 0 ∧ e &&& psBit = 0

theorem PlainEntry.valid (h : PlainEntry e) : e &&& reservedBits efer depth e = 0 := by
  obtain ⟨hnx, hps⟩ := h
  have hhigh : e &&& (if efer &&& eferNxe = 0 then pageNx else 0) = 0 := by
    split
    · exact hnx
    · exact BitVec.and_zero
  have hlow : ∀ depth, e &&& (if depth = 0 then psBit
      else if depth = 1 ∧ e &&& psBit ≠ 0 then 0x3FFFE000
      else if depth = 2 ∧ e &&& psBit ≠ 0 then 0x1FE000 else 0) = 0 := by
    intro depth
    simp only [hps, ne_eq, not_true, and_false, ↓reduceIte]
    split
    · exact hps
    · exact BitVec.and_zero
  rw [reservedBits, BitVec.and_or_distrib_left, hhigh, hlow]
  rfl

theorem plainEntry_zero : PlainEntry 0 := ⟨by decide, by decide⟩

theorem plainEntry_pageEntry (paddr : BitVec 64) : PlainEntry (pageEntry paddr pageWritable) := by
  have hbits : ∀ mask : BitVec 64, pageAddrMask &&& mask = 0 → pageWritable &&& mask = 0 →
      pagePresent &&& mask = 0 → pageEntry paddr pageWritable &&& mask = 0 := by
    intro mask haddr hwritable hpresent
    rw [pageEntry, BitVec.and_or_distrib_right, BitVec.and_or_distrib_right, BitVec.and_assoc, haddr,
      hwritable, hpresent]
    simp
  exact ⟨hbits _ (by decide) (by decide) (by decide), hbits _ (by decide) (by decide) (by decide)⟩

theorem plainEntry_linkEntry (hg : g < 2 ^ 40) : PlainEntry (linkEntry g) := by
  have hlink : linkEntry g = pageEntry (frameAddr g) pageWritable := by
    rw [linkEntry, pageEntry, frameAddr_and_mask hg, BitVec.or_assoc, BitVec.or_assoc,
      BitVec.or_comm pagePresent]
  rw [hlink]
  exact plainEntry_pageEntry _

end

/-! ## Entries of the tree -/

/-- Every entry of every table has the property. -/
def EachEntry (P : BitVec 64 → Prop) (root : Nat) (c : Core) : Prop :=
  ∀ q n i, descend (slots c.mem) 0 root q = some n → P (tableEntry c.mem n i)

section
variable {P : BitVec 64 → Prop} {c c' : Core} {root t : Nat} {va v : BitVec 64}

theorem EachEntry.link (h : EachEntry P root c) (ht : PageTree c root) (hzero : P 0)
    (hlinks : ∀ g < 2 ^ 30, P (linkEntry g)) (hstep : LinkStep root c c') : EachEntry P root c' := by
  cases hstep with
  | @mk p n i g hp hlen hempty hfree hg =>
      have hlink := ht.link hp hlen hempty hfree hg
      have hng : n ≠ g := fun h => ht.fresh hfree (h ▸ ⟨p, hp⟩)
      intro q f j hq
      simp only [linkTable]
      by_cases hslot : f = n ∧ j = i
      · obtain ⟨rfl, rfl⟩ := hslot
        rw [tableEntry_store64_same]
        exact hlinks g hg
      · rw [tableEntry_store64_ne hslot]
        rcases (hlink.descend q f).mp hq with hold | ⟨-, rfl⟩
        · have hfg : f ≠ g := fun h => ht.fresh hfree (h ▸ ⟨q, hold⟩)
          rw [tableEntry_zeroFrame_ne hfg]
          exact h q f j hold
        · rw [tableEntry_zeroFrame_self]
          exact hzero

theorem EachEntry.grow (h : EachEntry P root c) (ht : PageTree c root) (hzero : P 0)
    (hlinks : ∀ g < 2 ^ 30, P (linkEntry g)) (hgrow : Grow root c c') : EachEntry P root c' := by
  induction hgrow with
  | refl => exact h
  | tail hprev hstep ih => exact ih.link (ht.grow hprev).tree hzero hlinks hstep

theorem EachEntry.setPage (h : EachEntry P root c) (ht : PageTree c root)
    (hend : descend (slots c.mem) 0 root (ptPath va) = some t) (hv : P v) :
    EachEntry P root { c with mem := setEntry c.mem t (vaIndex va 12) v } := by
  intro q n j hq
  rw [ht.setEntry_descend hend (entrySlot_pt_ne_node (ptPath_length va) _)
    (entrySlot_pt_ne_node (ptPath_length va) v)] at hq
  simp only [setEntry]
  by_cases hslot : n = t ∧ j = vaIndex va 12
  · obtain ⟨rfl, rfl⟩ := hslot
    rw [tableEntry_store64_same]
    exact hv
  · rw [tableEntry_store64_ne hslot]
    exact h q n j hq

theorem EachEntry.walkValid (h : EachEntry PlainEntry root c) (efer : BitVec 64) (va : BitVec 64) :
    WalkValid efer c.mem root va := by
  rintro depth e ⟨q, i, rest, n, -, -, hq, rfl⟩ -
  exact (h q n i hq).valid

end

/-! ## Without a direct map -/

section
variable {map : List E820Entry} {p : Pmm} {env : BootEnv} {m m' : Machine} {fuel : Nat}

theorem rootCore_plain {c : Core} {root : Nat} (htaken : Machine.Taken c.pmm root) :
    EachEntry PlainEntry root (rootCore c root) := by
  intro q n i hq
  obtain ⟨-, rfl⟩ := (rootCore_descend htaken).mp hq
  rw [rootCore, tableEntry_zeroFrame_self]
  exact plainEntry_zero

/-- With a ceiling of zero the loop of `vmm_hhdm_create` is not entered. -/
theorem vmmHhdmCreate_empty (hceil : pmmHighestAddressGet m.pmm = 0) (hfuel : 2 ^ 64 ≤ fuel)
    (pml4Virt : BitVec 64) : vmmHhdmCreate fuel pml4Virt m = some (true, m) := by
  obtain ⟨n, rfl⟩ : ∃ n, fuel = n + 1 := ⟨fuel - 1, by omega⟩
  rw [vmmHhdmCreate, hceil]
  exact Loop.forStep_done (by decide)

theorem initRules_plain (hfuel : 2 ^ 64 ≤ fuel) (hceil : pmmHighestAddressGet m.pmm = 0) :
    InitRules fuel m (EachEntry PlainEntry) where
  direct {root m₁ m₂} htaken hcore hrun := by
    have hceil₁ : pmmHighestAddressGet m₁.pmm = 0 := by
      rw [hcore, rootCore_ceiling, hceil]
    rw [vmmHhdmCreate_empty hceil₁ hfuel] at hrun
    cases hrun
    rw [hcore]
    exact rootCore_plain htaken
  grow ht hgrow h := h.grow ht plainEntry_zero (fun _ hg => plainEntry_linkEntry (by omega)) hgrow
  setPage {_ _ _ va} ht hend h := h.setPage ht hend (plainEntry_pageEntry va)

theorem vmmInit_plain (hpmm : m.pmm = pmmInit map env.image p)
    (hplaced : env.Placed (pmmHighestAddressGet m.pmm)) (hfuel : 2 ^ 64 ≤ fuel)
    (hceil : pmmHighestAddressGet m.pmm = 0) (hinit : vmmInit fuel env m = some (true, m')) :
    EachEntry PlainEntry (rootFrame m') m'.toCore := by
  obtain ⟨root, htaken, hcr3, -, hplain⟩ :=
    (initRules_plain hfuel hceil).built hpmm hplaced hfuel hinit
  have hlt := htaken.lt
  have hroot : rootFrame m' = root := by
    rw [rootFrame, hcr3, entryFrame_frameAddr (by omega)]
  rw [hroot]
  exact hplain

end

/-! ## With a direct map -/

/-- What the root holds are links to other frames that are in use. -/
structure RootLinks (root : Nat) (c : Core) : Prop where
  used : c.pmm.used root = true
  links : ∀ i, tableEntry c.mem root i &&& pagePresent ≠ 0 →
    ∃ t < 2 ^ 30, tableEntry c.mem root i = linkEntry t ∧ t ≠ root ∧ c.pmm.used t = true

/-- The walk of an address passes the root and reads a present entry with bit 63 set. -/
def NxAt (root : Nat) (va : BitVec 64) (c : Core) : Prop :=
  ∃ t < 2 ^ 30, tableEntry c.mem root (vaIndex va 39) = linkEntry t ∧
    tableEntry c.mem t (vaIndex va 30) &&& pagePresent ≠ 0 ∧
    tableEntry c.mem t (vaIndex va 30) &&& pageNx ≠ 0

section
variable {c : Core} {root g n : Nat} {i : Fin 512} {va vb v paddr flags : BitVec 64} {m m' : Machine}

theorem NxAt.not_valid {efer : BitVec 64} (hnxe : efer &&& eferNxe = 0) (h : NxAt root va c) :
    ¬ WalkValid efer c.mem root va := by
  obtain ⟨t, ht, hlink, hpres, hnx⟩ := h
  have hslot : slots c.mem 0 root (vaIndex va 39) = .node t := by
    rw [slots, hlink]
    exact entrySlot_linkEntry (by omega) (by decide)
  have hdesc : descend (slots c.mem) 0 root [vaIndex va 39] = some t := by
    simp only [descend, hslot]
  intro hvalid
  exact reserved_of_nx hnxe hnx (hvalid 1 _ ⟨[vaIndex va 39], vaIndex va 30, _, t, vaPath_eq va, rfl, hdesc, rfl⟩ hpres)

/-- A walk that ends in an entry with bit 63 set is not valid either. -/
theorem not_valid_of_walk {efer e : BitVec 64} {mem : Memory} {depth : Nat} (hnxe : efer &&& eferNxe = 0)
    (hwalk : walk mem root va = some (depth, e)) (hnx : e &&& pageNx ≠ 0) : ¬ WalkValid efer mem root va := by
  obtain ⟨q, i, rest, t, hpath, hdepth, hdesc, hleaf⟩ := lookup_eq_some hwalk
  obtain ⟨hpres, -, heq⟩ := entrySlot_eq_leaf.mp hleaf
  intro hvalid
  exact reserved_of_nx hnxe hnx
    (hvalid depth e ⟨q, i, rest, t, hpath, by omega, hdesc, heq⟩ (heq ▸ hpres))

theorem RootLinks.createTable (h : RootLinks root m.toCore) (htaken : Machine.Taken m.pmm g) :
    RootLinks root (m.createTable root i g).toCore := by
  have hlt := htaken.lt
  have hne : root ≠ g := htaken.ne_of_used h.used
  have hkeep : ∀ f, m.pmm.used f = true → (m.createTable root i g).pmm.used f = true := by
    intro f hf
    rw [Machine.createTable, used_frameBitmapSet, hf, Bool.or_true]
  refine ⟨hkeep root h.used, fun j hj => ?_⟩
  by_cases hij : j = i
  · subst hij
    refine ⟨g, hlt, tableEntry_store64_same _ _ _ _, hne.symm, ?_⟩
    rw [Machine.createTable, used_frameBitmapSet, frameIdx_toNat (by omega)]
    simp
  · have hold : tableEntry (m.createTable root i g).mem root j = tableEntry m.mem root j :=
      (tableEntry_store64_ne fun hroot => hij hroot.2).trans (tableEntry_zeroFrame_ne hne)
    rw [hold] at hj ⊢
    obtain ⟨t, ht, hlink, hroot, hused⟩ := h.links j hj
    exact ⟨t, ht, hlink, hroot, hkeep t hused⟩

theorem NxAt.createTable (h : NxAt root va m.toCore) (hlinks : RootLinks root m.toCore)
    (habs : tableEntry m.mem root i &&& pagePresent = 0) (htaken : Machine.Taken m.pmm g) :
    NxAt root va (m.createTable root i g).toCore := by
  have hlt := htaken.lt
  obtain ⟨t, ht, hlink, hnx⟩ := h
  have hpres : tableEntry m.mem root (vaIndex va 39) &&& pagePresent ≠ 0 := by
    rw [hlink]
    exact linkEntry_present t
  obtain ⟨t', ht', hlink', hne, hused⟩ := hlinks.links _ hpres
  obtain rfl : t = t' := by
    rw [← entryFrame_linkEntry (show t < 2 ^ 40 by omega), ← hlink, hlink', entryFrame_linkEntry (by omega)]
  have hfresh : ∀ f, m.pmm.used f = true → f ≠ g := fun f hf => htaken.ne_of_used hf
  have hslot : vaIndex va 39 ≠ i := by
    rintro rfl
    exact hpres habs
  have hroot : tableEntry (m.createTable root i g).mem root (vaIndex va 39) = tableEntry m.mem root (vaIndex va 39) :=
    (tableEntry_store64_ne fun h => hslot h.2).trans (tableEntry_zeroFrame_ne (hfresh root hlinks.used))
  have htable : ∀ j, tableEntry (m.createTable root i g).mem t j = tableEntry m.mem t j := fun j =>
    (tableEntry_store64_ne fun h => hne h.1).trans (tableEntry_zeroFrame_ne (hfresh t hused))
  refine ⟨t, ht, hroot.trans hlink, ?_⟩
  rw [htable]
  exact hnx

theorem RootLinks.setEntry (h : RootLinks root m.toCore) (hne : root ≠ n) :
    RootLinks root (m.setEntry n i v).toCore := by
  refine ⟨h.used, fun j hj => ?_⟩
  have hold : tableEntry (m.setEntry n i v).mem root j = tableEntry m.mem root j :=
    tableEntry_store64_ne fun h => hne h.1
  rw [hold] at hj ⊢
  exact h.links j hj

theorem NxAt.setEntry (h : NxAt root va m.toCore) (hne : root ≠ n) (hpres : v &&& pagePresent ≠ 0)
    (hnx : v &&& pageNx ≠ 0) : NxAt root va (m.setEntry n i v).toCore := by
  obtain ⟨t, ht, hlink, hold⟩ := h
  have hroot : tableEntry (m.setEntry n i v).mem root (vaIndex va 39) = tableEntry m.mem root (vaIndex va 39) :=
    tableEntry_store64_ne fun h => hne h.1
  refine ⟨t, ht, hroot.trans hlink, ?_⟩
  by_cases hslot : t = n ∧ vaIndex va 30 = i
  · obtain ⟨rfl, rfl⟩ := hslot
    have hsame : tableEntry (m.setEntry t (vaIndex va 30) v).mem t (vaIndex va 30) = v :=
      tableEntry_store64_same _ _ _ _
    rw [hsame]
    exact ⟨hpres, hnx⟩
  · have hsame : tableEntry (m.setEntry n i v).mem t (vaIndex va 30) = tableEntry m.mem t (vaIndex va 30) :=
      tableEntry_store64_ne hslot
    rw [hsame]
    exact hold

theorem hugeEntry_nx (paddr : BitVec 64) : hugeEntry paddr (pageWritable ||| pageNx) &&& pageNx ≠ 0 := by
  rw [ne_eq, nx_eq_zero]
  simp [hugeEntry, pageNx]

/-- A turn of `vmm_hhdm_create` that succeeds writes an entry with bit 63 set, and takes none away. -/
theorem vmmPage1gbMapOffline_nx (hroot : root < 2 ^ 51) (h : RootLinks root m.toCore)
    (heq : vmmPage1gbMapOffline (frameAddr root) va paddr (pageWritable ||| pageNx) m = (true, m')) :
    RootLinks root m'.toCore ∧ NxAt root va m'.toCore ∧
      ∀ vb, NxAt root vb m.toCore → NxAt root vb m'.toCore := by
  rcases vmmPage1gbMapOffline_cases hroot with ⟨m₁, heq₁, -⟩ | ⟨m₁, n, heq₁, hpres, hn, -, hcore⟩
  · rw [heq] at heq₁
    cases heq₁
  · rw [heq] at heq₁
    cases heq₁
    obtain ⟨h₁, hkeep⟩ : RootLinks root m₁.toCore ∧ ∀ vb, NxAt root vb m.toCore → NxAt root vb m₁.toCore := by
      rcases hcore with hcore | ⟨habs, g, htaken, hcore⟩
      · rw [hcore]
        exact ⟨h, fun _ hvb => hvb⟩
      · rw [hcore]
        exact ⟨h.createTable htaken, fun _ hvb => hvb.createTable h habs htaken⟩
    obtain ⟨t, ht, hlink, hne, -⟩ := h₁.links _ hpres
    obtain rfl : n = t := by
      rw [← hn, hlink, entryFrame_linkEntry (by omega)]
    have hnx := hugeEntry_nx paddr
    have hpres' := hugeEntry_present paddr (pageWritable ||| pageNx)
    refine ⟨h₁.setEntry hne.symm, ⟨n, ht, ?_, ?_⟩, fun vb hvb => (hkeep vb hvb).setEntry hne.symm hpres' hnx⟩
    · exact (tableEntry_store64_ne fun h => hne h.1.symm).trans hlink
    · have hsame : tableEntry (m₁.setEntry n (vaIndex va 30) (hugeEntry paddr (pageWritable ||| pageNx))).mem n
          (vaIndex va 30) = hugeEntry paddr (pageWritable ||| pageNx) := tableEntry_store64_same _ _ _ _
      rw [hsame]
      exact ⟨hpres', hnx⟩

theorem vmmHhdmCreate_nx {fuel : Nat} (hroot : root < 2 ^ 51) (h : RootLinks root m.toCore)
    (hceil : pmmHighestAddressGet m.pmm ≠ 0) (hloop : vmmHhdmCreate fuel (frameAddr root) m = some (true, m')) :
    NxAt root hhdmOffset m'.toCore := by
  have hpos : 0 < pmmHighestAddressGet m.pmm :=
    BitVec.lt_def.mpr (Nat.pos_of_ne_zero fun hzero => hceil (BitVec.eq_of_toNat_eq hzero))
  cases fuel with
  | zero => cases hloop
  | succ fuel =>
      rw [vmmHhdmCreate] at hloop
      rcases hturn : vmmPage1gbMapOffline (frameAddr root) (0 + hhdmOffset) 0 (pageWritable ||| pageNx) m with
        ⟨_ | _, m₁⟩
      · rw [Loop.forStep_stop hpos hturn] at hloop
        cases hloop
      · rw [Loop.forStep_continue hpos hturn] at hloop
        obtain ⟨hlinks, hfirst, -⟩ := vmmPage1gbMapOffline_nx hroot h hturn
        have hzero : 0 + hhdmOffset = hhdmOffset := by decide
        rw [hzero] at hfirst
        -- the entry of the first GiB stays as it is or is written with the same flags again
        have hrest := Loop.forStep_invariant
          (fun s : Machine => RootLinks root s.toCore ∧ NxAt root hhdmOffset s.toCore)
          (fun r (s : Machine) => r = true → NxAt root hhdmOffset s.toCore) (fun p s hs => ?_)
          (fun s hs _ => hs.2) ⟨hlinks, hfirst⟩ hloop
        · exact hrest rfl
        · rcases hnext : vmmPage1gbMapOffline (frameAddr root) (p + hhdmOffset) p (pageWritable ||| pageNx) s with
            ⟨_ | _, s'⟩
          · exact fun h => by cases h
          · obtain ⟨hlinks', -, hkeep⟩ := vmmPage1gbMapOffline_nx hroot hs.1 hnext
            exact ⟨hlinks', hkeep _ hs.2⟩

end

/-! ## The tables of `vmm_init` -/

section
variable {map : List E820Entry} {p : Pmm} {env : BootEnv} {m m' : Machine} {fuel : Nat} {efer : BitVec 64}

theorem not_directMapValid {ceiling : BitVec 64} {mem : Memory} {root : Nat} (hceil : ceiling ≠ 0)
    (h : ¬ WalkValid efer mem root hhdmOffset) : ¬ DirectMapValid efer ceiling mem root := by
  intro hvalid
  have hfirst := hvalid 0 (BitVec.lt_def.mpr (Nat.pos_of_ne_zero fun hzero => hceil (BitVec.eq_of_toNat_eq hzero)))
  have hzero : hhdmOffset + 0 = hhdmOffset := by decide
  rw [hzero] at hfirst
  exact h hfirst

theorem vmmHhdmCreate_not_valid (hnxe : efer &&& eferNxe = 0) (hceil : pmmHighestAddressGet m.pmm ≠ 0) {m₁ : Machine}
    (hhhdm : vmmHhdmCreate fuel m.frameAlloc.1 (zero .identity m.frameAlloc.1 4096 m.frameAlloc.2) =
      some (true, m₁)) (halloc : m.frameAlloc.1 ≠ pmmInvalidFrame) :
    ¬ DirectMapValid efer (pmmHighestAddressGet m.pmm) m₁.mem (entryFrame m.frameAlloc.1) := by
  rcases frameAlloc_root m with ⟨hfail, -⟩ | ⟨root, htaken, hroot, hclear⟩
  · exact absurd (congrArg Prod.fst hfail) halloc
  · have hlt := htaken.lt
    have hstart : RootLinks root (m.takeRoot root).toCore := by
      refine ⟨?_, fun i hi => ?_⟩
      · rw [Machine.takeRoot, used_frameBitmapSet, frameIdx_toNat (by omega)]
        simp
      · rw [Machine.takeRoot, tableEntry_zeroFrame_self] at hi
        exact absurd (by decide) hi
    have hceil₁ : pmmHighestAddressGet (m.takeRoot root).pmm ≠ 0 := by
      rw [show pmmHighestAddressGet (m.takeRoot root).pmm = pmmHighestAddressGet m.pmm from
        rootCore_ceiling m.toCore root]
      exact hceil
    rw [hclear, hroot] at hhhdm
    rw [hroot, entryFrame_frameAddr (by omega)]
    exact not_directMapValid hceil ((vmmHhdmCreate_nx (by omega) hstart hceil₁ hhhdm).not_valid hnxe)

theorem vmmInit_not_valid (hnxe : efer &&& eferNxe = 0) (hpmm : m.pmm = pmmInit map env.image p)
    (hplaced : env.Placed (pmmHighestAddressGet m.pmm)) (hfuel : 2 ^ 64 ≤ fuel)
    (hinit : vmmInit fuel env m = some (true, m')) (hceil : pmmHighestAddressGet m.pmm ≠ 0) :
    ¬ DirectMapValid efer (pmmHighestAddressGet m.pmm) m'.mem (rootFrame m') := by
  obtain ⟨root, htaken, hcr3, hboot⟩ := vmmInit_bootTree hpmm hplaced hfuel hinit
  have hlt := htaken.lt
  have hroot : rootFrame m' = root := by
    rw [rootFrame, hcr3, entryFrame_frameAddr (by omega)]
  have hslot : hhdmSlot hhdmOffset = 0 := by decide
  have hpos : 0 < gibCount (pmmHighestAddressGet m.pmm) := by
    have hne : (pmmHighestAddressGet m.pmm).toNat ≠ 0 := fun hzero => hceil (BitVec.eq_of_toNat_eq hzero)
    rw [gibCount]
    omega
  have hwalk := hboot.high hhdmOffset (by decide)
  rw [hslot, if_pos hpos] at hwalk
  rw [hroot]
  exact not_directMapValid hceil (not_valid_of_walk hnxe hwalk (hugeEntry_nx _))

/-- While NXE is clear the entries of the new tables are valid exactly if there is nothing to map in the
direct map. With a ceiling of at most 2^47, to which the tables are meant to reach, the final tables show
it; above it the image is mapped through other pages' contents, and the tables of `vmm_hhdm_create` show
it. -/
theorem vmmInit_entriesValid_iff (efer : BitVec 64) (map : List E820Entry) (p : Pmm) (env : BootEnv)
    (m m' : Machine) (fuel : Nat) (hnxe : efer &&& eferNxe = 0) (hpmm : m.pmm = pmmInit map env.image p)
    (himage : env.image.kernelEnd.toNat ≤ 64 * 2 ^ 20) (hwindow : 256 * 1024 ≤ env.rsp.toNat)
    (hstack : env.rsp.toNat ≤ 0x700000) (hfuel : 2 ^ 64 ≤ fuel) (hinit : vmmInit fuel env m = some (true, m')) :
    (InitEntriesValid (enterLongModeEfer efer) fuel env m ↔ pmmHighestAddressGet m.pmm = 0) ∧
      ((pmmHighestAddressGet m.pmm).toNat ≤ 2 ^ 47 →
        (TablesValid (enterLongModeEfer efer) (pmmHighestAddressGet m.pmm) env m'.mem (rootFrame m') ↔
          pmmHighestAddressGet m.pmm = 0)) := by
  have hclear := enterLongModeEfer_nxe hnxe
  have hempty : pmmHighestAddressGet m.pmm = 0 → ∀ mem root,
      DirectMapValid (enterLongModeEfer efer) (pmmHighestAddressGet m.pmm) mem root := by
    intro hceil mem root pa hpa
    rw [hceil] at hpa
    exact absurd hpa BitVec.not_lt_zero
  have hfinal : pmmHighestAddressGet m.pmm = 0 →
      TablesValid (enterLongModeEfer efer) (pmmHighestAddressGet m.pmm) env m'.mem (rootFrame m') := by
    intro hceil
    have hplaced : env.Placed (pmmHighestAddressGet m.pmm) :=
      ⟨himage, hwindow, hstack, by rw [hceil]; decide⟩
    exact ⟨hempty hceil _ _, fun va _ _ => (vmmInit_plain hpmm hplaced hfuel hceil hinit).walkValid _ va⟩
  refine ⟨⟨fun hvalid => ?_, fun hceil => ⟨fun _ _ => hempty hceil _ _, fun m₁ hm₁ => ?_⟩⟩,
    fun hle => ⟨fun hvalid => ?_, hfinal⟩⟩
  · by_contra hceil
    rcases vmmInit_early hinit with ⟨hr, -⟩ | ⟨root, m₁, m₂, events, hroot, -, hhhdm, -, -, -⟩
    · cases hr
    · exact vmmHhdmCreate_not_valid hclear hceil hhhdm (hroot ▸ frameAddr_ne_invalid root) (hvalid.1 m₁ hhhdm)
  · rw [hinit] at hm₁
    cases hm₁
    exact hfinal hceil
  · by_contra hceil
    exact vmmInit_not_valid hclear hpmm ⟨himage, hwindow, hstack, hle⟩ hfuel hinit hceil hvalid.1

end

/-- A machine whose memory map is empty, after `pmm_init`. -/
def emptyMapMachine : Machine where
  mem := fun _ => 0
  pmm := pmmInit [] sampleImage samplePmm
  cr3 := 0x1000
  trace := []

theorem emptyMapMachine_pmm : emptyMapMachine.pmm = pmmInit [] sampleImage samplePmm := by
  simp only [emptyMapMachine]

theorem emptyMapMachine_ceiling : pmmHighestAddressGet emptyMapMachine.pmm = 0 := by
  rw [emptyMapMachine_pmm, pmmHighestAddressGet, pmmInit_ceiling, foldl_ceiling, bitmapFill_ceiling]
  rfl

theorem vmmInit_entriesValid_iff_empty : InitEntriesValid (enterLongModeEfer 0) (2 ^ 64) sampleEnv emptyMapMachine := by
  have hplaced : sampleEnv.Placed (pmmHighestAddressGet emptyMapMachine.pmm) := by
    rw [emptyMapMachine_ceiling]
    exact sampleEnv_placed (by decide)
  have hpmm : emptyMapMachine.pmm = pmmInit [] sampleEnv.image samplePmm := emptyMapMachine_pmm
  obtain ⟨m', hinit⟩ := vmmInit_succeeds hpmm hplaced (Nat.le_refl (2 ^ 64))
  exact (vmmInit_entriesValid_iff 0 [] samplePmm sampleEnv emptyMapMachine m' (2 ^ 64) (by decide)
    hpmm (by decide) (by decide) (by decide) (Nat.le_refl _) hinit).1.mpr emptyMapMachine_ceiling

/-- With 2 GiB of memory the first entry of the direct map has bit 63 set. -/
theorem vmmInit_entries_reserved :
    ∃ m', vmmInit (2 ^ 64) sampleEnv (ramMachine [] fun _ => 0) = some (true, m') ∧
      ¬ DirectMapValid (enterLongModeEfer 0) 0x80000000 m'.mem (rootFrame m') ∧
      ¬ InitEntriesValid (enterLongModeEfer 0) (2 ^ 64) sampleEnv (ramMachine [] fun _ => 0) := by
  have hceiling : pmmHighestAddressGet (ramMachine [] fun _ => 0).pmm = 0x80000000 := ramMachine_highest _
  have hplaced : sampleEnv.Placed (pmmHighestAddressGet (ramMachine [] fun _ => 0).pmm) := ramMachine_placed _
  have hpmm : (ramMachine [] fun _ => 0).pmm = pmmInit [ramEntry] sampleEnv.image fullPmm := ramMachine_pmm
  obtain ⟨m', hinit⟩ := vmmInit_succeeds hpmm hplaced (Nat.le_refl (2 ^ 64))
  have hinvalid := vmmInit_not_valid (enterLongModeEfer_nxe (show 0 &&& eferNxe = 0 by decide)) hpmm hplaced
    (Nat.le_refl (2 ^ 64)) hinit (by rw [hceiling]; decide)
  refine ⟨m', hinit, ?_, fun hvalid => hinvalid (hvalid.2 m' hinit).1⟩
  rw [← hceiling]
  exact hinvalid

end BootKernel
