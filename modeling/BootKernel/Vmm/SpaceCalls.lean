import BootKernel.Vmm.Spaces

/-!
# Calls on several address spaces

`vmm_page_map` and `vmm_page_unmap` take the root of the tree that they change, the other functions use the
loaded one. A run of calls is followed on the spaces: what they hold at its end is what the trees represent.
-/

namespace BootKernel

open Radix AddressSpace

inductive SpaceCall where
  | pageMap (pml4 : Nat) (vaddr paddr flags : BitVec 64)
  | pageUnmap (pml4 : Nat) (vaddr : BitVec 64) (wantsPaddr : Bool)
  | pageAlloc (vaddr flags : BitVec 64)
  | pageFree (vaddr flags : BitVec 64)
  | pml4Load (pml4 : Nat)

/-- What an unmap finds in the variable for the address, if it is given one. -/
def wanted (wantsPaddr : Bool) : Option (BitVec 64) := if wantsPaddr then some 0 else none

def SpaceCall.run (m : Machine) : SpaceCall → Machine
  | .pageMap pml4 vaddr paddr flags => (vmmPageMap (frameAddr pml4) vaddr paddr flags m).2
  | .pageUnmap pml4 vaddr wantsPaddr => (vmmPageUnmap (frameAddr pml4) vaddr (wanted wantsPaddr) m).2.2
  | .pageAlloc vaddr flags => (vmmPageAlloc vaddr flags m).2
  | .pageFree vaddr flags => vmmPageFree vaddr flags m
  | .pml4Load pml4 => vmmPml4Load (frameAddr pml4) m

/-- The frame that the next allocation takes. -/
def nextFrame (m : Machine) : Nat := m.frameAlloc.1.toNat / 4096

/-- What a call does to the spaces, given what it returns. -/
def SpaceCall.effect (m : Machine) (σ : PageSpaces) : SpaceCall → PageSpaces
  | .pageMap pml4 vaddr paddr flags =>
      if (vmmPageMap (frameAddr pml4) vaddr paddr flags m).1 then
        σ.put pml4 (vaPath vaddr) (3, pageEntry paddr flags) none
      else σ
  | .pageUnmap pml4 vaddr _ => σ.erase pml4 (vaPath vaddr)
  | .pageAlloc vaddr flags =>
      if m.frameAlloc.1 = pmmInvalidFrame then σ
      else if (vmmPageMap (vmmPml4Get m) vaddr m.frameAlloc.1 flags m.frameAlloc.2).1 then
        (σ.take (nextFrame m)).put (rootFrame m) (vaPath vaddr) (3, pageEntry m.frameAlloc.1 flags)
          (some (nextFrame m))
      -- the frame stays taken, though no page has it
      else σ.take (nextFrame m)
  | .pageFree vaddr _ =>
      match σ.owns (rootFrame m) (vaPath vaddr) with
      | some f => (σ.erase (rootFrame m) (vaPath vaddr)).give f
      | none => σ.erase (rootFrame m) (vaPath vaddr)
  | .pml4Load _ => σ

/-- A page outside the direct map in one of the trees. Only a page that owns its frame, or is not mapped, is
freed. -/
def SpaceCall.Allowed (R : Set Nat) (k : Nat) (x : PageSpaces × Machine) : SpaceCall → Prop
  | .pageMap pml4 vaddr _ _ => pml4 ∈ R ∧ ¬ hhdmSlot vaddr < k
  | .pageUnmap pml4 vaddr _ => pml4 ∈ R ∧ ¬ hhdmSlot vaddr < k
  | .pageAlloc vaddr flags => ¬ hhdmSlot vaddr < k ∧ flags &&& pageAddrMask = 0
  | .pageFree vaddr _ => ¬ hhdmSlot vaddr < k ∧ (x.1.maps (rootFrame x.2) (vaPath vaddr) = none ∨
      ∃ f, x.1.owns (rootFrame x.2) (vaPath vaddr) = some f)
  | .pml4Load pml4 => pml4 ∈ R

/-- An unmap of a page that is mapped returns 1, and reports the address in its entry. -/
def SpaceCall.Answered (x : PageSpaces × Machine) : SpaceCall → Prop
  | .pageUnmap pml4 vaddr wantsPaddr => ∀ d e, x.1.maps pml4 (vaPath vaddr) = some (d, e) →
      (vmmPageUnmap (frameAddr pml4) vaddr (wanted wantsPaddr) x.2).1 = true ∧
      (vmmPageUnmap (frameAddr pml4) vaddr (wanted wantsPaddr) x.2).2.1 =
        (wanted wantsPaddr).map fun _ => e &&& pageAddrMask
  | _ => True

def spacesStep (x : PageSpaces × Machine) (c : SpaceCall) : PageSpaces × Machine :=
  (c.effect x.2 x.1, c.run x.2)

def spacesRun : PageSpaces × Machine → List SpaceCall → PageSpaces × Machine := List.foldl spacesStep

/-- What holds of each call of a run, in the state in which it is made. -/
def EachStep (P : PageSpaces × Machine → SpaceCall → Prop) : PageSpaces × Machine → List SpaceCall → Prop
  | _, [] => True
  | x, c :: cs => P x c ∧ EachStep P (spacesStep x c) cs

section
variable {R U : Set Nat} {k r g : Nat} {σ : PageSpaces} {m : Machine} {va paddr flags : BitVec 64}

/-! ## One call -/

/-- `vmm_page_map` on one of the trees, for a page that is to own the frame `o`. -/
theorem Represents.pageMap (h : Represents R k U σ m.toCore) (hr : r ∈ R) (hva : ¬ hhdmSlot va < k)
    (paddr flags : BitVec 64) {o : Option Nat}
    (ho : ∀ f, o = some f → entryFrame (pageEntry paddr flags) = f ∧ f ∈ σ.held ∧ σ.Unowned f) :
    (vmmPageMap (frameAddr r) va paddr flags m).2.cr3 = m.cr3 ∧
      Represents R k U
        (if (vmmPageMap (frameAddr r) va paddr flags m).1 then σ.put r (vaPath va) (3, pageEntry paddr flags) o
          else σ)
        (vmmPageMap (frameAddr r) va paddr flags m).2.toCore := by
  obtain ⟨m₁, hgrow, hcr3, hmap⟩ := vmmPageMap_cases paddr flags (h.forest.tree r hr) (h.walksToPt hr hva)
  have h₁ := h.grow hr hgrow
  rcases hmap with heq | ⟨t, hend, heq⟩
  · rw [heq]
    exact ⟨hcr3, h₁⟩
  · rw [heq]
    exact ⟨hcr3, h₁.mapPage hr hend (pageEntry_present _ _) ho⟩

theorem Represents.owns_none (h : Represents R k U σ m.toCore) {p : List (Fin 512)} (hnone : σ.maps r p = none) :
    σ.owns r p = none := by
  rw [Option.eq_none_iff_forall_ne_some]
  intro f hf
  obtain ⟨e, he, -⟩ := h.owned r p f hf
  rw [hnone] at he
  cases he

theorem Represents.pageUnmap (h : Represents R k U σ m.toCore) (hr : r ∈ R) (hva : ¬ hhdmSlot va < k)
    (out : Option (BitVec 64)) :
    (vmmPageUnmap (frameAddr r) va out m).2.2.cr3 = m.cr3 ∧
      Represents R k U (σ.erase r (vaPath va)) (vmmPageUnmap (frameAddr r) va out m).2.2.toCore ∧
      ∀ d e, σ.maps r (vaPath va) = some (d, e) → (vmmPageUnmap (frameAddr r) va out m).1 = true ∧
        (vmmPageUnmap (frameAddr r) va out m).2.1 = out.map fun _ => e &&& pageAddrMask := by
  have ht := h.forest.tree r hr
  have hps := h.walksToPt hr hva
  have hmaps := h.maps r hr va
  cases hend : descend (slots m.mem) 0 r (ptPath va) with
  | none =>
      obtain ⟨m', heq, hcore, hcr3⟩ := vmmPageUnmap_none out ht hps hend
      rw [walk_none_of_pt hps hend] at hmaps
      rw [heq]
      rw [Spaces.erase_of_none hmaps.symm (h.owns_none hmaps.symm)]
      refine ⟨hcr3, hcore ▸ h, fun d e he => ?_⟩
      rw [← hmaps] at he
      cases he
  | some t =>
      obtain ⟨m', heq, hcore, hcr3⟩ := vmmPageUnmap_pt out ht (h.forest.low r hr) hps hend
      rw [heq]
      refine ⟨hcr3, hcore ▸ h.clearPage hr hend, fun d e he => ⟨rfl, ?_⟩⟩
      rw [← hmaps] at he
      obtain rfl := hps d e he
      obtain ⟨t', hend', rfl⟩ := pt_of_walk he
      rw [hend] at hend'
      cases hend'
      rfl

theorem Represents.pageAlloc (h : Represents R k U σ m.toCore) (hroot : rootFrame m ∈ R)
    (hva : ¬ hhdmSlot va < k) (hflags : flags &&& pageAddrMask = 0) :
    (vmmPageAlloc va flags m).2.cr3 = m.cr3 ∧
      Represents R k U ((SpaceCall.pageAlloc va flags).effect m σ) (vmmPageAlloc va flags m).2.toCore := by
  rcases m.frameAlloc_cases with ⟨hfail, -⟩ | ⟨g, htaken, hok⟩
  · simp only [vmmPageAlloc, SpaceCall.effect, hfail, ↓reduceIte]
    exact ⟨rfl, h⟩
  · have hlt := htaken.lt
    generalize hm₁ : Machine.emit _ _ = m₁ at hok
    have hcr3 : m₁.cr3 = m.cr3 := by rw [← hm₁]; rfl
    have hcore : m₁.toCore = { m.toCore with pmm := frameBitmapSet m.pmm (BitVec.ofNat 64 g) } := by
      rw [← hm₁]; rfl
    have hroot₁ : rootFrame m₁ = rootFrame m := congrArg entryFrame hcr3
    have hnext : nextFrame m = g := by
      rw [nextFrame, hok, frameAddr_toNat (by omega)]
      omega
    have htake := h.take htaken
    rw [← hcore] at htake
    have hmap := htake.pageMap (o := some g) hroot hva (frameAddr g) flags (by
      rintro f hf
      cases hf
      refine ⟨entryFrame_pageEntry (by omega) hflags, Set.mem_insert g _, fun s q howns => ?_⟩
      have hheld := h.sound.held s q g howns
      have hused := (h.used_iff g (h.new g hheld).1).mpr (Or.inr (Or.inl hheld))
      exact htaken.ne_of_used hused rfl)
    rw [hcr3] at hmap
    simp only [vmmPageAlloc, SpaceCall.effect, hok, frameAddr_ne_invalid, ↓reduceIte, vmmPml4Get_eq, hroot₁, hnext]
    cases hsuccess : (vmmPageMap (frameAddr (rootFrame m)) va (frameAddr g) flags m₁).1 with
    | false =>
        simp only [hsuccess, Bool.false_eq_true, ↓reduceIte] at hmap
        exact hmap
    | true =>
        simp only [hsuccess, ↓reduceIte] at hmap
        exact hmap

theorem Represents.pageFree (h : Represents R k U σ m.toCore) (hroot : rootFrame m ∈ R)
    (flags : BitVec 64) (hva : ¬ hhdmSlot va < k) (howner : σ.maps (rootFrame m) (vaPath va) = none ∨
      ∃ f, σ.owns (rootFrame m) (vaPath va) = some f) :
    rootFrame (vmmPageFree va flags m) = rootFrame m ∧
      Represents R k U ((SpaceCall.pageFree va flags).effect m σ) (vmmPageFree va flags m).toCore := by
  have ht := h.forest.tree _ hroot
  have hps := h.walksToPt hroot hva
  have hmaps := h.maps _ hroot va
  rw [SpaceCall.effect]
  cases hend : descend (slots m.mem) 0 (rootFrame m) (ptPath va) with
  | none =>
      obtain ⟨hcore, hsame⟩ := vmmPageFree_none flags ht hps hend
      rw [walk_none_of_pt hps hend] at hmaps
      have hnone := h.owns_none hmaps.symm
      simp only [hnone, Spaces.erase_of_none hmaps.symm hnone]
      exact ⟨hsame, hcore ▸ h⟩
  | some t =>
      obtain ⟨hcore, hsame⟩ := vmmPageFree_pt flags ht (h.forest.low _ hroot) hps hend
      have hclear := h.clearPage hroot hend
      refine ⟨hsame, ?_⟩
      rw [hcore]
      rcases howner with hnone | ⟨f, hf⟩
      · -- the entry is zero, so the frame that it names is reserved
        have habs : tableEntry m.mem t (vaIndex va 12) &&& pagePresent = 0 := by
          by_contra hpres
          rw [walk_of_pt hend hpres, hnone] at hmaps
          cases hmaps
        have hzero := h.forest.clean _ hroot _ t _ (ptPath_length va) hend habs
        simp only [h.owns_none hnone]
        rw [hzero, pmmFrameFree_reserved (by decide)]
        exact hclear
      · obtain ⟨e, he, hframe⟩ := h.owned _ _ f hf
        have hentry : tableEntry m.mem t (vaIndex va 12) = e := by
          rw [he] at hmaps
          obtain ⟨t', hend', rfl⟩ := pt_of_walk hmaps
          rw [hend] at hend'
          cases hend'
          rfl
        have hlt := entryFrame_lt e
        simp only [hf]
        rw [hentry, hframe]
        exact hclear.release (h.sound.held _ _ f hf) (h.sound.erase_unowned hf) (by omega)

/-- One call leaves the trees representing what it is said to make of the spaces. -/
theorem Represents.step {x : PageSpaces × Machine} {c : SpaceCall} (h : Represents R k U x.1 x.2.toCore)
    (hroot : rootFrame x.2 ∈ R) (hc : c.Allowed R k x) :
    Represents R k U (spacesStep x c).1 (spacesStep x c).2.toCore ∧ rootFrame (spacesStep x c).2 ∈ R ∧
      c.Answered x := by
  obtain ⟨σ, m⟩ := x
  have hkept {m' : Machine} (hcr3 : m'.cr3 = m.cr3) : rootFrame m' ∈ R := by
    rw [rootFrame, hcr3]
    exact hroot
  cases c with
  | pageMap pml4 va paddr flags =>
      obtain ⟨hcr3, hmap⟩ :=
        h.pageMap (o := none) hc.1 hc.2 paddr flags fun f hf => absurd hf.symm (Option.some_ne_none f)
      exact ⟨hmap, hkept hcr3, trivial⟩
  | pageUnmap pml4 va wantsPaddr =>
      obtain ⟨hcr3, hunmap, hanswer⟩ := h.pageUnmap hc.1 hc.2 (wanted wantsPaddr)
      exact ⟨hunmap, hkept hcr3, hanswer⟩
  | pageAlloc va flags =>
      obtain ⟨hcr3, halloc⟩ := h.pageAlloc hroot hc.1 hc.2
      exact ⟨halloc, hkept hcr3, trivial⟩
  | pageFree va flags =>
      obtain ⟨hsame, hfree⟩ := h.pageFree hroot flags hc.1 hc.2
      exact ⟨hfree, by rw [spacesStep, SpaceCall.run, hsame]; exact hroot, trivial⟩
  | pml4Load pml4 =>
      have hlt := (h.forest.tree pml4 hc).root_lt
      have hloaded : rootFrame (vmmPml4Load (frameAddr pml4) m) = pml4 := entryFrame_frameAddr (by omega)
      exact ⟨h, by rw [spacesStep, SpaceCall.run, hloaded]; exact hc, trivial⟩

/-! ## Runs -/

/-- After every run the trees represent the spaces that its results tell of. -/
theorem spacesRun_represents {x : PageSpaces × Machine} (h : Represents R k U x.1 x.2.toCore)
    (hroot : rootFrame x.2 ∈ R) {calls : List SpaceCall} (hcalls : EachStep (SpaceCall.Allowed R k) x calls) :
    Represents R k U (spacesRun x calls).1 (spacesRun x calls).2.toCore ∧
      rootFrame (spacesRun x calls).2 ∈ R ∧ EachStep (fun x c => c.Answered x) x calls := by
  induction calls generalizing x with
  | nil => exact ⟨h, hroot, trivial⟩
  | cons c calls ih =>
      obtain ⟨hstep, hroot', hanswer⟩ := h.step hroot hcalls.1
      obtain ⟨hrun, hend, hanswers⟩ := ih hstep hroot' hcalls.2
      exact ⟨hrun, hend, hanswer, hanswers⟩

end

/-! ## Where runs start -/

/-- The spaces of the trees in a memory. No page owns a frame yet. -/
def spacesOf (mem : Memory) : PageSpaces := ⟨fun r p => lookup (slots mem) 0 r p, fun _ _ => none, ∅⟩

theorem Represents.start {R : Set Nat} {k : Nat} {c : Core} (hforest : Forest R c) (hres : ReservedUsed c.pmm)
    (hlarge : ∀ r ∈ R, ∀ va d e, walk c.mem r va = some (d, e) → d ≠ 3 → hhdmSlot va < k) :
    Represents R k {f | c.pmm.used f = true} (spacesOf c.mem) c where
  forest := hforest
  reserved := hres
  maps _ _ _ := rfl
  large := hlarge
  sound := ⟨nofun, nofun⟩
  owned := nofun
  not_table _ hf := absurd hf (Set.notMem_empty _)
  new _ hf := absurd hf (Set.notMem_empty _)
  used_iff f _ := by
    refine ⟨Or.inl, ?_⟩
    rintro (hf | hf | ⟨r, hr, hf⟩)
    · exact hf
    · exact absurd hf (Set.notMem_empty f)
    · exact (hforest.tree r hr).used f hf

/-- Two cleared tables, as the roots of two spaces. -/
def twoRoots : Set Nat := {0x4000, 0x4005}

theorem twoRoots_zero {r : Nat} (hr : r ∈ twoRoots) : PageTree (zeroTree fourFreePmm).toCore r ∧
    (∀ q, q ≠ [] → descend (slots (zeroTree fourFreePmm).mem) 0 r q = none) ∧
    ∀ q, lookup (slots (zeroTree fourFreePmm).mem) 0 r q = none := by
  have hlt : r < 2 ^ 40 ∧ fourFreePmm.used r = true := by
    rcases hr with rfl | rfl
    · rw [fourFreePmm_used]
      decide
    · rw [fourFreePmm_used]
      decide
  exact PageTree.of_zero (c := (zeroTree fourFreePmm).toCore) hlt.1 hlt.2
    fun _ => Memory.load64_zero fun _ _ _ => rfl

theorem twoRoots_reaches {r f : Nat} (hr : r ∈ twoRoots)
    (hf : Reaches (slots (zeroTree fourFreePmm).mem) r f) : f = r := by
  obtain ⟨q, hq⟩ := hf
  by_cases hne : q = []
  · subst hne
    exact (Option.some.inj hq).symm
  · rw [(twoRoots_zero hr).2.1 q hne] at hq
    cases hq

theorem twoRoots_represents :
    Represents twoRoots 0 {f | fourFreePmm.used f = true} (spacesOf (zeroTree fourFreePmm).mem)
      (zeroTree fourFreePmm).toCore := by
  have hnone : ∀ r ∈ twoRoots, ∀ va, walk (zeroTree fourFreePmm).mem r va = none :=
    fun r hr va => (twoRoots_zero hr).2.2 _
  refine Represents.start ⟨fun r hr => (twoRoots_zero hr).1, fun r hr q t i hq hqt => ?_,
    fun r hr f hf => ?_, fun r hr s hs f hrf hsf => ?_⟩ (fun f hf => ?_) fun r hr va d e hwalk => ?_
  · rw [(twoRoots_zero hr).2.1 q (by rintro rfl; cases hq)] at hqt
    cases hqt
  · rw [twoRoots_reaches hr hf]
    rcases hr with rfl | rfl
    · decide
    · decide
  · rw [← twoRoots_reaches hr hrf, twoRoots_reaches hs hsf]
  · have hres := pmmReservedFrames_toNat
    change fourFreePmm.used f = true
    rw [fourFreePmm_used, decide_eq_false (by omega)]
    rfl
  · rw [hnone r hr] at hwalk
    cases hwalk

/-- Calls on both spaces. -/
def twoRootsCalls : List SpaceCall :=
  [.pageFree 0x1000 0, .pageMap 0x4000 0x1000 0x5000 pageWritable, .pml4Load 0x4005,
    .pageAlloc 0x1000 pageWritable, .pageUnmap 0x4000 0x1000 true]

theorem twoRoots_allowed :
    EachStep (SpaceCall.Allowed twoRoots 0) (spacesOf (zeroTree fourFreePmm).mem, zeroTree fourFreePmm)
      twoRootsCalls := by
  have hroot : rootFrame (zeroTree fourFreePmm) = 0x4000 := entryFrame_frameAddr (by decide)
  have hzero : (spacesOf (zeroTree fourFreePmm).mem).maps (rootFrame (zeroTree fourFreePmm)) (vaPath 0x1000) =
      none := by
    rw [hroot]
    exact (twoRoots_zero (Or.inl rfl)).2.2 _
  exact ⟨⟨by omega, Or.inl hzero⟩, ⟨Or.inl rfl, by omega⟩, Or.inr rfl, ⟨by omega, by decide⟩,
    ⟨Or.inl rfl, by omega⟩, trivial⟩

theorem spacesRun_represents_two :
    let x := spacesRun (spacesOf (zeroTree fourFreePmm).mem, zeroTree fourFreePmm) twoRootsCalls
    Represents twoRoots 0 {f | fourFreePmm.used f = true} x.1 x.2.toCore :=
  (spacesRun_represents twoRoots_represents
    (Or.inl (entryFrame_frameAddr (by decide : 0x4000 < 2 ^ 40))) twoRoots_allowed).1

section
variable {R U : Set Nat} {k : Nat} {m : Machine}

/-! ## Isolation -/

/-- The page that a call is about. -/
def SpaceCall.page (m : Machine) : SpaceCall → Option (Nat × List (Fin 512))
  | .pageMap pml4 vaddr _ _ => some (pml4, vaPath vaddr)
  | .pageUnmap pml4 vaddr _ => some (pml4, vaPath vaddr)
  | .pageAlloc vaddr _ => some (rootFrame m, vaPath vaddr)
  | .pageFree vaddr _ => some (rootFrame m, vaPath vaddr)
  | .pml4Load _ => none

theorem SpaceCall.effect_maps {c : SpaceCall} {s : Nat} {q : List (Fin 512)} (σ : PageSpaces)
    (hpage : c.page m ≠ some (s, q)) : (c.effect m σ).maps s q = σ.maps s q := by
  have hne {r : Nat} {p : List (Fin 512)} (h : some (r, p) ≠ some (s, q)) : ¬ (s = r ∧ q = p) := by
    rintro ⟨rfl, rfl⟩
    exact h rfl
  cases c with
  | pageMap pml4 va paddr flags =>
      rw [SpaceCall.effect]
      split
      case isTrue => rw [Spaces.put_maps, if_neg (hne hpage)]
      case isFalse => rfl
  | pageUnmap pml4 va wantsPaddr => rw [SpaceCall.effect, Spaces.erase_maps, if_neg (hne hpage)]
  | pageAlloc va flags =>
      rw [SpaceCall.effect]
      split
      case isTrue => rfl
      case isFalse =>
        split
        case isTrue =>
          rw [Spaces.put_maps, if_neg (hne hpage)]
          rfl
        case isFalse => rfl
  | pageFree va flags =>
      have herase : (σ.erase (rootFrame m) (vaPath va)).maps s q = σ.maps s q := by
        rw [Spaces.erase_maps, if_neg (hne hpage)]
      rw [SpaceCall.effect]
      split
      · exact herase
      · exact herase
  | pml4Load pml4 => rfl

theorem spacesRun_maps {x : PageSpaces × Machine} {s : Nat} {q : List (Fin 512)} {calls : List SpaceCall}
    (hpages : EachStep (fun x c => c.page x.2 ≠ some (s, q)) x calls) :
    (spacesRun x calls).1.maps s q = x.1.maps s q := by
  induction calls generalizing x with
  | nil => rfl
  | cons c calls ih => exact (ih hpages.2).trans (SpaceCall.effect_maps x.1 hpages.1)

/-- A page that no call of a run is about is mapped after it as before, whatever happens to the other pages of
its space and to the other spaces. -/
theorem spacesRun_isolated {x : PageSpaces × Machine} (h : Represents R k U x.1 x.2.toCore)
    (hroot : rootFrame x.2 ∈ R) {calls : List SpaceCall} (hcalls : EachStep (SpaceCall.Allowed R k) x calls)
    {s : Nat} (hs : s ∈ R) (vb : BitVec 64)
    (hpages : EachStep (fun x c => c.page x.2 ≠ some (s, vaPath vb)) x calls) :
    walk (spacesRun x calls).2.mem s vb = walk x.2.mem s vb := by
  obtain ⟨hrun, -, -⟩ := spacesRun_represents h hroot hcalls
  rw [hrun.maps s hs, h.maps s hs, spacesRun_maps hpages]

end

theorem spacesRun_isolated_two :
    walk (spacesRun (spacesOf (zeroTree fourFreePmm).mem, zeroTree fourFreePmm) twoRootsCalls).2.mem
      0x4005 0x2000 = none := by
  have hroot : rootFrame (zeroTree fourFreePmm) = 0x4000 := entryFrame_frameAddr (by decide)
  have hpath : vaPath 0x1000 ≠ vaPath 0x2000 := by decide
  have hne (r : Nat) : some (r, vaPath 0x1000) ≠ some (0x4005, vaPath 0x2000) :=
    fun hsame => hpath (Prod.mk.inj (Option.some.inj hsame)).2
  have hkept := spacesRun_isolated twoRoots_represents (Or.inl hroot) twoRoots_allowed (Or.inr rfl) 0x2000
    ⟨hne _, hne _, nofun, hne _, hne _, trivial⟩
  exact hkept.trans ((twoRoots_zero (Or.inr rfl)).2.2 _)

/-! ## After `vmm_init` -/

theorem hhdmSlot_congr {va vb : BitVec 64} (h : vaPath va = vaPath vb) : hhdmSlot va = hhdmSlot vb := by
  have hpage := vaPath_inj.mp h
  unfold hhdmSlot
  omega

/-- An allowed call is not about a page of the direct map. -/
theorem SpaceCall.Allowed.page_ne {R : Set Nat} {k s : Nat} {x : PageSpaces × Machine} {c : SpaceCall}
    {vb : BitVec 64} (h : c.Allowed R k x) (hvb : hhdmSlot vb < k) : c.page x.2 ≠ some (s, vaPath vb) := by
  have hne {r : Nat} {va : BitVec 64} (hva : ¬ hhdmSlot va < k) : some (r, vaPath va) ≠ some (s, vaPath vb) := by
    intro hsame
    have hslot := hhdmSlot_congr (Prod.mk.inj (Option.some.inj hsame)).2
    exact hva (hslot.trans_lt hvb)
  cases c with
  | pageMap pml4 va paddr flags => exact hne h.2
  | pageUnmap pml4 va wantsPaddr => exact hne h.2
  | pageAlloc va flags => exact hne h.1
  | pageFree va flags => exact hne h.1
  | pml4Load pml4 => exact nofun

theorem EachStep.mono {P Q : PageSpaces × Machine → SpaceCall → Prop} (h : ∀ x c, P x c → Q x c)
    {x : PageSpaces × Machine} {calls : List SpaceCall} (hcalls : EachStep P x calls) : EachStep Q x calls := by
  induction calls generalizing x with
  | nil => trivial
  | cons c calls ih => exact ⟨h x c hcalls.1, ih hcalls.2⟩

theorem vmmInit_represents {map : List E820Entry} {p : Pmm} {env : BootEnv} {m m' : Machine} {fuel : Nat}
    (hpmm : m.pmm = pmmInit map env.image p) (hplaced : env.Placed (pmmHighestAddressGet m.pmm))
    (hfuel : 2 ^ 64 ≤ fuel) (hinit : vmmInit fuel env m = some (true, m')) :
    Represents {rootFrame m'} (gibCount (pmmHighestAddressGet m.pmm)) {f | m'.pmm.used f = true}
      (spacesOf m'.mem) m'.toCore := by
  have horder := vmmInit_inOrder hpmm hplaced hfuel hinit
  refine Represents.start ⟨?_, ?_, ?_, ?_⟩ horder.reserved ?_
  · rintro r rfl
    exact horder.apart.tree
  · rintro r rfl
    exact horder.apart.clean
  · rintro r rfl
    exact horder.low
  · rintro r rfl s rfl f - -
    rfl
  · rintro r rfl
    exact horder.apart.large

/-- With a ceiling of at most 2^47, in every state that allowed calls reach after `vmm_init` the tree represents
the spaces of the run, and the direct map is where the code expects it. -/
theorem vmmInit_spaces (map : List E820Entry) (p : Pmm) (env : BootEnv) (m m' : Machine) (fuel : Nat)
    (calls : List SpaceCall) (hpmm : m.pmm = pmmInit map env.image p)
    (himage : env.image.kernelEnd.toNat ≤ 64 * 2 ^ 20) (hwindow : 256 * 1024 ≤ env.rsp.toNat)
    (hstack : env.rsp.toNat ≤ 0x700000) (hceil : (pmmHighestAddressGet m.pmm).toNat ≤ 2 ^ 47)
    (hfuel : 2 ^ 64 ≤ fuel) (hinit : vmmInit fuel env m = some (true, m'))
    (hcalls : EachStep (SpaceCall.Allowed {rootFrame m'} (gibCount (pmmHighestAddressGet m.pmm)))
      (spacesOf m'.mem, m') calls) :
    Represents {rootFrame m'} (gibCount (pmmHighestAddressGet m.pmm)) {f | m'.pmm.used f = true}
        (spacesRun (spacesOf m'.mem, m') calls).1 (spacesRun (spacesOf m'.mem, m') calls).2.toCore ∧
      ∀ pa : BitVec 64, pa.toNat < gibCount (pmmHighestAddressGet m.pmm) * 2 ^ 30 →
        translate (spacesRun (spacesOf m'.mem, m') calls).2.mem (spacesRun (spacesOf m'.mem, m') calls).2.cr3
          (vmmPhysToVirt pa) = some pa := by
  have hplaced : env.Placed (pmmHighestAddressGet m.pmm) := ⟨himage, hwindow, hstack, hceil⟩
  have hstart := vmmInit_represents hpmm hplaced hfuel hinit
  have hmem : rootFrame m' ∈ ({rootFrame m'} : Set Nat) := rfl
  obtain ⟨hrun, hroot, -⟩ := spacesRun_represents (x := (spacesOf m'.mem, m')) hstart hmem hcalls
  refine ⟨hrun, fun pa hpa => ?_⟩
  have hgib : gibCount (pmmHighestAddressGet m.pmm) ≤ 2 ^ 17 := by
    rw [gibCount]
    omega
  have hva : (vmmPhysToVirt pa).toNat = hhdmOffset.toNat + pa.toNat := by
    rw [vmmPhysToVirt, BitVec.toNat_add, hhdmOffset_toNat]
    omega
  have hslot : hhdmSlot (vmmPhysToVirt pa) < gibCount (pmmHighestAddressGet m.pmm) := by
    rw [hhdmSlot, hva, hhdmOffset_toNat]
    omega
  have hkept := spacesRun_isolated (x := (spacesOf m'.mem, m')) hstart hmem hcalls hmem (vmmPhysToVirt pa)
    (hcalls.mono fun x c hc => hc.page_ne hslot)
  obtain ⟨root, htaken, hcr3, hboot⟩ := vmmInit_bootTree hpmm hplaced hfuel hinit
  have hlt := htaken.lt
  have hroot' : rootFrame m' = root := by
    rw [rootFrame, hcr3, entryFrame_frameAddr (by omega)]
  have hbefore := hboot.translate_high (show hhdmOffset.toNat ≤ (vmmPhysToVirt pa).toNat by omega)
  rw [if_pos (by omega), vmmPhysToVirt, BitVec.add_sub_cancel, ← vmmPhysToVirt, ← hcr3] at hbefore
  have hloaded : entryFrame (spacesRun (spacesOf m'.mem, m') calls).2.cr3 = rootFrame m' := hroot
  rw [← hbefore, translate, translate, hloaded, hkept]
  rfl

/-- A page is allocated, another one mapped, and the first one taken away. -/
def samplePages (root : Nat) : List SpaceCall :=
  [.pageAlloc 0x40000000 pageWritable, .pageMap root 0x40001000 0x5000 pageWritable,
    .pageUnmap root 0x40000000 true]

theorem vmmInit_spaces_ram :
    ∃ m', vmmInit (2 ^ 64) sampleEnv (ramMachine [] fun _ => 0) = some (true, m') ∧
      translate (spacesRun (spacesOf m'.mem, m') (samplePages (rootFrame m'))).2.mem
        (spacesRun (spacesOf m'.mem, m') (samplePages (rootFrame m'))).2.cr3 (vmmPhysToVirt 0x1234) =
          some 0x1234 := by
  have hpmm : (ramMachine [] fun _ => 0).pmm = pmmInit [ramEntry] sampleEnv.image fullPmm := ramMachine_pmm
  have hplaced : sampleEnv.Placed (pmmHighestAddressGet (ramMachine [] fun _ => 0).pmm) := ramMachine_placed _
  have hceiling : pmmHighestAddressGet (ramMachine [] fun _ => 0).pmm = 0x80000000 := ramMachine_highest _
  obtain ⟨m', hinit⟩ := vmmInit_succeeds hpmm hplaced (Nat.le_refl (2 ^ 64))
  refine ⟨m', hinit, ?_⟩
  refine (vmmInit_spaces [ramEntry] fullPmm sampleEnv _ m' (2 ^ 64) (samplePages (rootFrame m')) hpmm (by decide)
    (by decide) (by decide) hplaced.ceiling (Nat.le_refl _) hinit ?_).2 0x1234 ?_
  · rw [hceiling]
    exact ⟨⟨by decide, by decide⟩, ⟨rfl, by decide⟩, ⟨rfl, by decide⟩, trivial⟩
  · rw [hceiling]
    decide

end BootKernel
