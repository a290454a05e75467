import BootKernel.Vmm.Calls
import BootKernel.Vmm.Lemmas.Room

/-!
# Several trees in one memory

The tables of two address spaces lie in the same physical memory and come from the same allocator. Trees
that share no table stay so, and what is done to one of them is not seen from the others.
-/

namespace BootKernel

open Radix

/-- The entries of the tree of `s` are as before. -/
def Untouched (s : Nat) (c c' : Core) : Prop :=
  ∀ f i, Reaches (slots c.mem) s f → tableEntry c'.mem f i = tableEntry c.mem f i

/-- Well-formed trees, one for each root, that share no table. -/
structure Forest (R : Set Nat) (c : Core) : Prop where
  tree : ∀ r ∈ R, PageTree c r
  clean : ∀ r ∈ R, CleanTables c r
  low : ∀ r ∈ R, LowTables r c
  apart : ∀ r ∈ R, ∀ s ∈ R, ∀ f, Reaches (slots c.mem) r f → Reaches (slots c.mem) s f → r = s

section
variable {s f g n t : Nat} {i : Fin 512} {c c' c'' : Core} {va v : BitVec 64}

/-! ## What does not touch a tree -/

theorem Untouched.of_mem (hmem : c'.mem = c.mem) : Untouched s c c' := fun f i _ => by rw [hmem]

theorem Untouched.congr (h : Untouched s c c') (p : List (Fin 512)) :
    descend (slots c'.mem) 0 s p = descend (slots c.mem) 0 s p ∧
      lookup (slots c'.mem) 0 s p = lookup (slots c.mem) 0 s p :=
  congr_reaches (fun d f i hf => congrArg (entrySlot d) (h f i hf)) p

theorem Untouched.reaches (h : Untouched s c c') :
    Reaches (slots c'.mem) s f ↔ Reaches (slots c.mem) s f :=
  exists_congr fun p => by rw [(h.congr p).1]

theorem Untouched.walk (h : Untouched s c c') (va : BitVec 64) : walk c'.mem s va = walk c.mem s va :=
  (h.congr (vaPath va)).2

theorem Untouched.trans (h : Untouched s c c') (h' : Untouched s c' c'') : Untouched s c c'' :=
  fun f i hf => (h' f i (h.reaches.mpr hf)).trans (h f i hf)

theorem Untouched.tree (h : Untouched s c c') (ht : PageTree c s)
    (hused : ∀ f, Reaches (slots c.mem) s f → c'.pmm.used f = true) : PageTree c' s :=
  ht.congr (fun d f i hf => congrArg (entrySlot d) (h f i hf)) hused

theorem Untouched.clean (h : Untouched s c c') (hc : CleanTables c s) : CleanTables c' s := by
  intro q t i hq hqt habs
  rw [(h.congr q).1] at hqt
  rw [h t i ⟨q, hqt⟩] at habs ⊢
  exact hc q t i hq hqt habs

theorem Untouched.low (h : Untouched s c c') (hl : LowTables s c) : LowTables s c' :=
  fun f hf => hl f (h.reaches.mp hf)

/-- A store into a table of another tree. -/
theorem Untouched.setEntry (hn : ¬ Reaches (slots c.mem) s n) :
    Untouched s c { c with mem := setEntry c.mem n i v } := by
  intro f j hf
  refine tableEntry_store64_ne ?_
  rintro ⟨rfl, -⟩
  exact hn hf

/-- A table that is linked into another tree, made of a frame that is free. -/
theorem Untouched.linkTable {p : Pmm} (hn : ¬ Reaches (slots c.mem) s n)
    (hg : ¬ Reaches (slots c.mem) s g) : Untouched s c ⟨linkTable c.mem n i g, p⟩ := by
  intro f j hf
  have hfn : ¬ (f = n ∧ j = i) := by
    rintro ⟨rfl, -⟩
    exact hn hf
  have hfg : f ≠ g := by
    rintro rfl
    exact hg hf
  exact (tableEntry_store64_ne hfn).trans (tableEntry_zeroFrame_ne hfg)

end

section
variable {R : Set Nat} {r s t : Nat} {c c' : Core} {va v : BitVec 64}

/-! ## What is done to one tree -/

/-- A step in the tree of `r` that leaves the other trees alone keeps the forest. -/
theorem Forest.of_tree (h : Forest R c) (hr : r ∈ R) (ht : PageTree c' r) (hc : CleanTables c' r)
    (hl : LowTables r c') (hother : ∀ s ∈ R, s ≠ r → Untouched s c c')
    (hused : ∀ s ∈ R, s ≠ r → ∀ f, Reaches (slots c.mem) s f → c'.pmm.used f = true)
    (hnew : ∀ f, Reaches (slots c'.mem) r f → Reaches (slots c.mem) r f ∨ c.pmm.used f = false) :
    Forest R c' := by
  have hapart : ∀ s ∈ R, s ≠ r → ∀ f, Reaches (slots c'.mem) r f → ¬ Reaches (slots c'.mem) s f := by
    intro s hs hne f hrf hsf
    have hsf := (hother s hs hne).reaches.mp hsf
    rcases hnew f hrf with hold | hfree
    · exact hne (h.apart s hs r hr f hsf hold)
    · exact (h.tree s hs).fresh hfree hsf
  refine ⟨fun s hs => ?_, fun s hs => ?_, fun s hs => ?_, fun s hs s' hs' f hf hf' => ?_⟩
  · by_cases hsr : s = r
    · exact hsr ▸ ht
    · exact (hother s hs hsr).tree (h.tree s hs) (hused s hs hsr)
  · by_cases hsr : s = r
    · exact hsr ▸ hc
    · exact (hother s hs hsr).clean (h.clean s hs)
  · by_cases hsr : s = r
    · exact hsr ▸ hl
    · exact (hother s hs hsr).low (h.low s hs)
  · by_cases hsr : s = r
    · by_cases hsr' : s' = r
      · rw [hsr, hsr']
      · exact absurd hf' (hapart s' hs' hsr' f (hsr ▸ hf))
    · by_cases hsr' : s' = r
      · exact absurd hf (hapart s hs hsr f (hsr' ▸ hf'))
      · exact h.apart s hs s' hs' f ((hother s hs hsr).reaches.mp hf)
          ((hother s' hs' hsr').reaches.mp hf')

theorem LowTables.link (h : LowTables r c) (ht : PageTree c r) (hstep : LinkStep r c c') :
    LowTables r c' := h.grow ht (.single hstep)

theorem Forest.link (h : Forest R c) (hr : r ∈ R) (hstep : LinkStep r c c') :
    Forest R c' ∧ ∀ s ∈ R, s ≠ r → Untouched s c c' := by
  have hclean := (h.clean r hr).link (h.tree r hr) hstep
  have hlow := (h.low r hr).link (h.tree r hr) hstep
  cases hstep with
  | @mk p n i g hp hlen hempty hfree hg =>
      have hlink := (h.tree r hr).link hp hlen hempty hfree hg
      have hother : ∀ s ∈ R, s ≠ r →
          Untouched s c ⟨linkTable c.mem n i g, frameBitmapSet c.pmm (BitVec.ofNat 64 g)⟩ :=
        fun s hs hne => Untouched.linkTable (fun hn => hne (h.apart s hs r hr n hn ⟨p, hp⟩))
          ((h.tree s hs).fresh hfree)
      refine ⟨h.of_tree hr hlink.tree hclean hlow hother (fun s hs _ f hf => ?_) ?_, hother⟩
      · rw [used_frameBitmapSet, (h.tree s hs).used f hf, Bool.or_true]
      · rintro f ⟨q, hq⟩
        rcases (hlink.descend q f).mp hq with hq | ⟨-, rfl⟩
        · exact Or.inl ⟨q, hq⟩
        · exact Or.inr hfree

/-- Growing one tree leaves the others as they are. -/
theorem Forest.grow (h : Forest R c) (hr : r ∈ R) (hgrow : Grow r c c') :
    Forest R c' ∧ ∀ s ∈ R, s ≠ r → Untouched s c c' := by
  induction hgrow with
  | refl => exact ⟨h, fun _ _ _ => Untouched.of_mem rfl⟩
  | tail _ hstep ih =>
      obtain ⟨hforest, hother⟩ := ih
      obtain ⟨hforest', hother'⟩ := hforest.link hr hstep
      exact ⟨hforest', fun s hs hne => (hother s hs hne).trans (hother' s hs hne)⟩

theorem Forest.setPage (h : Forest R c) (hr : r ∈ R)
    (hend : descend (slots c.mem) 0 r (ptPath va) = some t) (hv : v &&& pagePresent = 0 → v = 0) :
    Forest R { c with mem := setEntry c.mem t (vaIndex va 12) v } ∧
      ∀ s ∈ R, s ≠ r → Untouched s c { c with mem := setEntry c.mem t (vaIndex va 12) v } := by
  have ht := h.tree r hr
  have hother : ∀ s ∈ R, s ≠ r → Untouched s c { c with mem := setEntry c.mem t (vaIndex va 12) v } :=
    fun s hs hne => Untouched.setEntry fun hn => hne (h.apart s hs r hr t hn ⟨_, hend⟩)
  refine ⟨h.of_tree hr (ht.setPage hend v).1 ((h.clean r hr).setPage ht hend hv) ?_ hother
    (fun s hs _ => (h.tree s hs).used) fun f hf => Or.inl ((ht.setPage_reaches hend v).mp hf), hother⟩
  intro f hf
  exact h.low r hr f ((ht.setPage_reaches hend v).mp hf)

/-- The bitmap may change where there are no tables. -/
theorem Forest.bitmap (h : Forest R c) {p : Pmm}
    (hused : ∀ r ∈ R, ∀ f, Reaches (slots c.mem) r f → p.used f = true) : Forest R { c with pmm := p } where
  tree r hr := (h.tree r hr).congr (fun _ _ _ _ => rfl) (hused r hr)
  clean := h.clean
  low := h.low
  apart := h.apart

end

end BootKernel
