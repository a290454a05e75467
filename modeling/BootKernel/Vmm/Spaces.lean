import BootKernel.Lib.AddressSpace
import BootKernel.Vmm.Forest
import BootKernel.Vmm.Restore

/-!
# The address spaces that the tables represent

Whatever the calls do to tables and bitmap, for their callers they map and unmap pages, one at a time and
in one space, and lend frames to pages. The trees represent such spaces, and every call changes what they
represent as its result says.
-/

namespace BootKernel

open Radix AddressSpace

/-- A space for each root, with a page for each path and the end of its walk as the entry. -/
abbrev PageSpaces := Spaces Nat (List (Fin 512)) (Nat × BitVec 64) Nat

/-- The trees of the roots `R` represent the spaces. Of the frames above the reserved ones those of `U`
are in use for something else. -/
structure Represents (R : Set Nat) (k : Nat) (U : Set Nat) (σ : PageSpaces) (c : Core) : Prop where
  forest : Forest R c
  reserved : ReservedUsed c.pmm
  maps : ∀ r ∈ R, ∀ va, walk c.mem r va = σ.maps r (vaPath va)
  large : ∀ r ∈ R, ∀ va d e, walk c.mem r va = some (d, e) → d ≠ 3 → hhdmSlot va < k
  sound : σ.Sound
  owned : ∀ r p f, σ.owns r p = some f → ∃ e, σ.maps r p = some (3, e) ∧ entryFrame e = f
  not_table : ∀ f ∈ σ.held, ∀ r ∈ R, ¬ Reaches (slots c.mem) r f
  new : ∀ f ∈ σ.held, pmmReservedFrames.toNat ≤ f ∧ f ∉ U
  used_iff : ∀ f, pmmReservedFrames.toNat ≤ f →
    (c.pmm.used f = true ↔ f ∈ U ∨ f ∈ σ.held ∨ ∃ r ∈ R, Reaches (slots c.mem) r f)

section
variable {R U : Set Nat} {k r g t : Nat} {σ : PageSpaces} {c c' : Core} {va v : BitVec 64}

theorem Represents.walksToPt (h : Represents R k U σ c) (hr : r ∈ R) (hva : ¬ hhdmSlot va < k) :
    WalksToPt c.mem r va := by
  intro d e hwalk
  by_contra hd
  exact hva (h.large r hr va d e hwalk hd)

/-! ## The steps of the calls -/

theorem Represents.take (h : Represents R k U σ c) (htaken : Machine.Taken c.pmm g) :
    Represents R k U (σ.take g) { c with pmm := frameBitmapSet c.pmm (BitVec.ofNat 64 g) } := by
  have hlt := htaken.lt
  have hres := htaken.le h.reserved
  have hfresh : ∀ s ∈ R, ¬ Reaches (slots c.mem) s g := fun s hs => (h.forest.tree s hs).fresh htaken.free
  have hnew : ¬ (g ∈ U ∨ g ∈ σ.held ∨ ∃ r ∈ R, Reaches (slots c.mem) r g) := by
    rw [← h.used_iff g hres, htaken.free]
    exact Bool.false_ne_true
  refine ⟨h.forest.bitmap fun s hs f hf => used_set_of_used (by omega) ((h.forest.tree s hs).used f hf),
    fun f hf => used_set_of_used (by omega) (h.reserved f hf), h.maps, h.large, h.sound.take g, h.owned,
    ?_, ?_, fun f hf => ?_⟩
  · rintro f (rfl | hf) s hs
    · exact hfresh s hs
    · exact h.not_table f hf s hs
  · rintro f (rfl | hf)
    · exact ⟨hres, fun hU => hnew (Or.inl hU)⟩
    · exact h.new f hf
  · rw [used_set (by omega), Bool.or_eq_true, decide_eq_true_eq, h.used_iff f hf, Spaces.take,
      Set.mem_insert_iff]
    tauto

theorem Represents.grow (h : Represents R k U σ c) (hr : r ∈ R) (hgrow : Grow r c c') :
    Represents R k U σ c' := by
  have ht := h.forest.tree r hr
  have hgrown := ht.grow hgrow
  obtain ⟨hforest, hother⟩ := h.forest.grow hr hgrow
  have hwalk : ∀ s ∈ R, ∀ va, walk c'.mem s va = walk c.mem s va := by
    intro s hs va
    by_cases hsr : s = r
    · exact hsr ▸ hgrown.lookup (vaPath va)
    · exact (hother s hs hsr).walk va
  have hused : ∀ f ∈ σ.held, c.pmm.used f = true :=
    fun f hf => (h.used_iff f (h.new f hf).1).mpr (Or.inr (Or.inl hf))
  refine ⟨hforest, fun f hf => hgrow.used (h.reserved f hf), fun s hs va => (hwalk s hs va).trans (h.maps s hs va),
    fun s hs va d e hva => h.large s hs va d e ((hwalk s hs va).symm.trans hva), h.sound, h.owned, ?_, h.new,
    fun f hf => ?_⟩
  · intro f hf s hs
    by_cases hsr : s = r
    · exact hsr ▸ (hgrow.not_table ht (hused f hf) (h.not_table f hf r hr)).2
    · exact fun hreach => h.not_table f hf s hs ((hother s hs hsr).reaches.mp hreach)
  · rw [hgrow.used_iff ht, h.used_iff f hf]
    constructor
    · rintro ((hU | hheld | ⟨s, hs, q, hq⟩) | hreach)
      · exact Or.inl hU
      · exact Or.inr (Or.inl hheld)
      · refine Or.inr (Or.inr ⟨s, hs, ?_⟩)
        by_cases hsr : s = r
        · exact hsr ▸ ⟨q, hgrown.descend q f (hsr ▸ hq)⟩
        · exact (hother s hs hsr).reaches.mpr ⟨q, hq⟩
      · exact Or.inr (Or.inr ⟨r, hr, hreach⟩)
    · rintro (hU | hheld | ⟨s, hs, hreach⟩)
      · exact Or.inl (Or.inl hU)
      · exact Or.inl (Or.inr (Or.inl hheld))
      · by_cases hsr : s = r
        · exact Or.inr (hsr ▸ hreach)
        · exact Or.inl (Or.inr (Or.inr ⟨s, hs, (hother s hs hsr).reaches.mp hreach⟩))

/-- A store into a page table changes one page of one space. -/
theorem Represents.walk_setPage (h : Represents R k U σ c) (hr : r ∈ R)
    (hend : descend (slots c.mem) 0 r (ptPath va) = some t) (hv : v &&& pagePresent = 0 → v = 0) {s : Nat}
    (hs : s ∈ R) (vb : BitVec 64) :
    walk (setEntry c.mem t (vaIndex va 12) v) s vb =
      if s = r ∧ vaPath vb = vaPath va then (if v &&& pagePresent = 0 then none else some (3, v))
      else σ.maps s (vaPath vb) := by
  obtain ⟨-, hother⟩ := h.forest.setPage hr hend hv
  by_cases hsr : s = r
  · subst hsr
    rw [((h.forest.tree s hs).setPage hend v).2, h.maps s hs vb]
    simp only [true_and]
  · rw [if_neg fun hpage => hsr hpage.1, ← h.maps s hs vb]
    exact (hother s hs hsr).walk vb

theorem Represents.reaches_setPage (h : Represents R k U σ c) (hr : r ∈ R)
    (hend : descend (slots c.mem) 0 r (ptPath va) = some t) (hv : v &&& pagePresent = 0 → v = 0) {s : Nat}
    (hs : s ∈ R) (f : Nat) :
    Reaches (slots (setEntry c.mem t (vaIndex va 12) v)) s f ↔ Reaches (slots c.mem) s f := by
  obtain ⟨-, hother⟩ := h.forest.setPage hr hend hv
  by_cases hsr : s = r
  · subst hsr
    exact (h.forest.tree s hs).setPage_reaches hend v
  · exact (hother s hs hsr).reaches

theorem Represents.mapPage (h : Represents R k U σ c) (hr : r ∈ R)
    (hend : descend (slots c.mem) 0 r (ptPath va) = some t) (hv : v &&& pagePresent ≠ 0) {o : Option Nat}
    (ho : ∀ f, o = some f → entryFrame v = f ∧ f ∈ σ.held ∧ σ.Unowned f) :
    Represents R k U (σ.put r (vaPath va) (3, v) o) { c with mem := setEntry c.mem t (vaIndex va 12) v } := by
  have hzero : v &&& pagePresent = 0 → v = 0 := fun habs => absurd habs hv
  have hreach := fun s (hs : s ∈ R) f => h.reaches_setPage hr hend hzero hs f
  have hwalk := fun s (hs : s ∈ R) vb => h.walk_setPage hr hend hzero hs vb
  simp only [if_neg hv] at hwalk
  refine ⟨(h.forest.setPage hr hend hzero).1, h.reserved, hwalk, fun s hs vb d e hvb hd => ?_,
    h.sound.put (fun f hf => (ho f hf).2) r (vaPath va) (3, v), fun s p f hf => ?_,
    fun f hf s hs hreached => h.not_table f hf s hs ((hreach s hs f).mp hreached), h.new, fun f hf => ?_⟩
  · rw [hwalk s hs, ← h.maps s hs] at hvb
    split at hvb
    case isTrue =>
      cases hvb
      exact absurd rfl hd
    case isFalse => exact h.large s hs vb d e hvb hd
  · rcases Spaces.put_owns hf with ⟨rfl, rfl, hown⟩ | ⟨hpage, hown⟩
    · exact ⟨v, by rw [Spaces.put_maps, if_pos ⟨rfl, rfl⟩], (ho f hown).1⟩
    · obtain ⟨e, he, hframe⟩ := h.owned s p f hown
      exact ⟨e, by rw [Spaces.put_maps, if_neg hpage, he], hframe⟩
  · rw [h.used_iff f hf]
    exact or_congr_right (or_congr_right (exists_congr fun s => and_congr_right fun hs => (hreach s hs f).symm))

theorem Represents.clearPage (h : Represents R k U σ c) (hr : r ∈ R)
    (hend : descend (slots c.mem) 0 r (ptPath va) = some t) :
    Represents R k U (σ.erase r (vaPath va)) { c with mem := setEntry c.mem t (vaIndex va 12) 0 } := by
  have hreach := fun s (hs : s ∈ R) f => h.reaches_setPage hr hend (v := 0) (fun _ => rfl) hs f
  have hwalk := fun s (hs : s ∈ R) vb => h.walk_setPage hr hend (v := 0) (fun _ => rfl) hs vb
  have habs : (0 : BitVec 64) &&& pagePresent = 0 := by decide
  simp only [habs, ↓reduceIte] at hwalk
  refine ⟨(h.forest.setPage hr hend fun _ => rfl).1, h.reserved, hwalk, fun s hs vb d e hvb hd => ?_,
    h.sound.erase r (vaPath va), fun s p f hf => ?_,
    fun f hf s hs hreached => h.not_table f hf s hs ((hreach s hs f).mp hreached), h.new, fun f hf => ?_⟩
  · rw [hwalk s hs, ← h.maps s hs] at hvb
    split at hvb
    case isTrue => cases hvb
    case isFalse => exact h.large s hs vb d e hvb hd
  · obtain ⟨hpage, hf⟩ := Spaces.erase_owns hf
    obtain ⟨e, he, hframe⟩ := h.owned s p f hf
    exact ⟨e, by rw [Spaces.erase_maps, if_neg hpage, he], hframe⟩
  · rw [h.used_iff f hf]
    exact or_congr_right (or_congr_right (exists_congr fun s => and_congr_right fun hs => (hreach s hs f).symm))

/-- A frame that no page owns any more is given back. -/
theorem Represents.release (h : Represents R k U σ c) (hg : g ∈ σ.held) (hun : σ.Unowned g) (hlt : g < 2 ^ 64) :
    Represents R k U (σ.give g) { c with pmm := pmmFrameFree (BitVec.ofNat 64 g) c.pmm } := by
  obtain ⟨hres, hU⟩ := h.new g hg
  have hle : pmmReservedFrames ≤ BitVec.ofNat 64 g := by
    rw [BitVec.le_def, frameIdx_toNat hlt]
    exact hres
  have hused : ∀ f, (pmmFrameFree (BitVec.ofNat 64 g) c.pmm).used f = true ↔ f ≠ g ∧ c.pmm.used f = true := by
    intro f
    rw [pmmFrameFree_unreserved hle, used_frameBitmapClear, frameIdx_toNat hlt, Bool.and_eq_true,
      Bool.not_eq_true', decide_eq_false_iff_not]
  have htables : ∀ s ∈ R, ∀ f, Reaches (slots c.mem) s f → f ≠ g := by
    rintro s hs f hf rfl
    exact h.not_table f hg s hs hf
  refine ⟨h.forest.bitmap fun s hs f hf => (hused f).mpr ⟨htables s hs f hf, (h.forest.tree s hs).used f hf⟩,
    h.reserved.free _, h.maps, h.large, h.sound.give hun, h.owned, fun f hf => h.not_table f hf.1,
    fun f hf => h.new f hf.1, fun f hf => ?_⟩
  rw [hused, h.used_iff f hf, Spaces.give, Set.mem_sdiff, Set.mem_singleton_iff]
  constructor
  · rintro ⟨hne, hU | hheld | htable⟩
    · exact Or.inl hU
    · exact Or.inr (Or.inl ⟨hheld, hne⟩)
    · exact Or.inr (Or.inr htable)
  · rintro (hfU | ⟨hheld, hne⟩ | ⟨s, hs, hreach⟩)
    · exact ⟨fun hfg => hU (hfg ▸ hfU), Or.inl hfU⟩
    · exact ⟨hne, Or.inr (Or.inl hheld)⟩
    · exact ⟨htables s hs f hreach, Or.inr (Or.inr ⟨s, hs, hreach⟩)⟩

end

end BootKernel
