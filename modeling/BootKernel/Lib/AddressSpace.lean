import Mathlib.Data.Set.Insert

/-!
# Address spaces and the frames behind them

What memory management is for, without tables: every space maps pages to entries, and some pages own
the frame that they are mapped to. A frame that has been taken stays taken until it is given back.
-/

namespace AddressSpace

variable {ρ π ε φ : Type}

/-- The pages of all spaces, which page owns which frame, and the frames that are taken. -/
structure Spaces (ρ π ε φ : Type) where
  maps : ρ → π → Option ε
  owns : ρ → π → Option φ
  held : Set φ

namespace Spaces

section
variable [DecidableEq ρ] [DecidableEq π]

/-- A page is mapped to an entry, and owns what it is told to own. -/
def put (σ : Spaces ρ π ε φ) (r : ρ) (p : π) (e : ε) (o : Option φ) : Spaces ρ π ε φ where
  maps := fun s q => if s = r ∧ q = p then some e else σ.maps s q
  owns := fun s q => if s = r ∧ q = p then o else σ.owns s q
  held := σ.held

def erase (σ : Spaces ρ π ε φ) (r : ρ) (p : π) : Spaces ρ π ε φ where
  maps := fun s q => if s = r ∧ q = p then none else σ.maps s q
  owns := fun s q => if s = r ∧ q = p then none else σ.owns s q
  held := σ.held

end

def take (σ : Spaces ρ π ε φ) (f : φ) : Spaces ρ π ε φ := { σ with held := insert f σ.held }

def give (σ : Spaces ρ π ε φ) (f : φ) : Spaces ρ π ε φ := { σ with held := σ.held \ {f} }

/-- An owned frame is taken, and one page owns it. -/
structure Sound (σ : Spaces ρ π ε φ) : Prop where
  held : ∀ r p f, σ.owns r p = some f → f ∈ σ.held
  exclusive : ∀ r p s q f, σ.owns r p = some f → σ.owns s q = some f → r = s ∧ p = q

/-- No page owns the frame. -/
def Unowned (σ : Spaces ρ π ε φ) (f : φ) : Prop := ∀ r p, σ.owns r p ≠ some f

section
variable {σ : Spaces ρ π ε φ} {r s : ρ} {p q : π} {e : ε} {o : Option φ} {f g : φ}

theorem Sound.take (h : σ.Sound) (f : φ) : (σ.take f).Sound where
  held r p g howns := Set.mem_insert_of_mem f (h.held r p g howns)
  exclusive := h.exclusive

theorem Sound.give (h : σ.Sound) (hf : σ.Unowned f) : (σ.give f).Sound where
  held r p g howns := ⟨h.held r p g howns, fun hg => hf r p (hg ▸ howns)⟩
  exclusive := h.exclusive

variable [DecidableEq ρ] [DecidableEq π]

theorem put_maps (σ : Spaces ρ π ε φ) (r : ρ) (p : π) (e : ε) (o : Option φ) (s : ρ) (q : π) :
    (σ.put r p e o).maps s q = if s = r ∧ q = p then some e else σ.maps s q := rfl

theorem erase_maps (σ : Spaces ρ π ε φ) (r : ρ) (p : π) (s : ρ) (q : π) :
    (σ.erase r p).maps s q = if s = r ∧ q = p then none else σ.maps s q := rfl

theorem put_owns (h : (σ.put r p e o).owns s q = some f) :
    s = r ∧ q = p ∧ o = some f ∨ ¬ (s = r ∧ q = p) ∧ σ.owns s q = some f := by
  simp only [put] at h
  split at h
  case isTrue hpage => exact Or.inl ⟨hpage.1, hpage.2, h⟩
  case isFalse hpage => exact Or.inr ⟨hpage, h⟩

theorem erase_owns (h : (σ.erase r p).owns s q = some f) : ¬ (s = r ∧ q = p) ∧ σ.owns s q = some f := by
  simp only [erase] at h
  split at h
  case isTrue => cases h
  case isFalse hpage => exact ⟨hpage, h⟩

theorem Sound.put (h : σ.Sound) (ho : ∀ f, o = some f → f ∈ σ.held ∧ σ.Unowned f) (r : ρ) (p : π) (e : ε) :
    (σ.put r p e o).Sound where
  held s q f howns := by
    rcases put_owns howns with ⟨-, -, hf⟩ | ⟨-, hf⟩
    · exact (ho f hf).1
    · exact h.held s q f hf
  exclusive s q s' q' f howns howns' := by
    rcases put_owns howns with ⟨rfl, rfl, hf⟩ | ⟨-, hf⟩
    · rcases put_owns howns' with ⟨rfl, rfl, -⟩ | ⟨-, hf'⟩
      · exact ⟨rfl, rfl⟩
      · exact absurd hf' ((ho f hf).2 s' q')
    · rcases put_owns howns' with ⟨-, -, hf'⟩ | ⟨-, hf'⟩
      · exact absurd hf ((ho f hf').2 s q)
      · exact h.exclusive s q s' q' f hf hf'

theorem Sound.erase (h : σ.Sound) (r : ρ) (p : π) : (σ.erase r p).Sound where
  held s q f howns := h.held s q f (erase_owns howns).2
  exclusive s q s' q' f howns howns' := h.exclusive s q s' q' f (erase_owns howns).2 (erase_owns howns').2

theorem erase_of_none (hmaps : σ.maps r p = none) (howns : σ.owns r p = none) : σ.erase r p = σ := by
  obtain ⟨maps, owns, held⟩ := σ
  have hpage : ∀ {s q}, s = r ∧ q = p → none = maps s q ∧ none = owns s q := by
    rintro s q ⟨rfl, rfl⟩
    exact ⟨hmaps.symm, howns.symm⟩
  simp only [erase, Spaces.mk.injEq, and_true]
  exact ⟨funext fun s => funext fun q => ite_eq_right_iff.mpr fun h => (hpage h).1,
    funext fun s => funext fun q => ite_eq_right_iff.mpr fun h => (hpage h).2⟩

/-- A frame loses its owner with the page. -/
theorem Sound.erase_unowned (h : σ.Sound) (howns : σ.owns r p = some f) : (σ.erase r p).Unowned f := by
  intro s q hsq
  obtain ⟨hpage, hold⟩ := erase_owns hsq
  exact hpage (h.exclusive s q r p f hold howns)

end

end Spaces

end AddressSpace
