import BootKernel.Lib.Interleaving

/-!
# What an interrupt handler cannot disturb

The handler changes a part of the state only, and a projection of the state says what it leaves alone.
A call that is interrupted makes the accesses of a run in which the rest of the state may change
between two operations. A program that does not depend on the rest runs as if there were no
interrupts.
-/

namespace PortProgram

variable {β σ τ γ κ α α' : Type}

/-- A run between whose operations the state may change, as long as its projection stays. -/
def RunsUpTo (π : σ → τ) : Prog β σ α → σ → List (Event β) → α → σ → Prop
  | .ret b, s, es, a, s' => es = [] ∧ a = b ∧ π s' = π s
  | .load k, s, es, a, s' => ∃ t, π t = π s ∧ RunsUpTo π (k t) t es a s'
  | .store f k, s, es, a, s' => ∃ t, π t = π s ∧ RunsUpTo π k (f t) es a s'
  | .inb p k, s, es, a, s' => ∃ v es', es = .inb p v :: es' ∧ RunsUpTo π (k v) s es' a s'
  | .outb p v k, s, es, a, s' => ∃ es', es = .outb p v :: es' ∧ RunsUpTo π k s es' a s'
  | .insw p b n k, s, es, a, s' => ∃ es', es = .insw p b n :: es' ∧ RunsUpTo π k s es' a s'
  | .outsw p b n k, s, es, a, s' => ∃ es', es = .outsw p b n :: es' ∧ RunsUpTo π k s es' a s'

/-- What the program does depends on the projection of the state only, and so does the projection of
what it leaves. -/
def Blind (π : σ → τ) : Prog β σ α → Prop
  | .ret _ => True
  | .load k => (∀ s t, π s = π t → k s = k t) ∧ ∀ s, Blind π (k s)
  | .store f k => (∀ s t, π s = π t → π (f s) = π (f t)) ∧ Blind π k
  | .inb _ k => ∀ v, Blind π (k v)
  | .outb _ _ k => Blind π k
  | .insw _ _ _ k => Blind π k
  | .outsw _ _ _ k => Blind π k

section

variable {π : σ → τ} {p : Prog β σ α} {s u s' : σ} {es : List (Event β)} {a : α}

theorem RunsUpTo.start (h : RunsUpTo π p s es a s') (hs : π u = π s) : RunsUpTo π p u es a s' := by
  induction p generalizing es with
  | ret b => exact ⟨h.1, h.2.1, h.2.2.trans hs.symm⟩
  | load k _ =>
      obtain ⟨t, ht, h⟩ := h
      exact ⟨t, ht.trans hs.symm, h⟩
  | store f k _ =>
      obtain ⟨t, ht, h⟩ := h
      exact ⟨t, ht.trans hs.symm, h⟩
  | inb port k ih =>
      obtain ⟨v, es', rfl, h⟩ := h
      exact ⟨v, es', rfl, ih v h⟩
  | outb _ _ _ ih | insw _ _ _ _ ih | outsw _ _ _ _ ih =>
      obtain ⟨es', rfl, h⟩ := h
      exact ⟨es', rfl, ih h⟩

theorem RunsUpTo.bind {g : α → Prog β σ α'} {a : α'} (h : RunsUpTo π (p >>= g) s es a s') :
    ∃ es₁ es₂ b s₁, es = es₁ ++ es₂ ∧ RunsUpTo π p s es₁ b s₁ ∧ RunsUpTo π (g b) s₁ es₂ a s' := by
  induction p generalizing s es with
  | ret b => exact ⟨[], es, b, s, rfl, ⟨rfl, rfl, rfl⟩, h⟩
  | load k ih =>
      obtain ⟨t, ht, h⟩ := h
      obtain ⟨es₁, es₂, b, s₁, rfl, h₁, h₂⟩ := ih t h
      exact ⟨es₁, es₂, b, s₁, rfl, ⟨t, ht, h₁⟩, h₂⟩
  | store f k ih =>
      obtain ⟨t, ht, h⟩ := h
      obtain ⟨es₁, es₂, b, s₁, rfl, h₁, h₂⟩ := ih h
      exact ⟨es₁, es₂, b, s₁, rfl, ⟨t, ht, h₁⟩, h₂⟩
  | inb port k ih =>
      obtain ⟨v, es', rfl, h⟩ := h
      obtain ⟨es₁, es₂, b, s₁, rfl, h₁, h₂⟩ := ih v h
      exact ⟨_, es₂, b, s₁, rfl, ⟨v, es₁, rfl, h₁⟩, h₂⟩
  | outb _ _ _ ih | insw _ _ _ _ ih | outsw _ _ _ _ ih =>
      obtain ⟨es', rfl, h⟩ := h
      obtain ⟨es₁, es₂, b, s₁, rfl, h₁, h₂⟩ := ih h
      exact ⟨_, es₂, b, s₁, rfl, ⟨es₁, rfl, h₁⟩, h₂⟩

theorem Blind.ite {c : Prop} [Decidable c] {q : Prog β σ α} (hp : Blind π p) (hq : Blind π q) :
    Blind π (if c then p else q) := by
  split
  · exact hp
  · exact hq

theorem Blind.bind {g : α → Prog β σ α'} (hp : Blind π p) (hg : ∀ a, Blind π (g a)) :
    Blind π (p >>= g) := by
  induction p with
  | ret a => exact hg a
  | load k ih => exact ⟨fun s t hst => congrArg (· >>= g) (hp.1 s t hst), fun s => ih s (hp.2 s)⟩
  | store f k ih => exact ⟨hp.1, ih hp.2⟩
  | inb port k ih => exact fun v => ih v (hp v)
  | outb _ _ _ ih | insw _ _ _ _ ih | outsw _ _ _ _ ih => exact ih hp

/-- A blind program makes the accesses of a run without interrupts. -/
theorem Blind.runs (hp : Blind π p) (h : RunsUpTo π p s es a s') (hs : π u = π s) :
    ∃ s₁, Runs p u es a s₁ ∧ π s₁ = π s' := by
  induction p generalizing s u es with
  | ret b =>
      obtain ⟨rfl, rfl, hs'⟩ := h
      exact ⟨u, ⟨rfl, rfl, rfl⟩, hs.trans hs'.symm⟩
  | load k ih =>
      obtain ⟨t, ht, h⟩ := h
      have hsame : k t = k u := hp.1 t u (ht.trans hs.symm)
      obtain ⟨s₁, hr, hs₁⟩ := ih t (hp.2 t) h (hs.trans ht.symm)
      rw [hsame] at hr
      exact ⟨s₁, hr, hs₁⟩
  | store f k ih =>
      obtain ⟨t, ht, h⟩ := h
      exact ih hp.2 h (hp.1 u t (hs.trans ht.symm))
  | inb port k ih =>
      obtain ⟨v, es', rfl, h⟩ := h
      obtain ⟨s₁, hr, hs₁⟩ := ih v (hp v) h hs
      exact ⟨s₁, ⟨v, es', rfl, hr⟩, hs₁⟩
  | outb _ _ _ ih | insw _ _ _ _ ih | outsw _ _ _ _ ih =>
      obtain ⟨es', rfl, h⟩ := h
      obtain ⟨s₁, hr, hs₁⟩ := ih hp h hs
      exact ⟨s₁, ⟨es', rfl, hr⟩, hs₁⟩

/-- A run without interrupts is such a run too. -/
theorem Runs.upTo (h : Runs p s es a s') : RunsUpTo π p s es a s' := by
  induction p generalizing s es with
  | ret b => exact ⟨h.1, h.2.1, congrArg π h.2.2⟩
  | load k ih => exact ⟨s, rfl, ih s h⟩
  | store f k ih => exact ⟨s, rfl, ih h⟩
  | inb port k ih =>
      obtain ⟨v, es', rfl, h⟩ := h
      exact ⟨v, es', rfl, ih v h⟩
  | outb _ _ _ ih | insw _ _ _ _ ih | outsw _ _ _ _ ih =>
      obtain ⟨es', rfl, h⟩ := h
      exact ⟨es', rfl, ih h⟩

/-- Every program comes to its end. -/
theorem exists_runsUpTo (π : σ → τ) (p : Prog β σ α) (s : σ) : ∃ es a s', RunsUpTo π p s es a s' := by
  obtain ⟨es, hr, -⟩ := exec_runs (answering 0) p s ()
  exact ⟨es, _, _, hr.upTo⟩

end

section

variable {M : System β σ γ κ} {I : σ × γ → σ × γ → Prop} {Inv : γ → Prop} {Q : σ × γ → Prop}
  {π : σ → τ} {upd : γ → Event β → γ}

theorem inv_of_foldl (hInv : ∀ g e, Inv (upd g e) → Inv g) (es : List (Event β)) (g : γ)
    (h : Inv (es.foldl upd g)) : Inv g := by
  induction es generalizing g with
  | nil => exact h
  | cons e es ih => exact hInv g e (ih _ h)

/-- The interrupts leave the record and the projection alone, and the record grows with the accesses
only. Then a call is safe if every run of it up to the interrupts ends well, and `Inv` cannot begin to
hold later. -/
theorem Safe.of_runsUpTo (hport : ∀ e s g, M.onPort e s g = upd g e)
    (hstore : ∀ s s' g, M.onStore s s' g = g) (hI : ∀ x y, I x y → π y.1 = π x.1 ∧ y.2 = x.2)
    (hInv : ∀ g e, Inv (upd g e) → Inv g) (hQ : ∀ x, Q x → Inv x.2) {p : Prog β σ Unit} {x : σ × γ}
    (h : ∀ es u s', RunsUpTo π p x.1 es u s' → Q (s', es.foldl upd x.2)) :
    Safe M I (fun y => Inv y.2) Q p x := by
  have hclosure {x y : σ × γ} (hr : Relation.ReflTransGen I x y) : π y.1 = π x.1 ∧ y.2 = x.2 := by
    induction hr with
    | refl => exact ⟨rfl, rfl⟩
    | tail _ hstep ih =>
        obtain ⟨hπ, hg⟩ := hI _ _ hstep
        exact ⟨hπ.trans ih.1, hg.trans ih.2⟩
  -- a point in the middle is before the end of some run
  have hmid {p : Prog β σ Unit} {s : σ} {g : γ}
      (h : ∀ es u s', RunsUpTo π p s es u s' → Q (s', es.foldl upd g)) : Inv g := by
    obtain ⟨es, u, s', hrun⟩ := exists_runsUpTo π p s
    exact inv_of_foldl hInv es g (hQ _ (h es u s' hrun))
  induction p generalizing x with
  | ret u => exact h [] u x.1 ⟨rfl, rfl, rfl⟩
  | load k ih =>
      intro y hr
      obtain ⟨hπ, hg⟩ := hclosure hr
      have hy : ∀ es u s', RunsUpTo π (k y.1) y.1 es u s' → Q (s', es.foldl upd y.2) :=
        fun es u s' hrun => hg ▸ h es u s' ⟨y.1, hπ, hrun⟩
      exact ⟨hmid hy, ih y.1 hy⟩
  | store f k ih =>
      intro y hr
      obtain ⟨hπ, hg⟩ := hclosure hr
      have hy : ∀ es u s', RunsUpTo π k (f y.1) es u s' → Q (s', es.foldl upd y.2) :=
        fun es u s' hrun => hg ▸ h es u s' ⟨y.1, hπ, hrun⟩
      exact ⟨hmid hy, ih (by rw [hstore]; exact hy)⟩
  | inb port k ih =>
      intro y hr
      obtain ⟨hπ, hg⟩ := hclosure hr
      have hy (v : BitVec 8) : ∀ es u s', RunsUpTo π (k v) y.1 es u s' →
          Q (s', es.foldl upd (upd y.2 (.inb port v))) :=
        fun es u s' hrun => hg ▸ h (.inb port v :: es) u s' ⟨v, es, rfl, hrun.start hπ.symm⟩
      exact ⟨hInv _ _ (hmid (hy 0)), fun v => ih v (by rw [hport]; exact hy v)⟩
  | outb port b k ih =>
      intro y hr
      obtain ⟨hπ, hg⟩ := hclosure hr
      have hy : ∀ es u s', RunsUpTo π k y.1 es u s' →
          Q (s', es.foldl upd (upd y.2 (.outb port b))) :=
        fun es u s' hrun => hg ▸ h (.outb port b :: es) u s' ⟨es, rfl, hrun.start hπ.symm⟩
      exact ⟨hInv _ _ (hmid hy), ih (by rw [hport]; exact hy)⟩
  | insw port b n k ih =>
      intro y hr
      obtain ⟨hπ, hg⟩ := hclosure hr
      have hy : ∀ es u s', RunsUpTo π k y.1 es u s' →
          Q (s', es.foldl upd (upd y.2 (.insw port b n))) :=
        fun es u s' hrun => hg ▸ h (.insw port b n :: es) u s' ⟨es, rfl, hrun.start hπ.symm⟩
      exact ⟨hInv _ _ (hmid hy), ih (by rw [hport]; exact hy)⟩
  | outsw port b n k ih =>
      intro y hr
      obtain ⟨hπ, hg⟩ := hclosure hr
      have hy : ∀ es u s', RunsUpTo π k y.1 es u s' →
          Q (s', es.foldl upd (upd y.2 (.outsw port b n))) :=
        fun es u s' hrun => hg ▸ h (.outsw port b n :: es) u s' ⟨es, rfl, hrun.start hπ.symm⟩
      exact ⟨hInv _ _ (hmid hy), ih (by rw [hport]; exact hy)⟩

end

end PortProgram
