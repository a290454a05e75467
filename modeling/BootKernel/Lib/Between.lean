import Mathlib.Data.List.Basic

/-!
# What comes between two elements of a list

A trace in which something must have happened between an opening element and the next closing one.
`Since` is what has come since an opening that no closing has followed yet, and `Between` says that
at each closing it was as it should be.
-/

namespace Trace

variable {α : Type} {opens closes : α → Prop} {R : List α → Prop} {es es' gap : List α} {e : α}

def Since (opens closes : α → Prop) (es gap : List α) : Prop :=
  ∃ pre a, es = pre ++ a :: gap ∧ opens a ∧ ∀ b ∈ gap, ¬ closes b

def Between (opens closes : α → Prop) (R : List α → Prop) (es : List α) : Prop :=
  ∀ pre a gap b post, es = pre ++ a :: gap ++ b :: post → opens a → closes b →
    (∀ c ∈ gap, ¬ closes c) → R gap

theorem not_since_nil : ¬ Since opens closes [] gap := by
  rintro ⟨pre, a, heq, -⟩
  simp at heq

theorem between_nil : Between opens closes R [] := by
  intro pre a gap b post heq
  simp at heq

theorem since_concat : Since opens closes (es ++ [e]) gap ↔
    gap = [] ∧ opens e ∨ ∃ gap', gap = gap' ++ [e] ∧ Since opens closes es gap' ∧ ¬ closes e := by
  constructor
  · rintro ⟨pre, a, heq, ha, hgap⟩
    rcases List.eq_nil_or_concat gap with rfl | ⟨gap', b, rfl⟩
    · obtain ⟨-, he⟩ := List.append_inj' heq rfl
      obtain ⟨rfl, -⟩ := List.cons.inj he
      exact .inl ⟨rfl, ha⟩
    · rw [List.concat_eq_append] at heq hgap ⊢
      rw [← List.cons_append, ← List.append_assoc] at heq
      obtain ⟨rfl, he⟩ := List.append_inj' heq rfl
      obtain ⟨rfl, -⟩ := List.cons.inj he
      exact .inr ⟨gap', rfl, ⟨pre, a, rfl, ha, fun c hc => hgap c (List.mem_append_left _ hc)⟩,
        hgap e (by simp)⟩
  · rintro (⟨rfl, he⟩ | ⟨gap', rfl, ⟨pre, a, rfl, ha, hgap⟩, he⟩)
    · exact ⟨es, e, rfl, he, by simp⟩
    · refine ⟨pre, a, by simp, ha, fun c hc => ?_⟩
      rcases List.mem_append.mp hc with hc | hc
      · exact hgap c hc
      · rw [List.mem_singleton] at hc
        rwa [hc]

theorem between_concat : Between opens closes R (es ++ [e]) ↔
    Between opens closes R es ∧ (closes e → ∀ gap, Since opens closes es gap → R gap) := by
  constructor
  · intro h
    constructor
    · rintro pre a gap b post rfl
      exact h pre a gap b (post ++ [e]) (by simp)
    · rintro he gap ⟨pre, a, rfl, ha, hgap⟩
      exact h pre a gap e [] (by simp) ha he hgap
  · rintro ⟨hes, he⟩ pre a gap b post heq ha hb hgap
    rcases List.eq_nil_or_concat post with rfl | ⟨post', c, rfl⟩
    · obtain ⟨rfl, hlast⟩ := List.append_inj' heq rfl
      obtain ⟨rfl, -⟩ := List.cons.inj hlast
      exact he hb gap ⟨pre, a, rfl, ha, hgap⟩
    · rw [List.concat_eq_append, ← List.cons_append, ← List.append_assoc] at heq
      obtain ⟨rfl, -⟩ := List.append_inj' heq rfl
      exact hes pre a gap b post' rfl ha hb hgap

/-! ## Several elements -/

/-- Elements that neither open nor close only make the gap longer. -/
theorem since_append (h : ∀ e ∈ es', ¬ opens e ∧ ¬ closes e) :
    Since opens closes (es ++ es') gap ↔ ∃ gap', gap = gap' ++ es' ∧ Since opens closes es gap' := by
  induction es' generalizing es with
  | nil => simp
  | cons e es' ih =>
      have he := h e List.mem_cons_self
      rw [List.append_cons, ih fun e he => h e (List.mem_cons_of_mem _ he)]
      constructor
      · rintro ⟨gap', rfl, hs⟩
        rcases since_concat.mp hs with ⟨-, ho⟩ | ⟨gap'', rfl, hs, -⟩
        · exact absurd ho he.1
        · exact ⟨gap'', (List.append_cons ..).symm, hs⟩
      · rintro ⟨gap', rfl, hs⟩
        exact ⟨gap' ++ [e], List.append_cons .., since_concat.mpr (.inr ⟨gap', rfl, hs, he.2⟩)⟩

theorem Between.append (h : Between opens closes R es) (hes : ∀ e ∈ es', ¬ closes e) :
    Between opens closes R (es ++ es') := by
  induction es' generalizing es with
  | nil => rwa [List.append_nil]
  | cons e es' ih =>
      rw [List.append_cons]
      have he : ¬ closes e := hes e List.mem_cons_self
      exact ih (between_concat.mpr ⟨h, fun hc => absurd hc he⟩)
        fun e he => hes e (List.mem_cons_of_mem _ he)

/-- After elements that close and do not open nothing is open. -/
theorem not_since_closed (hne : es' ≠ []) (h : ∀ e ∈ es', closes e ∧ ¬ opens e) :
    ¬ Since opens closes (es ++ es') gap := by
  rcases List.eq_nil_or_concat es' with rfl | ⟨es', e, rfl⟩
  · exact absurd rfl hne
  · rw [List.concat_eq_append] at h ⊢
    rw [← List.append_assoc, since_concat]
    have he := h e (by simp)
    rintro (⟨-, ho⟩ | ⟨-, -, -, hc⟩)
    · exact he.2 ho
    · exact hc he.1

/-- Of elements that close and do not open only the first closes anything. -/
theorem Between.append_closing (h : Between opens closes R es)
    (hR : ∀ gap, Since opens closes es gap → R gap) (hes : ∀ e ∈ es', closes e ∧ ¬ opens e) :
    Between opens closes R (es ++ es') := by
  induction es' generalizing es with
  | nil => rwa [List.append_nil]
  | cons e es' ih =>
      rw [List.append_cons]
      refine ih (between_concat.mpr ⟨h, fun _ => hR⟩) (fun gap hs => ?_)
        fun e he => hes e (List.mem_cons_of_mem _ he)
      exact absurd hs (not_since_closed (by simp) fun e' he' => by
        rw [List.mem_singleton] at he'
        rw [he']
        exact hes e List.mem_cons_self)

end Trace
