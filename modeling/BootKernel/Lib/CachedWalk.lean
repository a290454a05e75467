import Mathlib.Data.Set.Insert

/-!
# Programs beside a cache of lookups

A program changes a state of type `σ` in labelled steps. What the state says of a key is looked up with
`walk`, and a cache holds results of earlier lookups: it may take one up or lose one between any two
steps, and a step drops the keys that its label flushes. The cache is coherent when it holds only what
`walk` would still give.

The rules follow a program with the set of the keys that may be out of date. A step that changes the
lookup of a key adds the key to the set, and a step that flushes it takes it out again.
-/

namespace CachedWalk

variable {σ τ κ ν α β : Type}

/-! ## Programs -/

inductive Prog (σ τ α : Type) where
  | ret (a : α)
  | get (k : σ → Prog σ τ α)
  | step (label : τ) (f : σ → σ) (p : Prog σ τ α)

namespace Prog

def bind : Prog σ τ α → (α → Prog σ τ β) → Prog σ τ β
  | .ret a, g => g a
  | .get k, g => .get fun s => (k s).bind g
  | .step x f p, g => .step x f (p.bind g)

end Prog

instance : Monad (Prog σ τ) where
  pure := .ret
  bind := .bind

namespace Prog

/-- What the program does, without the cache. -/
def run : Prog σ τ α → σ → α × σ
  | .ret a, s => (a, s)
  | .get k, s => (k s).run s
  | .step _ f p, s => p.run (f s)

/-- A step that yields a value. -/
def op (label : σ → τ) (f : σ → α × σ) : Prog σ τ α :=
  .get fun s => .step (label s) (fun s => (f s).2) (.ret (f s).1)

@[simp] theorem run_ret (a : α) (s : σ) : (ret a : Prog σ τ α).run s = (a, s) := rfl

@[simp] theorem run_pure (a : α) (s : σ) : (pure a : Prog σ τ α).run s = (a, s) := rfl

@[simp] theorem run_op (label : σ → τ) (f : σ → α × σ) (s : σ) : (op label f).run s = f s := rfl

@[simp] theorem run_bind (p : Prog σ τ α) (g : α → Prog σ τ β) (s : σ) :
    (p >>= g).run s = (g (p.run s).1).run (p.run s).2 := by
  change (p.bind g).run s = _
  induction p generalizing s with
  | ret a => rfl
  | get k ih => exact ih s s
  | step x f p ih => exact ih (f s)

@[simp] theorem run_forM (l : List β) (body : β → Prog σ τ Unit) (s : σ) :
    (l.forM body).run s = ((), l.foldl (fun s b => ((body b).run s).2) s) := by
  induction l generalizing s with
  | nil => rfl
  | cons b l ih =>
      change (body b >>= fun _ => l.forM body).run s = _
      rw [run_bind, ih]
      rfl

/-- The labels of the steps. -/
def labels : Prog σ τ α → σ → List τ
  | .ret _, _ => []
  | .get k, s => (k s).labels s
  | .step x f p, s => x :: p.labels (f s)

@[simp] theorem labels_pure (a : α) (s : σ) : (pure a : Prog σ τ α).labels s = [] := rfl

@[simp] theorem labels_op (label : σ → τ) (f : σ → α × σ) (s : σ) : (op label f).labels s = [label s] := rfl

@[simp] theorem labels_bind (p : Prog σ τ α) (g : α → Prog σ τ β) (s : σ) :
    (p >>= g).labels s = p.labels s ++ (g (p.run s).1).labels (p.run s).2 := by
  change (p.bind g).labels s = _
  induction p generalizing s with
  | ret a => rfl
  | get k ih => exact ih s s
  | step x f p ih => exact congrArg (x :: ·) (ih (f s))

end Prog

/-! ## Runs beside a cache -/

/-- Keys with the results of lookups. -/
abbrev Cache (κ ν : Type) := Set (κ × ν)

section
variable (walk : σ → κ → Option ν) (flush : τ → Set κ)

/-- The runs of a program, with the label, the state and the cache at each of its steps. -/
inductive Exec : Prog σ τ α → σ → Cache κ ν → List (τ × σ × Cache κ ν) → α → σ → Cache κ ν → Prop
  | ret {a s c} : Exec (.ret a) s c [] a s c
  | fill {p s c seen a s' c' k v} (hwalk : walk s k = some v) (hrest : Exec p s (insert (k, v) c) seen a s' c') :
      Exec p s c seen a s' c'
  | evict {p s c c₁ seen a s' c'} (hsub : c₁ ⊆ c) (hrest : Exec p s c₁ seen a s' c') : Exec p s c seen a s' c'
  | get {k s c seen a s' c'} (hrest : Exec (k s) s c seen a s' c') : Exec (.get k) s c seen a s' c'
  | step {x f p s c seen a s' c'} (hrest : Exec p (f s) {e ∈ c | e.1 ∉ flush x} seen a s' c') :
      Exec (.step x f p) s c ((x, s, c) :: seen) a s' c'

/-- Every cached result of a key outside `D` is what a lookup gives now. -/
def CoherentOff (D : Set κ) (s : σ) (c : Cache κ ν) : Prop := ∀ e ∈ c, e.1 ∉ D → walk s e.1 = some e.2

abbrev Coherent (s : σ) (c : Cache κ ν) : Prop := CoherentOff walk ∅ s c

/-- The keys whose lookups differ. -/
def changedKeys (s s' : σ) : Set κ := {k | walk s' k ≠ walk s k}

/-- The weakest condition on a state and the keys that may be out of date there, for the program to end in
`Q` and to meet `Φ` at each of its steps. -/
def Safe (Φ : τ → Set κ → σ → Prop) : Prog σ τ α → Set κ → σ → (α → Set κ → σ → Prop) → Prop
  | .ret a, D, s, Q => Q a D s
  | .get k, D, s, Q => Safe Φ (k s) D s Q
  | .step x f p, D, s, Q => Φ x D s ∧ Safe Φ p ((D ∪ changedKeys walk s (f s)) \ flush x) (f s) Q

end

section
variable {walk : σ → κ → Option ν} {flush : τ → Set κ} {Φ : τ → Set κ → σ → Prop} {D : Set κ} {s s' : σ}
  {c c' : Cache κ ν} {seen : List (τ × σ × Cache κ ν)} {p : Prog σ τ α} {a : α}

theorem CoherentOff.fill {k : κ} {v : ν} (h : CoherentOff walk D s c) (hwalk : walk s k = some v) :
    CoherentOff walk D s (insert (k, v) c) := by
  rintro e (rfl | he) hk
  · exact hwalk
  · exact h e he hk

theorem CoherentOff.mono (h : CoherentOff walk D s c) (hsub : c' ⊆ c) : CoherentOff walk D s c' :=
  fun e he hk => h e (hsub he) hk

/-- A step: what it changes may be out of date, what it flushes is not. -/
theorem CoherentOff.step (h : CoherentOff walk D s c) (x : τ) (s' : σ) :
    CoherentOff walk ((D ∪ changedKeys walk s s') \ flush x) s' {e ∈ c | e.1 ∉ flush x} := by
  rintro e ⟨he, hkept⟩ hk
  have hout : e.1 ∉ D ∪ changedKeys walk s s' := fun hin => hk ⟨hin, hkept⟩
  rw [Set.mem_union, not_or] at hout
  have hsame : walk s' e.1 = walk s e.1 := not_not.mp hout.2
  rw [hsame]
  exact h e he hout.1

/-- The cache does not change what a program does. -/
theorem Exec.run_eq (h : Exec walk flush p s c seen a s' c') : p.run s = (a, s') := by
  induction h with
  | ret => rfl
  | fill _ _ ih => exact ih
  | evict _ _ ih => exact ih
  | get _ ih => exact ih
  | step _ ih => exact ih

/-- The rules are sound for every run. -/
theorem Safe.sound {Q : α → Set κ → σ → Prop} (hsafe : Safe walk flush Φ p D s Q)
    (hc : CoherentOff walk D s c) (h : Exec walk flush p s c seen a s' c') :
    (∃ D', Q a D' s' ∧ CoherentOff walk D' s' c') ∧
      ∀ o ∈ seen, ∃ D', Φ o.1 D' o.2.1 ∧ CoherentOff walk D' o.2.1 o.2.2 := by
  induction h generalizing D with
  | ret => exact ⟨⟨D, hsafe, hc⟩, nofun⟩
  | fill hwalk _ ih => exact ih hsafe (hc.fill hwalk)
  | evict hsub _ ih => exact ih hsafe (hc.mono hsub)
  | get _ ih => exact ih hsafe hc
  | step _ ih =>
      obtain ⟨hstep, hrest⟩ := hsafe
      obtain ⟨hend, hseen⟩ := ih hrest (hc.step _ _)
      refine ⟨hend, fun o ho => ?_⟩
      cases ho with
      | head => exact ⟨D, hstep, hc⟩
      | tail _ ho => exact hseen o ho

/-- A step that keeps all lookups puts nothing out of date. -/
theorem changedKeys_same {x : τ} (h : walk s' = walk s) : (∅ ∪ changedKeys walk s s') \ flush x = ∅ := by
  ext k
  simp [changedKeys, h]

/-! ## Rules -/

theorem Safe.mono {Q Q' : α → Set κ → σ → Prop} (h : Safe walk flush Φ p D s Q) (hQ : ∀ a D s, Q a D s → Q' a D s) :
    Safe walk flush Φ p D s Q' := by
  induction p generalizing D s with
  | ret a => exact hQ a D s h
  | get k ih => exact ih s h
  | step x f p ih => exact ⟨h.1, ih h.2⟩

/-- At the end the program has computed what it computes without the cache. -/
theorem Safe.run {Q : α → Set κ → σ → Prop} (h : Safe walk flush Φ p D s Q) :
    Safe walk flush Φ p D s fun a D' s' => Q a D' s' ∧ p.run s = (a, s') := by
  induction p generalizing D s with
  | ret a => exact ⟨h, rfl⟩
  | get k ih => exact ih s h
  | step x f p ih => exact ⟨h.1, ih h.2⟩

theorem Safe.bind {g : α → Prog σ τ β} {Q : β → Set κ → σ → Prop}
    (h : Safe walk flush Φ p D s fun a D' s' => Safe walk flush Φ (g a) D' s' Q) :
    Safe walk flush Φ (p >>= g) D s Q := by
  change Safe walk flush Φ (p.bind g) D s Q
  induction p generalizing D s with
  | ret a => exact h
  | get k ih => exact ih s h
  | step x f p ih => exact ⟨h.1, ih h.2⟩

theorem Safe.op {label : σ → τ} {f : σ → α × σ} {Q : α → Set κ → σ → Prop} (hstep : Φ (label s) D s)
    (h : Q (f s).1 ((D ∪ changedKeys walk s (f s).2) \ flush (label s)) (f s).2) :
    Safe walk flush Φ (Prog.op label f) D s Q := ⟨hstep, h⟩

end

/-! ## Programs that change no lookup -/

section
variable (walk : σ → κ → Option ν) (P : τ → Prop)

/-- Every step keeps all lookups and has a label in `P`. -/
def Steady : Prog σ τ α → σ → Prop
  | .ret _, _ => True
  | .get k, s => Steady (k s) s
  | .step x f p, s => P x ∧ walk (f s) = walk s ∧ Steady p (f s)

end

section
variable {walk : σ → κ → Option ν} {flush : τ → Set κ} {Φ : τ → Set κ → σ → Prop} {P : τ → Prop} {s : σ}
  {c : Cache κ ν} {p : Prog σ τ α}

theorem Steady.bind {g : α → Prog σ τ β} (hp : Steady walk P p s) (hg : Steady walk P (g (p.run s).1) (p.run s).2) :
    Steady walk P (p >>= g) s := by
  change Steady walk P (p.bind g) s
  induction p generalizing s with
  | ret a => exact hg
  | get k ih => exact ih s hp hg
  | step x f p ih => exact ⟨hp.1, hp.2.1, ih hp.2.2 hg⟩

theorem Steady.op {label : σ → τ} {f : σ → α × σ} (hx : P (label s)) (hwalk : walk (f s).2 = walk s) :
    Steady walk P (Prog.op label f) s := ⟨hx, hwalk, trivial⟩

theorem Steady.forM {l : List β} {body : β → Prog σ τ Unit} (I : σ → Prop) (h₀ : I s)
    (hbody : ∀ b ∈ l, ∀ s, I s → Steady walk P (body b) s ∧ I ((body b).run s).2) :
    Steady walk P (l.forM body) s := by
  induction l generalizing s with
  | nil => exact trivial
  | cons b l ih =>
      obtain ⟨hsteady, hnext⟩ := hbody b List.mem_cons_self s h₀
      change Steady walk P (body b >>= fun _ => l.forM body) s
      exact hsteady.bind (ih hnext fun b' hb' => hbody b' (List.mem_cons_of_mem b hb'))

theorem Steady.labels (h : Steady walk P p s) : ∀ x ∈ p.labels s, P x := by
  induction p generalizing s with
  | ret a => exact nofun
  | get k ih => exact ih s h
  | step x f p ih =>
      intro y hy
      cases hy with
      | head => exact h.1
      | tail _ hy => exact ih h.2.2 y hy

/-- Nothing gets out of date in such a program. -/
theorem Steady.safe {Q : α → Set κ → σ → Prop} (h : Steady walk P p s) (hΦ : ∀ x s, P x → Φ x ∅ s)
    (hQ : Q (p.run s).1 ∅ (p.run s).2) : Safe walk flush Φ p ∅ s Q := by
  induction p generalizing s with
  | ret a => exact hQ
  | get k ih => exact ih s h hQ
  | step x f p ih =>
      obtain ⟨hx, hwalk, hrest⟩ := h
      refine ⟨hΦ x s hx, ?_⟩
      rw [changedKeys_same hwalk]
      exact ih hrest hQ

end

/-! ## Runs that exist -/

section
variable (walk : σ → κ → Option ν) (flush : τ → Set κ)

/-- The run in which the cache takes nothing up: what no step flushes stays in the cache. -/
theorem Exec.of_run (p : Prog σ τ α) (s : σ) (c : Cache κ ν) :
    ∃ seen c', Exec walk flush p s c seen (p.run s).1 (p.run s).2 c' ∧ seen.map Prod.fst = p.labels s ∧
      ∀ e ∈ c, (∀ x ∈ p.labels s, e.1 ∉ flush x) → e ∈ c' ∧ ∀ o ∈ seen, e ∈ o.2.2 := by
  induction p generalizing s c with
  | ret a => exact ⟨[], c, .ret, rfl, fun e he _ => ⟨he, nofun⟩⟩
  | get k ih =>
      obtain ⟨seen, c', hexec, hlabels, hkept⟩ := ih s s c
      exact ⟨seen, c', .get hexec, hlabels, hkept⟩
  | step x f p ih =>
      obtain ⟨seen, c', hexec, hlabels, hkept⟩ := ih (f s) {e ∈ c | e.1 ∉ flush x}
      refine ⟨(x, s, c) :: seen, c', .step hexec, congrArg (x :: ·) hlabels, fun e he hout => ?_⟩
      have hx : e.1 ∉ flush x := hout x List.mem_cons_self
      obtain ⟨hend, hseen⟩ := hkept e ⟨he, hx⟩ fun y hy => hout y (List.mem_cons_of_mem x hy)
      refine ⟨hend, fun o ho => ?_⟩
      cases ho with
      | head => exact he
      | tail _ ho => exact hseen o ho

end

end CachedWalk
