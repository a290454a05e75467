import Mathlib.Data.List.Basic

/-!
# Programs that talk to devices through ports

A program reads and writes a state of type `σ` and accesses ports. Each of these is one operation, so
that the same text can be run in one go or be interrupted between any two operations. What a port
read yields is left open: a program run in one go asks a device model `Ports`, and `Runs` says what
the program does when the accesses and the bytes they got are given.
-/

namespace PortProgram

/-- An access to the ports, where a read carries the byte it got. `β` is the type of the buffers that
the string instructions move words to and from. -/
inductive Event (β : Type) where
  | inb (port : BitVec 16) (value : BitVec 8)
  | outb (port : BitVec 16) (value : BitVec 8)
  | insw (port : BitVec 16) (buf : β) (count : BitVec 32)
  | outsw (port : BitVec 16) (buf : β) (count : BitVec 32)
deriving DecidableEq, Repr

inductive Prog (β σ α : Type) where
  | ret (a : α)
  | load (k : σ → Prog β σ α)
  | store (f : σ → σ) (k : Prog β σ α)
  | inb (port : BitVec 16) (k : BitVec 8 → Prog β σ α)
  | outb (port : BitVec 16) (value : BitVec 8) (k : Prog β σ α)
  | insw (port : BitVec 16) (buf : β) (count : BitVec 32) (k : Prog β σ α)
  | outsw (port : BitVec 16) (buf : β) (count : BitVec 32) (k : Prog β σ α)

variable {β σ τ α α' : Type}

namespace Prog

def bind : Prog β σ α → (α → Prog β σ α') → Prog β σ α'
  | .ret a, g => g a
  | .load k, g => .load fun s => (k s).bind g
  | .store f k, g => .store f (k.bind g)
  | .inb p k, g => .inb p fun v => (k v).bind g
  | .outb p v k, g => .outb p v (k.bind g)
  | .insw p b n k, g => .insw p b n (k.bind g)
  | .outsw p b n k, g => .outsw p b n (k.bind g)

end Prog

instance : Monad (Prog β σ) where
  pure := .ret
  bind := .bind

@[simp] def load (g : σ → α) : Prog β σ α := .load fun s => .ret (g s)
@[simp] def store (f : σ → σ) : Prog β σ Unit := .store f (.ret ())
@[simp] def inb (port : BitVec 16) : Prog β σ (BitVec 8) := .inb port .ret
@[simp] def outb (port : BitVec 16) (value : BitVec 8) : Prog β σ Unit := .outb port value (.ret ())
@[simp] def insw (port : BitVec 16) (buf : β) (count : BitVec 32) : Prog β σ Unit :=
  .insw port buf count (.ret ())
@[simp] def outsw (port : BitVec 16) (buf : β) (count : BitVec 32) : Prog β σ Unit :=
  .outsw port buf count (.ret ())

section

variable (g : α → Prog β σ α')

@[simp] theorem pure_eq (a : α) : (pure a : Prog β σ α) = .ret a := rfl
@[simp] theorem ret_bind (a : α) : .ret a >>= g = g a := rfl
@[simp] theorem load_bind (k : σ → Prog β σ α) : .load k >>= g = .load fun s => k s >>= g := rfl
@[simp] theorem store_bind (f : σ → σ) (k : Prog β σ α) : .store f k >>= g = .store f (k >>= g) := rfl
@[simp] theorem inb_bind (p : BitVec 16) (k : BitVec 8 → Prog β σ α) :
    .inb p k >>= g = .inb p fun v => k v >>= g := rfl
@[simp] theorem outb_bind (p : BitVec 16) (v : BitVec 8) (k : Prog β σ α) :
    .outb p v k >>= g = .outb p v (k >>= g) := rfl
@[simp] theorem insw_bind (p : BitVec 16) (b : β) (n : BitVec 32) (k : Prog β σ α) :
    .insw p b n k >>= g = .insw p b n (k >>= g) := rfl
@[simp] theorem outsw_bind (p : BitVec 16) (b : β) (n : BitVec 32) (k : Prog β σ α) :
    .outsw p b n k >>= g = .outsw p b n (k >>= g) := rfl

theorem ite_bind {p : Prop} [Decidable p] (x y : Prog β σ α) :
    (if p then x else y) >>= g = if p then x >>= g else y >>= g := by
  split
  · rfl
  · rfl

end

theorem bind_ret (x : Prog β σ α) : x >>= .ret = x := by
  induction x with
  | ret a => rfl
  | load k ih => exact congrArg Prog.load (funext fun s => ih s)
  | store f k ih => exact congrArg (Prog.store f) ih
  | inb p k ih => exact congrArg (Prog.inb p) (funext fun v => ih v)
  | outb p v k ih => exact congrArg (Prog.outb p v) ih
  | insw p b n k ih => exact congrArg (Prog.insw p b n) ih
  | outsw p b n k ih => exact congrArg (Prog.outsw p b n) ih

/-! ## What a program does -/

/-- From the state `s` the program accesses the ports as `es` says, returns `a` and leaves the state
`s'`. -/
def Runs : Prog β σ α → σ → List (Event β) → α → σ → Prop
  | .ret b, s, es, a, s' => es = [] ∧ a = b ∧ s' = s
  | .load k, s, es, a, s' => Runs (k s) s es a s'
  | .store f k, s, es, a, s' => Runs k (f s) es a s'
  | .inb p k, s, es, a, s' => ∃ v es', es = .inb p v :: es' ∧ Runs (k v) s es' a s'
  | .outb p v k, s, es, a, s' => ∃ es', es = .outb p v :: es' ∧ Runs k s es' a s'
  | .insw p b n k, s, es, a, s' => ∃ es', es = .insw p b n :: es' ∧ Runs k s es' a s'
  | .outsw p b n k, s, es, a, s' => ∃ es', es = .outsw p b n :: es' ∧ Runs k s es' a s'

theorem runs_bind {x : Prog β σ α} {g : α → Prog β σ α'} {s s' : σ} {es : List (Event β)} {a : α'} :
    Runs (x >>= g) s es a s' ↔
      ∃ es₁ es₂ b s₁, es = es₁ ++ es₂ ∧ Runs x s es₁ b s₁ ∧ Runs (g b) s₁ es₂ a s' := by
  induction x generalizing s es with
  | ret b =>
      constructor
      · exact fun h => ⟨[], es, b, s, rfl, ⟨rfl, rfl, rfl⟩, h⟩
      · rintro ⟨_, _, _, _, rfl, ⟨rfl, rfl, rfl⟩, h⟩
        exact h
  | load k ih => exact ih s
  | store f k ih => exact ih
  | inb p k ih =>
      constructor
      · rintro ⟨v, es', rfl, h⟩
        obtain ⟨es₁, es₂, b, s₁, rfl, h₁, h₂⟩ := (ih v).mp h
        exact ⟨_, es₂, b, s₁, rfl, ⟨v, es₁, rfl, h₁⟩, h₂⟩
      · rintro ⟨_, es₂, b, s₁, rfl, ⟨v, es₁, rfl, h₁⟩, h₂⟩
        exact ⟨v, _, rfl, (ih v).mpr ⟨es₁, es₂, b, s₁, rfl, h₁, h₂⟩⟩
  | outb _ _ _ ih | insw _ _ _ _ ih | outsw _ _ _ _ ih =>
      constructor
      · rintro ⟨es', rfl, h⟩
        obtain ⟨es₁, es₂, b, s₁, rfl, h₁, h₂⟩ := ih.mp h
        exact ⟨_, es₂, b, s₁, rfl, ⟨es₁, rfl, h₁⟩, h₂⟩
      · rintro ⟨_, es₂, b, s₁, rfl, ⟨es₁, rfl, h₁⟩, h₂⟩
        exact ⟨_, rfl, ih.mpr ⟨es₁, es₂, b, s₁, rfl, h₁, h₂⟩⟩

/-! ## Running a program against a device -/

/-- What the other side of the ports does with each access. -/
structure Ports (β τ : Type) where
  inb : BitVec 16 → τ → BitVec 8 × τ
  outb : BitVec 16 → BitVec 8 → τ → τ
  insw : BitVec 16 → β → BitVec 32 → τ → τ
  outsw : BitVec 16 → β → BitVec 32 → τ → τ

/-- The program run in one go. -/
def exec (P : Ports β τ) : Prog β σ α → σ → τ → α × σ × τ
  | .ret a, s, t => (a, s, t)
  | .load k, s, t => exec P (k s) s t
  | .store f k, s, t => exec P k (f s) t
  | .inb p k, s, t => exec P (k (P.inb p t).1) s (P.inb p t).2
  | .outb p v k, s, t => exec P k s (P.outb p v t)
  | .insw p b n k, s, t => exec P k s (P.insw p b n t)
  | .outsw p b n k, s, t => exec P k s (P.outsw p b n t)

/-- The device answers the accesses as they say, and goes from `t` to `t'`. -/
def Answers (P : Ports β τ) : List (Event β) → τ → τ → Prop
  | [], t, t' => t' = t
  | .inb p v :: es, t, t' => (P.inb p t).1 = v ∧ Answers P es (P.inb p t).2 t'
  | .outb p v :: es, t, t' => Answers P es (P.outb p v t) t'
  | .insw p b n :: es, t, t' => Answers P es (P.insw p b n t) t'
  | .outsw p b n :: es, t, t' => Answers P es (P.outsw p b n t) t'

theorem exec_runs (P : Ports β τ) (x : Prog β σ α) (s : σ) (t : τ) :
    ∃ es, Runs x s es (exec P x s t).1 (exec P x s t).2.1 ∧ Answers P es t (exec P x s t).2.2 := by
  induction x generalizing s t with
  | ret a => exact ⟨[], ⟨rfl, rfl, rfl⟩, rfl⟩
  | load k ih => exact ih s s t
  | store f k ih => exact ih (f s) t
  | inb p k ih =>
      obtain ⟨es, hr, ha⟩ := ih (P.inb p t).1 s (P.inb p t).2
      exact ⟨_, ⟨_, es, rfl, hr⟩, rfl, ha⟩
  | outb p v k ih =>
      obtain ⟨es, hr, ha⟩ := ih s (P.outb p v t)
      exact ⟨_, ⟨es, rfl, hr⟩, ha⟩
  | insw p b n k ih =>
      obtain ⟨es, hr, ha⟩ := ih s (P.insw p b n t)
      exact ⟨_, ⟨es, rfl, hr⟩, ha⟩
  | outsw p b n k ih =>
      obtain ⟨es, hr, ha⟩ := ih s (P.outsw p b n t)
      exact ⟨_, ⟨es, rfl, hr⟩, ha⟩

theorem exec_of_runs {P : Ports β τ} {x : Prog β σ α} {s s' : σ} {t t' : τ} {es : List (Event β)} {a : α}
    (h : Runs x s es a s') (ha : Answers P es t t') : exec P x s t = (a, s', t') := by
  induction x generalizing s t es with
  | ret b =>
      obtain ⟨rfl, rfl, rfl⟩ := h
      exact Prod.ext rfl (Prod.ext rfl ha.symm)
  | load k ih => exact ih s h ha
  | store f k ih => exact ih h ha
  | inb p k ih =>
      obtain ⟨v, es, rfl, h⟩ := h
      obtain ⟨rfl, ha⟩ := ha
      exact ih _ h ha
  | outb _ _ _ ih | insw _ _ _ _ ih | outsw _ _ _ _ ih =>
      obtain ⟨es, rfl, h⟩ := h
      exact ih h ha

theorem exec_bind (P : Ports β τ) (x : Prog β σ α) (g : α → Prog β σ α') (s : σ) (t : τ) :
    exec P (x >>= g) s t =
      exec P (g (exec P x s t).1) (exec P x s t).2.1 (exec P x s t).2.2 := by
  induction x generalizing s t with
  | ret a => rfl
  | load k ih => exact ih s s t
  | store f k ih => exact ih (f s) t
  | inb p k ih => exact ih _ s _
  | outb p v k ih => exact ih s _
  | insw p b n k ih => exact ih s _
  | outsw p b n k ih => exact ih s _

/-! ## A device that may answer anything -/

/-- The byte that each read gets, as a function of all accesses before it. -/
abbrev Answer (β : Type) := List (Event β) → BitVec 16 → BitVec 8

/-- The device keeps the list of all accesses and answers the reads from it. -/
def traced (dev : Answer β) : Ports β (List (Event β)) where
  inb p t := (dev t p, t ++ [.inb p (dev t p)])
  outb p v t := t ++ [.outb p v]
  insw p b n t := t ++ [.insw p b n]
  outsw p b n t := t ++ [.outsw p b n]

theorem Answers.traced_eq {dev : Answer β} {es t t' : List (Event β)}
    (h : Answers (traced dev) es t t') : t' = t ++ es := by
  induction es generalizing t with
  | nil => rw [List.append_nil]; exact h
  | cons e es ih =>
      cases e with
      | inb p v =>
          obtain ⟨rfl, h⟩ := h
          exact (ih h).trans (List.append_cons t _ es).symm
      | outb p v => exact (ih h).trans (List.append_cons t _ es).symm
      | insw p b n => exact (ih h).trans (List.append_cons t _ es).symm
      | outsw p b n => exact (ih h).trans (List.append_cons t _ es).symm

theorem exec_traced (dev : Answer β) (x : Prog β σ α) (s : σ) (t : List (Event β)) :
    ∃ es, Runs x s es (exec (traced dev) x s t).1 (exec (traced dev) x s t).2.1 ∧
      (exec (traced dev) x s t).2.2 = t ++ es := by
  obtain ⟨es, hr, ha⟩ := exec_runs (traced dev) x s t
  exact ⟨es, hr, ha.traced_eq⟩

/-- All accesses after `n` reads of the port in a row. -/
def readings (dev : Answer β) (port : BitVec 16) (t : List (Event β)) : Nat → List (Event β)
  | 0 => t
  | n + 1 => readings dev port t n ++ [.inb port (dev (readings dev port t n) port)]

/-- What the read after `n` reads of the port in a row gets. -/
def reading (dev : Answer β) (port : BitVec 16) (t : List (Event β)) (n : Nat) : BitVec 8 :=
  dev (readings dev port t n) port

theorem readings_succ (dev : Answer β) (port : BitVec 16) (t : List (Event β)) (n : Nat) :
    readings dev port t (n + 1) = readings dev port (t ++ [.inb port (dev t port)]) n := by
  induction n with
  | zero => rfl
  | succ n ih => rw [readings, ih, readings]

theorem reading_succ (dev : Answer β) (port : BitVec 16) (t : List (Event β)) (n : Nat) :
    reading dev port t (n + 1) = reading dev port (t ++ [.inb port (dev t port)]) n :=
  congrArg (dev · port) (readings_succ dev port t n)

/-- Reading a port again and again only adds reads of this port. -/
theorem exists_readings_eq_append (dev : Answer β) (port : BitVec 16) (t : List (Event β)) (n : Nat) :
    ∃ es, readings dev port t n = t ++ es ∧ ∀ e ∈ es, ∃ k < n, e = .inb port (reading dev port t k) := by
  induction n with
  | zero => exact ⟨[], (List.append_nil t).symm, by simp⟩
  | succ n ih =>
      obtain ⟨es, heq, hes⟩ := ih
      refine ⟨es ++ [.inb port (reading dev port t n)], ?_, fun e he => ?_⟩
      · rw [readings, heq, List.append_assoc, reading, heq]
      · rcases List.mem_append.mp he with he | he
        · obtain ⟨k, hk, he⟩ := hes e he
          exact ⟨k, Nat.lt_succ_of_lt hk, he⟩
        · exact ⟨n, Nat.lt_succ_self n, List.mem_singleton.mp he⟩

/-! ## What comes before each access -/

/-- Every access of the list fits what comes before it. -/
def Guarded (G : List (Event β) → Event β → Prop) (es : List (Event β)) : Prop :=
  ∀ pre e post, es = pre ++ e :: post → G pre e

variable {G : List (Event β) → Event β → Prop} {es es' : List (Event β)}

theorem Guarded.of_forall (h : ∀ e ∈ es, ∀ pre, G pre e) : Guarded G es := by
  rintro pre e post rfl
  exact h e (by simp) pre

theorem Guarded.append_of (h : Guarded G es)
    (h' : ∀ pre e post, es' = pre ++ e :: post → G (es ++ pre) e) : Guarded G (es ++ es') := by
  intro pre e post heq
  obtain ⟨r, rfl, hr⟩ | ⟨r, rfl, hr⟩ := List.append_eq_append_iff.mp heq
  · exact h' r e post hr
  · cases r with
    | nil => simpa using h' [] e post hr.symm
    | cons e' r =>
        obtain ⟨rfl, rfl⟩ := List.cons.inj hr
        exact h pre e r rfl

theorem Guarded.append (hG : ∀ p pre e, G pre e → G (p ++ pre) e) (h : Guarded G es)
    (h' : Guarded G es') : Guarded G (es ++ es') :=
  h.append_of fun pre e post heq => hG es pre e (h' pre e post heq)

theorem Guarded.concat {e : Event β} (h : Guarded G es) (he : G es e) : Guarded G (es ++ [e]) := by
  refine h.append_of fun pre e' post heq => ?_
  obtain ⟨rfl, heq⟩ | ⟨r, rfl, heq⟩ := List.cons_eq_append_iff.mp heq
  · obtain ⟨rfl, -⟩ := List.cons.inj heq
    rwa [List.append_nil]
  · simp at heq

theorem Guarded.of_append (h : Guarded G (es ++ es')) : Guarded G es := by
  rintro pre e post rfl
  exact h pre e (post ++ es') (by simp)

theorem guarded_concat {e : Event β} : Guarded G (es ++ [e]) ↔ Guarded G es ∧ G es e :=
  ⟨fun h => ⟨h.of_append, h es e [] rfl⟩, fun h => h.1.concat h.2⟩

end PortProgram
