import BootKernel.Lib.PortProgram
import Mathlib.Logic.Relation

/-!
# Programs that an interrupt handler interrupts

A system runs calls, one after the other and one operation at a time, and between any two operations
an interrupt handler may run in one go. A record of the history, which the run does not depend on, is
kept beside the state. `Safe` says that what is left of a call keeps an invariant at every point,
whatever interrupts come; its rules take assertions that the interrupts do not disturb.
-/

namespace PortProgram

variable {β σ γ κ : Type}

structure System (β σ γ κ : Type) where
  call : κ → Prog β σ Unit
  handler : Prog β σ Unit
  /-- How the record grows with an access to the ports, with a store, and with an interrupt. -/
  onPort : Event β → σ → γ → γ
  onStore : σ → σ → γ → γ
  onInterrupt : σ → σ → γ → γ

/-- The point between two operations: what is left of the call, the state and the record. -/
structure Paused (β σ γ : Type) where
  rest : Prog β σ Unit
  state : σ
  record : γ

abbrev Paused.point (p : Paused β σ γ) : σ × γ := (p.state, p.record)

def Prog.done : Prog β σ Unit → Bool
  | .ret _ => true
  | _ => false

/-- The device answers every read with the same byte. -/
def answering (v : BitVec 8) : Ports β Unit where
  inb _ t := (v, t)
  outb _ _ t := t
  insw _ _ _ t := t
  outsw _ _ _ t := t

inductive Move (κ : Type) where
  | call (k : κ)
  | step (v : BitVec 8)
  | interrupt (v : BitVec 8)

namespace System

variable (M : System β σ γ κ)

/-- The state and the record after a run of the handler that reads `v`. -/
def hit (v : BitVec 8) (x : σ × γ) : σ × γ :=
  let s := (exec (answering v) M.handler x.1 ()).2.1
  (s, M.onInterrupt x.1 s x.2)

/-- The next operation of the call, where a read gets `v`. -/
def advance (v : BitVec 8) (p : Paused β σ γ) : Paused β σ γ :=
  match p.rest with
  | .ret _ => p
  | .load k => { p with rest := k p.state }
  | .store f k => ⟨k, f p.state, M.onStore p.state (f p.state) p.record⟩
  | .inb port k => ⟨k v, p.state, M.onPort (.inb port v) p.state p.record⟩
  | .outb port b k => ⟨k, p.state, M.onPort (.outb port b) p.state p.record⟩
  | .insw port b n k => ⟨k, p.state, M.onPort (.insw port b n) p.state p.record⟩
  | .outsw port b n k => ⟨k, p.state, M.onPort (.outsw port b n) p.state p.record⟩

/-- A call starts only when none is running. -/
def move (p : Paused β σ γ) : Move κ → Paused β σ γ
  | .call k => if p.rest.done then { p with rest := M.call k } else p
  | .step v => M.advance v p
  | .interrupt v => ⟨p.rest, (M.hit v p.point).1, (M.hit v p.point).2⟩

def moves (p : Paused β σ γ) (ms : List (Move κ)) : Paused β σ γ := ms.foldl M.move p

/-- Every interrupt of the run comes at a point where `ok` allows it. The first argument of `ok` says
whether no call is running. -/
def Respects (ok : Bool → σ × γ → BitVec 8 → Prop) : Paused β σ γ → List (Move κ) → Prop
  | _, [] => True
  | p, .interrupt v :: ms =>
      ok p.rest.done p.point v ∧ Respects ok (M.move p (.interrupt v)) ms
  | p, .call k :: ms => Respects ok (M.move p (.call k)) ms
  | p, .step v :: ms => Respects ok (M.move p (.step v)) ms

instance Respects.decidable {ok : Bool → σ × γ → BitVec 8 → Prop} [∀ d x v, Decidable (ok d x v)] :
    (p : Paused β σ γ) → (ms : List (Move κ)) → Decidable (M.Respects ok p ms)
  | _, [] => isTrue trivial
  | p, .interrupt v :: ms =>
      have : Decidable (M.Respects ok (M.move p (.interrupt v)) ms) := Respects.decidable _ ms
      inferInstanceAs (Decidable (_ ∧ _))
  | p, .call k :: ms => Respects.decidable (M.move p (.call k)) ms
  | p, .step v :: ms => Respects.decidable (M.move p (.step v)) ms

/-- An allowed interrupt. -/
def Interrupted (ok : Bool → σ × γ → BitVec 8 → Prop) (done : Bool) (x y : σ × γ) : Prop :=
  ∃ v, ok done x v ∧ y = M.hit v x

end System

/-! ## Assertions -/

/-- An assertion that the steps of a relation do not disturb. -/
def Stable {τ : Type} (R : τ → τ → Prop) (A : τ → Prop) : Prop := ∀ x y, R x y → A x → A y

theorem Stable.closure {τ : Type} {R : τ → τ → Prop} {A : τ → Prop} (h : Stable R A) {x y : τ}
    (hr : Relation.ReflTransGen R x y) (hx : A x) : A y := by
  induction hr with
  | refl => exact hx
  | tail _ hstep ih => exact h _ _ hstep ih

theorem Stable.and {τ : Type} {R : τ → τ → Prop} {A B : τ → Prop} (hA : Stable R A)
    (hB : Stable R B) : Stable R fun x => A x ∧ B x :=
  fun x y hr hx => ⟨hA x y hr hx.1, hB x y hr hx.2⟩

section

variable (M : System β σ γ κ) (I : σ × γ → σ × γ → Prop) (Inv Q : σ × γ → Prop)

/-- Whatever interrupts come before each operation, `Inv` holds there, and `Q` at the end. -/
def Safe : Prog β σ Unit → σ × γ → Prop
  | .ret _, x => Q x
  | .load k, x => ∀ y, Relation.ReflTransGen I x y → Inv y ∧ Safe (k y.1) y
  | .store f k, x => ∀ y, Relation.ReflTransGen I x y →
      Inv y ∧ Safe k (f y.1, M.onStore y.1 (f y.1) y.2)
  | .inb port k, x => ∀ y, Relation.ReflTransGen I x y →
      Inv y ∧ ∀ v, Safe (k v) (y.1, M.onPort (.inb port v) y.1 y.2)
  | .outb port b k, x => ∀ y, Relation.ReflTransGen I x y →
      Inv y ∧ Safe k (y.1, M.onPort (.outb port b) y.1 y.2)
  | .insw port b n k, x => ∀ y, Relation.ReflTransGen I x y →
      Inv y ∧ Safe k (y.1, M.onPort (.insw port b n) y.1 y.2)
  | .outsw port b n k, x => ∀ y, Relation.ReflTransGen I x y →
      Inv y ∧ Safe k (y.1, M.onPort (.outsw port b n) y.1 y.2)

/-- Every store of the program satisfies `P`, and every access to the ports satisfies `R`. -/
def Only {α : Type} (P : (σ → σ) → Prop) (R : Event β → Prop) : Prog β σ α → Prop
  | .ret _ => True
  | .load k => ∀ s, Only P R (k s)
  | .store f k => P f ∧ Only P R k
  | .inb port k => ∀ v, R (.inb port v) ∧ Only P R (k v)
  | .outb port b k => R (.outb port b) ∧ Only P R k
  | .insw port b n k => R (.insw port b n) ∧ Only P R k
  | .outsw port b n k => R (.outsw port b n) ∧ Only P R k

/-- Every operation of the program keeps the assertion. -/
def Keeps {α : Type} (A : σ × γ → Prop) : Prog β σ α → Prop
  | .ret _ => True
  | .load k => ∀ s, Keeps A (k s)
  | .store f k => (∀ y, A y → A (f y.1, M.onStore y.1 (f y.1) y.2)) ∧ Keeps A k
  | .inb port k => ∀ v, (∀ y, A y → A (y.1, M.onPort (.inb port v) y.1 y.2)) ∧ Keeps A (k v)
  | .outb port b k => (∀ y, A y → A (y.1, M.onPort (.outb port b) y.1 y.2)) ∧ Keeps A k
  | .insw port b n k => (∀ y, A y → A (y.1, M.onPort (.insw port b n) y.1 y.2)) ∧ Keeps A k
  | .outsw port b n k => (∀ y, A y → A (y.1, M.onPort (.outsw port b n) y.1 y.2)) ∧ Keeps A k

end

section

variable {M : System β σ γ κ} {I : σ × γ → σ × γ → Prop} {Inv Q A : σ × γ → Prop}
  {p : Prog β σ Unit} {x y : σ × γ}

/-! ## Rules -/

theorem Safe.of_load {k : σ → Prog β σ Unit} (hA : Stable I A) (hx : A x)
    (h : ∀ y, A y → Inv y ∧ Safe M I Inv Q (k y.1) y) : Safe M I Inv Q (.load k) x :=
  fun y hr => h y (hA.closure hr hx)

theorem Safe.of_store {f : σ → σ} {k : Prog β σ Unit} (hA : Stable I A) (hx : A x)
    (h : ∀ y, A y → Inv y ∧ Safe M I Inv Q k (f y.1, M.onStore y.1 (f y.1) y.2)) :
    Safe M I Inv Q (.store f k) x :=
  fun y hr => h y (hA.closure hr hx)

theorem Safe.of_inb {port : BitVec 16} {k : BitVec 8 → Prog β σ Unit} (hA : Stable I A) (hx : A x)
    (h : ∀ y, A y → Inv y ∧ ∀ v, Safe M I Inv Q (k v) (y.1, M.onPort (.inb port v) y.1 y.2)) :
    Safe M I Inv Q (.inb port k) x :=
  fun y hr => h y (hA.closure hr hx)

theorem Safe.of_outb {port : BitVec 16} {b : BitVec 8} {k : Prog β σ Unit} (hA : Stable I A)
    (hx : A x)
    (h : ∀ y, A y → Inv y ∧ Safe M I Inv Q k (y.1, M.onPort (.outb port b) y.1 y.2)) :
    Safe M I Inv Q (.outb port b k) x :=
  fun y hr => h y (hA.closure hr hx)

theorem Only.ite {α : Type} {P : (σ → σ) → Prop} {R : Event β → Prop} {c : Prop} [Decidable c]
    {p q : Prog β σ α} (hp : Only P R p) (hq : Only P R q) : Only P R (if c then p else q) := by
  split
  · exact hp
  · exact hq

theorem Only.bind {α α' : Type} {P : (σ → σ) → Prop} {R : Event β → Prop} {p : Prog β σ α}
    {k : α → Prog β σ α'} (hp : Only P R p) (hk : ∀ a, Only P R (k a)) : Only P R (p >>= k) := by
  induction p with
  | ret a => exact hk a
  | load k ih => exact fun s => ih s (hp s)
  | store f k ih => exact ⟨hp.1, ih hp.2⟩
  | inb port k ih => exact fun v => ⟨(hp v).1, ih v (hp v).2⟩
  | outb _ _ _ ih | insw _ _ _ _ ih | outsw _ _ _ _ ih => exact ⟨hp.1, ih hp.2⟩

theorem Only.mono {α : Type} {P P' : (σ → σ) → Prop} {R R' : Event β → Prop} {p : Prog β σ α}
    (h : Only P R p) (hP : ∀ f, P f → P' f) (hR : ∀ e, R e → R' e) : Only P' R' p := by
  induction p with
  | ret a => trivial
  | load k ih => exact fun s => ih s (h s)
  | store f k ih => exact ⟨hP f h.1, ih h.2⟩
  | inb port k ih => exact fun v => ⟨hR _ (h v).1, ih v (h v).2⟩
  | outb _ _ _ ih | insw _ _ _ _ ih | outsw _ _ _ _ ih => exact ⟨hR _ h.1, ih h.2⟩

theorem Only.runs {α : Type} {P : (σ → σ) → Prop} {R : Event β → Prop} {p : Prog β σ α} {s s' : σ}
    {es : List (Event β)} {a : α} (h : Only P R p) (hr : Runs p s es a s') : ∀ e ∈ es, R e := by
  induction p generalizing s es with
  | ret b =>
      obtain ⟨rfl, -, -⟩ := hr
      exact fun e he => nomatch he
  | load k ih => exact ih s (h s) hr
  | store f k ih => exact ih h.2 hr
  | inb port k ih =>
      obtain ⟨v, es', rfl, hr⟩ := hr
      intro e he
      cases he with
      | head => exact (h v).1
      | tail _ he => exact ih v (h v).2 hr e he
  | outb _ _ _ ih | insw _ _ _ _ ih | outsw _ _ _ _ ih =>
      obtain ⟨es', rfl, hr⟩ := hr
      intro e he
      cases he with
      | head => exact h.1
      | tail _ he => exact ih h.2 hr e he

theorem Only.keeps {α : Type} {P : (σ → σ) → Prop} {R : Event β → Prop} {p : Prog β σ α}
    (h : Only P R p)
    (hstore : ∀ f, P f → ∀ y, A y → A (f y.1, M.onStore y.1 (f y.1) y.2))
    (hport : ∀ e, R e → ∀ y, A y → A (y.1, M.onPort e y.1 y.2)) : Keeps M A p := by
  induction p with
  | ret a => trivial
  | load k ih => exact fun s => ih s (h s)
  | store f k ih => exact ⟨hstore f h.1, ih h.2⟩
  | inb port k ih => exact fun v => ⟨hport _ (h v).1, ih v (h v).2⟩
  | outb _ _ _ ih | insw _ _ _ _ ih | outsw _ _ _ _ ih => exact ⟨hport _ h.1, ih h.2⟩

/-- A program whose operations all keep a stable assertion can be followed by any program that is
safe from there. -/
theorem Keeps.safe_bind {α : Type} {p : Prog β σ α} {k : α → Prog β σ Unit} (h : Keeps M A p)
    (hA : Stable I A) (hInv : ∀ y, A y → Inv y) (hk : ∀ a y, A y → Safe M I Inv Q (k a) y)
    (hx : A x) : Safe M I Inv Q (p >>= k) x := by
  induction p generalizing x with
  | ret a => exact hk a x hx
  | load k ih =>
      exact Safe.of_load hA hx fun y hy => ⟨hInv y hy, ih y.1 (h y.1) hy⟩
  | store f k ih =>
      exact Safe.of_store hA hx fun y hy => ⟨hInv y hy, ih h.2 (h.1 y hy)⟩
  | inb port k ih =>
      exact Safe.of_inb hA hx fun y hy => ⟨hInv y hy, fun v => ih v (h v).2 ((h v).1 y hy)⟩
  | outb port b k ih =>
      exact Safe.of_outb hA hx fun y hy => ⟨hInv y hy, ih h.2 (h.1 y hy)⟩
  | insw port b n k ih | outsw port b n k ih =>
      intro y hr
      have hy := hA.closure hr hx
      exact ⟨hInv y hy, ih h.2 (h.1 y hy)⟩

theorem Keeps.safe (h : Keeps M A p) (hA : Stable I A) (hInv : ∀ y, A y → Inv y)
    (hQ : ∀ y, A y → Q y) (hx : A x) : Safe M I Inv Q p x := by
  have hp := h.safe_bind (k := .ret) hA hInv (fun _ => hQ) hx
  rwa [bind_ret] at hp

/-! ## Runs -/

theorem Safe.interfere (h : Safe M I Inv Q p x) (hp : p.done = false)
    (hr : Relation.ReflTransGen I x y) : Safe M I Inv Q p y := by
  cases p with
  | ret a => cases hp
  | load k => exact fun z hz => h z (hr.trans hz)
  | store f k => exact fun z hz => h z (hr.trans hz)
  | inb port k => exact fun z hz => h z (hr.trans hz)
  | outb port b k => exact fun z hz => h z (hr.trans hz)
  | insw port b n k => exact fun z hz => h z (hr.trans hz)
  | outsw port b n k => exact fun z hz => h z (hr.trans hz)

theorem Safe.inv (h : Safe M I Inv Q p x) (hQ : ∀ y, Q y → Inv y) : Inv x := by
  cases p with
  | ret a => exact hQ x h
  | load k => exact (h x .refl).1
  | store f k => exact (h x .refl).1
  | inb port k => exact (h x .refl).1
  | outb port b k => exact (h x .refl).1
  | insw port b n k => exact (h x .refl).1
  | outsw port b n k => exact (h x .refl).1

theorem Safe.advance {p : Paused β σ γ} (h : Safe M I Inv Q p.rest p.point) (v : BitVec 8) :
    Safe M I Inv Q (M.advance v p).rest (M.advance v p).point := by
  obtain ⟨rest, s, g⟩ := p
  cases rest with
  | ret a => exact h
  | load k => exact (h (s, g) .refl).2
  | store f k => exact (h (s, g) .refl).2
  | inb port k => exact (h (s, g) .refl).2 v
  | outb port b k => exact (h (s, g) .refl).2
  | insw port b n k => exact (h (s, g) .refl).2
  | outsw port b n k => exact (h (s, g) .refl).2

/-- If every call is safe from where calls end, then at every point of every run whose interrupts are
allowed what is left of the call is safe. -/
theorem System.moves_rest_safe {ok : Bool → σ × γ → BitVec 8 → Prop}
    (hcall : ∀ k x, Q x → Safe M (M.Interrupted ok false) Inv Q (M.call k) x)
    (hidle : Stable (M.Interrupted ok true) Q) {p : Paused β σ γ}
    (h : Safe M (M.Interrupted ok false) Inv Q p.rest p.point) {ms : List (Move κ)}
    (hms : M.Respects ok p ms) :
    Safe M (M.Interrupted ok false) Inv Q (M.moves p ms).rest (M.moves p ms).point := by
  induction ms generalizing p with
  | nil => exact h
  | cons m ms ih =>
      cases m with
      | step v => exact ih (h.advance v) hms
      | call k =>
          refine ih ?_ hms
          cases hd : p.rest.done with
          | false => simpa [System.move, hd] using h
          | true =>
              have hq : Q p.point := by
                cases hp : p.rest with
                | ret a => rw [hp] at h; exact h
                | _ => rw [hp] at hd; cases hd
              simpa [System.move, hd] using hcall k _ hq
      | interrupt v =>
          obtain ⟨hv, hrest⟩ := hms
          refine ih ?_ hrest
          cases hp : p.rest with
          | ret a =>
              rw [hp] at h hv
              simpa only [System.move, hp, Safe] using hidle _ _ ⟨v, hv, rfl⟩ h
          | _ =>
              rw [hp] at h hv
              simpa only [System.move, hp] using h.interfere rfl (.single ⟨v, hv, rfl⟩)

/-- Then the invariant holds there too. -/
theorem System.moves_safe {ok : Bool → σ × γ → BitVec 8 → Prop}
    (hcall : ∀ k x, Q x → Safe M (M.Interrupted ok false) Inv Q (M.call k) x)
    (hidle : Stable (M.Interrupted ok true) Q) (hQ : ∀ x, Q x → Inv x) {p : Paused β σ γ}
    (h : Safe M (M.Interrupted ok false) Inv Q p.rest p.point) {ms : List (Move κ)}
    (hms : M.Respects ok p ms) : Inv (M.moves p ms).point :=
  (M.moves_rest_safe hcall hidle h hms).inv hQ

/-- Between two calls `Q` holds. -/
theorem Safe.of_done (h : Safe M I Inv Q p x) (hp : p.done = true) : Q x := by
  cases p with
  | ret a => exact h
  | _ => cases hp

theorem System.respects_of_forall {ok : Bool → σ × γ → BitVec 8 → Prop} (hok : ∀ d x v, ok d x v)
    (p : Paused β σ γ) (ms : List (Move κ)) : M.Respects ok p ms := by
  induction ms generalizing p with
  | nil => trivial
  | cons m ms ih =>
      cases m with
      | interrupt v => exact ⟨hok _ _ _, ih _⟩
      | call k => exact ih _
      | step v => exact ih _

/-- A program run in one go is a run operation by operation that no interrupt disturbs. -/
theorem System.moves_of_runs (M : System β σ γ κ) {s s' : σ} {es : List (Event β)} {u : Unit}
    (h : Runs p s es u s') (g : γ) :
    ∃ (vs : List (BitVec 8)) (g' : γ),
      M.moves ⟨p, s, g⟩ (vs.map Move.step) = ⟨.ret u, s', g'⟩ := by
  induction p generalizing s es g with
  | ret a =>
      obtain ⟨-, rfl, rfl⟩ := h
      exact ⟨[], g, rfl⟩
  | load k ih =>
      obtain ⟨vs, g', hvs⟩ := ih s h g
      exact ⟨0 :: vs, g', hvs⟩
  | store f k ih =>
      obtain ⟨vs, g', hvs⟩ := ih h (M.onStore s (f s) g)
      exact ⟨0 :: vs, g', hvs⟩
  | inb port k ih =>
      obtain ⟨v, es', -, h⟩ := h
      obtain ⟨vs, g', hvs⟩ := ih v h (M.onPort (.inb port v) s g)
      exact ⟨v :: vs, g', hvs⟩
  | outb port b k ih =>
      obtain ⟨es', -, h⟩ := h
      obtain ⟨vs, g', hvs⟩ := ih h (M.onPort (.outb port b) s g)
      exact ⟨0 :: vs, g', hvs⟩
  | insw port b n k ih =>
      obtain ⟨es', -, h⟩ := h
      obtain ⟨vs, g', hvs⟩ := ih h (M.onPort (.insw port b n) s g)
      exact ⟨0 :: vs, g', hvs⟩
  | outsw port b n k ih =>
      obtain ⟨es', -, h⟩ := h
      obtain ⟨vs, g', hvs⟩ := ih h (M.onPort (.outsw port b n) s g)
      exact ⟨0 :: vs, g', hvs⟩

end

end PortProgram
