import BootKernel.Lib.PortProgram

/-!
# Machines whose ports reach their memory

A program whose state is a whole machine: its stores change the memory, and its accesses to the ports
change what is behind the ports, which may move words to and from the memory. A program that keeps no
state is run on any machine, and what it does to the machine is what its accesses do.
-/

namespace PortProgram

variable {β σ α α' : Type}

/-- What a read gets, and what an access does to the machine. -/
structure Board (β σ : Type) where
  answer : BitVec 16 → σ → BitVec 8
  effect : Event β → σ → σ

/-- A program without a state, as a program on a machine. -/
def Prog.lift : Prog β Unit α → Prog β σ α
  | .ret a => .ret a
  | .load k => (k ()).lift
  | .store _ k => k.lift
  | .inb p k => .inb p fun v => (k v).lift
  | .outb p v k => .outb p v k.lift
  | .insw p b n k => .insw p b n k.lift
  | .outsw p b n k => .outsw p b n k.lift

theorem Prog.lift_bind (x : Prog β Unit α) (g : α → Prog β Unit α') :
    (x >>= g).lift = (x.lift >>= fun a => (g a).lift : Prog β σ α') := by
  induction x with
  | ret a => rfl
  | load k ih => exact ih ()
  | store f k ih => exact ih
  | inb p k ih => exact congrArg _ (funext ih)
  | outb _ _ _ ih | insw _ _ _ _ ih | outsw _ _ _ _ ih => exact congrArg _ ih

namespace Board

variable (B : Board β σ)

def run : Prog β σ α → σ → α × σ
  | .ret a, s => (a, s)
  | .load k, s => run (k s) s
  | .store f k, s => run k (f s)
  | .inb p k, s => run (k (B.answer p s)) (B.effect (.inb p (B.answer p s)) s)
  | .outb p v k, s => run k (B.effect (.outb p v) s)
  | .insw p b n k, s => run k (B.effect (.insw p b n) s)
  | .outsw p b n k, s => run k (B.effect (.outsw p b n) s)

/-- What a list of accesses does. -/
def effects (es : List (Event β)) (s : σ) : σ := es.foldl (fun s e => B.effect e s) s

theorem run_store (f : σ → σ) (g : Unit → Prog β σ α) (s : σ) :
    B.run (store f >>= g) s = B.run (g ()) (f s) := rfl

theorem run_bind (x : Prog β σ α) (g : α → Prog β σ α') (s : σ) :
    B.run (x >>= g) s = B.run (g (B.run x s).1) (B.run x s).2 := by
  induction x generalizing s with
  | ret a => rfl
  | load k ih => exact ih s s
  | store f k ih => exact ih (f s)
  | inb p k ih => exact ih _ _
  | outb _ _ _ ih | insw _ _ _ _ ih | outsw _ _ _ _ ih => exact ih _

theorem run_lift (x : Prog β Unit α) (s : σ) :
    ∃ es, Runs x () es (B.run x.lift s).1 () ∧ (B.run x.lift s).2 = B.effects es s := by
  induction x generalizing s with
  | ret a => exact ⟨[], ⟨rfl, rfl, rfl⟩, rfl⟩
  | load k ih => exact ih () s
  | store f k ih => exact ih s
  | inb p k ih =>
      obtain ⟨es, hr, he⟩ := ih (B.answer p s) (B.effect (.inb p (B.answer p s)) s)
      exact ⟨_, ⟨_, es, rfl, hr⟩, he⟩
  | outb p v k ih =>
      obtain ⟨es, hr, he⟩ := ih (B.effect (.outb p v) s)
      exact ⟨_, ⟨es, rfl, hr⟩, he⟩
  | insw p b n k ih =>
      obtain ⟨es, hr, he⟩ := ih (B.effect (.insw p b n) s)
      exact ⟨_, ⟨es, rfl, hr⟩, he⟩
  | outsw p b n k ih =>
      obtain ⟨es, hr, he⟩ := ih (B.effect (.outsw p b n) s)
      exact ⟨_, ⟨es, rfl, hr⟩, he⟩

end Board

end PortProgram
