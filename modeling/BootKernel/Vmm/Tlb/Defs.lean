import BootKernel.Lib.CachedWalk
import BootKernel.Vmm.Ownership

/-!
# The paging calls beside a TLB

The calls once more, cut into the steps between which the processor may fill the TLB or drop an entry of
it. A step carries the event that it leaves in the trace, and without the TLB the programs compute the
functions of `Vmm/Defs`.
-/

namespace BootKernel

open CachedWalk

/-! ## Steps -/

/-- The paging code as a program on the machine. -/
abbrev Paging := Prog Machine Event

namespace Paging

def load64 (w : Window) (ptr : BitVec 64) : Paging (BitVec 64) :=
  .op (fun _ => .load (w.phys ptr)) fun m => m.load64 w ptr

def store64 (w : Window) (ptr v : BitVec 64) : Paging Unit :=
  .op (fun _ => .store (w.phys ptr)) fun m => ((), m.store64 w ptr v)

def store8 (w : Window) (ptr : BitVec 64) (v : BitVec 8) : Paging Unit :=
  .op (fun _ => .store (w.phys ptr)) fun m => ((), m.store8 w ptr v)

def follow (entry : BitVec 64) : Paging Unit :=
  .op (fun _ => .follow entry) fun m => ((), m.emit (.follow entry))

def frameAlloc : Paging (BitVec 64) :=
  .op (fun m => .alloc m.frameAlloc.1) Machine.frameAlloc

def frameFree (frameIdx : BitVec 64) : Paging Unit :=
  .op (fun _ => .free frameIdx) fun m => ((), m.frameFree frameIdx)

def invlpg (vaddr : BitVec 64) : Paging Unit :=
  .op (fun _ => .invlpg vaddr) fun m => ((), BootKernel.invlpg vaddr m)

def zero (w : Window) (addr amountBytes : BitVec 64) : Paging Unit :=
  (List.range' 0 amountBytes.toNat).forM fun i => store8 w (addr + BitVec.ofNat 64 i) 0

def vmmPml4Get : Paging (BitVec 64) := .get fun m => .ret (BootKernel.vmmPml4Get m)

/-! ## The functions -/

def vmmPteGetLoop (create : Bool) (vaddr : BitVec 64) :
    List Nat → BitVec 64 → Paging (Option (BitVec 64))
  | [], currentTablePhys => pure (some currentTablePhys)
  | shift :: shifts, currentTablePhys => do
      let idx := (vaddr >>> shift) &&& 0x1FF
      let tableVirt := vmmPhysToVirt currentTablePhys
      let entry ← load64 .hhdm (entryPtr tableVirt idx)
      if entry &&& pagePresent = 0 then
        if !create then pure none else
        let newFrame ← frameAlloc
        if newFrame = pmmInvalidFrame then pure none else
        zero .hhdm (vmmPhysToVirt newFrame) 4096
        let entry := newFrame ||| pagePresent ||| pageWritable
        store64 .hhdm (entryPtr tableVirt idx) entry
        follow entry
        vmmPteGetLoop create vaddr shifts (entry &&& pageAddrMask)
      else
        follow entry
        vmmPteGetLoop create vaddr shifts (entry &&& pageAddrMask)

def vmmPteGet (pml4Phys vaddr : BitVec 64) (create : Bool) : Paging (BitVec 64) := do
  match ← vmmPteGetLoop create vaddr (levelsShift.take 3) pml4Phys with
  | none => pure 0
  | some currentTablePhys =>
      let ptIdx := (vaddr >>> 12) &&& 0x1FF
      pure (entryPtr (vmmPhysToVirt currentTablePhys) ptIdx)

def vmmPageMap (pml4Phys vaddr paddr flags : BitVec 64) : Paging Bool := do
  let pte ← vmmPteGet pml4Phys vaddr true
  if pte = 0 then pure false else
  store64 .hhdm pte ((paddr &&& pageAddrMask) ||| flags ||| pagePresent)
  invlpg vaddr
  pure true

def vmmPageUnmap (pml4Phys vaddr : BitVec 64) (outPaddr : Option (BitVec 64)) :
    Paging (Bool × Option (BitVec 64)) := do
  let pte ← vmmPteGet pml4Phys vaddr false
  if pte = 0 then pure (false, outPaddr) else
  let outPaddr ←
    match outPaddr with
    | some _ => do
        let entry ← load64 .hhdm pte
        pure (some (entry &&& pageAddrMask))
    | none => pure none
  store64 .hhdm pte 0
  invlpg vaddr
  pure (true, outPaddr)

def vmmPageAlloc (vaddr flags : BitVec 64) : Paging (BitVec 64) := do
  let pageFrame ← frameAlloc
  if pageFrame = pmmInvalidFrame then pure 0 else
  let pml4Phys ← vmmPml4Get
  let success ← vmmPageMap pml4Phys vaddr pageFrame flags
  if !success then pure 0 else
  pure vaddr

def vmmPageFree (vaddr _flags : BitVec 64) : Paging Unit := do
  let pml4Phys ← vmmPml4Get
  match ← vmmPageUnmap pml4Phys vaddr (some 0) with
  | (true, some addrPhys) => frameFree (addrPhys >>> pageShift)
  | _ => pure ()

/-- The program of a call. -/
def call : VmmCall → Paging Unit
  | .pageMap vaddr paddr flags => do
      let pml4Phys ← vmmPml4Get
      let _ ← vmmPageMap pml4Phys vaddr paddr flags
      pure ()
  | .pageUnmap vaddr wantsPaddr => do
      let pml4Phys ← vmmPml4Get
      let _ ← vmmPageUnmap pml4Phys vaddr (if wantsPaddr then some 0 else none)
      pure ()
  | .pageAlloc vaddr flags => do
      let _ ← vmmPageAlloc vaddr flags
      pure ()
  | .pageFree vaddr flags => vmmPageFree vaddr flags

/-! ## What the programs compute -/

section
variable {m : Machine}

@[simp] theorem load64_run (w : Window) (ptr : BitVec 64) : (load64 w ptr).run m = m.load64 w ptr := rfl

@[simp] theorem store64_run (w : Window) (ptr v : BitVec 64) :
    (store64 w ptr v).run m = ((), m.store64 w ptr v) := rfl

@[simp] theorem follow_run (entry : BitVec 64) : (follow entry).run m = ((), m.emit (.follow entry)) := rfl

@[simp] theorem frameAlloc_run : frameAlloc.run m = m.frameAlloc := rfl

@[simp] theorem frameFree_run (frameIdx : BitVec 64) :
    (frameFree frameIdx).run m = ((), m.frameFree frameIdx) := rfl

@[simp] theorem invlpg_run (vaddr : BitVec 64) : (invlpg vaddr).run m = ((), BootKernel.invlpg vaddr m) := rfl

@[simp] theorem vmmPml4Get_run : vmmPml4Get.run m = (BootKernel.vmmPml4Get m, m) := rfl

@[simp] theorem zero_run (w : Window) (addr amountBytes : BitVec 64) :
    (zero w addr amountBytes).run m = ((), BootKernel.zero w addr amountBytes m) := by
  rw [zero, Prog.run_forM]
  rfl

@[simp] theorem vmmPteGetLoop_run (create : Bool) (vaddr : BitVec 64) (shifts : List Nat) (table : BitVec 64) :
    (vmmPteGetLoop create vaddr shifts table).run m = BootKernel.vmmPteGetLoop create vaddr shifts table m := by
  induction shifts generalizing table m with
  | nil => rfl
  | cons shift shifts ih =>
      simp only [vmmPteGetLoop, BootKernel.vmmPteGetLoop, Prog.run_bind, load64_run]
      by_cases hpres : (m.load64 .hhdm (entryPtr (vmmPhysToVirt table) ((vaddr >>> shift) &&& 0x1FF))).1 &&&
          pagePresent = 0
      · cases create with
        | false =>
            simp only [hpres, ↓reduceIte, Bool.not_false]
            rfl
        | true =>
            simp only [hpres, ↓reduceIte, Bool.not_true, Bool.false_eq_true, Prog.run_bind, frameAlloc_run]
            generalize (m.load64 .hhdm (entryPtr (vmmPhysToVirt table) ((vaddr >>> shift) &&& 0x1FF))).2 = m₁
            by_cases hfail : m₁.frameAlloc.1 = pmmInvalidFrame
            · simp only [hfail, ↓reduceIte]
              rfl
            · simp only [hfail, ↓reduceIte, Prog.run_bind, zero_run, store64_run, follow_run, ih]
      · simp only [hpres, ↓reduceIte, Prog.run_bind, follow_run, ih]

@[simp] theorem vmmPteGet_run (pml4Phys vaddr : BitVec 64) (create : Bool) :
    (vmmPteGet pml4Phys vaddr create).run m = BootKernel.vmmPteGet pml4Phys vaddr create m := by
  rw [vmmPteGet, BootKernel.vmmPteGet, Prog.run_bind, vmmPteGetLoop_run]
  rcases BootKernel.vmmPteGetLoop create vaddr (levelsShift.take 3) pml4Phys m with ⟨_ | table, m'⟩ <;> rfl

@[simp] theorem vmmPageMap_run (pml4Phys vaddr paddr flags : BitVec 64) :
    (vmmPageMap pml4Phys vaddr paddr flags).run m = BootKernel.vmmPageMap pml4Phys vaddr paddr flags m := by
  simp only [vmmPageMap, BootKernel.vmmPageMap, Prog.run_bind, vmmPteGet_run]
  split <;> simp

theorem vmmPageUnmap_run (pml4Phys vaddr : BitVec 64) (outPaddr : Option (BitVec 64)) :
    (vmmPageUnmap pml4Phys vaddr outPaddr).run m =
      (((BootKernel.vmmPageUnmap pml4Phys vaddr outPaddr m).1,
        (BootKernel.vmmPageUnmap pml4Phys vaddr outPaddr m).2.1),
        (BootKernel.vmmPageUnmap pml4Phys vaddr outPaddr m).2.2) := by
  simp only [vmmPageUnmap, BootKernel.vmmPageUnmap, Prog.run_bind, vmmPteGet_run]
  split
  · rfl
  · cases outPaddr <;> simp

@[simp] theorem vmmPageAlloc_run (vaddr flags : BitVec 64) :
    (vmmPageAlloc vaddr flags).run m = BootKernel.vmmPageAlloc vaddr flags m := by
  rw [vmmPageAlloc, BootKernel.vmmPageAlloc, Prog.run_bind, frameAlloc_run]
  by_cases hfail : m.frameAlloc.1 = pmmInvalidFrame
  · simp only [hfail, ↓reduceIte, Prog.run_pure]
  · simp only [hfail, ↓reduceIte, Prog.run_bind, vmmPml4Get_run, vmmPageMap_run]
    split <;> simp_all

@[simp] theorem vmmPageFree_run (vaddr flags : BitVec 64) :
    (vmmPageFree vaddr flags).run m = ((), BootKernel.vmmPageFree vaddr flags m) := by
  simp only [vmmPageFree, BootKernel.vmmPageFree, Prog.run_bind, vmmPml4Get_run, vmmPageUnmap_run]
  rcases BootKernel.vmmPageUnmap (BootKernel.vmmPml4Get m) vaddr (some 0) m with ⟨_ | _, _ | addr, m'⟩ <;> rfl

@[simp] theorem call_run (c : VmmCall) : (call c).run m = ((), vmmCall m c) := by
  cases c with
  | pageMap vaddr paddr flags => simp [call, vmmCall]
  | pageUnmap vaddr wantsPaddr => simp [call, vmmCall, vmmPageUnmap_run]
  | pageAlloc vaddr flags => simp [call, vmmCall]
  | pageFree vaddr flags => simp [call, vmmCall]

end

end Paging

/-! ## The TLB -/

/-- Addresses with the entry in which a walk of them ended, and its depth. -/
abbrev Tlb := Cache (BitVec 64) (Nat × BitVec 64)

instance (va : BitVec 64) : Decidable (Canonical va) := inferInstanceAs (Decidable (_ ∨ _))

/-- The walk from which the processor fills the TLB. -/
def tlbWalk (m : Machine) (va : BitVec 64) : Option (Nat × BitVec 64) :=
  if Canonical va then walk m.mem (rootFrame m) va else none

/-- The addresses whose entries a step drops. `invlpg` does nothing for an address that is not canonical. -/
def flushed : Event → Set (BitVec 64)
  | .invlpg vaddr => {va | Canonical vaddr ∧ va.toNat / 4096 = vaddr.toNat / 4096}
  | .cr3 _ => Set.univ
  | _ => ∅

/-- The page that the entry maps contains the frame. -/
def Refers (e : Nat × BitVec 64) (f : Nat) : Prop :=
  f / 512 ^ (3 - e.1) = entryFrame e.2 / 512 ^ (3 - e.1)

/-- A run of calls beside the TLB, with the event, the machine and the TLB at each of its steps. -/
inductive TlbRun : Machine → Tlb → List VmmCall → List (Event × Machine × Tlb) → Machine → Tlb → Prop
  | nil {m c} : TlbRun m c [] [] m c
  | cons {m c call seen m₁ c₁ calls seen' m' c'}
      (hcall : Exec tlbWalk flushed (Paging.call call) m c seen () m₁ c₁)
      (hrest : TlbRun m₁ c₁ calls seen' m' c') : TlbRun m c (call :: calls) (seen ++ seen') m' c'

end BootKernel
