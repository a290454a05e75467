import BootKernel.Vmm.Lemmas.Machine

/-!
# Calls of the paging interface

After `vmm_init` the rest of the kernel changes the loaded tree through four functions, in any order.
-/

namespace BootKernel

/-- One call. The flag of an unmap says whether the caller asks for the address. -/
inductive VmmCall where
  | pageMap (vaddr paddr flags : BitVec 64)
  | pageUnmap (vaddr : BitVec 64) (wantsPaddr : Bool)
  | pageAlloc (vaddr flags : BitVec 64)
  | pageFree (vaddr flags : BitVec 64)

def VmmCall.vaddr : VmmCall → BitVec 64
  | .pageMap vaddr _ _ => vaddr
  | .pageUnmap vaddr _ => vaddr
  | .pageAlloc vaddr _ => vaddr
  | .pageFree vaddr _ => vaddr

/-- The machine after a call on the tree that CR3 names. -/
def vmmCall (m : Machine) : VmmCall → Machine
  | .pageMap vaddr paddr flags => (vmmPageMap (vmmPml4Get m) vaddr paddr flags m).2
  | .pageUnmap vaddr wantsPaddr =>
      (vmmPageUnmap (vmmPml4Get m) vaddr (if wantsPaddr then some 0 else none) m).2.2
  | .pageAlloc vaddr flags => (vmmPageAlloc vaddr flags m).2
  | .pageFree vaddr flags => vmmPageFree vaddr flags m

def vmmRun : Machine → List VmmCall → Machine := List.foldl vmmCall

/-- What holds of each call of a sequence, in the state in which it is made. -/
def EachCall (P : Machine → VmmCall → Prop) : Machine → List VmmCall → Prop
  | _, [] => True
  | m, c :: cs => P m c ∧ EachCall P (vmmCall m c) cs

theorem EachCall.iff {P Q : Machine → VmmCall → Prop} (h : ∀ m c, P m c ↔ Q m c) (m : Machine)
    (cs : List VmmCall) : EachCall P m cs ↔ EachCall Q m cs := by
  induction cs generalizing m with
  | nil => exact Iff.rfl
  | cons c cs ih => exact and_congr (h m c) (ih (vmmCall m c))

theorem EachCall.append {P : Machine → VmmCall → Prop} {m : Machine} {cs ds : List VmmCall} :
    EachCall P m (cs ++ ds) ↔ EachCall P m cs ∧ EachCall P (vmmRun m cs) ds := by
  induction cs generalizing m with
  | nil => exact (and_iff_right trivial).symm
  | cons c cs ih =>
      rw [List.cons_append, EachCall, EachCall, ih, and_assoc]
      rfl

/-- The frame of the loaded root. -/
def rootFrame (m : Machine) : Nat := entryFrame m.cr3

theorem vmmPml4Get_eq (m : Machine) : vmmPml4Get m = frameAddr (rootFrame m) := and_pageAddrMask m.cr3

end BootKernel
