import BootKernel.Vmm.Machine

/-!
# The paging code

`kernel/vmm.c`, function by function. A pointer is its 64-bit value, `NULL` is zero, and a loop over a
64-bit counter is `Loop.forStep`, so a function that contains one takes the number of turns after
which it is cut off. An event `follow` marks each place where the walk goes on to the table that an
entry points to.
-/

namespace BootKernel

def pagePresent : BitVec 64 := 1 <<< 0
def pageWritable : BitVec 64 := 1 <<< 1
def pageUser : BitVec 64 := 1 <<< 2
def pageNx : BitVec 64 := 1 <<< 63
def pageAddrMask : BitVec 64 := 0x000FFFFFFFFFF000

/-- What `vmm_init` takes from its surroundings: the linker's symbols and the stack pointer. -/
structure BootEnv where
  image : KernelImage
  rsp : BitVec 64

def invlpg (vaddr : BitVec 64) (m : Machine) : Machine := m.emit (.invlpg vaddr)

def zero (w : Window) (addr amountBytes : BitVec 64) (m : Machine) : Machine :=
  Loop.forRange 0 amountBytes.toNat (fun i m => m.store8 w (addr + BitVec.ofNat 64 i) 0) m

def vmmPml4Load (pml4Phys : BitVec 64) (m : Machine) : Machine :=
  { m with cr3 := pml4Phys }.emit (.cr3 pml4Phys)

def vmmPml4Get (m : Machine) : BitVec 64 := m.cr3 &&& 0x000FFFFFFFFFF000

def levelsShift : List Nat := [39, 30, 21, 12]

/-- `&table[idx]` for a table of 64-bit entries. -/
def entryPtr (tableVirt idx : BitVec 64) : BitVec 64 := tableVirt + 8 * idx

/-! ## The walker -/

/-- The loop of `vmm_pte_get`; `none` is its `return NULL`. -/
def vmmPteGetLoop (create : Bool) (vaddr : BitVec 64) :
    List Nat → BitVec 64 → Machine → Option (BitVec 64) × Machine
  | [], currentTablePhys, m => (some currentTablePhys, m)
  | shift :: shifts, currentTablePhys, m =>
      let idx := (vaddr >>> shift) &&& 0x1FF
      let tableVirt := vmmPhysToVirt currentTablePhys
      let (entry, m) := m.load64 .hhdm (entryPtr tableVirt idx)
      if entry &&& pagePresent = 0 then
        if !create then (none, m) else
        let (newFrame, m) := m.frameAlloc
        if newFrame = pmmInvalidFrame then (none, m) else
        let m := zero .hhdm (vmmPhysToVirt newFrame) 4096 m
        let entry := newFrame ||| pagePresent ||| pageWritable
        let m := m.store64 .hhdm (entryPtr tableVirt idx) entry
        vmmPteGetLoop create vaddr shifts (entry &&& pageAddrMask) (m.emit (.follow entry))
      else vmmPteGetLoop create vaddr shifts (entry &&& pageAddrMask) (m.emit (.follow entry))

def vmmPteGet (pml4Phys vaddr : BitVec 64) (create : Bool) (m : Machine) : BitVec 64 × Machine :=
  match vmmPteGetLoop create vaddr (levelsShift.take 3) pml4Phys m with
  | (none, m) => (0, m)
  | (some currentTablePhys, m) =>
      let ptIdx := (vaddr >>> 12) &&& 0x1FF
      (entryPtr (vmmPhysToVirt currentTablePhys) ptIdx, m)

def vmmPageMap (pml4Phys vaddr paddr flags : BitVec 64) (m : Machine) : Bool × Machine :=
  let (pte, m) := vmmPteGet pml4Phys vaddr true m
  if pte = 0 then (false, m) else
  let m := m.store64 .hhdm pte ((paddr &&& pageAddrMask) ||| flags ||| pagePresent)
  (true, invlpg vaddr m)

/-- `outPaddr` is the variable behind the out parameter, `none` for a null pointer. -/
def vmmPageUnmap (pml4Phys vaddr : BitVec 64) (outPaddr : Option (BitVec 64)) (m : Machine) :
    Bool × Option (BitVec 64) × Machine :=
  let (pte, m) := vmmPteGet pml4Phys vaddr false m
  if pte = 0 then (false, outPaddr, m) else
  let (outPaddr, m) :=
    match outPaddr with
    | some _ =>
        let (entry, m) := m.load64 .hhdm pte
        (some (entry &&& pageAddrMask), m)
    | none => (none, m)
  let m := m.store64 .hhdm pte 0
  (true, outPaddr, invlpg vaddr m)

/-- The result is the pointer that is returned, zero for `NULL`. -/
def vmmPageAlloc (vaddr flags : BitVec 64) (m : Machine) : BitVec 64 × Machine :=
  let (pageFrame, m) := m.frameAlloc
  if pageFrame = pmmInvalidFrame then (0, m) else
  let (success, m) := vmmPageMap (vmmPml4Get m) vaddr pageFrame flags m
  if !success then (0, m) else (vaddr, m)

/-- The variable that receives the address is not read unless `vmm_page_unmap` has set it. -/
def vmmPageFree (vaddr _flags : BitVec 64) (m : Machine) : Machine :=
  match vmmPageUnmap (vmmPml4Get m) vaddr (some 0) m with
  | (true, some addrPhys, m) => m.frameFree (addrPhys >>> pageShift)
  | (_, _, m) => m

/-! ## The early tables -/

/-- The loop of `vmm_pte_get_offline`, which does not test what `pmm_frame_alloc` returns. -/
def vmmPteGetOfflineLoop (create : Bool) (vaddr : BitVec 64) :
    List Nat → BitVec 64 → Machine → Option (BitVec 64) × Machine
  | [], currentTableVirt, m => (some currentTableVirt, m)
  | shift :: shifts, currentTableVirt, m =>
      let idx := (vaddr >>> shift) &&& 0x1FF
      let (entry, m) := m.load64 .identity (entryPtr currentTableVirt idx)
      if entry &&& pagePresent = 0 then
        if !create then (none, m) else
        let (newFrame, m) := m.frameAlloc
        let m := zero .identity newFrame 4096 m
        let entry := newFrame ||| pagePresent ||| pageWritable
        let m := m.store64 .identity (entryPtr currentTableVirt idx) entry
        vmmPteGetOfflineLoop create vaddr shifts (entry &&& pageAddrMask) (m.emit (.follow entry))
      else vmmPteGetOfflineLoop create vaddr shifts (entry &&& pageAddrMask) (m.emit (.follow entry))

def vmmPteGetOffline (pml4Virt vaddr : BitVec 64) (create : Bool) (m : Machine) :
    BitVec 64 × Machine :=
  match vmmPteGetOfflineLoop create vaddr (levelsShift.take 3) pml4Virt m with
  | (none, m) => (0, m)
  | (some currentTableVirt, m) =>
      let ptIdx := (vaddr >>> 12) &&& 0x1FF
      (entryPtr currentTableVirt ptIdx, m)

def vmmPageMapInternal (pml4Virt vaddr paddr flags : BitVec 64) (m : Machine) : Machine :=
  let (pte, m) := vmmPteGetOffline pml4Virt vaddr true m
  if pte ≠ 0 then m.store64 .identity pte ((paddr &&& pageAddrMask) ||| flags ||| pagePresent)
  else m

def vmmKernelMap (fuel : Nat) (env : BootEnv) (pml4Virt : BitVec 64) (m : Machine) : Option Machine :=
  let vStart := env.image.kernelStart
  let pStart := vStart
  let size := env.image.kernelEnd - vStart
  match Loop.forStep size pageSize (fun i m =>
      (true, vmmPageMapInternal pml4Virt (vStart + i) (pStart + i) pageWritable m)) fuel 0 m with
  | none => none
  | some (_, m) =>
      let window : BitVec 64 := 256 * 1024
      let start := alignDown (env.rsp - window)
      let end₀ := alignUp (env.rsp + pageSize)
      match Loop.forStep end₀ pageSize (fun va m =>
          (true, vmmPageMapInternal pml4Virt va va pageWritable m)) fuel start m with
      | none => none
      | some (_, m) => some m

def vmmPage1gbMapOffline (pml4Virt vaddr paddr flags : BitVec 64) (m : Machine) : Bool × Machine :=
  let pml4Idx := (vaddr >>> 39) &&& 0x1FF
  let pdptIdx := (vaddr >>> 30) &&& 0x1FF
  let (entry, m) := m.load64 .identity (entryPtr pml4Virt pml4Idx)
  let (ok, m) :=
    if entry &&& pagePresent = 0 then
      let (newPdpt, m) := m.frameAlloc
      if newPdpt = pmmInvalidFrame then (false, m) else
      let m := zero .identity newPdpt 4096 m
      (true, m.store64 .identity (entryPtr pml4Virt pml4Idx)
        (newPdpt ||| pagePresent ||| pageWritable))
    else (true, m)
  if !ok then (false, m) else
  let (entry, m) := m.load64 .identity (entryPtr pml4Virt pml4Idx)
  let pdptVirt := entry &&& 0x000FFFFFFFFFF000
  let m := m.emit (.follow entry)
  (true, m.store64 .identity (entryPtr pdptVirt pdptIdx)
    ((paddr &&& 0x000FFFFFC0000000) ||| flags ||| pagePresent ||| psBit))

def vmmHhdmCreate (fuel : Nat) (pml4Virt : BitVec 64) (m : Machine) : Option (Bool × Machine) :=
  let maxPa := pmmHighestAddressGet m.pmm
  Loop.forStep maxPa gibSize (fun p m =>
    vmmPage1gbMapOffline pml4Virt (p + hhdmOffset) p (pageWritable ||| pageNx) m) fuel 0 m

/-- `none` is a run that has not returned after the given number of turns of one of its loops. -/
def vmmInit (fuel : Nat) (env : BootEnv) (m : Machine) : Option (Bool × Machine) :=
  let (pml4Phys, m) := m.frameAlloc
  if pml4Phys = pmmInvalidFrame then some (false, m) else
  let pml4Virt := pml4Phys
  let m := zero .identity pml4Virt 4096 m
  match vmmHhdmCreate fuel pml4Virt m with
  | none => none
  | some (false, m) => some (false, m)
  | some (true, m) =>
      match vmmKernelMap fuel env pml4Virt m with
      | none => none
      | some m => some (true, vmmPml4Load pml4Phys m)

end BootKernel
