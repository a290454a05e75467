import BootKernel.Common
import BootKernel.Lib.Loop
import Mathlib.Logic.Function.Basic

/-!
# The physical frame allocator

`kernel/pmm.c` and `kernel/pmm.h`. The bitmap is the memory at `g_frame_bitmap`, word by word: the
array itself is the words below `BITMAP_BYTES`, and the words from there on are what lies behind it,
which an index that is too large reads and writes.
-/

namespace BootKernel

def maxRamBytes : BitVec 64 := 64 * 1024 * 1024 * 1024
def maxFrames : BitVec 64 := maxRamBytes / pageSize
def bitmapBytes : BitVec 64 := (maxFrames + 7) / 8
def pmmInvalidFrame : BitVec 64 := 0xFFFFFFFFFFFFFFFF
def pmmReservedFrames : BitVec 64 := (64 * 1024 * 1024) >>> pageShift

@[simp] theorem maxFrames_toNat : maxFrames.toNat = 2 ^ 24 := by decide
@[simp] theorem bitmapBytes_toNat : bitmapBytes.toNat = 2 ^ 21 := by decide
@[simp] theorem pmmReservedFrames_toNat : pmmReservedFrames.toNat = 2 ^ 14 := by decide

/-- The static variables of `pmm.c`. -/
structure Pmm where
  gPhysCeiling : BitVec 64
  gFrameBitmap : Nat → BitVec 64

/-- An assignment to `g_frame_bitmap[i]`. -/
def Pmm.setWord (p : Pmm) (i : Nat) (v : BitVec 64) : Pmm :=
  { p with gFrameBitmap := Function.update p.gFrameBitmap i v }

def frameBitmapSet (p : Pmm) (frameIdx : BitVec 64) : Pmm :=
  p.setWord (frameIdx >>> 6).toNat
    (p.gFrameBitmap (frameIdx >>> 6).toNat ||| (1#64 <<< (frameIdx &&& 63)))

def frameBitmapClear (p : Pmm) (frameIdx : BitVec 64) : Pmm :=
  p.setWord (frameIdx >>> 6).toNat
    (p.gFrameBitmap (frameIdx >>> 6).toNat &&& ~~~ (1#64 <<< (frameIdx &&& 63)))

def frameBitmapTest (p : Pmm) (frameIdx : BitVec 64) : BitVec 32 :=
  (((p.gFrameBitmap (frameIdx >>> 6).toNat) >>> (frameIdx &&& 63)) &&& 1#64).setWidth 32

/-! ## `pmm_init_from_map` and `pmm_init` -/

/-- `for (uint64_t j = start_idx; j < end_idx; j++) frame_bitmap_clear(j);` -/
def frameBitmapClearRange (p : Pmm) (startIdx endIdx : BitVec 64) : Pmm :=
  Loop.forRange startIdx.toNat endIdx.toNat (fun j p => frameBitmapClear p (BitVec.ofNat 64 j)) p

/-- `for (uint64_t i = start_idx; i < end_idx; i++) frame_bitmap_set(i);` -/
def frameBitmapSetRange (p : Pmm) (startIdx endIdx : BitVec 64) : Pmm :=
  Loop.forRange startIdx.toNat endIdx.toNat (fun i p => frameBitmapSet p (BitVec.ofNat 64 i)) p

/-- The fill that is meant to mark every frame as used. -/
def bitmapFill (p : Pmm) : Pmm :=
  Loop.forRange 0 bitmapBytes.toNat (fun i p => p.setWord i 0xFF) p

/-- The body of the loop over the map. -/
def e820EntryApply (p : Pmm) (entry : E820Entry) : Pmm :=
  let end₀ := entry.base + entry.length
  let p := if p.gPhysCeiling < end₀ then { p with gPhysCeiling := end₀ } else p
  if entry.type ≠ 1 then p else
  let start := alignUp entry.base
  let end₁ := alignDown (entry.base + entry.length)
  let startIdx := start >>> pageShift
  let endIdx := end₁ >>> pageShift
  if maxFrames ≤ startIdx then p else
  let endIdx := if maxFrames < endIdx then maxFrames else endIdx
  if endIdx ≤ startIdx then p else
  frameBitmapClearRange p startIdx endIdx

def pmmInitFromMap (map : List E820Entry) (p : Pmm) : Pmm :=
  let p := bitmapFill p
  let p := map.foldl e820EntryApply p
  frameBitmapSetRange p 0 pmmReservedFrames

def pmmHighestAddressGet (p : Pmm) : BitVec 64 := p.gPhysCeiling

def pmmInit (map : List E820Entry) (k : KernelImage) (p : Pmm) : Pmm :=
  let p := pmmInitFromMap map p
  let frameStart := alignDown k.kernelStart
  let frameEnd := alignUp k.kernelEnd
  frameBitmapSetRange p (frameStart >>> pageShift) (frameEnd >>> pageShift)

/-! ## `pmm_frame_alloc` and `pmm_frame_free` -/

/-- The search of `pmm_frame_alloc` from the word `frame_block_idx`, with `n` words left to try. -/
def pmmFrameAllocFrom (p : Pmm) : Nat → Nat → BitVec 64 × Pmm
  | 0, _ => (pmmInvalidFrame, p)
  | n + 1, frameBlockIdx =>
      let frameBlock := p.gFrameBitmap frameBlockIdx
      if frameBlock = ~~~ 0#64 then pmmFrameAllocFrom p n (frameBlockIdx + 1)
      else
        let bitOffset := (~~~ frameBlock).ctz
        let frameIdx := (BitVec.ofNat 64 frameBlockIdx <<< 6) ||| bitOffset
        (frameIdx <<< pageShift, frameBitmapSet p frameIdx)

def pmmFrameAlloc (p : Pmm) : BitVec 64 × Pmm := pmmFrameAllocFrom p maxFrames.toNat 0

/-- The indexes at which that search reads and writes `g_frame_bitmap`, in order. -/
def pmmFrameAllocFromIndexes (p : Pmm) : Nat → Nat → List Nat
  | 0, _ => []
  | n + 1, frameBlockIdx =>
      let frameBlock := p.gFrameBitmap frameBlockIdx
      if frameBlock = ~~~ 0#64 then frameBlockIdx :: pmmFrameAllocFromIndexes p n (frameBlockIdx + 1)
      else
        let bitOffset := (~~~ frameBlock).ctz
        let frameIdx := (BitVec.ofNat 64 frameBlockIdx <<< 6) ||| bitOffset
        [frameBlockIdx, (frameIdx >>> 6).toNat]

def pmmFrameAllocIndexes (p : Pmm) : List Nat := pmmFrameAllocFromIndexes p maxFrames.toNat 0

def pmmFrameFree (frameIdx : BitVec 64) (p : Pmm) : Pmm :=
  if frameIdx < pmmReservedFrames then p else frameBitmapClear p frameIdx

end BootKernel
