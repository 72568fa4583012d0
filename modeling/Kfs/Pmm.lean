import Kfs.Lib.Bitmap
import Kfs.Lib.Run
import Kfs.Lib.Word

/-!
# The physical memory manager

`kernel/src/pmm.c`: a bitmap with one bit per 4 KB frame (set means used),
the number of frames the machine has and the number in use. Frames are
handed out one at a time (`pmmAllocFrame`, a search that skips full bytes)
or in contiguous runs (`pmmAllocFrames`, a search that counts consecutive
free frames). `pmmInit` starts from a full bitmap, frees what the multiboot
memory map declares available and reserves the low megabyte, the kernel
image and the 64 KB after it.

An address `0` returned by an allocation means out of memory.
-/

namespace Kfs

/-! ## Pages -/

/-- `PAGE_ALIGN_UP`. -/
def pageAlignUp (addr : Nat) : Nat := add32 addr 4095 &&& 0xFFFFF000

/-- `ADDR_TO_PFN`. -/
def addrToPfn (addr : Nat) : Nat := addr >>> 12

/-- `PFN_TO_ADDR`. -/
def pfnToAddr (pfn : Nat) : Nat := (pfn <<< 12) % 4294967296

/-- `MAX_MEMORY`, 128 MB. -/
def maxMemory : Nat := 128 * 1024 * 1024

/-! ## The bitmap -/

structure Pmm where
  frameBitmap : Bitmap
  totalMemory : Nat
  totalFrames : Nat
  usedFrames : Nat

def bitmapSet (p : Pmm) (frame : Nat) : Pmm :=
  { p with frameBitmap := setBit p.frameBitmap frame }

def bitmapClear (p : Pmm) (frame : Nat) : Pmm :=
  { p with frameBitmap := clearBit p.frameBitmap frame }

def bitmapTest (p : Pmm) (frame : Nat) : Bool := testBit p.frameBitmap frame

/-- The first free frame: bytes equal to `0xFF` are skipped, and a byte
beyond `total_frames / 8` is never looked at. -/
def bitmapFindFree (p : Pmm) : Option Nat :=
  (List.range (p.totalFrames / 8)).findSome? fun i =>
    if p.frameBitmap i ≠ 0xFF#8 then
      ((List.range 8).map fun j => i * 8 + j).find? fun frame =>
        decide (frame < p.totalFrames) && !bitmapTest p frame
    else none

/-- The loop of `bitmap_find_free_region`, with `n` frames still to visit. -/
def findFreeRegionFrom (p : Pmm) (count : Nat) :
    (n frame consecutive startFrame : Nat) → Option Nat
  | 0, _, _, _ => none
  | n + 1, frame, consecutive, startFrame =>
      if !bitmapTest p frame then
        let startFrame := if consecutive = 0 then frame else startFrame
        if consecutive + 1 ≥ count then some startFrame
        else findFreeRegionFrom p count n (frame + 1) (consecutive + 1) startFrame
      else findFreeRegionFrom p count n (frame + 1) 0 startFrame

/-- The first `count` consecutive free frames. -/
def bitmapFindFreeRegion (p : Pmm) (count : Nat) : Option Nat :=
  findFreeRegionFrom p count p.totalFrames 0 0 0

/-! ## Marking -/

/-- `bitmap_set(frame); used_frames++;` -/
def takeFrame (frame : Nat) (p : Pmm) : Pmm :=
  { bitmapSet p frame with usedFrames := add32 p.usedFrames 1 }

/-- `bitmap_clear(frame); used_frames--;` -/
def giveFrame (frame : Nat) (p : Pmm) : Pmm :=
  { bitmapClear p frame with usedFrames := sub32 p.usedFrames 1 }

/-- `if (!bitmap_test(frame)) { bitmap_set(frame); used_frames++; }` -/
def useFrame (frame : Nat) (p : Pmm) : Pmm :=
  if bitmapTest p frame then p else takeFrame frame p

/-- `if (bitmap_test(frame)) { bitmap_clear(frame); used_frames--; }` -/
def unuseFrame (frame : Nat) (p : Pmm) : Pmm :=
  if bitmapTest p frame then giveFrame frame p else p

def pmmMarkRegionUsed (p : Pmm) (base length : Nat) : Pmm :=
  let startFrame := addrToPfn base
  let endFrame := addrToPfn (pageAlignUp (add32 base length))
  forRange startFrame (min endFrame p.totalFrames) useFrame p

def pmmMarkRegionFree (p : Pmm) (base length : Nat) : Pmm :=
  let startFrame := addrToPfn (pageAlignUp base)
  let endFrame := addrToPfn (add32 base length)
  forRange startFrame (min endFrame p.totalFrames) unuseFrame p

/-! ## Allocation -/

/-- The address of the frame, or `0` when out of memory. -/
def pmmAllocFrame (p : Pmm) : Nat × Pmm :=
  match bitmapFindFree p with
  | none => (0, p)
  | some frame => (pfnToAddr frame, takeFrame frame p)

def pmmFreeFrame (p : Pmm) (addr : Nat) : Pmm :=
  let frame := addrToPfn addr
  if frame ≥ p.totalFrames then p else unuseFrame frame p

def pmmAllocFrames (p : Pmm) (count : Nat) : Nat × Pmm :=
  if count = 0 then (0, p)
  else
    match bitmapFindFreeRegion p count with
    | none => (0, p)
    | some start =>
        let p' := forRange 0 count (fun i p => bitmapSet p (start + i)) p
        (pfnToAddr start, { p' with usedFrames := add32 p'.usedFrames count })

def pmmFreeFrames (p : Pmm) (addr count : Nat) : Pmm :=
  let frame := addrToPfn addr
  forRange 0 count
    (fun i p => if add32 frame i < p.totalFrames then unuseFrame (add32 frame i) p else p) p

/-- Frames beyond the machine count as allocated. -/
def pmmIsFrameAllocated (p : Pmm) (addr : Nat) : Bool :=
  let frame := addrToPfn addr
  if frame ≥ p.totalFrames then true else bitmapTest p frame

def pmmMarkFrameUsed (p : Pmm) (addr : Nat) : Pmm :=
  let frame := addrToPfn addr
  if frame < p.totalFrames then useFrame frame p else p

/-! ## Statistics -/

/-- `pmm_stats_t`. -/
structure PmmStats where
  totalFrames : Nat
  usedFrames : Nat
  freeFrames : Nat
  totalMemory : Nat
  freeMemory : Nat
  deriving DecidableEq

def pmmGetFreeMemory (p : Pmm) : Nat := mul32 (sub32 p.totalFrames p.usedFrames) 4096

def pmmGetStats (p : Pmm) : PmmStats where
  totalFrames := p.totalFrames
  usedFrames := p.usedFrames
  freeFrames := sub32 p.totalFrames p.usedFrames
  totalMemory := p.totalMemory
  freeMemory := mul32 (sub32 p.totalFrames p.usedFrames) 4096

/-! ## Initialisation -/

/-- The fields of the multiboot information that `pmm_init` reads. -/
structure MultibootInfo where
  flags : Nat
  memUpper : Nat
  mmapLength : Nat
  mmapAddr : Nat

/-- The fields of a memory-map entry at address `a` of the boot loader's
memory. -/
structure MmapEntry where
  size : Nat
  addrLow : Nat
  addrHigh : Nat
  lenLow : Nat
  lenHigh : Nat
  type : Nat

def readMmapEntry (m : Mem) (a : Nat) : MmapEntry where
  size := load32 m a
  addrLow := load32 m (a + 4)
  addrHigh := load32 m (a + 8)
  lenLow := load32 m (a + 12)
  lenHigh := load32 m (a + 16)
  type := load32 m (a + 20)

/-- `MMAP_ENTRY_NEXT`. -/
def mmapEntryNext (m : Mem) (a : Nat) : Nat := add32 a (add32 (readMmapEntry m a).size 4)

/-- The memory-map walk of `pmm_init`. The next entry depends on the pointer
alone, so a walk of more than `2 ^ 32` entries never ends. -/
def mmapWalk (m : Mem) (mmapEnd : Nat) : Nat → Nat → Pmm → Except Fault Pmm
  | 0, _, _ => .error .diverge
  | fuel + 1, mmap, p =>
      if mmap < mmapEnd then
        let entry := readMmapEntry m mmap
        -- only the low 32 bits of base and length are considered
        let p := if entry.type = 1 then pmmMarkRegionFree p entry.addrLow entry.lenLow else p
        mmapWalk m mmapEnd fuel (mmapEntryNext m mmap) p
      else .ok p

/-- `total_memory` as `pmm_init` computes it. -/
def detectMemory (mbi : MultibootInfo) : Nat :=
  if mbi.flags &&& 0x1 ≠ 0 then
    let memory := mul32 (add32 mbi.memUpper 1024) 1024
    if memory > maxMemory then maxMemory else memory
  else 16 * 1024 * 1024

/-- The state `pmm_init` builds before it looks at the memory map: every
frame used. -/
def allUsed (totalMemory : Nat) : Pmm where
  frameBitmap := fun _ => 0xFF#8
  totalMemory := totalMemory
  totalFrames := totalMemory / 4096
  usedFrames := totalMemory / 4096

/-- The reservations at the end of `pmm_init`: the first megabyte, the kernel
image and the 64 KB after it. -/
def pmmReserve (kernelStart kernelEnd : Nat) (p : Pmm) : Pmm :=
  let p := pmmMarkRegionUsed p 0 0x100000
  let p := pmmMarkRegionUsed p kernelStart (sub32 kernelEnd kernelStart)
  pmmMarkRegionUsed p kernelEnd (64 * 1024)

/-- The middle of `pmm_init`: free what is available, by the memory map if
there is one and else from 1 MB on. -/
def pmmFreeAvailable (m : Mem) (mbi : MultibootInfo) (p : Pmm) : Except Fault Pmm :=
  if mbi.flags &&& 0x40 ≠ 0 then
    mmapWalk m (add32 mbi.mmapAddr mbi.mmapLength) 4294967296 mbi.mmapAddr p
  else
    .ok (pmmMarkRegionFree p 0x100000 (sub32 p.totalMemory 0x100000))

def pmmInit (kernelStart kernelEnd : Nat) (m : Mem) (mbi : MultibootInfo) :
    Except Fault Pmm := do
  let p ← pmmFreeAvailable m mbi (allUsed (detectMemory mbi))
  return pmmReserve kernelStart kernelEnd p

end Kfs
