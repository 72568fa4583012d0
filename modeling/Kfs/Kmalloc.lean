import Kfs.Lib.Chain
import Kfs.Lib.Mem
import Kfs.Pmm

/-!
# The kernel heap

`kernel/src/kmalloc.c`. The heap is a range of memory `[heap_start,
heap_end)` that grows up to `heap_max`, cut into blocks. A block is a header
of `HEADER_SIZE` bytes followed by its payload; the header is stored in the
heap memory itself, so it is read and written here through `load32`,
`store32` and `store8` at the offsets of `block_header_t` on a 32-bit
machine: `size` at 0, `free` at 4 (one byte), `next` at 8, `prev` at 12 and
`magic` at 16.

Memory can be read anywhere here. `KmallocMapped` has `kfree` as the processor
runs it, with a page fault where a link leads to an address that is not
mapped.

The two loops of the allocator walk the block list through `next`; see
`scan` for their bound. `kbrk` returns `(void *)-1` on failure, and pointers
equal to `0` are `NULL`.
-/

namespace Kfs

/-- `BLOCK_MAGIC`. -/
def blockMagic : Nat := 0xDEADBEEF

/-- `MIN_BLOCK_SIZE`. -/
def minBlockSize : Nat := 16

/-- `ALIGN(size)`, to `ALIGNMENT = 8`. -/
def align (size : Nat) : Nat := add32 size 7 &&& 0xFFFFFFF8

/-- `HEADER_SIZE`, which is `ALIGN(sizeof(block_header_t))` and the structure
has 20 bytes. -/
def headerSize : Nat := align 20

/-! ## Block headers in memory -/

structure BlockHeader where
  size : Nat
  free : Byte
  next : Nat
  prev : Nat
  magic : Nat

def readHeader (m : Mem) (block : Nat) : BlockHeader where
  size := load32 m block
  free := m (block + 4)
  next := load32 m (block + 8)
  prev := load32 m (block + 12)
  magic := load32 m (block + 16)

def setSize (m : Mem) (block size : Nat) : Mem := store32 m block size

def setFree (m : Mem) (block : Nat) (free : Byte) : Mem := store8 m (block + 4) free

def setNext (m : Mem) (block next : Nat) : Mem := store32 m (block + 8) next

def setPrev (m : Mem) (block prev : Nat) : Mem := store32 m (block + 12) prev

def setMagic (m : Mem) (block : Nat) : Mem := store32 m (block + 16) blockMagic

/-- `if (next) next->prev = prev;` -/
def relink (m : Mem) (next prev : Nat) : Mem :=
  if next ≠ 0 then setPrev m next prev else m

/-- A pointer as an option: `0` is `NULL`. -/
def ptr (a : Nat) : Option Nat := if a = 0 then none else some a

/-- `block->next` as a pointer. -/
def nextBlock (m : Mem) (block : Nat) : Option Nat := ptr (readHeader m block).next

/-! ## The heap -/

structure Heap where
  mem : Mem
  heapStart : Nat
  heapEnd : Nat
  heapMax : Nat
  blockList : Nat
  totalAllocations : Nat
  totalFrees : Nat

/-- `kmalloc_init` on the heap's own variables. -/
def heapInit (kernelEnd : Nat) (m : Mem) : Heap :=
  let heapStart := pageAlignUp (add32 kernelEnd 0x10000)
  { mem := m
    heapStart := heapStart
    heapEnd := heapStart
    heapMax := add32 heapStart (8 * 1024 * 1024)
    blockList := 0
    totalAllocations := 0
    totalFrees := 0 }

/-- `heap_max` after `kmalloc_init`, computed without wrapping. -/
def heapLimit (kernelEnd : Nat) : Nat :=
  (kernelEnd + 0x10000 + 4095) / 4096 * 4096 + 8 * 1024 * 1024

theorem heapInit_heapStart {kernelEnd : Nat} (m : Mem) (h : heapLimit kernelEnd < 4294967296) :
    (heapInit kernelEnd m).heapStart = (kernelEnd + 0x10000 + 4095) / 4096 * 4096 := by
  unfold heapLimit at h
  show pageAlignUp (add32 kernelEnd 0x10000) = _
  have hsum : add32 kernelEnd 0x10000 = kernelEnd + 0x10000 := add32_of_lt (by omega)
  rw [hsum, pageAlignUp, add32_of_lt (by omega), and_mask4096 (by omega)]

theorem heapInit_heapMax {kernelEnd : Nat} (m : Mem) (h : heapLimit kernelEnd < 4294967296) :
    (heapInit kernelEnd m).heapMax = heapLimit kernelEnd := by
  show add32 (heapInit kernelEnd m).heapStart (8 * 1024 * 1024) = _
  rw [heapInit_heapStart m h]
  exact add32_of_lt h

/-- `kmalloc_init`: set up the heap and reserve its range in the PMM. -/
def kmallocInit (kernelEnd : Nat) (m : Mem) (p : Pmm) : Heap × Pmm :=
  let h := heapInit kernelEnd m
  (h, pmmMarkRegionUsed p h.heapStart (sub32 h.heapMax h.heapStart))

/-- The old end of the heap, or `(void *)-1`. -/
def kbrk (h : Heap) (increment : Int) : Nat × Heap :=
  if increment = 0 then (h.heapEnd, h)
  else
    let newEnd := add32 h.heapEnd (toUInt32 increment)
    if increment > 0 then
      if newEnd > h.heapMax then (0xFFFFFFFF, h)
      else (h.heapEnd, { h with heapEnd := newEnd })
    else
      let newEnd := if newEnd < h.heapStart then h.heapStart else newEnd
      (h.heapEnd, { h with heapEnd := newEnd })

/-- The first free block of at least `size` bytes. There are `2 ^ 32`
pointers, which bounds the walk. -/
def findFreeBlock (h : Heap) (size : Nat) : Except Fault (Option Nat) :=
  search (nextBlock h.mem)
    (fun b => (readHeader h.mem b).free ≠ 0#8 ∧ (readHeader h.mem b).size ≥ size)
    4294967296 (ptr h.blockList)

def splitBlock (m : Mem) (block size : Nat) : Mem :=
  if (readHeader m block).size ≥ add32 (add32 size headerSize) minBlockSize then
    let newBlock := add32 (add32 block headerSize) size
    let m := setSize m newBlock (sub32 (sub32 (readHeader m block).size size) headerSize)
    let m := setFree m newBlock 1#8
    let m := setMagic m newBlock
    let m := setNext m newBlock (readHeader m block).next
    let m := setPrev m newBlock block
    let m := relink m (readHeader m block).next newBlock
    let m := setNext m block newBlock
    setSize m block size
  else m

/-- The first half of `coalesce_blocks`: absorb the next block if it is
free. -/
def coalesceNext (m : Mem) (block : Nat) : Mem :=
  let next := (readHeader m block).next
  if next ≠ 0 ∧ (readHeader m next).free ≠ 0#8 then
    let m := setSize m block
      (add32 (readHeader m block).size (add32 headerSize (readHeader m next).size))
    let m := setNext m block (readHeader m next).next
    relink m (readHeader m block).next block
  else m

/-- The second half: let the previous block absorb this one if it is free. -/
def coalescePrev (m : Mem) (block : Nat) : Mem :=
  let prev := (readHeader m block).prev
  if prev ≠ 0 ∧ (readHeader m prev).free ≠ 0#8 then
    let m := setSize m prev
      (add32 (readHeader m prev).size (add32 headerSize (readHeader m block).size))
    let m := setNext m prev (readHeader m block).next
    relink m (readHeader m block).next prev
  else m

/-- The links are followed wherever they lead; `coalesceBlocksMapped` asks
whether a header is mapped. -/
def coalesceBlocks (m : Mem) (block : Nat) : Mem :=
  coalescePrev (coalesceNext m block) block

/-- The header `kmalloc` writes at the memory `kbrk` made room for. -/
def newHeader (m : Mem) (block size : Nat) : Mem :=
  let m := setSize m block size
  let m := setFree m block 0#8
  let m := setMagic m block
  let m := setNext m block 0
  setPrev m block 0

/-- `last = block_list; while (last->next) last = last->next;` -/
def findLastBlock (m : Mem) (blockList : Nat) : Except Fault (Option Nat) :=
  search (nextBlock m) (fun b => (nextBlock m b).isNone) 4294967296 (ptr blockList)

/-- The end of `kmalloc`: create the new block and link it behind the last
one. -/
def appendBlock (h : Heap) (block size : Nat) : Except Fault Heap :=
  let m := newHeader h.mem block size
  if h.blockList = 0 then
    .ok { h with mem := m, blockList := block }
  else do
    match ← findLastBlock m h.blockList with
    | none => return { h with mem := m }
    | some last => return { h with mem := setPrev (setNext m last block) block last }

/-- The size `kmalloc` looks for: the request rounded up to 8 and to
`MIN_BLOCK_SIZE`. -/
def blockSizeFor (size : Nat) : Nat :=
  if align size < minBlockSize then minBlockSize else align size

/-- `kmalloc` when a free block was found: split it and mark it used. -/
def kmallocReuse (h : Heap) (block size : Nat) : Nat × Heap :=
  (add32 block headerSize,
    { h with
      mem := setFree (splitBlock h.mem block size) block 0#8
      totalAllocations := add32 h.totalAllocations 1 })

/-- `kmalloc` when no free block was found: extend the heap. -/
def kmallocExtend (h : Heap) (size : Nat) : Except Fault (Nat × Heap) :=
  let (newMemory, h) := kbrk h (toInt32 (add32 headerSize size))
  if newMemory = 0xFFFFFFFF then .ok (0, h)
  else do
    let h ← appendBlock h newMemory size
    return (add32 newMemory headerSize,
      { h with totalAllocations := add32 h.totalAllocations 1 })

def kmalloc (h : Heap) (size : Nat) : Except Fault (Nat × Heap) :=
  if size = 0 then .ok (0, h)
  else do
    let size := blockSizeFor size
    match ← findFreeBlock h size with
    | some block => return kmallocReuse h block size
    | none => kmallocExtend h size

/-- `kfree` warns about a block that is already free and goes on; `warned`
tells that it did. -/
def kfree (h : Heap) (p : Nat) : Except Fault (Heap × Bool) := do
  if p = 0 then return (h, false)
  let block := sub32 p headerSize
  if (readHeader h.mem block).magic ≠ blockMagic then
    throw (.panic "kfree: Invalid block (corrupted or double-free)")
  if (readHeader h.mem block).free ≠ 0#8 then
    return (h, true)
  let m := setFree h.mem block 1#8
  return ({ h with mem := coalesceBlocks m block, totalFrees := add32 h.totalFrees 1 }, false)

/-- The size of the block behind a pointer, `0` where there is none. -/
def ksize (h : Heap) (p : Nat) : Nat :=
  if p = 0 then 0
  else
    let block := sub32 p headerSize
    if (readHeader h.mem block).magic ≠ blockMagic then 0 else (readHeader h.mem block).size

/-! ## Statistics -/

/-- `kmalloc_stats_t`. -/
structure KmallocStats where
  heapSize : Nat
  usedSize : Nat
  freeSize : Nat
  numAllocations : Nat
  numFreeBlocks : Nat
  deriving DecidableEq

/-- What the loop of `kmalloc_get_stats` adds for a block. -/
def KmallocStats.count (stats : KmallocStats) (current : BlockHeader) : KmallocStats :=
  if current.free ≠ 0#8 then
    { stats with
      freeSize := add32 stats.freeSize current.size
      numFreeBlocks := add32 stats.numFreeBlocks 1 }
  else
    { stats with
      usedSize := add32 stats.usedSize (add32 current.size headerSize)
      numAllocations := add32 stats.numAllocations 1 }

/-- The loop of `kmalloc_get_stats`, with the bound of `scan`. -/
def countBlocks (m : Mem) : Nat → Option Nat → KmallocStats → Except Fault KmallocStats
  | 0, _, _ => .error .diverge
  | _ + 1, none, stats => .ok stats
  | fuel + 1, some current, stats =>
      countBlocks m fuel (nextBlock m current) (stats.count (readHeader m current))

def kmallocGetStats (h : Heap) : Except Fault KmallocStats :=
  countBlocks h.mem 4294967296 (ptr h.blockList)
    { heapSize := sub32 h.heapEnd h.heapStart
      usedSize := 0
      freeSize := 0
      numAllocations := 0
      numFreeBlocks := 0 }

end Kfs
