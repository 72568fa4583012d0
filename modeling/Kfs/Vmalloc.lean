import Kfs.Kmalloc
import Kfs.Paging

/-!
# The virtual memory allocator

`kernel/src/vmalloc.c`: regions of whole pages between `VMALLOC_START` and
`VMALLOC_END`, each page backed by a frame of its own and mapped in the
current directory. A record of the kernel heap describes a region;
`region_list` links the records, the newest first, and is a list here, each
record with its address (`node`). The records live in the heap's own range,
which `kmalloc_init` reserves, so no frame of a page or a table meets them.

`vmalloc_memset` writes through the current directory. Touching a page that
is not mapped is a page fault, which the kernel answers with a panic.
-/

namespace Kfs

/-- `vm_region_t`, without the link. -/
structure VmRegion where
  node : Nat
  virtAddr : Nat
  size : Nat
  mappedSize : Nat
  numPages : Nat
  magic : Nat
  deriving DecidableEq

/-- `VM_MAGIC`. -/
def vmMagic : Nat := 0xCAFEBABE

/-- `VMALLOC_START`, 16 MB. -/
def vmallocStart : Nat := 0x01000000

/-- `VMALLOC_END`, 256 MB. -/
def vmallocEnd : Nat := 0x10000000

/-- The variables of `vmalloc.c`, with the heap its records live in. -/
structure Vmalloc where
  heap : Heap
  regionList : List VmRegion
  vmallocCurrent : Nat
  totalRegions : Nat
  totalPagesAllocated : Nat

def vmallocInit (heap : Heap) : Vmalloc where
  heap := heap
  regionList := []
  vmallocCurrent := vmallocStart
  totalRegions := 0
  totalPagesAllocated := 0

def vmallocHighestEnd (regionList : List VmRegion) : Nat :=
  regionList.foldl (fun highest current =>
    let stop := add32 current.virtAddr current.mappedSize
    if stop > highest then stop else highest) vmallocStart

/-- The test of `vmalloc_find_region`. -/
def VmRegion.isAt (virtAddr : Nat) (region : VmRegion) : Bool :=
  decide (region.magic = vmMagic ∧ region.virtAddr = virtAddr)

def vmallocFindRegion (regionList : List VmRegion) (p : Nat) : Option VmRegion :=
  regionList.find? (VmRegion.isAt p)

/-- The old break, or `(void *)-1`. -/
def vbrk (a : Vmalloc) (increment : Int) : Nat × Vmalloc :=
  let oldCurrent := a.vmallocCurrent
  let minCurrent := vmallocHighestEnd a.regionList
  if increment = 0 then (a.vmallocCurrent, a)
  else
    let newCurrent := add32 a.vmallocCurrent (toUInt32 increment)
    if increment > 0 then
      if newCurrent > vmallocEnd then (0xFFFFFFFF, a)
      else (oldCurrent, { a with vmallocCurrent := newCurrent })
    else
      let newCurrent := if newCurrent < minCurrent then minCurrent else newCurrent
      (oldCurrent, { a with vmallocCurrent := newCurrent })

/-! ## Pages -/

/-- Clear `size` bytes from `ptr`, which are on one page. -/
def clearMapped (vm : Vm) (ptr size : Nat) : Except Fault Vm :=
  if pagingIsMapped vm ptr then
    .ok { vm with mem := memset vm.mem (pagingGetPhysical vm ptr) 0#8 size }
  else .error (.panic "Page fault")

/-- `vmalloc_memset(ptr, 0, PAGE_SIZE)`: the rest of the page at `ptr`, then
the beginning of the next page if `ptr` is not aligned. -/
def vmallocMemset (vm : Vm) (ptr : Nat) : Except Fault Vm := do
  let first := 4096 - pageOffset ptr
  let vm ← clearMapped vm ptr first
  if pageOffset ptr = 0 then return vm
  else clearMapped vm (add32 ptr first) (pageOffset ptr)

/-- `virt_addr + i * PAGE_SIZE`. -/
def pageAt (virtAddr i : Nat) : Nat := add32 virtAddr (mul32 i 4096)

/-- Unmap a page and free its frame. -/
def vmallocUndo (virtAddr i : Nat) (vm : Vm) : Vm :=
  let addr := pageAt virtAddr i
  let phys := pagingGetPhysical vm addr
  (pagingUnmapPage vm addr).freeFrame phys

/-- The loop of `vmalloc`, at page `i` with `n` pages to go. `false` means
out of frames, and then the pages of before have been given back. -/
def vmallocPages (virtAddr : Nat) : (n i : Nat) → Vm → Except Fault (Bool × Vm)
  | 0, _, vm => .ok (true, vm)
  | n + 1, i, vm =>
      let (physAddr, vm) := vm.allocFrame
      if physAddr = 0 then .ok (false, forRange 0 i (vmallocUndo virtAddr) vm)
      else do
        let vm ← pagingMapPage vm (pageAt virtAddr i) physAddr pageKernel
        let vm ← vmallocMemset vm (pageAt virtAddr i)
        vmallocPages virtAddr n (i + 1) vm

/-- The loop body of `vfree`. -/
def vfreePage (virtAddr i : Nat) (vm : Vm) : Vm :=
  let vaddr := pageAt virtAddr i
  let paddr := pagingGetPhysical vm vaddr
  if paddr ≠ 0 then (pagingUnmapPage vm vaddr).freeFrame paddr else vm

/-! ## Regions -/

/-- The end of `vmalloc`: fill in the record, link it and move the break. -/
def linkRegion (a : Vmalloc) (node size numPages : Nat) : Vmalloc :=
  let allocSize := mul32 numPages 4096
  { a with
    regionList :=
      { node := node
        virtAddr := a.vmallocCurrent
        size := size
        mappedSize := allocSize
        numPages := numPages
        magic := vmMagic } :: a.regionList
    totalRegions := add32 a.totalRegions 1
    totalPagesAllocated := add32 a.totalPagesAllocated numPages
    vmallocCurrent := add32 a.vmallocCurrent allocSize }

/-- The address of the region, `0` for `NULL`. -/
def vmalloc (vm : Vm) (a : Vmalloc) (size : Nat) : Except Fault (Nat × Vm × Vmalloc) :=
  if size = 0 then .ok (0, vm, a)
  else
    let numPages := add32 size 4095 / 4096
    let allocSize := mul32 numPages 4096
    if add32 a.vmallocCurrent allocSize > vmallocEnd then .ok (0, vm, a)
    else do
      let (region, heap) ← kmalloc a.heap 24
      let a := { a with heap := heap }
      if region = 0 then return (0, vm, a)
      match ← vmallocPages a.vmallocCurrent numPages 0 vm with
      | (true, vm) => return (a.vmallocCurrent, vm, linkRegion a region size numPages)
      | (false, vm) =>
          let (heap, _) ← kfree a.heap region
          return (0, vm, { a with heap := heap })

def vfree (vm : Vm) (a : Vmalloc) (p : Nat) : Except Fault (Vm × Vmalloc) :=
  if p = 0 then .ok (vm, a)
  else
    match vmallocFindRegion a.regionList p with
    | none => .error (.panic "vfree: Invalid region (corrupted or double-free)")
    | some region => do
        let regionList := a.regionList.eraseP (VmRegion.isAt p)
        let vm := forRange 0 region.numPages (vfreePage region.virtAddr) vm
        let (heap, _) ← kfree a.heap region.node
        return (vm,
          { heap := heap
            regionList := regionList
            totalRegions := sub32 a.totalRegions 1
            totalPagesAllocated := sub32 a.totalPagesAllocated region.numPages
            vmallocCurrent := vmallocHighestEnd regionList })

end Kfs
