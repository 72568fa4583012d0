import Kfs.Paging

/-!
# Process address spaces

The memory side of `kernel/src/process.c`: `process_memory_map` gives a
process a copy of the kernel directory with four private pages (data, bss,
heap and stack), mapped through a page table that appears as a side effect
of the first mapping, and `process_release_memory` takes them back.

These functions touch nothing of a process but its `memory` record, so they
are functions of that record, of the slot and of the machine.
-/

namespace Kfs

/-- `process_memory_t`. -/
structure ProcessMemory where
  processPageDirectory : Option Directory
  pageSize : Nat
  virtualBase : Nat
  virtualPage : Nat
  processPage : Nat
  dataStart : Nat
  dataEnd : Nat
  bssStart : Nat
  bssEnd : Nat
  heapStart : Nat
  heapBreak : Nat
  heapEnd : Nat
  stackBase : Nat
  stackTop : Nat
  physicalPage : Nat
  dataPage : Nat
  bssPage : Nat
  heapPage : Nat
  stackPage : Nat
  processPageTable : Nat
  codeSize : Nat
  deriving DecidableEq, Repr

/-- The record after `memset` to zero. -/
def ProcessMemory.zero : ProcessMemory where
  processPageDirectory := none
  pageSize := 0
  virtualBase := 0
  virtualPage := 0
  processPage := 0
  dataStart := 0
  dataEnd := 0
  bssStart := 0
  bssEnd := 0
  heapStart := 0
  heapBreak := 0
  heapEnd := 0
  stackBase := 0
  stackTop := 0
  physicalPage := 0
  dataPage := 0
  bssPage := 0
  heapPage := 0
  stackPage := 0
  processPageTable := 0
  codeSize := 0

/-- `PROCESS_PAGE_REGION_BASE + slot * PROCESS_VIRTUAL_STRIDE`. -/
def processVirtualBaseForSlot (slot : Slot) : Nat :=
  add32 0x02000000 (mul32 slot.val 0x00020000)

def processResetMemory : ProcessMemory :=
  { ProcessMemory.zero with pageSize := 4096 }

/-! ## Releasing -/

/-- `if (page != 0) { unmap; free }`, one of the four of
`process_release_memory`. -/
def releasePage (directory : Option Directory) (page start : Nat) (vm : Vm) : Vm :=
  if page ≠ 0 then (pagingUnmapPageInDirectory vm directory start).freeFrame page else vm

/-- Drop the directory entry of the private page table and free the table. -/
def releaseTable (memory : ProcessMemory) (vm : Vm) : Vm :=
  match memory.processPageDirectory with
  | none => vm
  | some d =>
      if memory.processPageTable ≠ 0 then
        (vm.setDirEntry d (pageDirIndex memory.virtualBase) 0).freeFrame memory.processPageTable
      else vm

def processReleaseMemory (vm : Vm) (memory : ProcessMemory) : Vm × ProcessMemory :=
  let vm := releasePage memory.processPageDirectory memory.dataPage memory.dataStart vm
  let vm := releasePage memory.processPageDirectory memory.bssPage memory.bssStart vm
  let vm := releasePage memory.processPageDirectory memory.heapPage memory.heapStart vm
  let vm := releasePage memory.processPageDirectory memory.stackPage memory.stackBase vm
  (releaseTable memory vm, processResetMemory)

/-! ## Mapping -/

/-- The frame of a new zeroed page mapped at `virtualPage`, or `none` when
there is no free frame. The page is cleared wherever its frame is;
`allocProcessPageMapped` asks whether the frame is mapped. -/
def allocProcessPage (vm : Vm) (memory : ProcessMemory) (virtualPage : Nat) :
    Except Fault (Option Nat × Vm) := do
  let (page, vm) := vm.allocFrame
  if page = 0 then return (none, vm)
  let vm ← pagingMapPageInDirectory vm memory.processPageDirectory virtualPage page pageUserRw
  return (some page, vm.clearPage page)

/-- The fields `process_memory_map` computes from the base address. -/
def layoutMemory (slot : Slot) (memory : ProcessMemory) : ProcessMemory :=
  let base :=
    if memory.virtualBase = 0 then processVirtualBaseForSlot slot else memory.virtualBase
  { memory with
    virtualBase := base
    pageSize := 4096
    virtualPage := base
    processPage := base
    dataStart := base
    dataEnd := add32 base 4096
    bssStart := add32 base 4096
    bssEnd := add32 (add32 base 4096) 4096
    heapStart := add32 base (4096 * 2)
    heapBreak := add32 base (4096 * 2)
    heapEnd := add32 (add32 base (4096 * 2)) 4096
    stackBase := add32 base (4096 * 3)
    stackTop := add32 (add32 base (4096 * 3)) 4096
    processPageDirectory := some (.process slot) }

/-- `if (alloc_process_page(process, start, &field) != 0) {
process_release_memory(process); return -1; }`, then go on. -/
def mapOrRelease (start : Nat) (field : ProcessMemory → Nat → ProcessMemory) (vm : Vm)
    (memory : ProcessMemory)
    (next : Vm → ProcessMemory → Except Fault (Bool × Vm × ProcessMemory)) :
    Except Fault (Bool × Vm × ProcessMemory) := do
  match ← allocProcessPage vm memory start with
  | (none, vm) => return (false, processReleaseMemory vm memory)
  | (some page, vm) => next vm (field memory page)

/-- Whether the mapping succeeded, with the machine and the record it
leaves. -/
def processMemoryMap (vm : Vm) (slot : Slot) (memory : ProcessMemory) :
    Except Fault (Bool × Vm × ProcessMemory) :=
  let memory := layoutMemory slot memory
  let vm := pagingCopyDirectory vm memory.processPageDirectory vm.kernelDirectory
  mapOrRelease memory.dataStart (fun m p => { m with dataPage := p }) vm memory fun vm memory =>
  mapOrRelease memory.bssStart (fun m p => { m with bssPage := p }) vm memory fun vm memory =>
  mapOrRelease memory.heapStart (fun m p => { m with heapPage := p }) vm memory fun vm memory =>
  mapOrRelease memory.stackBase (fun m p => { m with stackPage := p }) vm memory fun vm memory =>
  .ok (true, vm,
    { memory with
      physicalPage := memory.dataPage
      processPageTable :=
        pageFrame (vm.dirEntry (.process slot) (pageDirIndex memory.virtualBase)) })

end Kfs
