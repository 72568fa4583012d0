import Kfs.Pmm

/-!
# Paging

`kernel/src/paging.c`. Page directories are static arrays, one for the
kernel and one per process slot, and a pointer to one is an
`Option Directory`. Page tables are frames of physical memory, read and
written at their frame: entry `i` of the table at `t` is the word at
`t + 4 * i`.

`Vm` is everything the paging code reads and writes: physical memory, the
frame allocator, the directories and the two directory pointers. Loading CR3
and flushing the TLB have no state of their own here; the loaded directory
is always `current_directory`.
-/

namespace Kfs

/-- An index into `process_table`, `PROCESS_MAX_COUNT = 16`. -/
abbrev Slot := Fin 16

/-- Slot 0 is the kernel's. -/
instance instNeZeroSlots : NeZero 16 := ⟨by decide⟩

inductive Directory where
  | kernel
  | process (slot : Slot)
  deriving DecidableEq, Repr

structure Vm where
  mem : Mem
  pmm : Pmm
  directories : Directory → Nat → Nat
  currentDirectory : Option Directory
  kernelDirectory : Option Directory

/-! ## Entries -/

def pagePresent : Nat := 0x001

def pageWrite : Nat := 0x002

def pageUser : Nat := 0x004

/-- `PAGE_KERNEL`. -/
def pageKernel : Nat := pagePresent ||| pageWrite

/-- `PAGE_USER_RW`. -/
def pageUserRw : Nat := pagePresent ||| pageWrite ||| pageUser

/-- `PAGE_DIR_INDEX`. -/
def pageDirIndex (addr : Nat) : Nat := (addr >>> 22) &&& 0x3FF

/-- `PAGE_TABLE_INDEX`. -/
def pageTableIndex (addr : Nat) : Nat := (addr >>> 12) &&& 0x3FF

/-- `PAGE_OFFSET`. -/
def pageOffset (addr : Nat) : Nat := addr &&& 0xFFF

/-- `PAGE_FRAME`. -/
def pageFrame (entry : Nat) : Nat := entry &&& 0xFFFFF000

/-- `directory->entries[i]`. -/
def Vm.dirEntry (vm : Vm) (d : Directory) (i : Nat) : Nat := vm.directories d i

def Vm.setDirEntry (vm : Vm) (d : Directory) (i entry : Nat) : Vm :=
  { vm with
    directories :=
      Function.update vm.directories d (Function.update (vm.directories d) i entry) }

/-- `table->entries[i]`. -/
def Vm.tableEntry (vm : Vm) (table i : Nat) : Nat := load32 vm.mem (table + 4 * i)

def Vm.setTableEntry (vm : Vm) (table i entry : Nat) : Vm :=
  { vm with mem := store32 vm.mem (table + 4 * i) entry }

/-- Clear a page of physical memory. -/
def Vm.clearPage (vm : Vm) (page : Nat) : Vm :=
  { vm with mem := memset vm.mem page 0#8 4096 }

/-- `pmm_alloc_frame`, on the machine. -/
def Vm.allocFrame (vm : Vm) : Nat × Vm :=
  ((pmmAllocFrame vm.pmm).1, { vm with pmm := (pmmAllocFrame vm.pmm).2 })

/-- `pmm_free_frame`, on the machine. -/
def Vm.freeFrame (vm : Vm) (addr : Nat) : Vm :=
  { vm with pmm := pmmFreeFrame vm.pmm addr }

/-! ## Directories -/

/-- `paging_init`, with `kernelPageTables` the addresses of the four
pre-allocated tables. -/
def pagingInit (kernelPageTables : Fin 4 → Nat) (vm : Vm) : Vm :=
  { vm with
    mem := forRange 0 4
      (fun i m => forRange 0 1024
        (fun j m => store32 m (kernelPageTables (Fin.ofNat 4 i) + 4 * j)
          ((i * 1024 + j) * 4096 ||| pageKernel))
        (memset m (kernelPageTables (Fin.ofNat 4 i)) 0#8 4096))
      vm.mem
    directories := Function.update vm.directories .kernel
      (fun i => if h : i < 4 then kernelPageTables ⟨i, h⟩ ||| pageKernel else 0)
    currentDirectory := some .kernel
    kernelDirectory := some .kernel }

/-- Clear the destination, then copy entry by entry. -/
def pagingCopyDirectory (vm : Vm) (destination source : Option Directory) : Vm :=
  match destination, source with
  | some dst, some src =>
      let cleared := Function.update vm.directories dst fun _ => 0
      { vm with directories := Function.update cleared dst (cleared src) }
  | _, _ => vm

/-- The page table for `virt`, created if the directory has none. A new table
is cleared wherever its frame is; `pagingGetOrCreateTableMapped` asks whether
the frame is mapped. -/
def pagingGetOrCreateTable (vm : Vm) (d : Directory) (virt flags : Nat) :
    Except Fault (Nat × Vm) :=
  let i := pageDirIndex virt
  if vm.dirEntry d i &&& pagePresent = 0 then
    let (table, vm) := vm.allocFrame
    if table = 0 then
      .error (.panic "paging_map_page: Out of memory for page table")
    else
      let vm := vm.clearPage table
      let vm := vm.setDirEntry d i (table ||| pagePresent ||| pageWrite)
      let vm := if flags &&& pageUser ≠ 0 then
        vm.setDirEntry d i (vm.dirEntry d i ||| pageUser) else vm
      .ok (table, vm)
  else
    let vm := if flags &&& pageUser ≠ 0 then
      vm.setDirEntry d i (vm.dirEntry d i ||| pageUser) else vm
    .ok (pageFrame (vm.dirEntry d i), vm)

def pagingMapPageInDirectory (vm : Vm) (directory : Option Directory) (virt phys flags : Nat) :
    Except Fault Vm :=
  match directory with
  | none => .ok vm
  | some d => do
      let (table, vm) ← pagingGetOrCreateTable vm d virt flags
      return vm.setTableEntry table (pageTableIndex virt)
        ((phys &&& 0xFFFFF000) ||| (flags &&& 0xFFF))

def pagingUnmapPageInDirectory (vm : Vm) (directory : Option Directory) (virt : Nat) : Vm :=
  match directory with
  | none => vm
  | some d =>
      if vm.dirEntry d (pageDirIndex virt) &&& pagePresent = 0 then vm
      else
        vm.setTableEntry (pageFrame (vm.dirEntry d (pageDirIndex virt))) (pageTableIndex virt) 0

/-- The physical address, or `0` where nothing is mapped. -/
def pagingGetPhysicalInDirectory (vm : Vm) (directory : Option Directory) (virt : Nat) : Nat :=
  match directory with
  | none => 0
  | some d =>
      if vm.dirEntry d (pageDirIndex virt) &&& pagePresent = 0 then 0
      else
        let entry := vm.tableEntry (pageFrame (vm.dirEntry d (pageDirIndex virt)))
          (pageTableIndex virt)
        if entry &&& pagePresent = 0 then 0 else pageFrame entry ||| pageOffset virt

def pagingMapPage (vm : Vm) (virt phys flags : Nat) : Except Fault Vm :=
  pagingMapPageInDirectory vm vm.currentDirectory virt phys flags

def pagingUnmapPage (vm : Vm) (virt : Nat) : Vm :=
  pagingUnmapPageInDirectory vm vm.currentDirectory virt

def pagingGetPhysical (vm : Vm) (virt : Nat) : Nat :=
  pagingGetPhysicalInDirectory vm vm.currentDirectory virt

/-- `current_directory` is never `NULL` once `paging_init` has run. -/
def pagingIsMapped (vm : Vm) (virt : Nat) : Bool :=
  match vm.currentDirectory with
  | none => false
  | some d =>
      if vm.dirEntry d (pageDirIndex virt) &&& pagePresent = 0 then false
      else
        decide (vm.tableEntry (pageFrame (vm.dirEntry d (pageDirIndex virt)))
          (pageTableIndex virt) &&& pagePresent ≠ 0)

def pagingSwitchDirectory (vm : Vm) (directory : Option Directory) : Vm :=
  match directory with
  | none => vm
  | some d => { vm with currentDirectory := some d }

end Kfs
