import Kfs.CreationFailure
import Kfs.KmallocMapped
import Kfs.LowMemory

/-!
# Clearing the frames a call takes

A new page table, and a new page of a process, is cleared through the address
that is its physical one. `Paging` and `ProcessMemory` take for granted that
it is mapped there, which `paging_init` saw to only below 16 MB. Here are the
calls that take frames with the test the processor makes: a page fault where
a frame to be cleared is not mapped. If the frames that have to be low are
(`Within`), they are the calls of before (`SystemEvent.execMapped_eq`).
-/

namespace Kfs

/-! ## The calls -/

section Code

variable (mapped : Nat → Bool)

/-- A page is mapped as a whole. -/
def Vm.clearPageMapped (vm : Vm) (page : Nat) : Except Fault Vm := do
  access mapped page 1
  return vm.clearPage page

def pagingGetOrCreateTableMapped (vm : Vm) (d : Directory) (virt flags : Nat) :
    Except Fault (Nat × Vm) :=
  let i := pageDirIndex virt
  if vm.dirEntry d i &&& pagePresent = 0 then
    let (table, vm) := vm.allocFrame
    if table = 0 then
      .error (.panic "paging_map_page: Out of memory for page table")
    else do
      let vm ← vm.clearPageMapped mapped table
      let vm := vm.setDirEntry d i (table ||| pagePresent ||| pageWrite)
      let vm := if flags &&& pageUser ≠ 0 then
        vm.setDirEntry d i (vm.dirEntry d i ||| pageUser) else vm
      return (table, vm)
  else
    let vm := if flags &&& pageUser ≠ 0 then
      vm.setDirEntry d i (vm.dirEntry d i ||| pageUser) else vm
    .ok (pageFrame (vm.dirEntry d i), vm)

def pagingMapPageInDirectoryMapped (vm : Vm) (directory : Option Directory)
    (virt phys flags : Nat) : Except Fault Vm :=
  match directory with
  | none => .ok vm
  | some d => do
      let (table, vm) ← pagingGetOrCreateTableMapped mapped vm d virt flags
      return vm.setTableEntry table (pageTableIndex virt)
        ((phys &&& 0xFFFFF000) ||| (flags &&& 0xFFF))

def pagingMapPageMapped (vm : Vm) (virt phys flags : Nat) : Except Fault Vm :=
  pagingMapPageInDirectoryMapped mapped vm vm.currentDirectory virt phys flags

def vmallocPagesMapped (virtAddr : Nat) : (n i : Nat) → Vm → Except Fault (Bool × Vm)
  | 0, _, vm => .ok (true, vm)
  | n + 1, i, vm =>
      let (physAddr, vm) := vm.allocFrame
      if physAddr = 0 then .ok (false, forRange 0 i (vmallocUndo virtAddr) vm)
      else do
        let vm ← pagingMapPageMapped mapped vm (pageAt virtAddr i) physAddr pageKernel
        let vm ← vmallocMemset vm (pageAt virtAddr i)
        vmallocPagesMapped virtAddr n (i + 1) vm

def vmallocMapped (vm : Vm) (a : Vmalloc) (size : Nat) : Except Fault (Nat × Vm × Vmalloc) :=
  if size = 0 then .ok (0, vm, a)
  else
    let numPages := add32 size 4095 / 4096
    let allocSize := mul32 numPages 4096
    if add32 a.vmallocCurrent allocSize > vmallocEnd then .ok (0, vm, a)
    else do
      let (region, heap) ← kmalloc a.heap 24
      let a := { a with heap := heap }
      if region = 0 then return (0, vm, a)
      match ← vmallocPagesMapped mapped a.vmallocCurrent numPages 0 vm with
      | (true, vm) => return (a.vmallocCurrent, vm, linkRegion a region size numPages)
      | (false, vm) =>
          let (heap, _) ← kfree a.heap region
          return (0, vm, { a with heap := heap })

def allocProcessPageMapped (vm : Vm) (memory : ProcessMemory) (virtualPage : Nat) :
    Except Fault (Option Nat × Vm) :=
  let (page, vm) := vm.allocFrame
  if page = 0 then .ok (none, vm)
  else do
    let vm ← pagingMapPageInDirectoryMapped mapped vm memory.processPageDirectory virtualPage page
      pageUserRw
    return (some page, ← vm.clearPageMapped mapped page)

def mapOrReleaseMapped (start : Nat) (field : ProcessMemory → Nat → ProcessMemory) (vm : Vm)
    (memory : ProcessMemory)
    (next : Vm → ProcessMemory → Except Fault (Bool × Vm × ProcessMemory)) :
    Except Fault (Bool × Vm × ProcessMemory) := do
  match ← allocProcessPageMapped mapped vm memory start with
  | (none, vm) => return (false, processReleaseMemory vm memory)
  | (some page, vm) => next vm (field memory page)

def processMemoryMapMapped (vm : Vm) (slot : Slot) (memory : ProcessMemory) :
    Except Fault (Bool × Vm × ProcessMemory) :=
  let memory := layoutMemory slot memory
  let vm := pagingCopyDirectory vm memory.processPageDirectory vm.kernelDirectory
  mapOrReleaseMapped mapped memory.dataStart (fun m p => { m with dataPage := p }) vm memory
    fun vm memory =>
  mapOrReleaseMapped mapped memory.bssStart (fun m p => { m with bssPage := p }) vm memory
    fun vm memory =>
  mapOrReleaseMapped mapped memory.heapStart (fun m p => { m with heapPage := p }) vm memory
    fun vm memory =>
  mapOrReleaseMapped mapped memory.stackBase (fun m p => { m with stackPage := p }) vm memory
    fun vm memory =>
  .ok (true, vm,
    { memory with
      physicalPage := memory.dataPage
      processPageTable :=
        pageFrame (vm.dirEntry (.process slot) (pageDirIndex memory.virtualBase)) })

def memoryMapOfMapped (k : Kernel) (process : Slot) : Except Fault (Bool × Kernel) := do
  let (ok, vm, memory) ←
    processMemoryMapMapped mapped k.vm process (k.processTable process).memory
  return (ok, ({ k with vm := vm }).modify process fun r => { r with memory := memory })

def processCreateInternalMapped (k : Kernel) (parent : Option Slot) (owner requestedBase : Nat)
    (function : Option ExecFn) (size : Nat) : Except Fault (Option Slot × Kernel) :=
  match processAllocateSlot k with
  | none => .ok (none, k)
  | some (process, k) => do
      let k := { k.modify process (newProcess k.nextPid owner requestedBase function size) with
        nextPid := add32 k.nextPid 1 }
      match ← memoryMapOfMapped mapped k process with
      | (false, k) => return (none, ← processRelease k process)
      | (true, k) => return (some process, ← processLink k parent process)

def processCreateOwnedMapped (k : Kernel) (owner : Nat) (function : Option ExecFn) (size : Nat) :
    Except Fault (Option Slot × Kernel) :=
  processCreateInternalMapped mapped k k.creator owner 0 function size

def forkProcessMapped (k : Kernel) (source : Option Slot) : Except Fault (Option Slot × Kernel) :=
  match source with
  | none => .ok (none, k)
  | some source =>
      if some source = k.kernelProcess ∨ (k.processTable source).entry = none then .ok (none, k)
      else do
        let r := k.processTable source
        match ← processCreateInternalMapped mapped k (some source) r.owner 0 r.entry
          r.memory.codeSize with
        | (none, k) => return (none, k)
        | (some child, k) =>
            let vm := copyPages (k.processTable child).memory (k.processTable source).memory k.vm
            return (some child, ({ k with vm := vm }).modify child
              (inheritFrom (k.processTable source)))

/-- The requests for memory; the other calls are as they were. -/
def SystemEvent.execMapped (s : System) : SystemEvent → Except Fault (SystemReply × System)
  | .vmalloc size => (vmallocMapped mapped s.vm s.2 size).map fun x =>
      (.address x.1, { s.1 with vm := x.2.1 }, x.2.2)
  | .process (.createOwned owner function size) =>
      (processCreateOwnedMapped mapped s.1 owner function size).map fun x =>
        (.reply (.created x.1), x.2, s.2)
  | .process (.fork source) =>
      (forkProcessMapped mapped s.1 source).map fun x => (.reply (.created x.1), x.2, s.2)
  | e => e.exec s

end Code

/-! ## Frames that are low when they have to be -/

/-- The frames to come are good for `schedule`. -/
structure Ready (vm : Vm) (schedule : List Bool) : Prop where
  ok : PmmOk vm.pmm
  within : Within vm.pmm schedule

/-- A mapping at `v` in directory `d`, and the rest of the schedule. -/
structure MapsAt (d : Directory) (v : Nat) (rest : List Bool) (vm vm' : Vm) : Prop where
  ready : Ready vm' rest
  present : vm'.present d = Function.update (vm.present d) (pageDirIndex v) true
  current : vm'.currentDirectory = vm.currentDirectory

section Ready

variable {mapped : Nat → Bool} {vm : Vm} {d : Directory} {v phys flags : Nat} {rest : List Bool}

/-- A frame that is taken. -/
theorem Ready.take {low : Bool} (h : Ready vm (low :: rest)) :
    vm.allocFrame.1 = 0 ∨ ∃ f pmm, f ≠ 0 ∧ vm.allocFrame = (f * 4096, { vm with pmm := pmm })
      ∧ (low = true → f < 4096) ∧ Takes {f} vm.pmm pmm ∧ Ready { vm with pmm := pmm } rest := by
  unfold Vm.allocFrame
  rcases pmmAllocFrame_first vm.pmm with ⟨he, -⟩ | ⟨f, hf, -, he⟩
  · rw [he]
    exact Or.inl rfl
  · obtain ⟨hlt, hfree⟩ := mem_spare.mp hf
    have hbound := h.ok.bound
    have htakes := takes_takeFrame h.ok (show f < vm.pmm.totalFrames by omega) hfree
    by_cases hzero : f = 0
    · subst hzero
      rw [he]
      exact Or.inl rfl
    · have hne : (pmmAllocFrame vm.pmm).1 ≠ 0 := by
        rw [he]
        dsimp only
        rw [pfnToAddr_eq (by omega)]
        omega
      obtain ⟨g, haddr, -, hlow, hrest⟩ := h.within.take h.ok hne
      rw [he] at haddr hrest
      dsimp only at haddr hrest
      rw [pfnToAddr_eq (by omega)] at haddr
      obtain rfl : f = g := by omega
      refine Or.inr ⟨f, takeFrame f vm.pmm, hzero, ?_, hlow, htakes, htakes.ok, hrest⟩
      rw [he, pfnToAddr_eq (by omega)]

theorem Ready.congr {vm' : Vm} (h : Ready vm rest) (hpmm : vm'.pmm = vm.pmm) : Ready vm' rest :=
  ⟨hpmm ▸ h.ok, hpmm ▸ h.within⟩

/-- A low frame is cleared. -/
theorem clearPageMapped_eq (hmapped : ∀ a < 0x1000000, mapped a = true) {f : Nat}
    (hf : f < 4096) : vm.clearPageMapped mapped (f * 4096) = .ok (vm.clearPage (f * 4096)) := by
  refine bind_of_ok (access_ok ?_)
  intro i hi
  exact hmapped _ (by omega)

/-- The table of a window: it is there, or a low frame becomes it. -/
theorem Ready.getOrCreate (h : Ready vm (tableSchedule (vm.present d) v ++ rest))
    (hmapped : ∀ a < 0x1000000, mapped a = true) :
    Agree (pagingGetOrCreateTableMapped mapped vm d v flags)
      (pagingGetOrCreateTable vm d v flags) fun r => MapsAt d v rest vm r.2 := by
  unfold pagingGetOrCreateTableMapped pagingGetOrCreateTable
  dsimp only
  cases hpresent : vm.present d (pageDirIndex v) with
  | true =>
      unfold tableSchedule at h
      rw [hpresent] at h
      obtain ⟨-, hsame, hpmm⟩ := @draws_markUser _ _ _ _ flags hpresent h.ok rfl
      rw [if_neg (of_decide_eq_true hpresent), if_neg (of_decide_eq_true hpresent)]
      refine .ok ⟨h.congr hpmm, ?_, ?_⟩
      · dsimp only
        rw [hsame, ← hpresent, Function.update_eq_self]
      · dsimp only
        split <;> rfl
  | false =>
      unfold tableSchedule at h
      rw [hpresent] at h
      have habsent := not_not.mp (of_decide_eq_false hpresent)
      rw [if_pos habsent, if_pos habsent]
      rcases Ready.take h with hzero | ⟨t, pmm, hne, halloc, hlow, htakes, hrest⟩
      · rw [if_pos hzero, if_pos hzero]
        exact .error
      · rw [halloc]
        dsimp only
        obtain ⟨-, hupdate, -⟩ := draws_table hne htakes hpresent
        have hthere : Vm.present _ d (pageDirIndex v) = true :=
          (congrFun hupdate _).trans (Function.update_self _ _ _)
        obtain ⟨-, hsame, hpmm⟩ := @draws_markUser _ _ _ _ flags hthere hrest.ok rfl
        rw [if_neg (by omega), if_neg (by omega),
          bind_of_ok (clearPageMapped_eq hmapped (hlow rfl))]
        refine .ok ⟨hrest.congr hpmm, hsame.trans hupdate, ?_⟩
        dsimp only
        split <;> rfl

theorem Ready.mapPage (h : Ready vm (tableSchedule (vm.present d) v ++ rest))
    (hmapped : ∀ a < 0x1000000, mapped a = true) :
    Agree (pagingMapPageInDirectoryMapped mapped vm (some d) v phys flags)
      (pagingMapPageInDirectory vm (some d) v phys flags) (MapsAt d v rest vm) := by
  refine (h.getOrCreate hmapped).bind ?_
  rintro ⟨table, vm1⟩ ⟨hready, hpresent, hcurrent⟩
  exact .ok ⟨hready.congr rfl, hpresent, hcurrent⟩

theorem Ready.mapCurrent (h : Ready vm (tableSchedule (vm.present d) v ++ rest))
    (hmapped : ∀ a < 0x1000000, mapped a = true) (hcurrent : vm.currentDirectory = some d) :
    Agree (pagingMapPageMapped mapped vm v phys flags) (pagingMapPage vm v phys flags)
      (MapsAt d v rest vm) := by
  unfold pagingMapPageMapped pagingMapPage
  rw [hcurrent]
  exact h.mapPage hmapped

end Ready

/-! ## Regions -/

section Vmalloc

variable {mapped : Nat → Bool} {vm : Vm} {d : Directory} {virt : Nat}

/-- The loop of `vmalloc`: its tables are low. -/
theorem Ready.vmallocPages (hmapped : ∀ a < 0x1000000, mapped a = true) : ∀ {n i : Nat} {vm : Vm},
    Ready vm (mapSchedule false (vm.present d) ((List.range' i n).map (pageAt virt))) →
    vm.currentDirectory = some d →
    vmallocPagesMapped mapped virt n i vm = Kfs.vmallocPages virt n i vm := by
  intro n
  induction n with
  | zero => exact fun _ _ => rfl
  | succ n ih =>
      intro i vm h hcurrent
      rw [List.range'_succ, List.map_cons] at h
      unfold vmallocPagesMapped Kfs.vmallocPages
      rcases Ready.take h with hzero | ⟨f, pmm, hne, halloc, -, -, hrest⟩
      · dsimp only
        rw [if_pos hzero, if_pos hzero]
      · rw [halloc]
        dsimp only
        rw [if_neg (by omega), if_neg (by omega)]
        refine ((Ready.mapCurrent hrest hmapped hcurrent).bind (R := fun _ => True) ?_).1
        rintro vm1 ⟨hready, hpresent, hcurrent1⟩
        have hset : Agree (vmallocMemset vm1 (pageAt virt i)) (vmallocMemset vm1 (pageAt virt i))
            fun vm2 => Ready vm2 (mapSchedule false (vm2.present d)
              ((List.range' (i + 1) n).map (pageAt virt))) ∧ vm2.currentDirectory = some d := by
          refine .refl fun vm2 hcall => ?_
          obtain ⟨⟨mem, rfl⟩, -⟩ := vmallocMemset_same hcall
          refine ⟨?_, hcurrent1.trans hcurrent⟩
          show Ready _ (mapSchedule false (vm1.present d) _)
          rw [hpresent]
          exact hready.congr rfl
        refine hset.bind ?_
        rintro vm2 ⟨hready2, hcurrent2⟩
        rw [ih hready2 hcurrent2]
        exact .refl fun _ _ => trivial

theorem vmallocMapped_eq (hmapped : ∀ a < 0x1000000, mapped a = true) (hok : PmmOk vm.pmm)
    (hcurrent : vm.currentDirectory = some d) {a : Vmalloc} {size : Nat}
    (hlow : (∃ p heap, kmalloc a.heap 24 = .ok (p, heap) ∧ p ≠ 0) →
      Within vm.pmm (vmallocSchedule vm a size)) :
    vmallocMapped mapped vm a size = vmalloc vm a size := by
  unfold vmallocMapped vmalloc
  by_cases hsize : size = 0
  · rw [if_pos hsize, if_pos hsize]
  by_cases hroom : add32 a.vmallocCurrent (mul32 (add32 size 4095 / 4096) 4096) > vmallocEnd
  · rw [if_neg hsize, if_neg hsize, if_pos hroom, if_pos hroom]
  rw [if_neg hsize, if_neg hsize, if_neg hroom, if_neg hroom]
  cases hkmalloc : kmalloc a.heap 24 with
  | error fault => rfl
  | ok result =>
      obtain ⟨region, heap⟩ := result
      rw [bind_of_ok rfl, bind_of_ok rfl]
      dsimp only
      by_cases hregion : region = 0
      · rw [if_pos hregion, if_pos hregion]
      · have hwithin := hlow ⟨region, heap, hkmalloc, hregion⟩
        unfold vmallocSchedule at hwithin
        rw [if_neg (not_or.mpr ⟨hsize, hroom⟩), currentPresent_eq hcurrent] at hwithin
        rw [if_neg hregion, if_neg hregion]
        exact congrArg (· >>= _) (Ready.vmallocPages hmapped ⟨hok, hwithin⟩ hcurrent)

end Vmalloc

/-! ## Processes -/

section Process

variable {mapped : Nat → Bool} {vm : Vm} {d : Directory} {v : Nat} {rest : List Bool}
  {m : ProcessMemory}

theorem Ready.allocProcessPage (h : Ready vm (true :: tableSchedule (vm.present d) v ++ rest))
    (hmapped : ∀ a < 0x1000000, mapped a = true) (hdir : m.processPageDirectory = some d) :
    Agree (allocProcessPageMapped mapped vm m v) (Kfs.allocProcessPage vm m v)
      fun r => ∀ a, r.1 = some a → MapsAt d v rest vm r.2 := by
  unfold allocProcessPageMapped Kfs.allocProcessPage
  rcases Ready.take h with hzero | ⟨f, pmm, hne, halloc, hlow, -, hrest⟩
  · dsimp only
    rw [if_pos hzero, if_pos hzero]
    exact .ok fun _ heq => by cases heq
  · rw [halloc, hdir]
    dsimp only
    rw [if_neg (by omega), if_neg (by omega)]
    refine (Ready.mapPage hrest hmapped).bind ?_
    rintro vm1 ⟨hready, hpresent, hcurrent⟩
    rw [clearPageMapped_eq hmapped (hlow rfl)]
    exact .ok fun _ _ => ⟨hready.congr rfl, hpresent, hcurrent⟩

/-- A page of the mapping, and the pages behind it. -/
theorem Ready.mapOrRelease {start : Nat} {field : ProcessMemory → Nat → ProcessMemory}
    {next next' : Vm → ProcessMemory → Except Fault (Bool × Vm × ProcessMemory)}
    (h : Ready vm (true :: tableSchedule (vm.present d) start ++ rest))
    (hmapped : ∀ a < 0x1000000, mapped a = true) (hdir : m.processPageDirectory = some d)
    (hnext : ∀ a vm1, MapsAt d start rest vm vm1 →
      next' vm1 (field m a) = next vm1 (field m a)) :
    mapOrReleaseMapped mapped start field vm m next' = Kfs.mapOrRelease start field vm m next := by
  refine ((h.allocProcessPage hmapped hdir).bind (R := fun _ => True) ?_).1
  rintro ⟨page, vm1⟩ hmaps
  cases page with
  | none => exact .refl fun _ _ => trivial
  | some a =>
      dsimp only
      rw [hnext a vm1 (hmaps a rfl)]
      exact .refl fun _ _ => trivial

/-- The next page of the schedule. -/
theorem MapsAt.next {vm' : Vm} {low : Bool} {w : Nat} {ws : List Nat}
    (h : MapsAt d v (mapSchedule low (Function.update (vm.present d) (pageDirIndex v) true)
      (w :: ws)) vm vm') :
    Ready vm' (low :: tableSchedule (vm'.present d) w
      ++ mapSchedule low (Function.update (vm'.present d) (pageDirIndex w) true) ws) := by
  have hready := h.ready
  rw [← h.present, mapSchedule] at hready
  exact hready

theorem processMemoryMapMapped_eq (hmapped : ∀ a < 0x1000000, mapped a = true)
    (hok : PmmOk vm.pmm) (hk : vm.kernelDirectory = some .kernel) {p : Slot} {base size : Nat}
    (hwithin : Within vm.pmm
      (mapSchedule true (vm.present .kernel) (processPages (baseOf base p)))) :
    processMemoryMapMapped mapped vm p (requestedMemory base size)
      = processMemoryMap vm p (requestedMemory base size) := by
  have hstarts : [(layoutMemory p (requestedMemory base size)).dataStart,
      (layoutMemory p (requestedMemory base size)).bssStart,
      (layoutMemory p (requestedMemory base size)).heapStart,
      (layoutMemory p (requestedMemory base size)).stackBase] = processPages (baseOf base p) := rfl
  have hdir : (layoutMemory p (requestedMemory base size)).processPageDirectory
      = some (.process p) := rfl
  obtain ⟨-, hpmm, hown⟩ := pagingCopyDirectory_spec vm p
  have hpresent : (pagingCopyDirectory vm (some (.process p)) (some .kernel)).present (.process p)
      = vm.present .kernel := by
    funext i
    unfold Vm.present
    exact congrArg (fun entry => decide (entry &&& pagePresent ≠ 0)) (congrFun hown i)
  unfold processMemoryMapMapped processMemoryMap
  dsimp only
  rw [hk, hdir]
  generalize layoutMemory p (requestedMemory base size) = m0 at *
  generalize pagingCopyDirectory vm (some (.process p)) (some .kernel) = vm0 at *
  rw [← hstarts, ← hpresent, ← hpmm] at hwithin
  have hready : Ready vm0 _ := ⟨hpmm ▸ hok, hwithin⟩
  rw [mapSchedule] at hready
  refine hready.mapOrRelease hmapped hdir fun a1 vm1 h1 => ?_
  refine h1.next.mapOrRelease hmapped (by exact hdir) fun a2 vm2 h2 => ?_
  refine h2.next.mapOrRelease hmapped (by exact hdir) fun a3 vm3 h3 => ?_
  exact h3.next.mapOrRelease hmapped (by exact hdir) fun a4 vm4 h4 => rfl

end Process

/-! ## Requests -/

/-- The frames for a process at `base` are low, tables and pages. -/
def Kernel.CreationLow (k : Kernel) (base : Nat) : Prop :=
  ∀ p, k.freeSlot = some p → Within k.vm.pmm (k.creationSchedule base p)

/-- The frames for tables and pages of processes that a request takes are
below 16 MB. -/
def SystemEvent.TakesLow (s : System) : SystemEvent → Prop
  | .vmalloc size => (∃ p heap, kmalloc s.2.heap 24 = .ok (p, heap) ∧ p ≠ 0) →
      Within s.vm.pmm (vmallocSchedule s.vm s.2 size)
  | .process (.createOwned ..) => s.1.CreationLow 0
  | .process (.fork source) => s.1.MayFork source → s.1.CreationLow 0
  | _ => True

section Requests

variable {mapped : Nat → Bool} {k : Kernel} {s : System}

theorem processCreateInternalMapped_eq (hmapped : ∀ a < 0x1000000, mapped a = true)
    (hok : PmmOk k.vm.pmm) (hk : k.vm.kernelDirectory = some .kernel) {base : Nat}
    (hlow : k.CreationLow base) (parent : Option Slot) (owner : Nat) (function : Option ExecFn)
    (size : Nat) :
    processCreateInternalMapped mapped k parent owner base function size
      = processCreateInternal k parent owner base function size := by
  unfold processCreateInternalMapped processCreateInternal
  rw [processAllocateSlot_eq]
  cases hslot : k.freeSlot with
  | none => rfl
  | some p =>
      dsimp only [Option.map_some]
      rw [prepare_eq k p owner base function size]
      have hmap : memoryMapOfMapped mapped (k.withProcess p
          (freshProcess k.nextPid owner function (requestedMemory base size)) k.vm) p
          = memoryMapOf (k.withProcess p
            (freshProcess k.nextPid owner function (requestedMemory base size)) k.vm) p := by
        unfold memoryMapOfMapped memoryMapOf
        rw [withProcess_self]
        exact congrArg (· >>= _) (processMemoryMapMapped_eq hmapped hok hk (hlow p hslot))
      exact congrArg (· >>= _) hmap

theorem forkProcessMapped_eq (hmapped : ∀ a < 0x1000000, mapped a = true)
    (hok : PmmOk k.vm.pmm) (hk : k.vm.kernelDirectory = some .kernel) {source : Option Slot}
    (hlow : k.MayFork source → k.CreationLow 0) :
    forkProcessMapped mapped k source = forkProcess k source := by
  unfold forkProcessMapped forkProcess
  cases source with
  | none => rfl
  | some p =>
      dsimp only
      by_cases hrefused : some p = k.kernelProcess ∨ (k.processTable p).entry = none
      · rw [if_pos hrefused, if_pos hrefused]
      · rw [if_neg hrefused, if_neg hrefused]
        have hlow' := hlow ⟨p, rfl, not_or.mp hrefused⟩
        exact congrArg (· >>= _) (processCreateInternalMapped_eq hmapped hok hk hlow' _ _ _ _)

/-- With low frames a request ends as without the tests. -/
theorem SystemEvent.execMapped_eq (hmapped : ∀ a < 0x1000000, mapped a = true)
    (hok : PmmOk s.vm.pmm) (hk : s.vm.kernelDirectory = some .kernel) {d : Directory}
    (hcurrent : s.vm.currentDirectory = some d) {e : SystemEvent} (hlow : e.TakesLow s) :
    e.execMapped mapped s = e.exec s := by
  cases e with
  | vmalloc size =>
      exact congrArg (Except.map _) (vmallocMapped_eq hmapped hok hcurrent hlow)
  | vfree p => rfl
  | mapPage virt phys flags => rfl
  | process e =>
      cases e with
      | createOwned owner function size =>
          have hcall : processCreateOwnedMapped mapped s.1 owner function size
              = processCreateOwned s.1 owner function size :=
            processCreateInternalMapped_eq hmapped hok hk hlow _ _ _ _
          show (processCreateOwnedMapped mapped s.1 owner function size).map _ = _
          rw [hcall]
          cases hresult : processCreateOwned s.1 owner function size <;>
            simp [SystemEvent.exec, Event.exec, hresult, Except.map]
      | fork source =>
          show (forkProcessMapped mapped s.1 source).map _ = _
          rw [forkProcessMapped_eq hmapped hok hk hlow]
          cases hresult : forkProcess s.1 source <;>
            simp [SystemEvent.exec, Event.exec, hresult, Except.map]
      | _ => rfl

end Requests

end Kfs
