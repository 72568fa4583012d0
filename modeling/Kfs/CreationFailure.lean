import Kfs.FrameSupply
import Kfs.ProcessUndo
import Kfs.SystemStable

/-!
# Failed creations

A creation that fails gives its pages back and zeroes its record, but
`process_page_table` is assigned only after the last page: a table that was
drawn on the way is lost. A pair whose second process fails releases the
first, and with it the table of its window, also when that is the kernel's.
`Event.Spares` is when neither happens, and a failed creation leaves the
kernel as it was exactly then (`systemRun_atomic`).
-/

namespace Kfs

/-- The slot `process_allocate_slot` finds. -/
def Kernel.freeSlot (k : Kernel) : Option Slot :=
  (List.finRange 16).tail.find? fun slot => !(k.processTable slot).used

/-- Of the machine, the directory of slot `p` and the memory may differ, and
the frames are accounted for elsewhere. -/
structure Elsewhere (p : Slot) (vm vm' : Vm) : Prop where
  others : ∀ d, d ≠ .process p → vm'.directories d = vm.directories d
  current : vm'.currentDirectory = vm.currentDirectory
  kernelDirectory : vm'.kernelDirectory = vm.kernelDirectory

/-- How `process_create_internal` ends with `n` spare frames. -/
inductive CreationEnds (k : Kernel) (base n : Nat) :
    Except Fault (Option Slot × Kernel) → Prop where
  | full (slot : k.freeSlot = none) : CreationEnds k base n (.ok (none, k))
  | short {p : Slot} {leak : List Nat} {k' : Kernel} (slot : k.freeSlot = some p)
      (turn : (k.vm.creationFrames base p)[n]? = some false)
      (count : leak.length = ((k.vm.creationFrames base p).take n).count true)
      (takes : Takes leak.toFinset k.vm.pmm k'.vm.pmm)
      (elsewhere : Elsewhere p k.vm k'.vm) : CreationEnds k base n (.ok (none, k'))
  | fatal {p : Slot} (slot : k.freeSlot = some p)
      (turn : (k.vm.creationFrames base p)[n]? = some true) :
      CreationEnds k base n (.error outOfTables)
  | done {p : Slot} {pages tables : List Nat} {k' : Kernel} (slot : k.freeSlot = some p)
      (turn : (k.vm.creationFrames base p).length ≤ n)
      (count : tables.length = (k.vm.creationFrames base p).count true)
      (draws : Draws (.process p) pages tables (k.vm.withCopy p) k'.vm)
      (supply : Supply k'.vm (n - (k.vm.creationFrames base p).length))
      (directory : (k'.processTable p).memory.processPageDirectory = some (.process p))
      (there : k'.vm.present (.process p) (pageDirIndex (baseOf base p)) = true)
      (addresses : (k'.processTable p).memory.addresses = pages.map (· * 4096)
        ++ [pageFrame (k'.vm.dirEntry (.process p) (pageDirIndex (baseOf base p)))]) :
      CreationEnds k base n (.ok (some p, k'))

section Ends

variable {k : Kernel} {l : List Slot} {kids : Slot → List Slot} {parent : Option Slot}
  {owner base size n : Nat} {function : Option ExecFn}

theorem processAllocateSlot_eq (k : Kernel) : processAllocateSlot k = k.freeSlot.map fun slot =>
    (slot, k.modify slot fun _ => { Process.zero with used := true }) := rfl

theorem freeSlot_some {p : Slot} (h : k.freeSlot = some p) :
    p ≠ 0 ∧ (k.processTable p).used = false := by
  have halloc := processAllocateSlot_eq k
  rw [h] at halloc
  obtain ⟨hp, hunused, -⟩ := processAllocateSlot_some halloc
  exact ⟨hp, hunused⟩

section Slot

variable {p : Slot} {vm : Vm} {memory : ProcessMemory} {k' : Kernel}

theorem memoryMapOf_of_ok {r : Process} {vm' : Vm} {ok : Bool}
    (h : processMemoryMap vm p r.memory = .ok (ok, vm', memory)) :
    memoryMapOf (k.withProcess p r vm) p
      = .ok (ok, k.withProcess p { r with memory := memory } vm') := by
  unfold memoryMapOf
  rw [withProcess_self, show (k.withProcess p r vm).vm = vm from rfl, h]
  refine congrArg (fun k => Except.ok (ok, k)) ?_
  unfold Kernel.withProcess Kernel.modify
  simp only [Function.update_self, Function.update_idem]

theorem processCreateInternal_full (h : k.freeSlot = none) :
    processCreateInternal k parent owner base function size = .ok (none, k) := by
  unfold processCreateInternal
  rw [processAllocateSlot_eq, h]
  rfl

theorem processCreateInternal_fatal {fault : Fault} (hslot : k.freeSlot = some p)
    (hmap : processMemoryMap k.vm p (requestedMemory base size) = .error fault) :
    processCreateInternal k parent owner base function size = .error fault := by
  unfold processCreateInternal
  rw [processAllocateSlot_eq, hslot]
  dsimp only [Option.map_some]
  rw [prepare_eq k p owner base function size]
  refine bind_of_error ?_
  unfold memoryMapOf
  rw [withProcess_self]
  exact bind_of_error hmap

theorem processCreateInternal_short (hslot : k.freeSlot = some p)
    (hmap : processMemoryMap k.vm p (requestedMemory base size) = .ok (false, vm, memory))
    (hrelease : processRelease
      (k.withProcess p (freshProcess k.nextPid owner function memory) vm) p = .ok k') :
    processCreateInternal k parent owner base function size = .ok (none, k') := by
  unfold processCreateInternal
  rw [processAllocateSlot_eq, hslot]
  dsimp only [Option.map_some]
  rw [prepare_eq k p owner base function size]
  have hmapOf := memoryMapOf_of_ok (k := k)
    (r := freshProcess k.nextPid owner function (requestedMemory base size)) hmap
  rw [hmapOf]
  show (processRelease (k.withProcess p (freshProcess k.nextPid owner function memory) vm) p
    >>= fun k' => pure (none, k')) = _
  rw [hrelease]
  rfl

theorem processCreateInternal_done (hslot : k.freeSlot = some p)
    (hmap : processMemoryMap k.vm p (requestedMemory base size) = .ok (true, vm, memory))
    (hlink : processLink
      (k.withProcess p (freshProcess k.nextPid owner function memory) vm) parent p = .ok k') :
    processCreateInternal k parent owner base function size = .ok (some p, k') := by
  unfold processCreateInternal
  rw [processAllocateSlot_eq, hslot]
  dsimp only [Option.map_some]
  rw [prepare_eq k p owner base function size]
  have hmapOf := memoryMapOf_of_ok (k := k)
    (r := freshProcess k.nextPid owner function (requestedMemory base size)) hmap
  rw [hmapOf]
  show (processLink (k.withProcess p (freshProcess k.nextPid owner function memory) vm) parent p
    >>= fun k' => pure (some p, k')) = _
  rw [hlink]
  rfl

end Slot

theorem elsewhere_copy (vm : Vm) (p : Slot) : Elsewhere p vm (vm.withCopy p) := by
  obtain ⟨hcopy, -, -⟩ := pagingCopyDirectory_spec vm p
  exact ⟨hcopy.directories, rfl, hcopy.kernelDirectory⟩

theorem Elsewhere.trans {p : Slot} {vm vm' vm'' : Vm} (h : Elsewhere p vm vm')
    (h' : Elsewhere p vm' vm'') : Elsewhere p vm vm'' where
  others d hd := (h'.others d hd).trans (h.others d hd)
  current := h'.current.trans h.current
  kernelDirectory := h'.kernelDirectory.trans h.kernelDirectory

/-- What becomes of a creation, for each supply of frames. -/
theorem LinkInv.creationEnds (h : LinkInv k l kids) (hs : Supply k.vm n)
    (hk : k.vm.kernelDirectory = some .kernel) {result : Except Fault (Option Slot × Kernel)}
    (call : processCreateInternal k parent owner base function size = result) :
    CreationEnds k base n result := by
  subst call
  cases hslot : k.freeSlot with
  | none =>
      rw [processCreateInternal_full hslot]
      exact .full hslot
  | some p =>
      obtain ⟨hp, hunused⟩ := freeSlot_some hslot
      have hends := processMemoryMap_ends hs hk p base size
      cases hmap : processMemoryMap k.vm p (requestedMemory base size) with
      | error fault =>
          rw [processCreateInternal_fatal hslot hmap]
          rw [hmap] at hends
          cases hends with
          | fatal turn => exact .fatal hslot turn
      | ok result =>
          obtain ⟨ok, vm, memory⟩ := result
          rw [hmap] at hends
          cases hends with
          | short turn count takes others current kernelDirectory =>
              obtain rfl := processMemoryMap_false hmap
              obtain ⟨hrelease, -, -⟩ := @LinkInv.scrap_eq k l kids p
                (freshProcess k.nextPid owner function processResetMemory) vm h hp hunused rfl
              obtain ⟨-, hvm⟩ := h.scrap_restored hp hunused rfl hrelease
              rw [processCreateInternal_short hslot hmap hrelease]
              refine .short hslot turn count (hvm ▸ takes) ?_
              rw [hvm]
              exact (elsewhere_copy k.vm p).trans ⟨others, current, kernelDirectory⟩
          | done turn count draws supply directory there addresses =>
              obtain ⟨k1, hlink, -⟩ := h.link hunused (@processLinkChild_childLinked k p
                (freshProcess k.nextPid owner function memory) vm parent rfl rfl rfl)
              obtain ⟨k', call⟩ : ∃ k', processCreateInternal k parent owner base function size
                  = .ok (some p, k') :=
                ⟨_, processCreateInternal_done hslot hmap (bind_of_ok hlink)⟩
              rw [call]
              obtain ⟨-, -, vm', memory', table, head, hmap', rfl, hnew, -⟩ := spawn_eq call
              obtain ⟨rfl, rfl⟩ := Prod.mk.inj
                (Prod.mk.inj (Except.ok.inj (hmap.symm.trans hmap'))).2
              have hmemory : (table p).memory = memory := core_memory hnew
              refine .done hslot turn count (draws.memory _) (supply.congr rfl) ?_ there ?_
              · exact (congrArg ProcessMemory.processPageDirectory hmemory).trans directory
              · exact (congrArg ProcessMemory.addresses hmemory).trans addresses

end Ends

/-! ## Atomicity -/

/-- Nothing has changed but `next_pid`, the contents of memory and the unused
slots with their directories. -/
structure Atomic (k k' : Kernel) : Prop where
  bitmap : k'.vm.pmm.frameBitmap = k.vm.pmm.frameBitmap
  usedFrames : k'.vm.pmm.usedFrames = k.vm.pmm.usedFrames
  restored : Restored k k'
  directories : ∀ d, (∀ p, d = .process p → (k.processTable p).used = true) →
    k'.vm.directories d = k.vm.directories d
  current : k'.vm.currentDirectory = k.vm.currentDirectory
  kernelDirectory : k'.vm.kernelDirectory = k.vm.kernelDirectory

/-- All of it but the frames. -/
structure Back (k k' : Kernel) : Prop where
  ok : PmmOk k'.vm.pmm
  total : k'.vm.pmm.totalFrames = k.vm.pmm.totalFrames
  restored : Restored k k'
  directories : ∀ d, (∀ p, d = .process p → (k.processTable p).used = true) →
    k'.vm.directories d = k.vm.directories d
  current : k'.vm.currentDirectory = k.vm.currentDirectory
  kernelDirectory : k'.vm.kernelDirectory = k.vm.kernelDirectory

section Atomicity

variable {k k' : Kernel} {l : List Slot} {kids : Slot → List Slot} {parent : Option Slot}
  {owner base size : Nat} {function : Option ExecFn}

/-- What is left is which frames are used. -/
theorem Back.atomic_iff (h : Back k k') (hok : PmmOk k.vm.pmm) :
    Atomic k k' ↔ usedSet k'.vm.pmm = usedSet k.vm.pmm := by
  constructor
  · intro ha
    ext f
    rw [mem_usedSet, mem_usedSet, h.total]
    unfold bitmapTest
    rw [ha.bitmap]
  · intro hused
    refine ⟨frameBitmap_eq h.ok hok h.total hused, ?_, h.restored, h.directories, h.current,
      h.kernelDirectory⟩
    rw [h.ok.exact, hok.exact, hused]

theorem Back.refl (hok : PmmOk k.vm.pmm) : Back k k :=
  ⟨hok, rfl, Restored.refl k, fun _ _ => rfl, rfl, rfl⟩

/-- What comes on top is seen. -/
theorem union_toFinset_eq {used : Finset Nat} {leak : List Nat}
    (h : Disjoint used leak.toFinset) : used ∪ leak.toFinset = used ↔ leak = [] := by
  rw [Finset.union_eq_left]
  constructor
  · intro hsub
    refine List.eq_nil_iff_forall_not_mem.mpr fun f hf => ?_
    have hf' := List.mem_toFinset.mpr hf
    exact Finset.disjoint_left.mp h (hsub hf') hf'
  · rintro rfl
    exact Finset.empty_subset used

theorem Takes.used_iff {leak : List Nat} {p p' : Pmm} (h : Takes leak.toFinset p p') :
    usedSet p' = usedSet p ↔ leak = [] := by
  rw [h.used]
  exact union_toFinset_eq h.fresh

/-- What was not there is not missed. -/
theorem sdiff_frameSet {used : Finset Nat} {page : Nat} :
    used \ frameSet page = used ↔ (page ≠ 0 → page / 4096 ∉ used) := by
  rw [Finset.sdiff_eq_self_iff_disjoint, Finset.disjoint_right]
  constructor
  · intro h hpage
    exact h (mem_frameSet.mpr ⟨hpage, rfl⟩)
  · intro h f hf
    obtain ⟨hpage, rfl⟩ := mem_frameSet.mp hf
    exact h hpage

theorem Elsewhere.directories {p : Slot} (h : Elsewhere p k.vm k'.vm)
    (hunused : (k.processTable p).used = false) (d : Directory)
    (hd : ∀ q, d = .process q → (k.processTable q).used = true) :
    k'.vm.directories d = k.vm.directories d := by
  refine h.others d ?_
  rintro rfl
  rw [hd p rfl] at hunused
  cases hunused

/-- The frames a failing creation takes for page tables are lost, so it must
not get to any; and if frame 0 is free, it is taken and its address is taken
for a failure. -/
def Kernel.SparesTables (k : Kernel) (base : Nat) : Prop :=
  ∀ p, k.freeSlot = some p → 0 ∉ spare k.vm.pmm
    ∧ true ∉ (k.vm.creationFrames base p).take (spare k.vm.pmm).card

/-- With frame 0 free a creation fails, and takes it. -/
theorem LinkInv.creation_zero {p : Slot} (h : LinkInv k l kids) (hslot : k.freeSlot = some p)
    (hk : k.vm.kernelDirectory = some .kernel) (hzero : 0 ∈ spare k.vm.pmm) :
    ∃ k', processCreateInternal k parent owner base function size = .ok (none, k')
      ∧ k'.vm = { k.vm.withCopy p with pmm := takeFrame 0 k.vm.pmm } := by
  obtain ⟨hp, hunused⟩ := freeSlot_some hslot
  have hmap := processMemoryMap_zero hzero hk p base size
  obtain ⟨hrelease, -, -⟩ := @LinkInv.scrap_eq k l kids p
    (freshProcess k.nextPid owner function processResetMemory) _ h hp hunused rfl
  obtain ⟨-, hvm⟩ := h.scrap_restored hp hunused rfl hrelease
  exact ⟨_, processCreateInternal_short hslot hmap hrelease, hvm⟩

/-- A creation that fails leaves everything as it was, the frames only if it
got to no page table. -/
theorem LinkInv.creation_back (h : LinkInv k l kids) (hok : PmmOk k.vm.pmm)
    (hk : k.vm.kernelDirectory = some .kernel)
    (call : processCreateInternal k parent owner base function size = .ok (none, k')) :
    Back k k' ∧ ∃ leak : List Nat, Takes leak.toFinset k.vm.pmm k'.vm.pmm
      ∧ (leak = [] ↔ k.SparesTables base) := by
  obtain ⟨hrestored, -⟩ := h.missed_restored call
  have hfull : k.freeSlot = none → k.SparesTables base := by
    intro hslot p hp
    rw [hslot] at hp
    cases hp
  by_cases hzero : 0 ∈ spare k.vm.pmm
  · cases hslot : k.freeSlot with
    | none =>
        obtain ⟨-, rfl⟩ := Prod.mk.inj
          (Except.ok.inj ((processCreateInternal_full hslot).symm.trans call))
        exact ⟨Back.refl hok, [], Takes.refl hok, fun _ => hfull hslot, fun _ => rfl⟩
    | some p =>
        obtain ⟨k1, call', hvm⟩ := h.creation_zero hslot hk hzero
        obtain ⟨-, rfl⟩ := Prod.mk.inj (Except.ok.inj (call'.symm.trans call))
        obtain ⟨hlt, hfree⟩ := mem_spare.mp hzero
        have htakes : Takes [0].toFinset k.vm.pmm k1.vm.pmm := by
          rw [hvm]
          exact takes_takeFrame hok (by omega) hfree
        have helsewhere : Elsewhere p k.vm k1.vm := by
          rw [hvm]
          exact (elsewhere_copy k.vm p).trans ⟨fun _ _ => rfl, rfl, rfl⟩
        refine ⟨⟨htakes.ok, htakes.total, hrestored,
          helsewhere.directories (freeSlot_some hslot).2, helsewhere.current,
          helsewhere.kernelDirectory⟩, [0], htakes, ?_⟩
        constructor
        · intro hnil
          cases hnil
        · intro hspares
          exact absurd hzero (hspares p hslot).1
  · cases h.creationEnds ⟨hok, hzero, rfl⟩ hk call with
    | full hslot =>
        exact ⟨Back.refl hok, [], Takes.refl hok, fun _ => hfull hslot, fun _ => rfl⟩
    | @short p leak _ hslot turn count takes elsewhere =>
        refine ⟨⟨takes.ok, takes.total, hrestored, elsewhere.directories (freeSlot_some hslot).2,
          elsewhere.current, elsewhere.kernelDirectory⟩, leak, takes, ?_⟩
        rw [← List.length_eq_zero_iff, count, List.count_eq_zero]
        constructor
        · intro hnot q hq
          obtain rfl := Option.some.inj (hslot.symm.trans hq)
          exact ⟨hzero, hnot⟩
        · intro hspares
          exact (hspares p hslot).2

/-! ## Pairs -/

/-- The slot the second process of a pair gets. -/
def Kernel.secondSlot (k : Kernel) (p : Slot) : Option Slot :=
  (List.finRange 16).tail.find? fun slot => decide (slot ≠ p) && !(k.processTable slot).used

/-- The same for a pair, whose first process is released if there is nothing
for the second. It has a table of its own, or shares one of the kernel's,
which is then freed with it. -/
def Kernel.SparesPair (k : Kernel) : Prop :=
  ∀ p, k.freeSlot = some p → 0 ∉ spare k.vm.pmm
    ∧ ((spare k.vm.pmm).card < (k.vm.creationFrames 0 p).length →
      true ∉ (k.vm.creationFrames 0 p).take (spare k.vm.pmm).card)
    ∧ ((k.vm.creationFrames 0 p).length ≤ (spare k.vm.pmm).card →
      (∀ q, k.secondSlot p = some q → true ∉ (k.vm.creationFrames 0 q).take
        ((spare k.vm.pmm).card - (k.vm.creationFrames 0 p).length))
      ∧ (k.vm.present .kernel 8 = true → pageFrame (k.vm.dirEntry .kernel 8) ≠ 0 →
        pageFrame (k.vm.dirEntry .kernel 8) / 4096 ∉ usedSet k.vm.pmm))

theorem KernelEffect.freeSlot {p : Slot} (hx : KernelEffect k (.spawn p parent base) k') :
    k'.freeSlot = k.secondSlot p := by
  obtain ⟨-, -, ⟨owner, function, memory, hnew⟩, hcore⟩ := hx.spawn_table
  have hused : (k'.processTable p).used = true := core_used hnew
  unfold Kernel.freeSlot Kernel.secondSlot
  refine congrArg (fun test => List.find? test _) (funext fun slot => ?_)
  by_cases hslot : slot = p
  · rw [hslot, hused]
    simp
  · rw [core_used (hcore slot hslot)]
    simp [hslot]

theorem processPages_pageFrom (base : Nat) :
    processPages base = [pageFrom base 0, pageFrom base 1, pageFrom base 2, pageFrom base 3] := rfl

/-- All pages of a process at its default base are in window 8. -/
theorem creationFrames_default (vm : Vm) (p : Slot) : vm.creationFrames 0 p
    = if vm.present .kernel 8 = true then [false, false, false, false]
      else [false, true, false, false, false] := by
  have hwindow := inWindow_slot p
  unfold Vm.creationFrames
  rw [baseOf_zero, processPages_pageFrom]
  simp only [mapSchedule, tableSchedule, (hwindow 0 (by omega)).1, (hwindow 1 (by omega)).1,
    (hwindow 2 (by omega)).1, (hwindow 3 (by omega)).1, Function.update_self]
  split <;> rfl

/-- The frames of a record whose fields are `pages`, then a table. -/
theorem frames_of_mapped {m : ProcessMemory} {pages : List Nat} {table : Nat}
    (h : m.addresses = pages.map (· * 4096) ++ [table]) (hpages : ∀ f ∈ pages, f ≠ 0)
    (htable : table % 4096 = 0) :
    m.frames = pages.toFinset ∪ frameSet table ∧ ∀ a ∈ m.addresses, a % 4096 = 0 := by
  have hmem : ∀ a, a ∈ m.addresses ↔ (∃ f ∈ pages, f * 4096 = a) ∨ a = table := by
    intro a
    rw [h, List.mem_append, List.mem_map, List.mem_singleton]
  constructor
  · ext f
    rw [mem_frames, Finset.mem_union, List.mem_toFinset, mem_frameSet]
    constructor
    · rintro ⟨a, ha, hne, rfl⟩
      rcases (hmem a).mp ha with ⟨g, hg, rfl⟩ | rfl
      · rw [Nat.mul_div_cancel g (by omega)]
        exact Or.inl hg
      · exact Or.inr ⟨hne, rfl⟩
    · rintro (hf | ⟨hne, rfl⟩)
      · have hpos := hpages f hf
        exact ⟨f * 4096, (hmem _).mpr (Or.inl ⟨f, hf, rfl⟩), by omega,
          (Nat.mul_div_cancel f (by omega)).symm⟩
      · exact ⟨table, (hmem table).mpr (Or.inr rfl), hne, rfl⟩
  · intro a ha
    rcases (hmem a).mp ha with ⟨g, -, rfl⟩ | rfl
    · exact Nat.mul_mod_left g 4096
    · exact htable

section Given

variable {d : Directory} {vm vm1 vm2 vm3 : Vm} {pages tables leak : List Nat} {table t : Nat}

/-- Taking `pages` and `tables`, losing `leak` and giving back `pages` and the
frame of `table`. -/
theorem used_undone (hdraws : Draws d pages tables vm vm1)
    (htakes : Takes leak.toFinset vm1.pmm vm2.pmm)
    (hgives : Gives (pages.toFinset ∪ frameSet table) vm2.pmm vm3.pmm) :
    usedSet vm3.pmm = (usedSet vm.pmm ∪ tables.toFinset ∪ leak.toFinset) \ frameSet table := by
  have hfresh : ∀ f, f ∈ usedSet vm.pmm ∨ f ∈ tables ∨ f ∈ leak → f ∉ pages := by
    rintro f (hf | hf | hf) hin
    · exact Finset.disjoint_left.mp hdraws.takes.fresh hf
        (List.mem_toFinset.mpr (List.mem_append_left _ hin))
    · exact (List.nodup_append.mp hdraws.nodup).2.2 f hin f hf rfl
    · refine Finset.disjoint_right.mp htakes.fresh (List.mem_toFinset.mpr hf) ?_
      rw [hdraws.takes.used]
      exact Finset.mem_union_right _ (List.mem_toFinset.mpr (List.mem_append_left _ hin))
  rw [hgives.used, htakes.used, hdraws.takes.used]
  ext f
  have hf := hfresh f
  simp only [Finset.mem_sdiff, Finset.mem_union, List.mem_toFinset, List.mem_append]
  tauto

/-- Without a table taken and anything lost, `table` is given back too much. -/
theorem used_shared (hdraws : Draws d pages [] vm vm1)
    (htakes : Takes ([] : List Nat).toFinset vm1.pmm vm2.pmm)
    (hgives : Gives (pages.toFinset ∪ frameSet table) vm2.pmm vm3.pmm) :
    usedSet vm3.pmm = usedSet vm.pmm ↔ (table ≠ 0 → table / 4096 ∉ usedSet vm.pmm) := by
  rw [used_undone hdraws htakes hgives, List.toFinset_nil, Finset.union_empty, Finset.union_empty]
  exact sdiff_frameSet

/-- With the table that was taken given back, what was lost is left. -/
theorem used_own (hdraws : Draws d pages [t] vm vm1)
    (htakes : Takes leak.toFinset vm1.pmm vm2.pmm)
    (hgives : Gives (pages.toFinset ∪ frameSet (t * 4096)) vm2.pmm vm3.pmm) :
    usedSet vm3.pmm = usedSet vm.pmm ↔ leak = [] := by
  have hmem : t ∈ pages ++ [t] := List.mem_append_right _ (List.mem_singleton_self t)
  have hne := hdraws.ne_zero t hmem
  have htaken : t ∈ (pages ++ [t]).toFinset := List.mem_toFinset.mpr hmem
  have hused1 := hdraws.takes.used
  have hold : t ∉ usedSet vm.pmm := fun hin =>
    Finset.disjoint_left.mp hdraws.takes.fresh hin htaken
  have hlost : t ∉ leak.toFinset := fun hin =>
    Finset.disjoint_left.mp htakes.fresh (hused1 ▸ Finset.mem_union_right _ htaken) hin
  have hfresh : Disjoint (usedSet vm.pmm) leak.toFinset :=
    Finset.disjoint_of_subset_left (hused1 ▸ Finset.subset_union_left) htakes.fresh
  have hmine : frameSet (t * 4096) = {t} := by
    rw [frameSet, if_neg (by omega), Nat.mul_div_cancel t (by omega)]
  have hset : (usedSet vm.pmm ∪ [t].toFinset ∪ leak.toFinset) \ {t}
      = usedSet vm.pmm ∪ leak.toFinset := by
    rw [Finset.union_right_comm, List.toFinset_cons, List.toFinset_nil, insert_empty_eq,
      Finset.union_sdiff_right]
    refine Finset.sdiff_eq_self_iff_disjoint.mpr (Finset.disjoint_singleton_right.mpr ?_)
    rw [Finset.mem_union]
    exact not_or.mpr ⟨hold, hlost⟩
  rw [used_undone hdraws htakes hgives, hmine, hset]
  exact union_toFinset_eq hfresh

end Given

/-! ### The table of window 8 -/

section Default

variable {p : Slot} {vm vm1 : Vm} {pages tables : List Nat}
  (draws : Draws (.process p) pages tables (vm.withCopy p) vm1)
  (count : tables.length = (vm.creationFrames 0 p).count true)

include draws count

/-- A process at its default base shares the table the kernel has there. -/
theorem Draws.sharedTable (hpresent : vm.present .kernel 8 = true) :
    tables = [] ∧ pageFrame (vm1.dirEntry (.process p) 8) = pageFrame (vm.dirEntry .kernel 8) := by
  have hown : (vm.withCopy p).directories (.process p) = vm.directories .kernel :=
    (pagingCopyDirectory_spec vm p).2.2
  rw [creationFrames_default, if_pos hpresent] at count
  refine ⟨List.length_eq_zero_iff.mp count, ?_⟩
  rw [(draws.kept 8 (by rw [withCopy_present, hpresent])).2]
  unfold Vm.dirEntry
  rw [hown]

/-- Or has one of its own. -/
theorem Draws.ownTable (habsent : vm.present .kernel 8 = false)
    (there : vm1.present (.process p) 8 = true) :
    ∃ t, tables = [t] ∧ pageFrame (vm1.dirEntry (.process p) 8) = t * 4096 := by
  rw [creationFrames_default, habsent] at count
  obtain ⟨t, rfl⟩ := List.length_eq_one_iff.mp count
  obtain ⟨t', ht, hframe⟩ := draws.new 8 (by rw [withCopy_present, habsent]) there
  obtain rfl := List.mem_singleton.mp ht
  exact ⟨t', rfl, hframe⟩

end Default

section Pair

variable {p : Slot} {k1 k2 : Kernel} {parent' : Option Slot} {owner' size' : Nat}
  {function' : Option ExecFn}

/-- The condition, for the frames `leak` that were lost with the second
process. -/
theorem sparesPair_iff {leak : List Nat} (hslot : k.freeSlot = some p)
    (hzero : 0 ∉ spare k.vm.pmm)
    (hturn : (k.vm.creationFrames 0 p).length ≤ (spare k.vm.pmm).card)
    (hleak : leak = [] ↔ ∀ q, k.secondSlot p = some q → true ∉ (k.vm.creationFrames 0 q).take
      ((spare k.vm.pmm).card - (k.vm.creationFrames 0 p).length)) :
    k.SparesPair ↔ leak = [] ∧ (k.vm.present .kernel 8 = true →
      pageFrame (k.vm.dirEntry .kernel 8) ≠ 0 →
      pageFrame (k.vm.dirEntry .kernel 8) / 4096 ∉ usedSet k.vm.pmm) := by
  rw [hleak]
  constructor
  · intro h
    exact (h p hslot).2.2 hturn
  · intro h q hq
    obtain rfl := Option.some.inj (hslot.symm.trans hq)
    exact ⟨hzero, fun hlt => absurd hlt (by omega), fun _ => h⟩

/-- The windows of the kernel that have tables are the same in both. -/
theorem creationFrames_congr {vm vm' : Vm} (h : vm'.directories .kernel = vm.directories .kernel)
    (base : Nat) (q : Slot) : vm'.creationFrames base q = vm.creationFrames base q := by
  have hpresent : vm'.present .kernel = vm.present .kernel := by
    funext i
    unfold Vm.present Vm.dirEntry
    rw [h]
  unfold Vm.creationFrames
  rw [hpresent]

theorem LinkInv.first_slot (h : LinkInv k l kids) (hk : k.vm.kernelDirectory = some .kernel)
    (first : processCreateInternal k parent owner base function size = .ok (some p, k1)) :
    0 ∉ spare k.vm.pmm := by
  intro hzero
  cases hslot : k.freeSlot with
  | none => cases (processCreateInternal_full hslot).symm.trans first
  | some q =>
      obtain ⟨k', call, -⟩ := h.creation_zero hslot hk hzero
      cases call.symm.trans first

/-- A pair whose second process fails. -/
theorem LinkInv.pair_released (h : LinkInv k l kids) (hok : PmmOk k.vm.pmm)
    (hk : k.vm.kernelDirectory = some .kernel)
    (first : processCreateInternal k parent owner 0 function size = .ok (some p, k1))
    (second : processCreateInternal k1 parent' owner' 0 function' size' = .ok (none, k2))
    (release : processRelease k2 p = .ok k') :
    Back k k' ∧ (usedSet k'.vm.pmm = usedSet k.vm.pmm ↔ k.SparesPair) := by
  have hzero := h.first_slot hk first
  cases h.creationEnds ⟨hok, hzero, rfl⟩ hk first with
  | @done _ pages tables _ hslot turn count draws supply directory there addresses =>
      have hx : KernelEffect k (.spawn p parent 0) k1 := .spawn first
      obtain ⟨hp0, -, ⟨_, _, _, hnew⟩, hcore⟩ := hx.spawn_table
      obtain ⟨hunused, h1⟩ := h.spawned hx
      have hcopy := elsewhere_copy k.vm p
      have hkernel1 := draws.kernelDirectory.trans (hcopy.kernelDirectory.trans hk)
      obtain ⟨hback, leak, htakes, hleak⟩ := h1.creation_back supply.ok hkernel1 second
      obtain ⟨hrestored, kids2, h2, hkids⟩ := h1.missed_restored second
      have hundone := h.undone first h2 hrestored hkids release
      have hpk : some p ≠ k2.kernelProcess := by
        rw [h2.kernel]
        exact fun he => hp0 (Option.some.inj he)
      obtain ⟨table, head, rfl, -, -⟩ := processRelease_eq hpk release
      -- what the release gives back
      obtain ⟨hframes, hwhole⟩ := frames_of_mapped addresses
        (fun f hf => draws.ne_zero f (List.mem_append_left _ hf)) (pageFrame_whole _)
      have hrel := processReleaseMemory_releases hback.ok directory hwhole
      rw [hframes, ← hrestored.records p (core_used hnew)] at hrel
      have hlost : leak = [] ↔ ∀ q, k.secondSlot p = some q → true ∉
          (k.vm.creationFrames 0 q).take
            ((spare k.vm.pmm).card - (k.vm.creationFrames 0 p).length) := by
        have hsame := creationFrames_congr ((draws.others .kernel nofun).trans
          (hcopy.others .kernel nofun)) 0
        rw [hleak, Kernel.SparesTables, hx.freeSlot, supply.card]
        simp only [hsame]
        exact forall₂_congr fun q _ => and_iff_right supply.zero
      refine ⟨⟨hrel.gives.ok, hrel.gives.total.trans (htakes.total.trans draws.takes.total),
        hundone, ?_, hrel.current.trans (hback.current.trans (draws.current.trans hcopy.current)),
        hrel.kernelDirectory.trans (hback.kernelDirectory.trans
          (draws.kernelDirectory.trans hcopy.kernelDirectory))⟩, ?_⟩
      · intro d hd
        have hdp : d ≠ .process p := by
          rintro rfl
          rw [hd p rfl] at hunused
          cases hunused
        have hd1 : ∀ q, d = .process q → (k1.processTable q).used = true := by
          rintro q rfl
          exact (core_used (hcore q fun hq => hdp (hq ▸ rfl))).trans (hd q rfl)
        exact (hrel.others d hdp).trans ((hback.directories d hd1).trans
          ((draws.others d hdp).trans (hcopy.others d hdp)))
      · rw [sparesPair_iff hslot hzero turn hlost]
        have hw : pageDirIndex (baseOf 0 p) = 8 := by
          rw [baseOf_zero]
          exact (inWindow_slot p 0 (by omega)).1
        rw [hw] at there hrel
        cases hpresent : k.vm.present .kernel 8 with
        | true =>
            obtain ⟨rfl, htable⟩ := draws.sharedTable count hpresent
            -- with the table there, nothing can be lost
            obtain rfl : leak = [] := hlost.mpr fun q _ hin => by
              have hin' := List.mem_of_mem_take hin
              rw [creationFrames_default, if_pos hpresent] at hin'
              exact absurd hin' (by decide)
            rw [htable] at hrel
            refine (used_shared draws htakes hrel.gives).trans ?_
            exact ⟨fun h => ⟨rfl, fun _ => h⟩, fun h => h.2 rfl⟩
        | false =>
            obtain ⟨t, rfl, htable⟩ := draws.ownTable count hpresent there
            rw [htable] at hrel
            exact (used_own draws htakes hrel.gives).trans (and_iff_left nofun).symm

theorem LinkInv.short_turn (h : LinkInv k l kids) (hok : PmmOk k.vm.pmm)
    (hk : k.vm.kernelDirectory = some .kernel) (hslot : k.freeSlot = some p)
    (hzero : 0 ∉ spare k.vm.pmm)
    (call : processCreateInternal k parent owner base function size = .ok (none, k')) :
    (spare k.vm.pmm).card < (k.vm.creationFrames base p).length := by
  cases h.creationEnds ⟨hok, hzero, rfl⟩ hk call with
  | full hnone => cases hnone.symm.trans hslot
  | short hslot' turn =>
      obtain rfl := Option.some.inj (hslot.symm.trans hslot')
      exact (List.getElem?_eq_some_iff.mp turn).1

theorem LinkInv.pair_back {value : Nat} (h : LinkInv k l kids) (hok : PmmOk k.vm.pmm)
    (hk : k.vm.kernelDirectory = some .kernel)
    (call : processSpawnDemoSocketPair k owner value = .ok (none, k')) :
    Back k k' ∧ (usedSet k'.vm.pmm = usedSet k.vm.pmm ↔ k.SparesPair) := by
  obtain ⟨⟨first, k1⟩, hfirst, call⟩ := bind_eq_ok.mp call
  cases first with
  | none =>
      obtain ⟨-, rfl⟩ := Prod.mk.inj (Except.ok.inj call)
      obtain ⟨hback, leak, htakes, hleak⟩ := h.creation_back hok hk hfirst
      refine ⟨hback, htakes.used_iff.trans (hleak.trans ?_)⟩
      refine forall₂_congr fun p hslot => and_congr_right fun hzero => ?_
      have hlt := h.short_turn hok hk hslot hzero hfirst
      exact ⟨fun hnot => ⟨fun _ => hnot, fun hle => absurd hlt (by omega)⟩,
        fun hpair => hpair.1 hlt⟩
  | some p =>
      obtain ⟨⟨second, k2⟩, hsecond, call⟩ := bind_eq_ok.mp call
      cases second with
      | none =>
          obtain ⟨k3, hrelease, call⟩ := bind_eq_ok.mp call
          obtain ⟨-, rfl⟩ := Prod.mk.inj (Except.ok.inj call)
          exact h.pair_released hok hk hfirst hsecond hrelease
      | some q => cases (Prod.mk.inj (Except.ok.inj call)).1

end Pair

end Atomicity

/-! ## Events -/

/-- `fork_process` does not refuse `source`. -/
def Kernel.MayFork (k : Kernel) (source : Option Slot) : Prop :=
  ∃ p, source = some p ∧ some p ≠ k.kernelProcess ∧ (k.processTable p).entry ≠ none

/-- What keeps an event that fails to create its processes from losing or
freeing frames. -/
def Event.Spares (k : Kernel) : Event → Prop
  | .createOwned .. => k.SparesTables 0
  | .execFn addr .. => k.SparesTables addr
  | .fork source => k.MayFork source → k.SparesTables 0
  | .spawnDemoCounter .. => k.SparesTables 0
  | .spawnDemoSocketPair .. => k.SparesPair
  | _ => True

/-- The call returned `NULL`, or `-1`. -/
def Reply.Failed (r : Reply) : Prop := r = .created none ∨ r = .createdPair none

theorem Reply.Failed.created {c : Option Slot} (h : (Reply.created c).Failed) : c = none := by
  simpa [Reply.Failed] using h

theorem Reply.Failed.createdPair {pair : Option (Slot × Slot)}
    (h : (Reply.createdPair pair).Failed) : pair = none := by
  simpa [Reply.Failed] using h

section Events

variable {k k' : Kernel} {l : List Slot} {kids : Slot → List Slot}

theorem LinkInv.creation_spares {parent : Option Slot} {owner base size : Nat}
    {function : Option ExecFn} (h : LinkInv k l kids) (hok : PmmOk k.vm.pmm)
    (hk : k.vm.kernelDirectory = some .kernel)
    (call : processCreateInternal k parent owner base function size = .ok (none, k')) :
    Back k k' ∧ (usedSet k'.vm.pmm = usedSet k.vm.pmm ↔ k.SparesTables base) := by
  obtain ⟨hback, leak, htakes, hleak⟩ := h.creation_back hok hk call
  exact ⟨hback, htakes.used_iff.trans hleak⟩

/-- Fork either refuses, or is a creation. -/
theorem LinkInv.fork_spares {source : Option Slot} (h : LinkInv k l kids) (hok : PmmOk k.vm.pmm)
    (hk : k.vm.kernelDirectory = some .kernel)
    (call : forkProcess k source = .ok (none, k')) :
    Back k k' ∧ (usedSet k'.vm.pmm = usedSet k.vm.pmm ↔ (Event.fork source).Spares k) := by
  unfold forkProcess at call
  cases source with
  | none =>
      obtain ⟨-, rfl⟩ := Prod.mk.inj (Except.ok.inj call)
      exact ⟨Back.refl hok, fun _ ⟨_, hp, _⟩ => (nomatch hp), fun _ => rfl⟩
  | some p =>
      dsimp only at call
      split at call
      · next hrefused =>
          obtain ⟨-, rfl⟩ := Prod.mk.inj (Except.ok.inj call)
          refine ⟨Back.refl hok, fun _ ⟨q, hq, hne, hentry⟩ => ?_, fun _ => rfl⟩
          obtain rfl := Option.some.inj hq
          exact absurd hrefused (not_or.mpr ⟨hne, hentry⟩)
      · next hasked =>
          obtain ⟨⟨created, k1⟩, hcreate, call⟩ := bind_eq_ok.mp call
          cases created with
          | some c => cases (Prod.mk.inj (Except.ok.inj call)).1
          | none =>
              obtain ⟨-, rfl⟩ := Prod.mk.inj (Except.ok.inj call)
              obtain ⟨hback, hspares⟩ := h.creation_spares hok hk hcreate
              refine ⟨hback, hspares.trans ⟨fun hs _ => hs, fun hs => hs ⟨p, rfl, ?_⟩⟩⟩
              exact not_or.mp hasked

theorem LinkInv.failed_back {e : Event} {r : Reply} (h : LinkInv k l kids)
    (hok : PmmOk k.vm.pmm) (hk : k.vm.kernelDirectory = some .kernel) (hfailed : r.Failed)
    (call : e.exec k = .ok (r, k')) :
    Back k k' ∧ (usedSet k'.vm.pmm = usedSet k.vm.pmm ↔ e.Spares k) := by
  cases e with
  | createOwned owner function size =>
      obtain ⟨created, rfl, hcall⟩ := map_reply_eq_ok.mp call
      obtain rfl := hfailed.created
      exact h.creation_spares hok hk hcall
  | execFn addr function size =>
      obtain ⟨created, rfl, hcall⟩ := map_reply_eq_ok.mp call
      obtain rfl := hfailed.created
      exact h.creation_spares hok hk hcall
  | fork source =>
      obtain ⟨created, rfl, hcall⟩ := map_reply_eq_ok.mp call
      obtain rfl := hfailed.created
      exact h.fork_spares hok hk hcall
  | spawnDemoCounter owner seed limit =>
      obtain ⟨created, rfl, hcall⟩ := map_reply_eq_ok.mp call
      obtain rfl := hfailed.created
      obtain ⟨⟨created, k2⟩, hcreate, hcall⟩ := bind_eq_ok.mp hcall
      cases created with
      | some c => cases (Prod.mk.inj (Except.ok.inj hcall)).1
      | none =>
          obtain ⟨-, rfl⟩ := Prod.mk.inj (Except.ok.inj hcall)
          exact h.creation_spares hok hk hcreate
  | spawnDemoSocketPair owner value =>
      obtain ⟨pair, rfl, hcall⟩ := map_reply_eq_ok.mp call
      obtain rfl := hfailed.createdPair
      exact h.pair_back hok hk hcall
  | exit | deliverSignal | socketRecv | schedulerTick | yield =>
      obtain ⟨rfl, -⟩ := Prod.mk.inj (Except.ok.inj call)
      simp [Reply.Failed] at hfailed
  | wait | sendSignal | socketSend | schedule =>
      obtain ⟨_, -, heq⟩ := map_eq_ok.mp call
      obtain ⟨rfl, -⟩ := Prod.mk.inj heq
      simp [Reply.Failed] at hfailed

end Events

theorem systemRun_atomic {vm : Vm} {heap : Heap} (hboot : Booted vm heap)
    {labels : List (SystemEvent × SystemReply)} {s s' : System}
    (hrun : Run SystemStep (systemInit vm heap) labels s) {e : Event} {r : Reply}
    (hfailed : r.Failed) (hstep : SystemStep s (.process e, .reply r) s') :
    Atomic s.1 s'.1 ↔ e.Spares s.1 := by
  have hsound := systemRun_sound hboot hrun
  obtain ⟨l, kids, hlinks⟩ := hsound.linkage
  obtain ⟨-, hcall⟩ := hstep.kernel
  obtain ⟨hback, hused⟩ := hlinks.failed_back hsound.ok hsound.kernelDirectory hfailed hcall
  exact (hback.atomic_iff hsound.ok).trans hused

/-- A process and a region leave two frames. The next process shares the page
table of the region: it gets two pages, fails at the third and returns them. -/
theorem systemRun_atomic_rollback :
    ∃ s s', Run SystemStep (systemInit (machine 4096 4080) machineHeap)
        [(.process (.createOwned 0 none 0), .reply (.created (some 1))),
          (.vmalloc 0x8000, .address 0x1000000)] s
      ∧ SystemStep s (.process (.execFn 0x01100000 none 0), .reply (.created none)) s'
      ∧ (spare s.vm.pmm).card = 2 ∧ Atomic s.1 s'.1 := by
  obtain ⟨s, s', hrun, hfail, hslot, hcard, hzero, htables⟩ :=
    execRun_observe_two systemExec_step (systemInit (machine 4096 4080) machineHeap)
      [.process (.createOwned 0 none 0), .vmalloc 0x8000]
      [.reply (.created (some 1)), .address 0x1000000]
      [.process (.execFn 0x01100000 none 0)] [.reply (.created none)]
      (fun s _ => s.1.freeSlot = some 2 ∧ (spare s.vm.pmm).card = 2 ∧ 0 ∉ spare s.vm.pmm
        ∧ true ∉ (s.vm.creationFrames 0x01100000 2).take 2) (by decide +kernel)
  have hboot : Booted (machine 4096 4080) machineHeap :=
    rangeMachine_booted (by decide) (by decide) (by decide)
  refine ⟨s, s', hrun, hfail.of_one, hcard,
    (systemRun_atomic hboot hrun (Or.inl rfl) hfail.of_one).mpr ?_⟩
  intro p hp
  obtain rfl := Option.some.inj (hslot.symm.trans hp)
  exact ⟨hzero, by rwa [show s.1.vm = s.vm from rfl, hcard]⟩

/-- With eight frames, the first process takes five. The second finds a page,
a table and a page, and returns the pages. -/
theorem systemRun_table_lost :
    Booted (machine 4096 4088) machineHeap
      ∧ ∃ s s', Run SystemStep (systemInit (machine 4096 4088) machineHeap)
          [(.process (.createOwned 0 none 0), .reply (.created (some 1)))] s
        ∧ SystemStep s (.process (.createOwned 0 none 0), .reply (.created none)) s'
        ∧ s'.vm.pmm.usedFrames = s.vm.pmm.usedFrames + 1 ∧ ¬Atomic s.1 s'.1 := by
  obtain ⟨s, s', hrun, hfail, hused⟩ :=
    execRun_observe_two systemExec_step (systemInit (machine 4096 4088) machineHeap)
      [.process (.createOwned 0 none 0)] [.reply (.created (some 1))]
      [.process (.createOwned 0 none 0)] [.reply (.created none)]
      (fun s s' => s'.vm.pmm.usedFrames = s.vm.pmm.usedFrames + 1) (by decide +kernel)
  refine ⟨rangeMachine_booted (by decide) (by decide) (by decide), s, s', hrun, hfail.of_one,
    hused, ?_⟩
  intro h
  have hsame : _ = s.vm.pmm.usedFrames := h.usedFrames
  exact Nat.succ_ne_self _ (hused.symm.trans hsame)

end Kfs
