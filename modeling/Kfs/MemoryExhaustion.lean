import Kfs.FrameAccess
import Kfs.VmallocRegions

/-!
# Running out of memory

A request that finds no frame for a page takes back what it has and returns
`NULL`. There is no such way out of `paging_get_or_create_table`, which
panics. So how a request ends depends on where in its schedule the frames
end (`systemRun_exhaustion`), as long as the frames it has to clear are low.
Nothing else can stop it, in particular not the heap, since the records of
the regions are always live (`Recorded`).
-/

namespace Kfs

/-! ## The records of the regions -/

/-- Whatever was called, the records of the allocator are allocations of the
heap, and it works on page boundaries. -/
structure Recorded (a : Vmalloc) : Prop where
  heap : HeapInv ⟨a.heap, recordsOf a.regionList⟩
  regions : ∀ r ∈ a.regionList, r.virtAddr % 4096 = 0 ∧ r.mappedSize % 4096 = 0
  current : a.vmallocCurrent % 4096 = 0

theorem add32_whole {a b : Nat} (ha : a % 4096 = 0) (hb : b % 4096 = 0) :
    add32 a b % 4096 = 0 := by
  rw [add32_eq]
  omega

theorem mul32_whole (n : Nat) : mul32 n 4096 % 4096 = 0 := by
  rw [mul32_eq]
  omega

theorem vmallocHighestEnd_whole {regions : List VmRegion}
    (h : ∀ r ∈ regions, r.virtAddr % 4096 = 0 ∧ r.mappedSize % 4096 = 0) :
    vmallocHighestEnd regions % 4096 = 0 := by
  unfold vmallocHighestEnd
  refine List.foldlRecOn regions _ (motive := fun highest => highest % 4096 = 0) rfl ?_
  intro highest hhighest r hr
  obtain ⟨hvirt, hsize⟩ := h r hr
  dsimp only
  split
  · exact add32_whole hvirt hsize
  · exact hhighest

section Records

variable {vm vm' : Vm} {a a' : Vmalloc} {n p : Nat}

theorem Recorded.withHeap (h : Recorded a) {heap : Heap}
    (hheap : HeapInv ⟨heap, recordsOf a.regionList⟩) : Recorded { a with heap := heap } :=
  ⟨hheap, h.regions, h.current⟩

theorem Recorded.linkRegion (h : Recorded a) {heap : Heap} {node size pages : Nat}
    (hheap : HeapInv ⟨heap, (node, 24) :: recordsOf a.regionList⟩) :
    Recorded (linkRegion { a with heap := heap } node size pages) where
  heap := hheap
  regions := List.forall_mem_cons.mpr ⟨⟨h.current, mul32_whole pages⟩, h.regions⟩
  current := add32_whole h.current (mul32_whole pages)

theorem Recorded.vmalloc (h : Recorded a) (hcall : vmalloc vm a n = .ok (p, vm', a')) :
    Recorded a' := by
  have hsame : ∀ {p1 vm1 a1}, Recorded a1 → (p1, vm1, a1) = (p, vm', a') → Recorded a' := by
    intro p1 vm1 a1 h1 heq
    obtain ⟨-, rfl⟩ := Prod.mk.inj (Prod.mk.inj heq).2
    exact h1
  unfold Kfs.vmalloc at hcall
  split at hcall
  · exact hsame h (Except.ok.inj hcall)
  dsimp only at hcall
  split at hcall
  · exact hsame h (Except.ok.inj hcall)
  obtain ⟨⟨node, heap⟩, hkmalloc, hcall⟩ := bind_eq_ok.mp hcall
  have hheap := h.heap.step
    (HeapStep.kmalloc (s := ⟨a.heap, recordsOf a.regionList⟩) (by decide) hkmalloc)
  dsimp only at hcall hheap
  by_cases hnode : node = 0
  · rw [if_pos hnode] at hcall hheap
    exact hsame (h.withHeap hheap) (Except.ok.inj hcall)
  rw [if_neg hnode] at hcall hheap
  obtain ⟨⟨ok, vm1⟩, -, hcall⟩ := bind_eq_ok.mp hcall
  cases ok with
  | true => exact hsame (h.linkRegion hheap) (Except.ok.inj hcall)
  | false =>
      obtain ⟨⟨heap', warned⟩, hkfree, hcall⟩ := bind_eq_ok.mp hcall
      exact hsame (h.withHeap (hheap.undo hkfree)) (Except.ok.inj hcall)

theorem Recorded.vfree (h : Recorded a) (hcall : vfree vm a p = .ok (vm', a')) : Recorded a' := by
  unfold Kfs.vfree at hcall
  split at hcall
  · obtain ⟨-, rfl⟩ := Prod.mk.inj (Except.ok.inj hcall)
    exact h
  split at hcall
  · cases hcall
  next region hfind =>
  obtain ⟨⟨heap, warned⟩, hkfree, hcall⟩ := bind_eq_ok.mp hcall
  obtain ⟨-, rfl⟩ := Prod.mk.inj (Except.ok.inj hcall)
  obtain ⟨hat, pre, post, hsplit, hpre⟩ := List.find?_eq_some_iff_append.mp hfind
  have hlive : (region.node, 24) ∈ recordsOf a.regionList :=
    List.mem_map_of_mem (f := fun r => (r.node, 24)) (List.mem_of_find?_eq_some hfind)
  have hheap := h.heap.step (HeapStep.kfree (s := ⟨a.heap, recordsOf a.regionList⟩) hlive hkfree)
  have herase : a.regionList.eraseP (VmRegion.isAt p) = pre ++ post := by
    rw [hsplit, List.eraseP_append_right _ fun r hr => by simpa using hpre r hr,
      List.eraseP_cons_of_pos hat]
  have hrecords : (recordsOf a.regionList).filter (fun e => e.1 ≠ region.node)
      = recordsOf (pre ++ post) := by
    obtain ⟨bs, -, hok⟩ := h.heap
    have hnodup := hok.nodup
    rw [hsplit] at hnodup ⊢
    exact recordsOf_filter hnodup
  have hregions : ∀ r ∈ pre ++ post, r.virtAddr % 4096 = 0 ∧ r.mappedSize % 4096 = 0 := by
    intro r hr
    refine h.regions r ?_
    rw [hsplit]
    exact ((List.sublist_cons_self region post).append_left pre).subset hr
  rw [hrecords] at hheap
  rw [herase]
  exact ⟨hheap, hregions, vmallocHighestEnd_whole hregions⟩

end Records

theorem systemRun_recorded {vm : Vm} {heap : Heap} (hboot : Booted vm heap)
    {labels : List (SystemEvent × SystemReply)} {s : System}
    (hrun : Run SystemStep (systemInit vm heap) labels s) : Recorded s.2 := by
  refine hrun.invariant (I := fun s => Recorded s.2) ⟨hboot.ready.heap, fun _ hr =>
    (List.not_mem_nil hr).elim, (rfl : vmallocStart % 4096 = 0)⟩ ?_
  rintro s ⟨e, r⟩ s' h hstep
  cases e with
  | process e =>
      obtain ⟨-, -, -, hsame⟩ := hstep.process
      rw [hsame]
      exact h
  | vmalloc size =>
      obtain ⟨_, -, hcall, -⟩ := hstep.vmalloc
      exact h.vmalloc hcall
  | vfree p => exact h.vfree hstep.vfree.1
  | mapPage virt phys flags =>
      obtain ⟨-, -, hsame⟩ := hstep.mapPage
      rw [hsame]
      exact h

/-! ## The pages of a region -/

section Pages

variable {vm : Vm} {d : Directory} {n virt : Nat}

theorem pageAt_whole (hvirt : virt % 4096 = 0) (i : Nat) : pageAt virt i % 4096 = 0 :=
  add32_whole hvirt (mul32_whole i)

/-- A page that has just been mapped can be cleared. -/
theorem vmallocMemset_page {v : Nat} (hv : v % 4096 = 0) (hcurrent : vm.currentDirectory = some d)
    (hthere : vm.present d (pageDirIndex v) = true)
    (hentry : vm.tableEntry (pageFrame (vm.dirEntry d (pageDirIndex v))) (pageTableIndex v)
      &&& pagePresent ≠ 0) : ∃ mem, vmallocMemset vm v = .ok { vm with mem := mem } := by
  have hoffset : pageOffset v = 0 := (pageOffset_eq v).trans hv
  have hmapped : pagingIsMapped vm v = true := by
    unfold pagingIsMapped
    rw [hcurrent]
    dsimp only
    rw [if_neg (of_decide_eq_true hthere)]
    exact decide_eq_true hentry
  refine ⟨memset vm.mem (pagingGetPhysical vm v) 0#8 4096, ?_⟩
  unfold vmallocMemset clearMapped
  rw [hmapped, hoffset]
  rfl

/-- Behind a page and its tables the schedule goes on. -/
theorem mapSchedule_turn {low : Bool} {present : Nat → Bool} {v t rest : Nat} {vs : List Nat}
    (htab : tableSchedule present v = List.replicate t true) :
    (mapSchedule low present (v :: vs))[rest + t + 1]?
      = (mapSchedule low (Function.update present (pageDirIndex v) true) vs)[rest]? := by
  have hlength : (low :: List.replicate t true).length = t + 1 := by
    rw [List.length_cons, List.length_replicate]
  rw [mapSchedule, htab, List.getElem?_append_right (by omega), hlength]
  exact congrArg _ (by omega)

/-- The loop of `vmalloc` panics if the frames end at a table. -/
theorem Supply.vmallocPages (hvirt : virt % 4096 = 0) : ∀ {m i n : Nat} {vm : Vm}, Supply vm n →
    vm.currentDirectory = some d →
    let schedule := mapSchedule false (vm.present d) ((List.range' i m).map (pageAt virt))
    (schedule[n]? = some true ∧ vmallocPages virt m i vm = .error outOfTables)
      ∨ (schedule[n]? ≠ some true ∧ ∃ ok vm', vmallocPages virt m i vm = .ok (ok, vm')) := by
  intro m
  induction m with
  | zero =>
      intro i n vm _ _
      refine Or.inr ⟨fun hnone => ?_, true, vm, rfl⟩
      cases hnone
  | succ m ih =>
      intro i n vm h hcurrent
      rw [List.range'_succ, List.map_cons]
      unfold Kfs.vmallocPages
      cases n with
      | zero =>
          rw [h.alloc_none]
          refine Or.inr ⟨fun hlow => ?_, false, _, rfl⟩
          cases hlow
      | succ n =>
          obtain ⟨f, pmm, hne, halloc, htakes, hrest⟩ := h.alloc_some
          rw [halloc]
          dsimp only
          rw [if_neg (by omega)]
          rw [@pagingMapPage_current { vm with pmm := pmm } _ _ _ _ hcurrent]
          rcases hrest.mapPage d (pageAt virt i) (f * 4096) pageKernel with ⟨rfl, htab, hcall⟩ |
            ⟨tables, vm1, rest, hdraws, hrest1, rfl, htab, hpresent, hentry, hcall⟩
          · have htab' : tableSchedule (vm.present d) (pageAt virt i) = [true] := htab
            rw [mapSchedule, htab']
            exact Or.inl ⟨rfl, bind_of_error hcall⟩
          · have hthere : vm1.present d (pageDirIndex (pageAt virt i)) = true := by
              rw [hpresent, Function.update_self]
            have hcurrent1 : vm1.currentDirectory = some d := hdraws.current.trans hcurrent
            obtain ⟨hword, hframe⟩ := @mapWord (f * 4096) pageKernel (by decide)
            obtain ⟨mem, hset⟩ := vmallocMemset_page (pageAt_whole hvirt i) hcurrent1 hthere
              (by
                rw [hentry hword]
                intro hzero
                rw [entryFrame, if_pos hzero] at hframe
                cases hframe)
            have hrest2 : Supply { vm1 with mem := mem } rest := hrest1.congr rfl
            have hnext := ih (i := i + 1) hrest2 hcurrent1
            have hskip : (mapSchedule false (vm.present d) (pageAt virt i
                :: (List.range' (i + 1) m).map (pageAt virt)))[rest + tables.length + 1]?
                = (mapSchedule false (vm1.present d)
                  ((List.range' (i + 1) m).map (pageAt virt)))[rest]? := by
              rw [hpresent]
              exact mapSchedule_turn htab
            rw [bind_of_ok hcall, bind_of_ok hset]
            rw [hskip]
            exact hnext

/-- The loop from its start, in any supply: with frame 0 free it ends at its
first page. -/
theorem vmallocPages_ends (hvirt : virt % 4096 = 0) (hok : PmmOk vm.pmm)
    (hcurrent : vm.currentDirectory = some d) (m : Nat) :
    let turn := (mapSchedule false (vm.present d)
      ((List.range' 0 m).map (pageAt virt)))[(spare vm.pmm).card]?
    ((0 ∉ spare vm.pmm ∧ turn = some true) ∧ vmallocPages virt m 0 vm = .error outOfTables)
      ∨ (¬(0 ∉ spare vm.pmm ∧ turn = some true)
        ∧ ∃ ok vm', vmallocPages virt m 0 vm = .ok (ok, vm')) := by
  by_cases hzero : 0 ∈ spare vm.pmm
  · refine Or.inr ⟨fun h => h.1 hzero, ?_⟩
    cases m with
    | zero => exact ⟨true, vm, rfl⟩
    | succ m =>
        unfold vmallocPages
        rw [allocFrame_zero hzero]
        exact ⟨false, _, rfl⟩
  · rcases Supply.vmallocPages hvirt (m := m) (i := 0) ⟨hok, hzero, rfl⟩ hcurrent with
      ⟨hturn, hcall⟩ | ⟨hturn, hcall⟩
    · exact Or.inl ⟨⟨hzero, hturn⟩, hcall⟩
    · exact Or.inr ⟨fun h => hturn h.2, hcall⟩

end Pages

/-! ## Calls -/

/-- The frames end at a page table of the region: there are addresses and a
record for it, its pages before have frames, and so has the page the table
is for. -/
def VmallocRunsOut (vm : Vm) (a : Vmalloc) (size : Nat) : Prop :=
  (∃ p heap, kmalloc a.heap 24 = .ok (p, heap) ∧ p ≠ 0) ∧ 0 ∉ spare vm.pmm
    ∧ (vmallocSchedule vm a size)[(spare vm.pmm).card]? = some true

/-- The same for a process at `base`. -/
def Kernel.CreationRunsOut (k : Kernel) (base : Nat) : Prop :=
  ∃ p, k.freeSlot = some p ∧ 0 ∉ spare k.vm.pmm
    ∧ (k.vm.creationFrames base p)[(spare k.vm.pmm).card]? = some true

section Calls

variable {vm : Vm} {a : Vmalloc} {d : Directory} {size : Nat}

theorem Recorded.vmalloc_ends (h : Recorded a) (hok : PmmOk vm.pmm)
    (hcurrent : vm.currentDirectory = some d) :
    (VmallocRunsOut vm a size ∧ Kfs.vmalloc vm a size = .error outOfTables)
      ∨ (¬VmallocRunsOut vm a size ∧ ∃ p vm' a', Kfs.vmalloc vm a size = .ok (p, vm', a')) := by
  obtain ⟨node, heap, hkmalloc⟩ := h.heap.progress.1 24 (by decide)
  unfold Kfs.vmalloc VmallocRunsOut vmallocSchedule
  by_cases hsize : size = 0
  · rw [if_pos hsize, if_pos (Or.inl hsize)]
    exact Or.inr ⟨nofun, _, _, _, rfl⟩
  dsimp only
  by_cases hroom : add32 a.vmallocCurrent (mul32 (add32 size 4095 / 4096) 4096) > vmallocEnd
  · rw [if_neg hsize, if_pos hroom, if_pos (Or.inr hroom)]
    exact Or.inr ⟨nofun, _, _, _, rfl⟩
  rw [if_neg hsize, if_neg hroom, if_neg (not_or.mpr ⟨hsize, hroom⟩), bind_of_ok hkmalloc]
  dsimp only
  by_cases hnode : node = 0
  · rw [if_pos hnode]
    refine Or.inr ⟨?_, _, _, _, rfl⟩
    rintro ⟨⟨p, heap', hcall, hp⟩, -⟩
    obtain ⟨rfl, -⟩ := Prod.mk.inj (Except.ok.inj (hkmalloc.symm.trans hcall))
    exact hp hnode
  rw [if_neg hnode]
  have hheap := h.heap.step
    (HeapStep.kmalloc (s := ⟨a.heap, recordsOf a.regionList⟩) (by decide) hkmalloc)
  dsimp only at hheap
  rw [if_neg hnode] at hheap
  rw [currentPresent_eq hcurrent]
  rcases vmallocPages_ends h.current hok hcurrent (add32 size 4095 / 4096) with
    ⟨hturn, hloop⟩ | ⟨hturn, ok, vm', hloop⟩
  · exact Or.inl ⟨⟨⟨node, heap, hkmalloc, hnode⟩, hturn⟩, bind_of_error hloop⟩
  · refine Or.inr ⟨fun hruns => hturn hruns.2, ?_⟩
    rw [bind_of_ok hloop]
    cases ok with
    | true => exact ⟨_, _, _, rfl⟩
    | false =>
        obtain ⟨heap', hkfree⟩ := hheap.progress.2 _ (List.mem_cons_self ..)
        exact ⟨_, _, _, bind_of_ok hkfree⟩

theorem LinkInv.creation_runsOut {k : Kernel} {l : List Slot} {kids : Slot → List Slot}
    {parent : Option Slot} {owner base : Nat} {function : Option ExecFn} (h : LinkInv k l kids)
    (hok : PmmOk k.vm.pmm) (hk : k.vm.kernelDirectory = some .kernel) :
    (k.CreationRunsOut base
        ∧ processCreateInternal k parent owner base function size = .error outOfTables)
      ∨ (¬k.CreationRunsOut base
        ∧ ∃ p k', processCreateInternal k parent owner base function size = .ok (p, k')) := by
  have hnot : ∀ {p : Slot}, k.freeSlot = some p →
      (k.vm.creationFrames base p)[(spare k.vm.pmm).card]? ≠ some true →
      ¬k.CreationRunsOut base := by
    rintro p hslot hturn ⟨q, hq, -, hturn'⟩
    obtain rfl := Option.some.inj (hslot.symm.trans hq)
    exact hturn hturn'
  by_cases hzero : 0 ∈ spare k.vm.pmm
  · refine Or.inr ⟨fun ⟨_, _, hfree, _⟩ => hfree hzero, ?_⟩
    cases hslot : k.freeSlot with
    | none => exact ⟨none, k, processCreateInternal_full hslot⟩
    | some p =>
        obtain ⟨k', call, -⟩ := h.creation_zero hslot hk hzero
        exact ⟨none, k', call⟩
  · generalize hresult : processCreateInternal k parent owner base function size = result
    cases h.creationEnds ⟨hok, hzero, rfl⟩ hk hresult with
    | full hslot =>
        refine Or.inr ⟨?_, none, _, rfl⟩
        rintro ⟨p, hp, -⟩
        cases hslot.symm.trans hp
    | short hslot turn =>
        refine Or.inr ⟨hnot hslot ?_, none, _, rfl⟩
        rw [turn]
        nofun
    | fatal hslot turn => exact Or.inl ⟨⟨_, hslot, hzero, turn⟩, rfl⟩
    | done hslot turn =>
        refine Or.inr ⟨hnot hslot ?_, _, _, rfl⟩
        rw [List.getElem?_eq_none turn]
        nofun

theorem LinkInv.fork_runsOut {k : Kernel} {l : List Slot} {kids : Slot → List Slot}
    {source : Option Slot} (h : LinkInv k l kids) (hok : PmmOk k.vm.pmm)
    (hk : k.vm.kernelDirectory = some .kernel) :
    ((k.MayFork source ∧ k.CreationRunsOut 0) ∧ forkProcess k source = .error outOfTables)
      ∨ (¬(k.MayFork source ∧ k.CreationRunsOut 0)
        ∧ ∃ p k', forkProcess k source = .ok (p, k')) := by
  unfold forkProcess
  cases source with
  | none => exact Or.inr ⟨fun ⟨⟨_, hp, _⟩, _⟩ => (nomatch hp), none, k, rfl⟩
  | some p =>
      dsimp only
      by_cases hrefused : some p = k.kernelProcess ∨ (k.processTable p).entry = none
      · rw [if_pos hrefused]
        refine Or.inr ⟨fun ⟨⟨q, hq, hne, hentry⟩, _⟩ => ?_, none, k, rfl⟩
        obtain rfl := Option.some.inj hq
        exact absurd hrefused (not_or.mpr ⟨hne, hentry⟩)
      · rw [if_neg hrefused]
        rcases h.creation_runsOut hok hk with ⟨hruns, hcall⟩ | ⟨hruns, created, k', hcall⟩
        · exact Or.inl ⟨⟨⟨p, rfl, not_or.mp hrefused⟩, hruns⟩, bind_of_error hcall⟩
        · refine Or.inr ⟨fun h => hruns h.2, ?_⟩
          rw [bind_of_ok hcall]
          cases created with
          | none => exact ⟨none, k', rfl⟩
          | some c => exact ⟨some c, _, rfl⟩

end Calls

/-! ## Requests -/

/-- The calls that ask for memory and may be told that there is none. -/
inductive SystemEvent.Requests : SystemEvent → Prop where
  | vmalloc {size : Nat} (bound : size ≤ 0x0F000000) : Requests (.vmalloc size)
  | createOwned (owner : Nat) (function : Option ExecFn) (size : Nat) :
      Requests (.process (.createOwned owner function size))
  | fork (source : Option Slot) : Requests (.process (.fork source))

/-- The frames end at a page table. -/
def SystemEvent.RunsOut (s : System) : SystemEvent → Prop
  | .vmalloc size => VmallocRunsOut s.vm s.2 size
  | .process (.createOwned ..) => s.1.CreationRunsOut 0
  | .process (.fork source) => s.1.MayFork source ∧ s.1.CreationRunsOut 0
  | _ => False

/-- The requests of `System`, which clear any frame. -/
theorem requests_end {vm : Vm} {heap : Heap} (hboot : Booted vm heap)
    {labels : List (SystemEvent × SystemReply)} {s : System}
    (hrun : Run SystemStep (systemInit vm heap) labels s) {e : SystemEvent} (he : e.Requests) :
    (e.RunsOut s ∧ e.exec s = .error outOfTables)
      ∨ (¬e.RunsOut s ∧ ∃ r s', e.exec s = .ok (r, s')) := by
  have hsound := systemRun_sound hboot hrun
  have hrecorded := systemRun_recorded hboot hrun
  obtain ⟨l, kids, hlinks⟩ := hsound.linkage
  obtain ⟨d, hcurrent⟩ := Option.ne_none_iff_exists'.mp hsound.current
  cases he with
  | vmalloc bound =>
      refine (hrecorded.vmalloc_ends hsound.ok hcurrent).imp (And.imp_right ?_)
        (And.imp_right ?_)
      · exact map_of_error
      · rintro ⟨p, vm', a', hcall⟩
        exact ⟨_, _, map_of_ok hcall⟩
  | createOwned owner function size =>
      have hcreate : (s.1.CreationRunsOut 0
          ∧ processCreateOwned s.1 owner function size = .error outOfTables)
        ∨ (¬s.1.CreationRunsOut 0
          ∧ ∃ p k', processCreateOwned s.1 owner function size = .ok (p, k')) :=
        hlinks.creation_runsOut hsound.ok hsound.kernelDirectory
      refine hcreate.imp (And.imp_right ?_) (And.imp_right ?_)
      · exact fun hcall => map_of_error (map_of_error hcall)
      · rintro ⟨p, k', hcall⟩
        exact ⟨_, _, map_of_ok (map_of_ok hcall)⟩
  | fork source =>
      refine (hlinks.fork_runsOut hsound.ok hsound.kernelDirectory).imp (And.imp_right ?_)
        (And.imp_right ?_)
      · exact fun hcall => map_of_error (map_of_error hcall)
      · rintro ⟨p, k', hcall⟩
        exact ⟨_, _, map_of_ok (map_of_ok hcall)⟩

/-- The third way: on a machine that has no frame left below 16 MB, the first
table is cleared where nothing is mapped. -/
example : (SystemEvent.execMapped lowMapped (systemInit (machine 8192 4096) machineHeap)
    (.vmalloc 1)).map (fun _ => ()) = .error pageFault := by decide +kernel

end Kfs
