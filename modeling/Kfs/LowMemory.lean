import Kfs.LowFrames
import Kfs.ProcessLinks
import Kfs.System

/-!
# Tables and process pages below 16 MB

Along runs of the system in which every frame that has to be low is low when
its turn comes, every page table and every page of a process is below 16 MB
(`lowRun_reached`), so the physical address at which the kernel reads and
writes it is where it is mapped. Nothing in the code sees to that:
`systemRun_high` is a run in which a process gets its pages above.
-/

namespace Kfs

/-! ## What an event takes -/

/-- The frames for a process at `base` in slot `p`. -/
def Kernel.creationSchedule (k : Kernel) (base : Nat) (p : Slot) : List Bool :=
  mapSchedule true (k.vm.present .kernel) (processPages (baseOf base p))

/-- Whatever slots the new processes of an event get, their frames are low. -/
def Event.LowEnough (k : Kernel) (e : Event) : Prop :=
  (1 ≤ e.creations → ∀ p, (k.processTable p).used = false →
    Within k.vm.pmm (k.creationSchedule e.base p))
  ∧ (2 ≤ e.creations → ∀ p q, (k.processTable p).used = false →
    (k.processTable q).used = false → p ≠ q →
    Within k.vm.pmm (k.creationSchedule e.base p ++ k.creationSchedule e.base q))

def SystemEvent.LowEnough (s : System) : SystemEvent → Prop
  | .process e => e.LowEnough s.1
  | .vmalloc size => Within s.vm.pmm (vmallocSchedule s.vm s.2 size)
  | .vfree _ => True
  | .mapPage virt _ _ => Within s.vm.pmm (tableSchedule s.vm.currentPresent virt)

/-- A step whose tables and process pages will be low. -/
def LowStep (s : System) (label : SystemEvent × SystemReply) (s' : System) : Prop :=
  SystemStep s label s' ∧ label.1.LowEnough s

/-! ## The invariant -/

structure LowKernel (k : Kernel) : Prop where
  vm : LowVm k.vm
  pages : ∀ p, ∀ a ∈ (k.processTable p).memory.addresses, LowPage a

section Effects

variable {k k' : Kernel}

theorem addresses_layout {m m' : ProcessMemory} (h : m'.layout = m.layout) :
    m'.addresses = m.addresses := by
  have heq : m'.layout.addresses = m.layout.addresses := congrArg ProcessMemory.addresses h
  exact heq

theorem LowKernel.inPages (h : LowKernel k) {q : Slot} {x : Nat}
    (hx : InPages (k.processTable q).memory x) : x < 0x01000000 := by
  have hlow := h.pages q
  simp only [ProcessMemory.addresses, List.forall_mem_cons, LowPage] at hlow
  unfold InPages at hx
  omega

/-- The pages of the records after an effect on slot `p`. -/
theorem LowKernel.others (h : LowKernel k) {p : Slot}
    (hself : ∀ a ∈ (k'.processTable p).memory.addresses, LowPage a)
    (hcore : ∀ q, q ≠ p → (k'.processTable q).core = (k.processTable q).core) (q : Slot) :
    ∀ a ∈ (k'.processTable q).memory.addresses, LowPage a := by
  by_cases hq : q = p
  · exact hq ▸ hself
  · rw [core_memory (hcore q hq)]
    exact h.pages q

theorem LowKernel.tame (h : LowKernel k) (ht : Tame k k') :
    LowKernel k' ∧ HighSame k.vm k'.vm := by
  refine ⟨⟨h.vm.congr (ht.pmm ▸ h.vm.ok) ht.directories ht.kernelDirectory, ?_⟩,
    fun x hx => ht.mem x ?_⟩
  · intro p
    rw [addresses_layout (frame_layout (ht.frame p))]
    exact h.pages p
  · intro q _ _ hin
    have := h.inPages hin
    omega

theorem lowPage_zero : LowPage 0 := by
  unfold LowPage
  omega

theorem addresses_zero : ∀ a ∈ Process.zero.memory.addresses, LowPage a := by
  intro a ha
  have hzero : a = 0 := by
    simpa [Process.zero, ProcessMemory.zero, ProcessMemory.addresses] using ha
  exact hzero ▸ lowPage_zero

theorem highSame_clearFirstWords {vm : Vm} {m : ProcessMemory} (h : ∀ a ∈ m.addresses, LowPage a) :
    HighSame vm (clearFirstWords m vm) := by
  simp only [ProcessMemory.addresses, List.forall_mem_cons, LowPage] at h
  intro x hx
  have hstore : ∀ (mem : Mem) (page : Nat), page % 4096 = 0 → page < 0x01000000 →
      (if page ≠ 0 then store32 mem page 0 else mem) x = mem x := by
    intro mem page hwhole hlow
    split
    · exact store32_outside (by omega)
    · rfl
  unfold clearFirstWords
  dsimp only
  rw [hstore _ _ h.2.1.1 h.2.1.2, hstore _ _ h.1.1 h.1.2]

/-- A new process, and the frames that are left for another. -/
theorem LowKernel.spawn (h : LowKernel k) {p : Slot} {parent : Option Slot} {base : Nat}
    (hwithin : Within k.vm.pmm (k.creationSchedule base p))
    (hx : KernelEffect k (.spawn p parent base) k') :
    LowKernel k' ∧ HighSame k.vm k'.vm ∧ k'.vm.directories .kernel = k.vm.directories .kernel
      ∧ ∀ rest, Within k.vm.pmm (k.creationSchedule base p ++ rest) → Within k'.vm.pmm rest := by
  cases hx with
  | spawn call =>
      obtain ⟨-, -, vm, memory, table, head, hmap, rfl, hnew, hcore⟩ := spawn_eq call
      have hmemory : (table p).memory = memory := core_memory hnew
      have hnil : Within k.vm.pmm (k.creationSchedule base p ++ []) := by
        rwa [List.append_nil]
      obtain ⟨hkeep, hdone⟩ := h.vm.processMemoryMap hnil hmap
      obtain ⟨hpages, -, hkernel⟩ := hdone rfl
      have hlow : LowVm (clearFirstWords memory vm) :=
        ⟨hkeep.low.ok, hkeep.low.kernelDirectory, hkeep.low.tables⟩
      refine ⟨⟨hlow, h.others (p := p) ?_ hcore⟩, ?_, hkernel, ?_⟩
      · show ∀ a ∈ (table p).memory.addresses, LowPage a
        rw [hmemory]
        exact hpages
      · intro x hx
        exact (highSame_clearFirstWords hpages x hx).trans (hkeep.high x hx)
      · intro rest hrest
        exact ((h.vm.processMemoryMap hrest hmap).2 rfl).2.1

theorem LowKernel.miss (h : LowKernel k) (hk : k.kernelProcess = some 0) {base : Nat}
    (hwithin : ∀ p, (k.processTable p).used = false →
      Within k.vm.pmm (k.creationSchedule base p))
    (hx : KernelEffect k (.miss base) k') : LowKernel k' ∧ HighSame k.vm k'.vm := by
  cases hx with
  | miss call =>
      rcases miss_eq hk call with rfl | ⟨p, vm, table, head, -, hunused, hmap, rfl, hzero, hcore⟩
      · exact ⟨h, fun _ _ => rfl⟩
      · have hnil : Within k.vm.pmm (k.creationSchedule base p ++ []) := by
          rw [List.append_nil]
          exact hwithin p hunused
        obtain ⟨hkeep, -⟩ := h.vm.processMemoryMap hnil hmap
        refine ⟨⟨hkeep.low, h.others (p := p) ?_ hcore⟩, hkeep.high⟩
        show ∀ a ∈ (table p).memory.addresses, LowPage a
        rw [hzero]
        exact addresses_zero

theorem LowKernel.release (h : LowKernel k) {c : Slot} (hx : KernelEffect k (.release c) k') :
    LowKernel k' ∧ HighSame k.vm k'.vm := by
  cases hx with
  | release hkernel hused call =>
      obtain ⟨table, head, rfl, hzero, hcore⟩ := processRelease_eq hkernel call
      have hkeep := h.vm.processReleaseMemory (k.processTable c).memory
      refine ⟨⟨hkeep.low, h.others (p := c) ?_ hcore⟩, hkeep.high⟩
      show ∀ a ∈ (table c).memory.addresses, LowPage a
      rw [hzero]
      exact addresses_zero

/-- Effects that neither create nor release. -/
theorem LowKernel.mild (h : LowKernel k) {effects : List Effect} (hmild : ∀ x ∈ effects, x.mild)
    (hrun : Run KernelEffect k effects k') : LowKernel k' ∧ HighSame k.vm k'.vm := by
  refine hrun.invariant_trace (I := fun xs k' => (∀ x ∈ xs, x.mild) →
    LowKernel k' ∧ HighSame k.vm k'.vm) (fun _ => ⟨h, fun _ _ => rfl⟩) ?_ hmild
  intro xs k1 x k2 ih hx hall
  obtain ⟨h1, hhigh1⟩ := ih fun y hy => hall y (List.mem_append_left _ hy)
  obtain ⟨h2, hhigh2⟩ := h1.tame (hx.tame (Or.inl (hall x (by simp))))
  exact ⟨h2, fun x hx => (hhigh2 x hx).trans (hhigh1 x hx)⟩

theorem HighSame.trans {vm vm' vm'' : Vm} (h : HighSame vm vm') (h' : HighSame vm' vm'') :
    HighSame vm vm'' := fun x hx => (h' x hx).trans (h x hx)

/-- The second process of a pair takes its frames after the first. -/
theorem LowKernel.second (h : LowKernel k) {p : Slot} {parent : Option Slot} {base : Nat}
    (hone : ∀ p, (k.processTable p).used = false → Within k.vm.pmm (k.creationSchedule base p))
    (htwo : ∀ p q, (k.processTable p).used = false → (k.processTable q).used = false → p ≠ q →
      Within k.vm.pmm (k.creationSchedule base p ++ k.creationSchedule base q))
    (hx : KernelEffect k (.spawn p parent base) k') :
    LowKernel k' ∧ HighSame k.vm k'.vm ∧ ∀ q, (k'.processTable q).used = false →
      Within k'.vm.pmm (k'.creationSchedule base q) := by
  obtain ⟨-, hunused, ⟨owner, function, memory, hnew⟩, hcore⟩ := hx.spawn_table
  obtain ⟨h', hhigh, hkernel, hrest⟩ := h.spawn (hone p hunused) hx
  have hused : (k'.processTable p).used = true := core_used hnew
  have hsame : ∀ q, k'.creationSchedule base q = k.creationSchedule base q := by
    intro q
    have hpresent : k'.vm.present .kernel = k.vm.present .kernel := by
      unfold Vm.present Vm.dirEntry
      rw [hkernel]
    unfold Kernel.creationSchedule
    rw [hpresent]
  refine ⟨h', hhigh, ?_⟩
  intro q hq
  have hqp : q ≠ p := by
    rintro rfl
    rw [hused] at hq
    cases hq
  rw [hsame]
  exact hrest _ (htwo p q hunused ((core_used (hcore q hqp)).symm.trans hq) hqp.symm)

theorem LowKernel.step (h : LowKernel k) (hl : Linkage k) {e : Event} {r : Reply}
    (hlow : e.LowEnough k) (hstep : KernelStep k (e, r) k') :
    LowKernel k' ∧ HighSame k.vm k'.vm := by
  obtain ⟨effects, hrun, hshape⟩ := hl.performs hstep
  dsimp only at hshape
  cases hshape with
  | mild hmild => exact h.mild hmild hrun
  | spawned one hmild =>
      obtain ⟨k1, hx, hrun⟩ := hrun.uncons
      obtain ⟨h1, hhigh, -⟩ := h.spawn (hlow.1 (Nat.le_of_eq one.symm) _ hx.spawn_table.2.1) hx
      obtain ⟨h2, hhigh'⟩ := h1.mild hmild hrun
      exact ⟨h2, hhigh.trans hhigh'⟩
  | missed one =>
      obtain ⟨k1, hx, hrun⟩ := hrun.uncons
      obtain rfl := hrun.eq_of_nil
      exact h.miss hl.kernel (hlow.1 (Nat.le_of_eq one.symm)) hx
  | pair hmild =>
      obtain ⟨k1, hx, hrun⟩ := hrun.uncons
      obtain ⟨k2, hy, hrun⟩ := hrun.uncons
      obtain ⟨h1, hhigh, hnext⟩ := h.second (hlow.1 (Nat.le_succ 1)) (hlow.2 (Nat.le_refl 2)) hx
      obtain ⟨h2, hhigh', -⟩ := h1.spawn (hnext _ hy.spawn_table.2.1) hy
      obtain ⟨h3, hhigh''⟩ := h2.mild hmild hrun
      exact ⟨h3, (hhigh.trans hhigh').trans hhigh''⟩
  | pairMissed =>
      obtain ⟨k1, hx, hrun⟩ := hrun.uncons
      obtain rfl := hrun.eq_of_nil
      exact h.miss hl.kernel (hlow.1 (Nat.le_succ 1)) hx
  | pairUndone =>
      obtain ⟨k1, hx, hrun⟩ := hrun.uncons
      obtain ⟨k2, hy, hrun⟩ := hrun.uncons
      obtain ⟨k3, hz, hrun⟩ := hrun.uncons
      obtain rfl := hrun.eq_of_nil
      obtain ⟨h1, hhigh, hnext⟩ := h.second (hlow.1 (Nat.le_succ 1)) (hlow.2 (Nat.le_refl 2)) hx
      obtain ⟨h2, hhigh'⟩ := h1.miss (hl.effect hx).kernel hnext hy
      obtain ⟨h3, hhigh''⟩ := h2.release hz
      exact ⟨h3, (hhigh.trans hhigh').trans hhigh''⟩
  | waiting _ _ _ =>
      obtain ⟨k1, hx, hrun⟩ := hrun.uncons
      obtain rfl := hrun.eq_of_nil
      exact h.tame (hx.tame (Or.inr ⟨_, _, rfl⟩))
  | reaped _ _ _ =>
      obtain ⟨k1, hx, hrun⟩ := hrun.uncons
      obtain ⟨k2, hy, hrun⟩ := hrun.uncons
      obtain rfl := hrun.eq_of_nil
      obtain ⟨h1, hhigh⟩ := h.tame (hx.tame (Or.inl trivial))
      obtain ⟨h2, hhigh'⟩ := h1.release hy
      exact ⟨h2, hhigh.trans hhigh'⟩

end Effects

/-! ## Runs -/

structure LowSystem (s : System) : Prop where
  linkage : Linkage s.1
  kernel : LowKernel s.1

theorem LowSystem.step {s s' : System} {label : SystemEvent × SystemReply} (h : LowSystem s)
    (hstep : LowStep s label s') : LowSystem s' := by
  obtain ⟨e, r⟩ := label
  obtain ⟨hstep, hlow⟩ := hstep
  -- the allocator and `paging_map_page` leave the process table alone
  have hvm : s'.1 = { s.1 with vm := s'.vm } → LowVm s'.vm → LowSystem s' := by
    intro hsame hlow
    refine ⟨hsame ▸ h.linkage.withVm _, hlow, ?_⟩
    rw [hsame]
    exact h.kernel.pages
  cases e with
  | process e =>
      obtain ⟨reply, -, hkernel, -⟩ := hstep.process
      exact ⟨h.linkage.step hkernel, (h.kernel.step h.linkage hlow hkernel).1⟩
  | vmalloc size =>
      obtain ⟨p, -, hcall, hsame⟩ := hstep.vmalloc
      exact hvm hsame (h.kernel.vm.vmalloc hlow hcall)
  | vfree p =>
      obtain ⟨hcall, hsame⟩ := hstep.vfree
      exact hvm hsame (h.kernel.vm.vfree hcall)
  | mapPage virt phys flags =>
      obtain ⟨hcall, hsame, -⟩ := hstep.mapPage
      exact hvm hsame (h.kernel.vm.mapCurrent hlow hcall)

theorem lowSystem_init {vm : Vm} {heap : Heap} (h : BootReady vm heap) :
    LowSystem (systemInit vm heap) := by
  refine ⟨linkage_processInit vm, ⟨h.refines.ok, h.kernelDirectory, ?_⟩, ?_⟩
  · intro d i hi
    cases d with
    | kernel =>
        have hi : vm.dirEntry .kernel i &&& pagePresent ≠ 0 := of_decide_eq_true hi
        obtain ⟨hlt, hlow⟩ := h.tables i _ (if_neg hi)
        have hword := h.refines.tables.word i (by omega)
        show LowPage (pageFrame (vm.dirEntry .kernel i))
        rw [pageFrame, and_mask4096 hword]
        exact lowPage_frame hlow
    | process p => exact absurd not_present_zero (of_decide_eq_true hi)
  · intro p
    by_cases hp : p = 0
    · simp [systemInit, processInit, hp, processResetMemory, ProcessMemory.zero,
        ProcessMemory.addresses, lowPage_zero]
    · simp [systemInit, processInit, hp, processResetMemory, ProcessMemory.zero,
        ProcessMemory.addresses, lowPage_zero]

/-- The tables and the pages of processes are in the range that
`paging_init` mapped. -/
structure Reached (s : System) : Prop where
  tables : ∀ d i, s.vm.dirEntry d i &&& pagePresent ≠ 0 →
    pageFrame (s.vm.dirEntry d i) + 4096 ≤ 0x01000000
  pages : ∀ p, (s.1.processTable p).used = true →
    ∀ a ∈ (s.1.processTable p).memory.addresses, a + 4096 ≤ 0x01000000

theorem LowSystem.reached {s : System} (h : LowSystem s) : Reached s := by
  have hfits : ∀ {a}, LowPage a → a + 4096 ≤ 0x01000000 := by
    intro a ha
    unfold LowPage at ha
    omega
  exact ⟨fun d i hi => hfits (h.kernel.vm.tables d i (decide_eq_true hi)),
    fun p _ a ha => hfits (h.kernel.pages p a ha)⟩

/-- As long as the frames that have to be low are low when their turn comes,
tables and process pages are where `paging_init` mapped them, and no process
event writes anywhere else. -/
theorem lowRun_reached {vm : Vm} {heap : Heap} (hboot : Booted vm heap)
    {labels : List (SystemEvent × SystemReply)} {s : System}
    (hrun : Run LowStep (systemInit vm heap) labels s) :
    Reached s ∧ ∀ e r s', LowStep s (.process e, r) s' →
      ∀ x, 0x01000000 ≤ x → s'.vm.mem x = s.vm.mem x := by
  have hinv : LowSystem s := by
    refine hrun.invariant (lowSystem_init hboot.ready) ?_
    intro s label s' h hstep
    exact h.step hstep
  refine ⟨hinv.reached, ?_⟩
  intro e r s' hstep
  obtain ⟨reply, -, hkernel, -⟩ := hstep.1.process
  exact (hinv.kernel.step hinv.linkage hstep.2 hkernel).2

/-- On a machine with 16 MB every step will do. -/
def smallExec (s : System) (e : SystemEvent) : Option (SystemReply × System) :=
  if s.vm.pmm.totalFrames ≤ 4096 then systemExec s e else none

theorem smallExec_step ⦃s : System⦄ ⦃e : SystemEvent⦄ ⦃r : SystemReply⦄ ⦃s' : System⦄
    (h : smallExec s e = some (r, s')) : LowStep s (e, r) s' := by
  unfold smallExec at h
  split at h
  · next hsmall =>
      have hwithin : ∀ schedule, Within s.vm.pmm schedule := fun _ t _ => lowTurn_small hsmall _
      refine ⟨systemExec_step h, ?_⟩
      cases e with
      | process e => exact ⟨fun _ _ _ => hwithin _, fun _ _ _ _ _ _ => hwithin _⟩
      | vmalloc size => exact hwithin _
      | vfree p => trivial
      | mapPage virt phys flags => exact hwithin _
  · cases h

/-- A region, a process and its fork, of which one goes. -/
theorem lowRun_reached_fork :
    ∃ s, Run LowStep (systemInit (machine 4096 2576) machineHeap)
        [(.vmalloc 5000, .address 0x1000000),
          (.process (.createOwned 0 (some .demoCounterProcess) 0), .reply (.created (some 1))),
          (.vfree 0x1000000, .done),
          (.process (.fork (some 1)), .reply (.created (some 2))),
          (.process (.exit (some 1) 7), .reply .done),
          (.process (.wait (some 0) 2), .reply (.waited (.reaped 1 7)))] s
      ∧ (s.1.processTable 2).memory.dataPage ≠ 0 ∧ Reached s := by
  obtain ⟨s, hrun, hpage⟩ := execRun_observe smallExec_step
    (systemInit (machine 4096 2576) machineHeap)
    [.vmalloc 5000, .process (.createOwned 0 (some .demoCounterProcess) 0), .vfree 0x1000000,
      .process (.fork (some 1)), .process (.exit (some 1) 7), .process (.wait (some 0) 2)]
    [.address 0x1000000, .reply (.created (some 1)), .done, .reply (.created (some 2)),
      .reply .done, .reply (.waited (.reaped 1 7))]
    (fun s => (s.1.processTable 2).memory.dataPage ≠ 0) (by decide +kernel)
  have hboot : Booted (machine 4096 2576) machineHeap :=
    rangeMachine_booted (by decide) (by decide) (by decide)
  exact ⟨s, hrun, hpage, (lowRun_reached hboot hrun).1⟩

/-- With eight frames left below 16 MB, a region takes them and the next
process gets its pages above. -/
theorem systemRun_high :
    ∃ vm heap, Booted vm heap ∧ ∃ s, Run SystemStep (systemInit vm heap)
        [(.vmalloc 0x8000, .address 0x1000000),
          (.process (.createOwned 0 none 0), .reply (.created (some 1)))] s
      ∧ ¬Reached s := by
  obtain ⟨s, hrun, hused, hpage⟩ := execRun_observe systemExec_step
    (systemInit (machine 8192 4088) machineHeap)
    [.vmalloc 0x8000, .process (.createOwned 0 none 0)]
    [.address 0x1000000, .reply (.created (some 1))]
    (fun s => (s.1.processTable 1).used = true
      ∧ 0x01000000 ≤ (s.1.processTable 1).memory.dataPage) (by decide +kernel)
  refine ⟨machine 8192 4088, machineHeap, rangeMachine_booted (by decide) (by decide) (by decide),
    s, hrun, ?_⟩
  intro h
  have hlow := h.pages 1 hused _ (List.mem_cons_self ..)
  omega

end Kfs
