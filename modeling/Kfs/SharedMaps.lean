import Kfs.SystemFrames

/-!
# Kernel memory in every address space

The directory of a process is a copy of the kernel's, made when the process
is created. The copy shares the tables of the kernel, so a page that
`vmalloc` enters into a table the copy knows shows in the process too, and a
page that `vfree` takes out is gone from both. An entry the kernel directory
gets later does not show in the copy.

So the copies agree with the kernel directory as long as `vmalloc` enters no
new table while a process lives, and no process has its own pages in a window
the kernel uses (`SharingStep`). Then every live process sees the regions as
the kernel does, and what is freed is gone everywhere
(`sharingRun_same`).
-/

namespace Kfs

/-- The directory of process `p` is the kernel's, but for the window of its own
pages, of which the kernel has nothing. -/
structure Shares (k : Kernel) (p : Slot) : Prop where
  shared : ∀ i, i ≠ pageDirIndex (k.processTable p).memory.virtualBase →
    k.vm.directories (.process p) i = k.vm.directories .kernel i
  vacant : k.vm.directories .kernel (pageDirIndex (k.processTable p).memory.virtualBase)
    &&& pagePresent = 0

section Shares

variable {k k' : Kernel} {p : Slot}

theorem Fresh.shares {b : Nat} (h : Fresh k p b) : Shares k p := ⟨h.shared, h.vacant⟩

theorem Shares.keeps (h : Shares k p) (hkeeps : Keeps k k' p)
    (hkernel : k'.vm.directories .kernel = k.vm.directories .kernel) : Shares k' p := by
  have hbase := virtualBase_layout hkeeps.layout
  refine ⟨?_, ?_⟩
  · rw [hbase, hkeeps.directory, hkernel]
    exact h.shared
  · rw [hbase, hkernel]
    exact h.vacant

/-- Where the kernel has a table, the process has the same. -/
theorem Shares.walk (h : Shares k p) {v : Nat}
    (hpresent : k.vm.dirEntry .kernel (pageDirIndex v) &&& pagePresent ≠ 0) :
    walk k.vm (.process p) v = walk k.vm .kernel v := by
  have hwindow : pageDirIndex v ≠ pageDirIndex (k.processTable p).memory.virtualBase := fun heq =>
    hpresent (by rw [heq]; exact h.vacant)
  have hentry : k.vm.dirEntry (.process p) (pageDirIndex v)
      = k.vm.dirEntry .kernel (pageDirIndex v) := h.shared _ hwindow
  unfold Kfs.walk
  rw [hentry]

end Shares

/-! ## Steps that meet the condition -/

/-- Processes are created at free windows. `vmalloc` and `vfree` are called in
the kernel directory, with sizes whose sum with the break cannot overflow, and
while a process lives `vmalloc` finds a table for every window it needs. -/
def SystemEvent.Sharing (s : System) : SystemEvent → Prop
  | .process e => e.FreeWindow s.vm
  | .vmalloc size => s.vm.currentDirectory = some .kernel ∧ size ≤ 0xEFFFF000
      ∧ ((∀ p, ¬s.1.Live p) ∨ ∀ w, w < 1024 → vmallocTables s.2 size w →
        s.vm.dirEntry .kernel w &&& pagePresent ≠ 0)
  | .vfree _ => s.vm.currentDirectory = some .kernel
  | .mapPage _ _ _ => False

instance (a : Vmalloc) (n w : Nat) : Decidable (vmallocTables a n w) :=
  inferInstanceAs (Decidable (_ ∧ _ ∧ _ ∧ _))

instance (s : System) : (e : SystemEvent) → Decidable (e.Sharing s)
  | .process e => inferInstanceAs (Decidable (e.FreeWindow s.vm))
  | .vmalloc size => inferInstanceAs (Decidable (_ ∧ _ ∧ ((∀ p, ¬s.1.Live p)
      ∨ ∀ w, w < 1024 → vmallocTables s.2 size w → s.vm.dirEntry .kernel w &&& pagePresent ≠ 0)))
  | .vfree _ => inferInstanceAs (Decidable (_ = _))
  | .mapPage _ _ _ => inferInstanceAs (Decidable False)

def SharingStep (s : System) (label : SystemEvent × SystemReply) (s' : System) : Prop :=
  SystemStep s label s' ∧ label.1.Sharing s

/-- `SharingStep` as a function. -/
def sharingExec (s : System) (e : SystemEvent) : Option (SystemReply × System) :=
  if e.Sharing s then systemExec s e else none

theorem sharingExec_step ⦃s : System⦄ ⦃e : SystemEvent⦄ ⦃r : SystemReply⦄ ⦃s' : System⦄
    (h : sharingExec s e = some (r, s')) : SharingStep s (e, r) s' := by
  unfold sharingExec at h
  split at h
  · next hsharing => exact ⟨systemExec_step h, hsharing⟩
  · cases h

/-! ## The invariant -/

structure SharedInv (total : Nat) (s : System) : Prop where
  inv : ∃ base, SystemInv base total s
  shares : ∀ p, s.1.Live p → Shares s.1 p

/-- The tables of the kernel stay where they are. -/
def TablesStay (vm vm' : Vm) : Prop :=
  ∀ i, vm.dirEntry .kernel i &&& pagePresent ≠ 0 → vm'.dirEntry .kernel i = vm.dirEntry .kernel i

section Steps

variable {total : Nat} {s s' : System} {r : SystemReply}

theorem TablesStay.trans {vm vm' vm'' : Vm} (h : TablesStay vm vm') (h' : TablesStay vm' vm'') :
    TablesStay vm vm'' := by
  intro i hi
  have hfirst := h i hi
  exact (h' i (hfirst ▸ hi)).trans hfirst

/-- A call of the allocator that leaves the kernel directory alone. -/
theorem SharedInv.stayed (h : SharedInv total s) (hinv : ∃ base, SystemInv base total s')
    (hprocesses : ∀ p, s'.vm.directories (.process p) = s.vm.directories (.process p))
    (hkernel : (∀ p, ¬s.1.Live p) ∨ s'.vm.directories .kernel = s.vm.directories .kernel)
    (hsame : s'.1 = { s.1 with vm := s'.vm }) : SharedInv total s' := by
  refine ⟨hinv, ?_⟩
  intro p hp
  have htable : s'.1.processTable = s.1.processTable := by rw [hsame]
  have hlive : s.1.Live p := by
    unfold Kernel.Live at hp ⊢
    rwa [htable] at hp
  rcases hkernel with hnone | hkernel
  · exact absurd hlive (hnone p)
  · exact (h.shares p hlive).keeps ⟨hlive, by rw [htable], hprocesses p⟩ hkernel

theorem SharedInv.process {e : Event} (h : SharedInv total s)
    (hstep : SystemStep s (.process e, r) s') (hfree : e.FreeWindow s.vm) :
    SharedInv total s' ∧ TablesStay s.vm s'.vm := by
  obtain ⟨base, hinv⟩ := h.inv
  obtain ⟨reply, base', -, hinv', hout, -⟩ := hinv.process hstep hfree
  refine ⟨⟨⟨base', hinv'⟩, ?_⟩, fun i _ => congrFun hout.spares.kernel i⟩
  intro p hp
  rcases hout.each p hp with hkeeps | ⟨b, -, hfresh⟩
  · exact (h.shares p hkeeps.live).keeps hkeeps hout.spares.kernel
  · exact hfresh.shares

theorem SharedInv.vmalloc {n : Nat} (h : SharedInv total s)
    (hstep : SystemStep s (.vmalloc n, r) s') (hcurrent : s.vm.currentDirectory = some .kernel)
    (hn : n ≤ 0xEFFFF000) (htables : (∀ p, ¬s.1.Live p) ∨ ∀ w, w < 1024 → vmallocTables s.2 n w →
      s.vm.dirEntry .kernel w &&& pagePresent ≠ 0) :
    SharedInv total s' ∧ TablesStay s.vm s'.vm := by
  obtain ⟨base, hinv⟩ := h.inv
  obtain ⟨hinv', hstays⟩ := hinv.vmalloc hstep hcurrent hn
  obtain ⟨-, -, -, hsame⟩ := hstep.vmalloc
  refine ⟨h.stayed ⟨base, hinv'⟩ (fun p => hstays.directories _ nofun)
    (htables.imp_right fun hall => funext fun i => hstays.entries i ?_) hsame,
    fun i hi => hstays.entries i (Or.inl hi)⟩
  -- a window without a table is none the call enters one for
  by_cases hw : vmallocTables s.2 n i
  · refine Or.inl (hall i ?_ hw)
    obtain ⟨hpos, hfits, hlo, hhi⟩ := hw
    unfold vmallocEnd at hfits
    omega
  · exact Or.inr hw

theorem SharedInv.vfree {p : Nat} (h : SharedInv total s)
    (hstep : SystemStep s (.vfree p, r) s') (hcurrent : s.vm.currentDirectory = some .kernel) :
    SharedInv total s' ∧ TablesStay s.vm s'.vm := by
  obtain ⟨base, hinv⟩ := h.inv
  obtain ⟨hinv', hstays⟩ := hinv.vfree hstep hcurrent
  refine ⟨h.stayed ⟨base, hinv'⟩ (fun p => hstays.directories _ nofun)
    (Or.inr (funext fun i => hstays.entries i (Or.inr not_false))) hstep.vfree.2,
    fun i hi => hstays.entries i (Or.inl hi)⟩

theorem SharedInv.step {label : SystemEvent × SystemReply} (h : SharedInv total s)
    (hstep : SharingStep s label s') : SharedInv total s' ∧ TablesStay s.vm s'.vm := by
  obtain ⟨e, r⟩ := label
  obtain ⟨hstep, hsharing⟩ := hstep
  cases e with
  | process e => exact h.process hstep hsharing
  | vmalloc size => exact h.vmalloc hstep hsharing.1 hsharing.2.1 hsharing.2.2
  | vfree p => exact h.vfree hstep hsharing
  | mapPage virt phys flags => exact hsharing.elim

theorem SharedInv.run {labels : List (SystemEvent × SystemReply)} (h : SharedInv total s)
    (hrun : Run SharingStep s labels s') : SharedInv total s' ∧ TablesStay s.vm s'.vm := by
  refine hrun.invariant (I := fun s' => SharedInv total s' ∧ TablesStay s.vm s'.vm)
    ⟨h, fun _ _ => rfl⟩ ?_
  rintro s1 label s2 ⟨h1, hstay⟩ hstep
  obtain ⟨h2, hstay'⟩ := h1.step hstep
  exact ⟨h2, hstay.trans hstay'⟩

end Steps

/-! ## What the processes see -/

section View

variable {total : Nat} {s : System} {v : Nat} {r : VmRegion}

/-- A page of a region is mapped in the kernel directory. -/
theorem SharedInv.region (h : SharedInv total s) (hr : r ∈ s.2.regionList) (hv : r.Has v) :
    v < 4294967296 ∧ Mapped s.vm .kernel v := by
  obtain ⟨base, hinv⟩ := h.inv
  obtain ⟨-, hhi, addr, haddr⟩ := hinv.steady.inv.page hr hv
  have hlt : v < 4294967296 := by omega
  refine ⟨hlt, (hinv.kernelTables.mapped hlt).mpr ?_⟩
  rw [show flatOf s.vm .kernel (v / 4096) = some addr from haddr]
  exact Option.some_ne_none _

/-- In a window that the kernel uses, a process sees what the kernel sees. -/
theorem SharedInv.sees (h : SharedInv total s)
    (hpresent : s.vm.dirEntry .kernel (pageDirIndex v) &&& pagePresent ≠ 0) {p : Slot}
    (hp : s.1.Live p) :
    (Mapped s.vm (.process p) v ↔ Mapped s.vm .kernel v)
      ∧ pagingGetPhysicalInDirectory s.vm (some (.process p)) v
        = pagingGetPhysicalInDirectory s.vm (some .kernel) v := by
  have hwalk : walk s.vm (.process p) v = walk s.vm .kernel v := (h.shares p hp).walk hpresent
  constructor
  · unfold Mapped
    rw [hwalk]
  · rw [pagingGetPhysical_walk, pagingGetPhysical_walk, hwalk]

/-- A page of the range in no region is not mapped in the kernel directory. -/
theorem SharedInv.unmapped (h : SharedInv total s) (hrange : vmallocStart ≤ v ∧ v < vmallocEnd)
    (hnone : ∀ r ∈ s.2.regionList, ¬r.Has v) : ¬Mapped s.vm .kernel v := by
  obtain ⟨base, hinv⟩ := h.inv
  have hvm := hinv.steady.inv
  unfold vmallocStart vmallocEnd at hrange
  rw [hinv.kernelTables.mapped (by omega)]
  intro hsome
  obtain ⟨r, hr, hcovers⟩ := (hvm.mapped (v / 4096) (by omega) (by omega)).mp hsome
  exact hnone r hr ((hvm.regions.each r hr).has_iff.mpr hcovers)

end View

/-- In every state such steps reach, each page of a live region is the same in
the kernel directory and in that of every live process; and once a region is
freed its pages are mapped in none of them, until they are in a region
again. -/
theorem sharingRun_same {vm : Vm} {heap : Heap} (hboot : Booted vm heap)
    {labels : List (SystemEvent × SystemReply)} {s : System}
    (hrun : Run SharingStep (systemInit vm heap) labels s) :
    (∀ r ∈ s.2.regionList, ∀ v, r.Has v → Mapped s.vm .kernel v
      ∧ ∀ p, s.1.Live p → Mapped s.vm (.process p) v
        ∧ pagingGetPhysicalInDirectory s.vm (some (.process p)) v
          = pagingGetPhysicalInDirectory s.vm (some .kernel) v)
    ∧ ∀ r ∈ s.2.regionList, ∀ s1, SharingStep s (.vfree r.virtAddr, .done) s1 →
      ∀ later s2, Run SharingStep s1 later s2 →
      ∀ v, r.Has v → (∀ r' ∈ s2.2.regionList, ¬r'.Has v) → ¬Mapped s2.vm .kernel v
        ∧ ∀ p, s2.1.Live p → ¬Mapped s2.vm (.process p) v := by
  have hinit : SharedInv vm.pmm.totalFrames (systemInit vm heap) := by
    refine ⟨⟨_, hboot.ready.systemInv⟩, ?_⟩
    intro p hp
    obtain ⟨hne, hused⟩ := hp
    simp [systemInit, processInit, hne, Process.zero] at hused
  have h := (hinit.run hrun).1
  refine ⟨?_, ?_⟩
  · intro r hr v hv
    obtain ⟨-, hmapped⟩ := h.region hr hv
    refine ⟨hmapped, ?_⟩
    intro p hp
    obtain ⟨hiff, hphysical⟩ := h.sees hmapped.1 hp
    exact ⟨hiff.mpr hmapped, hphysical⟩
  · intro r hr s1 hstep later s2 hlater v hv hnone
    -- the kernel had a table there, and still has
    obtain ⟨-, hmapped⟩ := h.region hr hv
    obtain ⟨h1, hstay⟩ := h.step hstep
    obtain ⟨h2, hstay'⟩ := h1.run hlater
    have hpresent : s2.vm.dirEntry .kernel (pageDirIndex v) &&& pagePresent ≠ 0 := by
      rw [(hstay.trans hstay') _ hmapped.1]
      exact hmapped.1
    obtain ⟨base, hinv⟩ := h.inv
    have hok := hinv.steady.inv.regions.each r hr
    have hrange : vmallocStart ≤ v ∧ v < vmallocEnd := by
      have hstart := hok.start
      have htop := hok.top
      unfold VmRegion.stop at htop
      unfold VmRegion.Has at hv
      unfold vmallocStart vmallocEnd
      omega
    have hunmapped := h2.unmapped hrange hnone
    exact ⟨hunmapped, fun p hp hmapped' => hunmapped ((h2.sees hpresent hp).1.mp hmapped')⟩

/-- A region from before the process, one from after it in the same window,
which is freed again. -/
theorem sharingRun_same_window :
    ∃ s s1, Run SharingStep (systemInit (machine 4096 2576) machineHeap)
        [(.vmalloc 5000, .address 0x1000000),
          (.process (.createOwned 0 none 0), .reply (.created (some 1))),
          (.vmalloc 1, .address 0x1002000)] s
      ∧ SharingStep s (.vfree 0x1002000, .done) s1
      ∧ (Mapped s.vm (.process 1) 0x1002000
        ∧ pagingGetPhysicalInDirectory s.vm (some (.process 1)) 0x1002000
          = pagingGetPhysicalInDirectory s.vm (some .kernel) 0x1002000)
      ∧ ¬Mapped s1.vm .kernel 0x1002000 ∧ ¬Mapped s1.vm (.process 1) 0x1002000 := by
  obtain ⟨s, s1, hrun, hfree, hlive, hlive', ⟨r, hr, hstart, hhas⟩, hnone⟩ :=
    execRun_observe_two sharingExec_step (systemInit (machine 4096 2576) machineHeap)
      [.vmalloc 5000, .process (.createOwned 0 none 0), .vmalloc 1]
      [.address 0x1000000, .reply (.created (some 1)), .address 0x1002000]
      [.vfree 0x1002000] [.done]
      (fun s s1 => s.1.Live 1 ∧ s1.1.Live 1
        ∧ (∃ r ∈ s.2.regionList, r.virtAddr = 0x1002000 ∧ r.Has 0x1002000)
        ∧ ∀ r ∈ s1.2.regionList, ¬r.Has 0x1002000) (by decide +kernel)
  obtain ⟨s1', hfree, hnil⟩ := hfree.uncons
  obtain rfl := hnil.eq_of_nil
  have hboot : Booted (machine 4096 2576) machineHeap :=
    rangeMachine_booted (by decide) (by decide) (by decide)
  obtain ⟨hsame, hgone⟩ := sharingRun_same hboot hrun
  have hfreed := hgone r hr s1 (by rw [hstart]; exact hfree) [] s1 .nil 0x1002000 hhas hnone
  exact ⟨s, s1, hrun, hfree, (hsame r hr _ hhas).2 1 hlive, hfreed.1, hfreed.2 1 hlive'⟩

/-- A region from after the process, in a window of which the kernel had
nothing when the process was created. -/
theorem systemRun_hidden :
    Booted (machine 4096 2576) machineHeap
      ∧ ∃ s, Run SystemStep (systemInit (machine 4096 2576) machineHeap)
          [(.process (.createOwned 0 none 0), .reply (.created (some 1))),
            (.vmalloc 1, .address 0x1000000)] s
        ∧ s.1.Live 1 ∧ (∃ r ∈ s.2.regionList, r.Has 0x1000000)
        ∧ s.vm.currentDirectory = some .kernel
        ∧ Mapped s.vm .kernel 0x1000000 ∧ ¬Mapped s.vm (.process 1) 0x1000000 := by
  refine ⟨rangeMachine_booted (by decide) (by decide) (by decide), ?_⟩
  exact execRun_observe systemExec_step (systemInit (machine 4096 2576) machineHeap)
    [.process (.createOwned 0 none 0), .vmalloc 1]
    [.reply (.created (some 1)), .address 0x1000000]
    (fun s => s.1.Live 1 ∧ (∃ r ∈ s.2.regionList, r.Has 0x1000000)
      ∧ s.vm.currentDirectory = some .kernel
      ∧ Mapped s.vm .kernel 0x1000000 ∧ ¬Mapped s.vm (.process 1) 0x1000000) (by decide +kernel)

end Kfs
