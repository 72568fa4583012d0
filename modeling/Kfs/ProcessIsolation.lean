import Kfs.ProcessRegions
import Kfs.PmmRuns

/-!
# Isolation

Processes at the default bases, all in the window of entry 8. Each has an
address space of its own (`Space`), its directory is the kernel's everywhere
else, and a ledger says who has which frame: the frames used before the first
process, those leaked since by creations that failed, and the five frames of
each live process. `SpaceInv` is this together.

A process changes hands with its directory: a slot and its static directory
are used again after a reap, so the invariant says nothing about the
directories of free slots.

The two results are isolation (`kernelRun_isolated`) and conservation of
frames (`kernelRun_frames`).
-/

namespace Kfs

structure SpaceInv (base : Finset Nat) (total : Nat) (k : Kernel) : Prop where
  ready : VmReady k.vm
  frames : k.vm.pmm.totalFrames = total
  low : 0 < total → 0 ∈ base
  ledger : Ledger (usedSet k.vm.pmm) base k.framesOf
  spaces : ∀ p, k.Live p →
    ∃ table frames, Space k.vm p (k.processTable p).memory table frames

/-! ## The invariant along runs -/

/-- Process `q` sits at the default base, and its directory is the kernel's
but for the window there. -/
structure AtDefault (k : Kernel) (q : Slot) : Prop where
  base : (k.processTable q).memory.virtualBase = processVirtualBaseForSlot q
  shared : ∀ i, i ≠ 8 → k.vm.directories (.process q) i = k.vm.directories .kernel i

section Default

variable {base base' : Finset Nat} {total : Nat} {k k' : Kernel} {q : Slot}

theorem AtDefault.keeps (h : AtDefault k q) (hkeeps : Keeps k k' q)
    (hkernel : k'.vm.directories .kernel = k.vm.directories .kernel) : AtDefault k' q := by
  refine ⟨(virtualBase_layout hkeeps.layout).trans h.base, ?_⟩
  intro i hi
  rw [hkeeps.directory, hkernel]
  exact h.shared i hi

theorem Fresh.atDefault (h : Fresh k q 0) : AtDefault k q := by
  have hbase : (k.processTable q).memory.virtualBase = processVirtualBaseForSlot q :=
    h.base.trans (baseOf_zero q)
  have hindex : pageDirIndex (processVirtualBaseForSlot q) = 8 := (inWindow_slot q 0 (by omega)).1
  refine ⟨hbase, fun i hi => h.shared i ?_⟩
  rwa [hbase, hindex]

/-- A space at the default base. -/
theorem AtDefault.space (h : AtDefault k q) (hspace : k.HasSpace q) :
    ∃ table frames, Space k.vm q (k.processTable q).memory table frames := by
  obtain ⟨b, w, start, table, frames, hspace⟩ := hspace
  obtain rfl : processVirtualBaseForSlot q = b := h.base.symm.trans hspace.placed.virtualBase
  obtain ⟨hw, hstart⟩ := hspace.window 0 (by omega)
  obtain ⟨hw', hstart'⟩ := inWindow_slot q 0 (by omega)
  obtain rfl : 8 = w := hw'.symm.trans hw
  obtain rfl : 32 * q.val = start := hstart'.symm.trans hstart
  exact ⟨table, frames, hspace.space h.shared⟩

theorem Regions.spaceInv (h : Regions base total k)
    (hvacant : k.vm.directories .kernel 8 &&& pagePresent = 0)
    (hdefault : ∀ q, k.Live q → AtDefault k q) : SpaceInv base total k :=
  ⟨⟨h.ok, h.lowUsed, h.kernelDirectory, hvacant⟩, h.frames, h.low, h.ledger,
    fun q hq => (hdefault q hq).space (h.spaces q hq)⟩

end Default

theorem kernelRun_spaces {vm : Vm} {labels : List (Event × Reply)} {k : Kernel}
    (hready : VmReady vm) (hrun : Run KernelStep (processInit vm) labels k)
    (hbase : ∀ label ∈ labels, label.1.base = 0) :
    ∃ base, SpaceInv base vm.pmm.totalFrames k
      ∧ ((∀ label ∈ labels, ¬refuses label) → base = usedSet vm.pmm) := by
  have hregions := regions_processInit hready.ok hready.low hready.kernelDirectory
  have hnone : ∀ q, ¬(processInit vm).Live q := fun q hq => by
    obtain ⟨hne, hused⟩ := hq
    simp [processInit, hne, Process.zero] at hused
  have hall : ∃ base, Regions base vm.pmm.totalFrames k
      ∧ k.vm.directories .kernel 8 &&& pagePresent = 0 ∧ (∀ q, k.Live q → AtDefault k q)
      ∧ ((∀ label ∈ labels, ¬refuses label) → base = usedSet vm.pmm) := by
    refine (hrun.invariant_trace (I := fun labels k => Linkage k
      ∧ ((∀ label ∈ labels, label.1.base = 0) → ∃ base, Regions base vm.pmm.totalFrames k
        ∧ k.vm.directories .kernel 8 &&& pagePresent = 0 ∧ (∀ q, k.Live q → AtDefault k q)
        ∧ ((∀ label ∈ labels, ¬refuses label) → base = usedSet vm.pmm)))
      ⟨linkage_processInit vm, fun _ => ⟨_, hregions, hready.vacant,
        fun q hq => absurd hq (hnone q), fun _ => rfl⟩⟩ ?_).2 hbase
    rintro labels k1 label k2 ⟨hl, ih⟩ hstep
    refine ⟨hl.step hstep, ?_⟩
    intro hall
    obtain ⟨base1, hregions1, hvacant1, hdefault1, hsame1⟩ :=
      ih fun l hl => hall l (List.mem_append_left _ hl)
    have hzero := hall label (by simp)
    have hfree : label.1.FreeWindow k1.vm := by
      intro _ p
      rw [hzero, baseOf_zero]
      exact freeWindow_slot hvacant1 p
    obtain ⟨base2, hout, hsame2⟩ := hregions1.step hl hstep hfree
    refine ⟨base2, hout.regions, hout.spares.kernel ▸ hvacant1, ?_, ?_⟩
    · intro q hq
      rcases hout.each q hq with hkeeps | ⟨b, rfl, hfresh⟩
      · exact (hdefault1 q hkeeps.live).keeps hkeeps hout.spares.kernel
      · rw [hzero] at hfresh
        exact hfresh.atDefault
    · intro hsucc
      rw [hsame2 (hsucc label (by simp)), hsame1 fun l hl => hsucc l (List.mem_append_left _ hl)]
  obtain ⟨base, hregions, hvacant, hdefault, hsame⟩ := hall
  exact ⟨base, hregions.spaceInv hvacant hdefault, hsame⟩

/-! ## Ready machines -/

/-- The machine is ready after `pmm_init`, `kmalloc_init` and `paging_init`. -/
theorem vmReady_boot {kernelStart kernelEnd : Nat} {m m' : Mem} {mbi : MultibootInfo} {p : Pmm}
    (hks : kernelStart ≤ kernelEnd) (hlim : heapLimit kernelEnd < 4294967296)
    (hinit : pmmInit kernelStart kernelEnd m mbi = .ok p) (kernelPageTables : Fin 4 → Nat)
    (vm : Vm) :
    VmReady (pagingInit kernelPageTables { vm with pmm := (kmallocInit kernelEnd m' p).2 }) where
  ok := (@frameInv_boot _ _ _ m' _ _ hks hlim hinit).ok
  low hpos := by
    have hreserved : Reserved kernelStart kernelEnd (kmallocInit kernelEnd m' p).1 0 :=
      Or.inl ⟨0, Nat.le_refl 0, by decide, rfl⟩
    exact mem_usedSet.mpr
      ⟨hpos, (@frameInv_boot _ _ _ m' _ _ hks hlim hinit).reserved 0 hpos hreserved⟩
  kernelDirectory := rfl
  vacant := by
    unfold pagingInit
    simp only [Function.update_self]
    exact not_present_zero

theorem eightMegabytes_test (f : Nat) :
    bitmapTest eightMegabytes.pmm f = decide (f < 512 ∨ 2048 ≤ f) := by
  have hones : ∀ j < 8, (0xFF#8).getLsbD j = true := by decide
  show testBit (fun i => if 64 ≤ i ∧ i < 256 then 0#8 else 0xFF#8) f = _
  rw [testBit_eq_getLsbD]
  by_cases h : 64 ≤ f / 8 ∧ f / 8 < 256
  · simp only [if_pos h, BitVec.getLsbD_zero]
    exact (decide_eq_false (by omega)).symm
  · simp only [if_neg h, hones (f % 8) (by omega)]
    exact (decide_eq_true (by omega)).symm

theorem eightMegabytes_ready : VmReady eightMegabytes := by
  have htotal : eightMegabytes.pmm.totalFrames = 2048 := rfl
  have hused : usedSet eightMegabytes.pmm = Finset.range 512 := by
    ext f
    rw [mem_usedSet, eightMegabytes_test, decide_eq_true_eq, Finset.mem_range, htotal]
    omega
  refine ⟨⟨by omega, ?_, ?_⟩, ?_, rfl, rfl⟩
  · rw [hused, Finset.card_range]
    rfl
  · intro f hf
    rw [eightMegabytes_test, decide_eq_true_eq]
    omega
  · intro _
    rw [hused, Finset.mem_range]
    omega

/-! ## Isolation -/

/-- The two entries a virtual address goes through. -/
def walk (vm : Vm) (d : Directory) (v : Nat) : Nat × Nat :=
  (vm.dirEntry d (pageDirIndex v),
    vm.tableEntry (pageFrame (vm.dirEntry d (pageDirIndex v))) (pageTableIndex v))

/-- Both entries are present. -/
def Mapped (vm : Vm) (d : Directory) (v : Nat) : Prop :=
  (walk vm d v).1 &&& pagePresent ≠ 0 ∧ (walk vm d v).2 &&& pagePresent ≠ 0

instance (vm : Vm) (d : Directory) (v : Nat) : Decidable (Mapped vm d v) :=
  inferInstanceAs (Decidable (_ ∧ _))

/-- The first addresses of data, bss, heap and stack. -/
def ProcessMemory.start (m : ProcessMemory) : Fin 4 → Nat
  | 0 => m.dataStart
  | 1 => m.bssStart
  | 2 => m.heapStart
  | 3 => m.stackBase

/-- The pages of data, bss, heap and stack, and the page table. -/
def ProcessMemory.page (m : ProcessMemory) : Fin 5 → Nat
  | 0 => m.dataPage
  | 1 => m.bssPage
  | 2 => m.heapPage
  | 3 => m.stackPage
  | 4 => m.processPageTable

/-- Each live process sees its own pages, none of another's, and the rest as
the kernel does. -/
structure Isolated (k : Kernel) : Prop where
  directory : ∀ p, k.Live p → (k.processTable p).memory.processPageDirectory = some (.process p)
  own : ∀ p, k.Live p → ∀ (j : Fin 4) (offset : Nat), offset < 4096 →
    pagingGetPhysicalInDirectory k.vm (some (.process p))
      ((k.processTable p).memory.start j + offset)
      = (k.processTable p).memory.page j.castSucc + offset
  rights : ∀ p, k.Live p → ∀ (j : Fin 4) (offset : Nat), offset < 4096 →
    let entries := walk k.vm (.process p) ((k.processTable p).memory.start j + offset)
    entries.1 &&& pageUserRw = pageUserRw ∧ entries.2 &&& pageUserRw = pageUserRw
  foreign : ∀ p q, k.Live p → k.Live q → p ≠ q → ∀ (j : Fin 4) (offset : Nat), offset < 4096 →
    ¬Mapped k.vm (.process p) ((k.processTable q).memory.start j + offset)
  kernel : ∀ p, k.Live p → ∀ v, v < 4294967296 → ¬(0x02000000 ≤ v ∧ v < 0x02400000) →
    walk k.vm (.process p) v = walk k.vm .kernel v
      ∧ pagingGetPhysicalInDirectory k.vm (some (.process p)) v
        = pagingGetPhysicalInDirectory k.vm (some .kernel) v
  frames : ∀ p q, k.Live p → k.Live q → ∀ i j : Fin 5,
    (k.processTable p).memory.page i / 4096 = (k.processTable q).memory.page j / 4096 →
      p = q ∧ i = j

section Walks

variable {vm : Vm} {p : Slot} {m : ProcessMemory} {table : Nat} {frames : List Nat}

theorem Space.spaceAt (h : Space vm p m table frames) :
    SpaceAt vm p m (processVirtualBaseForSlot p) 8 (32 * p.val) table frames where
  placed :=
    ⟨h.placed.directory, h.placed.base, h.placed.data,
      h.placed.bss.trans (pageFrom_slot p (by omega)).symm,
      h.placed.heap.trans (pageFrom_slot p (by omega)).symm,
      h.placed.stack.trans (pageFrom_slot p (by omega)).symm⟩
  window := inWindow_slot p
  addresses := h.addresses
  mounted := h.mounted.toMountedAt
  nodup := h.nodup
  small := h.small

theorem Space.start_eq (h : Space vm p m table frames) (j : Fin 4) :
    m.start j = processVirtualBaseForSlot p + 4096 * j.val := by
  match j with
  | 0 => exact h.placed.data.trans (by rw [Fin.val_zero, Nat.mul_zero, Nat.add_zero])
  | 1 => exact h.placed.bss
  | 2 => exact h.placed.heap
  | 3 => exact h.placed.stack

/-- A walk into the region of any slot `q` ends in the private table of
`p`. -/
theorem Space.walk_region (h : Space vm p m table frames) (q : Slot) {j offset : Nat} (hj : j < 4)
    (hoffset : offset < 4096) :
    walk vm (.process p) (processVirtualBaseForSlot q + 4096 * j + offset)
      = (userEntry table, entriesFrom (32 * p.val) frames (32 * q.val + j)) := by
  have hq := q.isLt
  have htable := (h.small table List.mem_cons_self).2
  obtain ⟨hdir, htab⟩ := pageIndex_slot q hj hoffset
  unfold walk Vm.dirEntry
  rw [hdir, htab, h.mounted.entry, pageFrame_userEntry (by omega), h.mounted.table _ (by omega)]

theorem Space.page_eq (h : Space vm p m table frames) (j : Fin 4) :
    ∃ f ∈ frames, m.page j.castSucc = f * 4096
      ∧ entriesFrom (32 * p.val) frames (32 * p.val + j.val) = userEntry f := by
  obtain ⟨f1, f2, f3, f4, rfl, h1, h2, h3, h4, -⟩ := h.spaceAt.pages
  unfold entriesFrom
  rw [if_neg (by omega), Nat.add_sub_cancel_left]
  match j with
  | 0 => exact ⟨f1, by simp, h1, rfl⟩
  | 1 => exact ⟨f2, by simp, h2, rfl⟩
  | 2 => exact ⟨f3, by simp, h3, rfl⟩
  | 3 => exact ⟨f4, by simp, h4, rfl⟩

/-- The private table maps nothing in the region of another slot. -/
theorem Space.foreign_entry (h : Space vm p m table frames) {q : Slot} (hpq : p ≠ q) {j : Nat}
    (hj : j < 4) : entriesFrom (32 * p.val) frames (32 * q.val + j) = 0 := by
  obtain ⟨f1, f2, f3, f4, rfl, -⟩ := h.spaceAt.pages
  have hne : p.val ≠ q.val := fun heq => hpq (Fin.ext heq)
  unfold entriesFrom
  by_cases hlt : 32 * q.val + j < 32 * p.val
  · rw [if_pos hlt]
  · rw [if_neg hlt, List.getElem?_eq_none (by simp only [List.length_cons, List.length_nil]; omega)]
    rfl

theorem Space.page_frame (h : Space vm p m table frames) (i : Fin 5) :
    m.page i / 4096 ∈ m.frames := by
  obtain ⟨f1, f2, f3, f4, rfl, h1, h2, h3, h4, h5⟩ := h.spaceAt.pages
  rw [h.spaceAt.frames_eq.1]
  match i with
  | 0 => simp [ProcessMemory.page, h1]
  | 1 => simp [ProcessMemory.page, h2]
  | 2 => simp [ProcessMemory.page, h3]
  | 3 => simp [ProcessMemory.page, h4]
  | 4 => simp [ProcessMemory.page, h5]

theorem Space.page_inj (h : Space vm p m table frames) {i j : Fin 5}
    (heq : m.page i / 4096 = m.page j / 4096) : i = j := by
  obtain ⟨f1, f2, f3, f4, rfl, h1, h2, h3, h4, h5⟩ := h.spaceAt.pages
  have hread : ∀ i : Fin 5, m.page i / 4096 = [f1, f2, f3, f4, table].get i := by
    intro i
    match i with
    | 0 => simp [ProcessMemory.page, h1]
    | 1 => simp [ProcessMemory.page, h2]
    | 2 => simp [ProcessMemory.page, h3]
    | 3 => simp [ProcessMemory.page, h4]
    | 4 => simp [ProcessMemory.page, h5]
  have hnodup : [f1, f2, f3, f4, table].Nodup := by
    have hperm : [f1, f2, f3, f4, table].Perm (table :: [f1, f2, f3, f4]) :=
      List.perm_append_singleton table [f1, f2, f3, f4]
    exact hperm.nodup_iff.mpr h.nodup
  rw [hread, hread] at heq
  exact hnodup.injective_get heq

end Walks

theorem pagingGetPhysical_walk (vm : Vm) (d : Directory) (v : Nat) :
    pagingGetPhysicalInDirectory vm (some d) v
      = if (walk vm d v).1 &&& pagePresent = 0 then 0
        else if (walk vm d v).2 &&& pagePresent = 0 then 0
        else pageFrame (walk vm d v).2 ||| pageOffset v := rfl

/-- Two live processes have no frame in common. -/
theorem SpaceInv.apart {base : Finset Nat} {total : Nat} {k : Kernel} (h : SpaceInv base total k)
    {p q : Slot} (hp : k.Live p) (hq : k.Live q) (hne : p ≠ q) :
    Disjoint (k.processTable p).memory.frames (k.processTable q).memory.frames := by
  rw [← framesOf_live hp, ← framesOf_live hq]
  exact h.ledger.disjoint p q hne

theorem SpaceInv.isolated {base : Finset Nat} {total : Nat} {k : Kernel}
    (h : SpaceInv base total k) : Isolated k := by
  refine ⟨?_, ?_, ?_, ?_, ?_, ?_⟩
  · intro p hp
    obtain ⟨table, frames, hspace⟩ := h.spaces p hp
    exact hspace.placed.directory
  · intro p hp j offset ho
    obtain ⟨table, frames, hspace⟩ := h.spaces p hp
    obtain ⟨f, hf, hpage, hentry⟩ := hspace.page_eq j
    have hlt := (hspace.small f (List.mem_cons_of_mem _ hf)).2
    have hoffset : pageOffset (processVirtualBaseForSlot p + 4096 * j.val + offset) = offset := by
      rw [pageOffset_eq, processVirtualBaseForSlot_eq]
      omega
    rw [pagingGetPhysical_walk, hspace.start_eq, hspace.walk_region p j.isLt ho, hentry, hoffset,
      hpage, if_neg (userEntry_present table), if_neg (userEntry_present f),
      pageFrame_userEntry (by omega), frame_or f ho]
  · intro p hp j offset ho
    obtain ⟨table, frames, hspace⟩ := h.spaces p hp
    obtain ⟨f, -, -, hentry⟩ := hspace.page_eq j
    rw [hspace.start_eq, hspace.walk_region p j.isLt ho, hentry]
    exact ⟨userEntry_rights table, userEntry_rights f⟩
  · intro p q hp hq hpq j offset ho hmapped
    obtain ⟨table, frames, hspace⟩ := h.spaces p hp
    obtain ⟨table', frames', hspace'⟩ := h.spaces q hq
    have hpresent := hmapped.2
    rw [hspace'.start_eq, hspace.walk_region q j.isLt ho, hspace.foreign_entry hpq j.isLt]
      at hpresent
    exact hpresent not_present_zero
  · intro p hp v hv hout
    obtain ⟨table, frames, hspace⟩ := h.spaces p hp
    have hindex : pageDirIndex v ≠ 8 := fun heq => hout ((pageDirIndex_window hv).mp heq)
    have hwalk : walk k.vm (.process p) v = walk k.vm .kernel v := by
      unfold walk Vm.dirEntry
      rw [hspace.mounted.shared _ hindex]
    exact ⟨hwalk, by rw [pagingGetPhysical_walk, pagingGetPhysical_walk, hwalk]⟩
  · intro p q hp hq i j heq
    obtain ⟨table, frames, hspace⟩ := h.spaces p hp
    obtain ⟨table', frames', hspace'⟩ := h.spaces q hq
    have hpq : p = q := by
      by_contra hne
      refine Finset.disjoint_left.mp (h.apart hp hq hne) (hspace.page_frame i) ?_
      rw [heq]
      exact hspace'.page_frame j
    subst hpq
    exact ⟨rfl, hspace.page_inj heq⟩

/-- In every state the kernel can reach the live processes are isolated from
each other. -/
theorem kernelRun_isolated {vm : Vm} {labels : List (Event × Reply)} {k : Kernel}
    (hready : VmReady vm) (hrun : Run KernelStep (processInit vm) labels k)
    (hbase : ∀ label ∈ labels, label.1.base = 0) : Isolated k := by
  obtain ⟨base, hinv, -⟩ := kernelRun_spaces hready hrun hbase
  exact hinv.isolated

/-- A process and its fork, and a third in the slot of one that was
reaped. -/
theorem kernelRun_isolated_reuse :
    ∃ labels k, Run KernelStep (processInit eightMegabytes) labels k
      ∧ (∀ label ∈ labels, label.1.base = 0) ∧ (k.Live 1 ∧ k.Live 2) ∧ Isolated k := by
  obtain ⟨k, hrun, hlive⟩ := execRun_observe kernelExec_step (processInit eightMegabytes)
    [.createOwned 0 (some .demoCounterProcess) 0, .fork (some 1), .exit (some 1) 7,
      .wait (some 0) 2, .createOwned 0 none 0]
    [.created (some 1), .created (some 2), .done, .waited (.reaped 1 7), .created (some 1)]
    (fun k => k.Live 1 ∧ k.Live 2) (by decide +kernel)
  exact ⟨_, k, hrun, by decide, hlive, kernelRun_isolated eightMegabytes_ready hrun (by decide)⟩

/-! ## Conservation -/

/-- The live processes. -/
def Kernel.liveSlots (k : Kernel) : Finset Slot := Finset.univ.filter k.Live

theorem SpaceInv.frames_sum {base : Finset Nat} {total : Nat} {k : Kernel}
    (h : SpaceInv base total k) :
    k.vm.pmm.usedFrames = base.card + 5 * k.liveSlots.card := by
  have hfive : ∀ p, (k.framesOf p).card = if k.Live p then 5 else 0 := by
    intro p
    by_cases hp : k.Live p
    · obtain ⟨table, frames, hspace⟩ := h.spaces p hp
      rw [framesOf_live hp, if_pos hp, hspace.spaceAt.frames_card]
    · rw [Kernel.framesOf, if_neg hp, if_neg hp, Finset.card_empty]
  rw [h.ready.ok.exact, h.ledger.card]
  simp only [hfive]
  rw [← Finset.sum_filter, Finset.sum_const, Nat.nsmul_eq_mul, Nat.mul_comm]
  rfl

/-- While no creation fails, each live process costs five frames, and when
the last is reaped the bitmap is back where it was. -/
theorem kernelRun_frames {vm : Vm} {labels : List (Event × Reply)} {k : Kernel}
    (hready : VmReady vm) (hrun : Run KernelStep (processInit vm) labels k)
    (hbase : ∀ label ∈ labels, label.1.base = 0) (hsucceeds : ∀ label ∈ labels, ¬refuses label) :
    k.vm.pmm.usedFrames = vm.pmm.usedFrames + 5 * k.liveSlots.card
      ∧ (k.liveSlots = ∅ → k.vm.pmm.frameBitmap = vm.pmm.frameBitmap) := by
  obtain ⟨base, hinv, hsame⟩ := kernelRun_spaces hready hrun hbase
  obtain rfl := hsame hsucceeds
  refine ⟨by rw [hinv.frames_sum, hready.ok.exact], ?_⟩
  intro hnone
  refine frameBitmap_eq hinv.ready.ok hready.ok hinv.frames ?_
  have hempty : k.framesOf = fun _ => ∅ := funext fun p => if_neg fun hp => by
    have hmem : p ∈ k.liveSlots := Finset.mem_filter.mpr ⟨Finset.mem_univ p, hp⟩
    rw [hnone] at hmem
    exact absurd hmem (Finset.notMem_empty p)
  have htotal := hinv.ledger.total
  rw [hempty] at htotal
  rw [htotal]
  ext f
  simp

/-- Two processes come and go. -/
theorem kernelRun_frames_reaped :
    ∃ labels k, Run KernelStep (processInit eightMegabytes) labels k
      ∧ (∀ label ∈ labels, label.1.base = 0) ∧ (∀ label ∈ labels, ¬refuses label)
      ∧ k.liveSlots = ∅ ∧ k.vm.pmm.frameBitmap = eightMegabytes.pmm.frameBitmap := by
  obtain ⟨k, hrun, hlive⟩ := execRun_observe kernelExec_step (processInit eightMegabytes)
    [.createOwned 0 (some .demoCounterProcess) 0, .fork (some 1), .exit (some 1) 7,
      .wait (some 0) 2, .exit (some 2) 7, .wait (some 0) 3]
    [.created (some 1), .created (some 2), .done, .waited (.reaped 1 7), .done,
      .waited (.reaped 2 7)]
    (fun k => k.liveSlots = ∅) (by decide +kernel)
  have hsucceeds : ∀ label ∈ [
      ((.createOwned 0 (some .demoCounterProcess) 0, .created (some 1)) : Event × Reply),
      (.fork (some 1), .created (some 2)), (.exit (some 1) 7, .done),
      (.wait (some 0) 2, .waited (.reaped 1 7)), (.exit (some 2) 7, .done),
      (.wait (some 0) 3, .waited (.reaped 2 7))], ¬refuses label := by
    simp [refuses]
  exact ⟨_, k, hrun, by decide, hsucceeds, hlive,
    (kernelRun_frames eightMegabytes_ready hrun (by decide) hsucceeds).2 hlive⟩

end Kfs
