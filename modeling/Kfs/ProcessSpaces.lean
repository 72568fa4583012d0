import Kfs.PagingEntries
import Kfs.ProcessCore

/-!
# Address spaces

What `process_memory_map` builds and `process_release_memory` takes down, on
the machine alone, for a process whose four pages are in one 4 MB window of
which the kernel directory has no entry.

While the pages are mapped, the directory of the process is the kernel's but
for the entry of the window, which points to a private table, and the table
maps the pages so far and nothing else (`MountedAt`). The private table
appears with the first page, so the first mapping has a lemma of its own
(`map_first`) and the other three share one (`map_next`). `Takes` is the
frame allocator's side: the frames that were free before and are used now.

A mapping that fails half-way gives its pages back but not the table, whose
address is recorded only at the very end: `processMemoryMap_at` lets one
frame leak (`Leaves`).
-/

namespace Kfs

/-! ## The region of a slot -/

theorem processVirtualBaseForSlot_eq (p : Slot) :
    processVirtualBaseForSlot p = 0x02000000 + p.val * 0x20000 := by
  unfold processVirtualBaseForSlot
  rw [mul32_eq, add32_eq]
  omega

/-- Page `j` of slot `p` sits at entry `32 * p + j` of a table that is entry
8 of the directory. -/
theorem pageIndex_slot (p : Slot) {j offset : Nat} (hj : j < 4) (hoffset : offset < 4096) :
    pageDirIndex (processVirtualBaseForSlot p + 4096 * j + offset) = 8
      ∧ pageTableIndex (processVirtualBaseForSlot p + 4096 * j + offset) = 32 * p.val + j := by
  rw [processVirtualBaseForSlot_eq, pageDirIndex_eq (by omega), pageTableIndex_eq]
  omega

/-- The addresses of entry 8. -/
theorem pageDirIndex_window {v : Nat} (hv : v < 4294967296) :
    pageDirIndex v = 8 ↔ 0x02000000 ≤ v ∧ v < 0x02400000 := by
  rw [pageDirIndex_eq hv]
  omega

/-- The base of a process in slot `p`, where `0` asks for the default. -/
def baseOf (base : Nat) (p : Slot) : Nat := if base = 0 then processVirtualBaseForSlot p else base

theorem baseOf_zero (p : Slot) : baseOf 0 p = processVirtualBaseForSlot p := if_pos rfl

/-- Page `j` of a process at `base`. -/
def pageFrom (base : Nat) : Nat → Nat
  | 0 => base
  | j + 1 => add32 base (4096 * (j + 1))

/-- The four pages are entries `start` to `start + 3` of the table of window
`w`. -/
def InWindow (base w start : Nat) : Prop :=
  ∀ j, j < 4 → pageDirIndex (pageFrom base j) = w ∧ pageTableIndex (pageFrom base j) = start + j

theorem pageFrom_slot (p : Slot) {j : Nat} (hj : j < 4) :
    pageFrom (processVirtualBaseForSlot p) j = processVirtualBaseForSlot p + 4096 * j := by
  cases j with
  | zero => rw [pageFrom, Nat.mul_zero, Nat.add_zero]
  | succ j =>
      rw [pageFrom, processVirtualBaseForSlot_eq, add32_of_lt (by omega)]

theorem inWindow_slot (p : Slot) : InWindow (processVirtualBaseForSlot p) 8 (32 * p.val) := by
  intro j hj
  have h := pageIndex_slot p hj (show 0 < 4096 by omega)
  rw [Nat.add_zero] at h
  rwa [pageFrom_slot p hj]

/-- Four pages with the directory index of the first are in a row. -/
theorem inWindow_of {base : Nat}
    (h : ∀ j, j < 4 → pageDirIndex (pageFrom base j) = pageDirIndex base) :
    InWindow base (pageDirIndex base) (pageTableIndex base) := by
  have hdir : ∀ v, pageDirIndex v = v / 4096 / 1024 % 1024 := by
    intro v
    unfold pageDirIndex
    rw [Nat.shiftRight_eq_div_pow, Nat.div_div_eq_div_mul]
    exact Nat.and_two_pow_sub_one_eq_mod _ 10
  have hpage : ∀ n, n < 4 → add32 base (4096 * n) / 4096 = (base / 4096 + n) % 1048576 := by
    intro n hn
    rw [add32_eq]
    omega
  -- the last page is in the same window, so the first is not near its end
  have hlast := h 3 (by omega)
  rw [hdir, hdir, pageFrom, hpage 3 (by omega)] at hlast
  intro j hj
  refine ⟨h j hj, ?_⟩
  cases j with
  | zero => rfl
  | succ j =>
      rw [pageTableIndex_eq, pageTableIndex_eq, pageFrom, hpage _ hj]
      generalize base / 4096 = first at *
      omega

/-! ## The private table -/

/-- The entries of a table that maps `frames`, in this order, from entry
`start` on. -/
def entriesFrom (start : Nat) (frames : List Nat) (i : Nat) : Nat :=
  if i < start then 0 else (frames[i - start]?).elim 0 userEntry

theorem entriesFrom_nil (start i : Nat) : entriesFrom start [] i = 0 := by
  unfold entriesFrom
  split <;> rfl

theorem entriesFrom_snoc (start : Nat) (frames : List Nat) (f i : Nat) :
    entriesFrom start (frames ++ [f]) i
      = if i = start + frames.length then userEntry f else entriesFrom start frames i := by
  unfold entriesFrom
  by_cases hlt : i < start
  · rw [if_pos hlt, if_pos hlt, if_neg (by omega)]
  · rw [if_neg hlt, if_neg hlt, List.getElem?_append]
    by_cases hin : i - start < frames.length
    · rw [if_pos hin, if_neg (by omega)]
    · rw [if_neg hin, @List.getElem?_eq_none _ frames _ (by omega)]
      by_cases heq : i = start + frames.length
      · rw [if_pos heq, show i - start - frames.length = 0 by omega]
        rfl
      · rw [if_neg heq, List.getElem?_eq_none (by rw [List.length_singleton]; omega)]

/-- The entry of window `w` in the directory of `p` is a table in frame
`table` that maps `frames`. -/
structure MountedAt (vm : Vm) (p : Slot) (w start table : Nat) (frames : List Nat) : Prop where
  entry : vm.directories (.process p) w = userEntry table
  table : ∀ i, i < 1024 → vm.tableEntry (table * 4096) i = entriesFrom start frames i

/-- The directory of `p` is the kernel's but for entry 8, a table that maps
`frames` at the region of slot `p`. -/
structure Mounted (vm : Vm) (p : Slot) (table : Nat) (frames : List Nat) : Prop
    extends MountedAt vm p 8 (32 * p.val) table frames where
  shared : ∀ i, i ≠ 8 → vm.directories (.process p) i = vm.directories .kernel i

/-- It depends on a directory and the frame of the table. -/
theorem MountedAt.congr {vm vm' : Vm} {p : Slot} {w start table : Nat} {frames : List Nat}
    (h : MountedAt vm p w start table frames)
    (hown : vm'.directories (.process p) = vm.directories (.process p))
    (hmem : ∀ x, x / 4096 = table → vm'.mem x = vm.mem x) :
    MountedAt vm' p w start table frames where
  entry := by rw [hown, h.entry]
  table i hi := (tableEntry_congr hi hmem).trans (h.table i hi)

/-- Mapping one more page. -/
theorem MountedAt.setTableEntry {vm : Vm} {p : Slot} {w start table f : Nat} {frames : List Nat}
    (h : MountedAt vm p w start table frames) (hf : f < 1048576) :
    MountedAt (vm.setTableEntry (table * 4096) (start + frames.length) (userEntry f)) p w start
      table (frames ++ [f]) where
  entry := h.entry
  table i hi := by
    rw [tableEntry_setTableEntry vm (userEntry_lt hf), entriesFrom_snoc, h.table i hi]

/-! ## Mapping a page -/

/-- The directory already has the table. -/
theorem pagingGetOrCreateTable_old {vm : Vm} {d : Directory} {v table : Nat}
    (h : vm.dirEntry d (pageDirIndex v) = userEntry table) (hlt : table < 1048576) :
    pagingGetOrCreateTable vm d v pageUserRw = .ok (table * 4096, vm) := by
  unfold pagingGetOrCreateTable
  simp only
  rw [h, if_neg (userEntry_present table), if_pos (by decide), userEntry_or_user,
    setDirEntry_self h, h, pageFrame_userEntry hlt]

/-- The directory has no table: one is created, or the kernel panics. -/
theorem pagingGetOrCreateTable_new {vm vm' : Vm} {d : Directory} {v addr : Nat}
    (hok : PmmOk vm.pmm) (hlow : LowUsed vm.pmm)
    (habsent : vm.dirEntry d (pageDirIndex v) &&& pagePresent = 0)
    (h : pagingGetOrCreateTable vm d v pageUserRw = .ok (addr, vm')) :
    ∃ table pmm, Takes {table} vm.pmm pmm ∧ addr = table * 4096
      ∧ vm' = (({ vm with pmm := pmm }).clearPage (table * 4096)).setDirEntry d (pageDirIndex v)
        (userEntry table) := by
  unfold pagingGetOrCreateTable at h
  simp only at h
  rw [if_pos habsent] at h
  rcases allocFrame_cases hok hlow with he | ⟨table, pmm, hne, htakes, he⟩
  · rw [he] at h
    cases h
  · rw [he] at h
    simp only at h
    rw [if_neg (by omega), if_pos (by decide), dirEntry_setDirEntry, setDirEntry_setDirEntry,
      tableWord] at h
    obtain ⟨rfl, rfl⟩ := Prod.mk.inj (Except.ok.inj h)
    exact ⟨table, pmm, htakes, rfl, rfl⟩

/-- A new table is empty. -/
theorem mounted_new {vm : Vm} {p : Slot} {w start table : Nat} :
    MountedAt ((vm.clearPage (table * 4096)).setDirEntry (.process p) w (userEntry table)) p w
        start table []
      ∧ ∀ i, i ≠ w → ((vm.clearPage (table * 4096)).setDirEntry (.process p) w
        (userEntry table)).directories (.process p) i = vm.directories (.process p) i := by
  refine ⟨⟨dirEntry_setDirEntry _ _ _ _, ?_⟩, ?_⟩
  · intro i hi
    rw [entriesFrom_nil]
    exact tableEntry_clearPage vm hi
  · intro i hi
    simp [Vm.setDirEntry, Vm.clearPage, hi]

/-- The state of a mapping that started in `vm0` and has mapped `frames` so
far. -/
structure Mapping (vm0 vm : Vm) (p : Slot) (w start table : Nat) (frames : List Nat) : Prop where
  mounted : MountedAt vm p w start table frames
  others : ∀ i, i ≠ w → vm.directories (.process p) i = vm0.directories (.process p) i
  takes : Takes (table :: frames).toFinset vm0.pmm vm.pmm
  touches : Touches (.process p) (table :: frames).toFinset vm0 vm
  nodup : (table :: frames).Nodup

/-- How a page comes to be mapped: a frame, a table, an entry, and the frame
is cleared. -/
theorem allocProcessPage_some {vm vm' : Vm} {p : Slot} {m : ProcessMemory} {v page : Nat}
    (hok : PmmOk vm.pmm) (hlow : LowUsed vm.pmm)
    (hdir : m.processPageDirectory = some (.process p))
    (h : allocProcessPage vm m v = .ok (some page, vm')) :
    ∃ f pmm table vm1, Takes {f} vm.pmm pmm ∧ page = f * 4096
      ∧ pagingGetOrCreateTable { vm with pmm := pmm } (.process p) v pageUserRw = .ok (table, vm1)
      ∧ vm' = (vm1.setTableEntry table (pageTableIndex v) (userEntry f)).clearPage
        (f * 4096) := by
  unfold allocProcessPage at h
  rcases allocFrame_cases hok hlow with he | ⟨f, pmm, hne, htakes, he⟩
  · rw [he] at h
    cases (Prod.mk.inj (Except.ok.inj h)).1
  · rw [he] at h
    simp only at h
    rw [if_neg (by omega), hdir] at h
    obtain ⟨vm2, hmap, h⟩ := bind_eq_ok.mp h
    obtain ⟨⟨table, vm1⟩, htable, hmap⟩ := bind_eq_ok.mp hmap
    obtain ⟨hpage, rfl⟩ := Prod.mk.inj (Except.ok.inj h)
    obtain rfl := Option.some.inj hpage
    obtain rfl := Except.ok.inj hmap
    have hf : f < 32768 := htakes.lt (Finset.mem_singleton_self f)
    refine ⟨f, pmm, table, vm1, htakes, rfl, htable, ?_⟩
    rw [pageWord (by omega)]

theorem allocProcessPage_none {vm vm' : Vm} {m : ProcessMemory} {v : Nat}
    (hok : PmmOk vm.pmm) (hlow : LowUsed vm.pmm)
    (h : allocProcessPage vm m v = .ok (none, vm')) : vm' = vm := by
  unfold allocProcessPage at h
  rcases allocFrame_cases hok hlow with he | ⟨f, pmm, hne, htakes, he⟩
  · rw [he] at h
    exact (Prod.mk.inj (Except.ok.inj h)).2.symm
  · rw [he] at h
    simp only at h
    rw [if_neg (by omega)] at h
    obtain ⟨vm2, -, h⟩ := bind_eq_ok.mp h
    cases (Prod.mk.inj (Except.ok.inj h)).1

/-- The table is there: the entry is written and the page is cleared. -/
theorem MountedAt.mapPage {vm : Vm} {p : Slot} {w start table f : Nat} {frames : List Nat}
    (h : MountedAt vm p w start table frames) (hf : f < 1048576) (hne : f ≠ table)
    (hindex : start + frames.length < 1024) :
    MountedAt ((vm.setTableEntry (table * 4096) (start + frames.length)
        (userEntry f)).clearPage (f * 4096)) p w start table (frames ++ [f])
      ∧ Touches (.process p) {table, f} vm ((vm.setTableEntry (table * 4096)
        (start + frames.length) (userEntry f)).clearPage (f * 4096)) := by
  have hclear := touches_clearPage (.process p)
    (vm.setTableEntry (table * 4096) (start + frames.length) (userEntry f)) f
  constructor
  · refine (h.setTableEntry hf).congr rfl fun x hx => hclear.mem x ?_
    rw [hx, Finset.mem_singleton]
    exact hne.symm
  · have hset := @touches_setTableEntry (.process p) vm table _ hindex (userEntry f)
    exact (hset.mono (by simp)).trans (hclear.mono (by simp))

/-- The first page brings the table with it. -/
theorem map_first {vm vm' : Vm} {p : Slot} {m : ProcessMemory} {w start v page : Nat}
    (hok : PmmOk vm.pmm) (hlow : LowUsed vm.pmm)
    (hdir : m.processPageDirectory = some (.process p))
    (habsent : vm.directories (.process p) w &&& pagePresent = 0)
    (hv : pageDirIndex v = w ∧ pageTableIndex v = start)
    (h : allocProcessPage vm m v = .ok (some page, vm')) :
    ∃ table f, page = f * 4096 ∧ Mapping vm vm' p w start table [f] := by
  have hindex := pageTableIndex_lt v
  obtain ⟨f, pmm, addr, vm1, htakes, rfl, htable, rfl⟩ := allocProcessPage_some hok hlow hdir h
  have hgot := pagingGetOrCreateTable_new htakes.ok
    (htakes.lowUsed hlow) (by rw [hv.1]; exact habsent) htable
  obtain ⟨table, pmm', htakes', rfl, rfl⟩ := hgot
  rw [hv.1, hv.2]
  have hf := htakes.lt (Finset.mem_singleton_self f)
  have hne : f ≠ table := by
    rintro rfl
    refine Finset.disjoint_left.mp htakes'.fresh ?_ (Finset.mem_singleton_self f)
    exact htakes.used ▸ Finset.mem_union_right _ (Finset.mem_singleton_self f)
  obtain ⟨hnew, hothers⟩ := @mounted_new { vm with pmm := pmm' } p w start table
  obtain ⟨hmounted, htouches⟩ := hnew.mapPage (f := f) (by omega) hne
    (by rw [← hv.2]; exact hindex)
  refine ⟨table, f, rfl, hmounted, hothers, ?_, ?_, by simpa using hne.symm⟩
  · have hset : [table, f].toFinset = {f} ∪ {table} := by
      ext a
      simp [or_comm]
    rw [hset]
    exact htakes.trans htakes'
  · refine Touches.trans ?_ (htouches.mono (by simp))
    refine (touches_pmm (.process p) _ vm pmm').trans (Touches.trans ?_
      ((touches_setDirEntry (.process p) _ w (userEntry table)).mono (by simp)))
    exact (touches_clearPage (.process p) _ table).mono (by simp)

/-- Each further page goes into the table that is there. -/
theorem map_next {vm0 vm vm' : Vm} {p : Slot} {m : ProcessMemory} {w start v page table : Nat}
    {frames : List Nat} (hlow : LowUsed vm0.pmm) (hmap : Mapping vm0 vm p w start table frames)
    (hdir : m.processPageDirectory = some (.process p))
    (hv : pageDirIndex v = w ∧ pageTableIndex v = start + frames.length)
    (h : allocProcessPage vm m v = .ok (some page, vm')) :
    ∃ f, page = f * 4096 ∧ Mapping vm0 vm' p w start table (frames ++ [f]) := by
  have hindex := pageTableIndex_lt v
  obtain ⟨f, pmm, addr, vm1, htakes, rfl, htable, rfl⟩ :=
    allocProcessPage_some hmap.takes.ok (hmap.takes.lowUsed hlow) hdir h
  have hf := htakes.lt (Finset.mem_singleton_self f)
  have htablelt := hmap.takes.lt (f := table) (by simp)
  have hfresh : f ∉ (table :: frames).toFinset := fun hin => by
    refine Finset.disjoint_left.mp htakes.fresh ?_ (Finset.mem_singleton_self f)
    exact hmap.takes.used ▸ Finset.mem_union_right _ hin
  have hmounted : MountedAt { vm with pmm := pmm } p w start table frames :=
    hmap.mounted.congr rfl fun _ _ => rfl
  rw [@pagingGetOrCreateTable_old _ _ _ table
    (by rw [hv.1]; exact hmap.mounted.entry) (by omega)] at htable
  obtain ⟨rfl, rfl⟩ := Prod.mk.inj (Except.ok.inj htable)
  rw [hv.2]
  rw [List.mem_toFinset] at hfresh
  have hne : f ≠ table := by
    rintro rfl
    exact hfresh List.mem_cons_self
  obtain ⟨hmounted', htouches⟩ := hmounted.mapPage (f := f) (by omega) hne
    (by rw [← hv.2]; exact hindex)
  have hset : (table :: (frames ++ [f])).toFinset = (table :: frames).toFinset ∪ {f} := by
    rw [← List.cons_append, List.toFinset_append]
    rfl
  refine ⟨f, rfl, hmounted', hmap.others, ?_, ?_, ?_⟩
  · rw [hset]
    exact hmap.takes.trans htakes
  · rw [hset]
    refine (hmap.touches.mono Finset.subset_union_left).trans
      ((touches_pmm (.process p) _ vm pmm).trans (htouches.mono ?_))
    intro x hx
    simp only [Finset.mem_insert, Finset.mem_singleton] at hx
    rcases hx with rfl | rfl
    · simp
    · simp
  · rw [← List.cons_append]
    exact List.nodup_append.mpr ⟨hmap.nodup, List.nodup_singleton f, fun a ha b hb => by
      rw [List.mem_singleton] at hb
      rintro rfl
      exact hfresh (hb ▸ ha)⟩

/-! ## Releasing -/

/-- The frame behind an address field of a memory record, where `0` means
none. -/
def frameSet (page : Nat) : Finset Nat := if page = 0 then ∅ else {page / 4096}

theorem gives_freeFrame {p : Pmm} (hok : PmmOk p) {page : Nat} (hwhole : page % 4096 = 0)
    (hpage : page ≠ 0) : Gives (frameSet page) p (pmmFreeFrame p page) := by
  refine ⟨hok.freeFrame page, pmmFreeFrame_totalFrames p page, ?_⟩
  obtain ⟨f, rfl⟩ : ∃ f, page = f * 4096 := ⟨page / 4096, by omega⟩
  rw [usedSet_freeFrame, frameSet, if_neg hpage, Nat.mul_div_cancel f (by omega),
    Finset.sdiff_singleton_eq_erase]

theorem gives_nothing {p : Pmm} (hok : PmmOk p) : Gives (frameSet 0) p p :=
  ⟨hok, rfl, (Finset.sdiff_empty).symm⟩

/-- The address fields of a record, the table last. -/
def ProcessMemory.addresses (m : ProcessMemory) : List Nat :=
  [m.dataPage, m.bssPage, m.heapPage, m.stackPage, m.processPageTable]

/-- The frames a record names. -/
def ProcessMemory.frames (m : ProcessMemory) : Finset Nat :=
  frameSet m.dataPage ∪ frameSet m.bssPage ∪ frameSet m.heapPage ∪ frameSet m.stackPage
    ∪ frameSet m.processPageTable

/-- The record of slot `p` with the addresses `process_memory_map` computes. -/
structure Placed (p : Slot) (m : ProcessMemory) : Prop where
  directory : m.processPageDirectory = some (.process p)
  base : m.virtualBase = processVirtualBaseForSlot p
  data : m.dataStart = processVirtualBaseForSlot p
  bss : m.bssStart = processVirtualBaseForSlot p + 4096 * 1
  heap : m.heapStart = processVirtualBaseForSlot p + 4096 * 2
  stack : m.stackBase = processVirtualBaseForSlot p + 4096 * 3

/-- The record of slot `p` with the addresses `process_memory_map` computes
from `base`. -/
structure PlacedAt (p : Slot) (base : Nat) (m : ProcessMemory) : Prop where
  directory : m.processPageDirectory = some (.process p)
  virtualBase : m.virtualBase = base
  data : m.dataStart = pageFrom base 0
  bss : m.bssStart = pageFrom base 1
  heap : m.heapStart = pageFrom base 2
  stack : m.stackBase = pageFrom base 3

theorem PlacedAt.placed {p : Slot} {m : ProcessMemory}
    (h : PlacedAt p (processVirtualBaseForSlot p) m) : Placed p m where
  directory := h.directory
  base := h.virtualBase
  data := h.data
  bss := h.bss.trans (pageFrom_slot p (by omega))
  heap := h.heap.trans (pageFrom_slot p (by omega))
  stack := h.stack.trans (pageFrom_slot p (by omega))

theorem releasePage_spec {vm : Vm} {p : Slot} {w table page start : Nat} (hok : PmmOk vm.pmm)
    (hentry : vm.directories (.process p) w = userEntry table) (htable : table < 1048576)
    (hwhole : page % 4096 = 0) (hstart : pageDirIndex start = w) :
    let vm' := releasePage (some (.process p)) page start vm
    Touches (.process p) {table} vm vm' ∧ Gives (frameSet page) vm.pmm vm'.pmm
      ∧ vm'.directories = vm.directories := by
  unfold releasePage
  by_cases hpage : page = 0
  · subst hpage
    exact ⟨Touches.refl _ _ vm, gives_nothing hok, rfl⟩
  · have hunmap : pagingUnmapPageInDirectory vm (some (.process p)) start
        = vm.setTableEntry (table * 4096) (pageTableIndex start) 0 := by
      unfold pagingUnmapPageInDirectory Vm.dirEntry
      simp only
      rw [hstart, hentry, if_neg (userEntry_present table), pageFrame_userEntry htable]
    simp only
    rw [if_pos hpage, hunmap]
    have hset := @touches_setTableEntry (.process p) vm table _ (pageTableIndex_lt start) 0
    exact ⟨hset.trans (touches_pmm (.process p) _ _ _), gives_freeFrame hok hwhole hpage, rfl⟩

theorem releaseTable_spec {vm : Vm} {p : Slot} {m : ProcessMemory} (hok : PmmOk vm.pmm)
    (hdir : m.processPageDirectory = some (.process p)) (hwhole : m.processPageTable % 4096 = 0) :
    Touches (.process p) ∅ vm (releaseTable m vm)
      ∧ Gives (frameSet m.processPageTable) vm.pmm (releaseTable m vm).pmm := by
  unfold releaseTable
  rw [hdir]
  simp only
  by_cases htable : m.processPageTable = 0
  · rw [if_neg (by simpa using htable), htable]
    exact ⟨Touches.refl _ _ vm, gives_nothing hok⟩
  · rw [if_pos htable]
    exact ⟨(touches_setDirEntry (.process p) vm _ 0).trans (touches_pmm (.process p) _ _ _),
      gives_freeFrame hok hwhole htable⟩

/-- Releasing gives back the frames of the record, and writes only to the
private table and the directory of the process. -/
theorem processReleaseMemory_spec {vm : Vm} {p : Slot} {m : ProcessMemory}
    {base w start table : Nat} (hok : PmmOk vm.pmm) (hplaced : PlacedAt p base m)
    (hwindow : InWindow base w start) (hwhole : ∀ a ∈ m.addresses, a % 4096 = 0)
    (hentry : vm.directories (.process p) w = userEntry table) (htable : table < 1048576) :
    Touches (.process p) {table} vm (processReleaseMemory vm m).1
      ∧ Gives m.frames vm.pmm (processReleaseMemory vm m).1.pmm := by
  have hdata : pageDirIndex m.dataStart = w := by
    rw [hplaced.data, (hwindow 0 (by omega)).1]
  have hbss : pageDirIndex m.bssStart = w := by
    rw [hplaced.bss, (hwindow 1 (by omega)).1]
  have hheap : pageDirIndex m.heapStart = w := by
    rw [hplaced.heap, (hwindow 2 (by omega)).1]
  have hstack : pageDirIndex m.stackBase = w := by
    rw [hplaced.stack, (hwindow 3 (by omega)).1]
  simp only [ProcessMemory.addresses, List.forall_mem_cons] at hwhole
  obtain ⟨hw1, hw2, hw3, hw4, hw5, -⟩ := hwhole
  unfold processReleaseMemory
  rw [hplaced.directory]
  dsimp only
  obtain ⟨ht1, hg1, hd1⟩ := releasePage_spec hok hentry htable hw1 hdata
  generalize releasePage (some (.process p)) m.dataPage m.dataStart vm = vm1 at *
  obtain ⟨ht2, hg2, hd2⟩ := releasePage_spec hg1.ok (hd1 ▸ hentry) htable hw2 hbss
  generalize releasePage (some (.process p)) m.bssPage m.bssStart vm1 = vm2 at *
  obtain ⟨ht3, hg3, hd3⟩ := releasePage_spec hg2.ok (hd2 ▸ hd1 ▸ hentry) htable hw3 hheap
  generalize releasePage (some (.process p)) m.heapPage m.heapStart vm2 = vm3 at *
  obtain ⟨ht4, hg4, -⟩ := releasePage_spec hg3.ok (hd3 ▸ hd2 ▸ hd1 ▸ hentry) htable hw4 hstack
  generalize releasePage (some (.process p)) m.stackPage m.stackBase vm3 = vm4 at *
  obtain ⟨ht5, hg5⟩ := releaseTable_spec hg4.ok hplaced.directory hw5
  exact ⟨(((ht1.trans ht2).trans ht3).trans ht4).trans (ht5.mono (Finset.empty_subset _)),
    (((hg1.trans hg2).trans hg3).trans hg4).trans hg5⟩

/-! ## The whole mapping -/

theorem mem_frameSet {page f : Nat} : f ∈ frameSet page ↔ page ≠ 0 ∧ f = page / 4096 := by
  unfold frameSet
  by_cases h : page = 0
  · simp [h]
  · simp [h]

theorem mem_frames {m : ProcessMemory} {f : Nat} :
    f ∈ m.frames ↔ ∃ a ∈ m.addresses, a ≠ 0 ∧ f = a / 4096 := by
  simp only [ProcessMemory.frames, ProcessMemory.addresses, Finset.mem_union, mem_frameSet,
    List.exists_mem_cons_iff, List.not_mem_nil, false_and, exists_false, or_false, or_assoc]

/-- A record whose address fields are the frames `l`, then zeros. -/
theorem frames_of_addresses {m : ProcessMemory} {l : List Nat} {n : Nat}
    (h : m.addresses = l.map (· * 4096) ++ List.replicate n 0) (hl : ∀ f ∈ l, f ≠ 0) :
    m.frames = l.toFinset ∧ ∀ a ∈ m.addresses, a % 4096 = 0 := by
  have hmem : ∀ a, a ∈ m.addresses → (∃ f ∈ l, f * 4096 = a) ∨ a = 0 := by
    intro a ha
    rw [h, List.mem_append, List.mem_map, List.mem_replicate] at ha
    exact ha.imp_right And.right
  constructor
  · ext f
    rw [mem_frames, List.mem_toFinset]
    constructor
    · rintro ⟨a, ha, hne, rfl⟩
      obtain ⟨g, hg, rfl⟩ := (hmem a ha).resolve_right hne
      rwa [Nat.mul_div_cancel g (by omega)]
    · intro hf
      have hne := hl f hf
      refine ⟨f * 4096, ?_, by omega, (Nat.mul_div_cancel f (by omega)).symm⟩
      rw [h]
      exact List.mem_append_left _ (List.mem_map_of_mem hf)
  · intro a ha
    rcases hmem a ha with ⟨f, -, rfl⟩ | rfl
    · exact Nat.mul_mod_left f 4096
    · rfl

/-- What a process has once its memory is mapped. -/
structure Space (vm : Vm) (p : Slot) (m : ProcessMemory) (table : Nat) (frames : List Nat) :
    Prop where
  placed : Placed p m
  addresses : m.addresses = (frames ++ [table]).map (· * 4096)
  mounted : Mounted vm p table frames
  nodup : (table :: frames).Nodup
  small : ∀ f ∈ table :: frames, f ≠ 0 ∧ f < 32768

/-- What a process at `base` has once its memory is mapped, whatever other
directories look like. -/
structure SpaceAt (vm : Vm) (p : Slot) (m : ProcessMemory) (base w start table : Nat)
    (frames : List Nat) : Prop where
  placed : PlacedAt p base m
  window : InWindow base w start
  addresses : m.addresses = (frames ++ [table]).map (· * 4096)
  mounted : MountedAt vm p w start table frames
  nodup : (table :: frames).Nodup
  small : ∀ f ∈ table :: frames, f ≠ 0 ∧ f < 32768

section SpaceAt

variable {vm : Vm} {p : Slot} {m : ProcessMemory} {base w start table : Nat} {frames : List Nat}

/-- At the default base, with the other entries those of the kernel. -/
theorem SpaceAt.space
    (h : SpaceAt vm p m (processVirtualBaseForSlot p) 8 (32 * p.val) table frames)
    (hshared : ∀ i, i ≠ 8 → vm.directories (.process p) i = vm.directories .kernel i) :
    Space vm p m table frames :=
  ⟨h.placed.placed, h.addresses, ⟨h.mounted, hshared⟩, h.nodup, h.small⟩

theorem SpaceAt.frames_eq (h : SpaceAt vm p m base w start table frames) :
    m.frames = (table :: frames).toFinset ∧ ∀ a ∈ m.addresses, a % 4096 = 0 := by
  have haddr : m.addresses = (frames ++ [table]).map (· * 4096) ++ List.replicate 0 0 := by
    rw [h.addresses, List.replicate_zero, List.append_nil]
  have hswap : (table :: frames).toFinset = (frames ++ [table]).toFinset := by
    ext f
    simp
  rw [hswap]
  refine frames_of_addresses haddr fun f hf => (h.small f ?_).1
  rw [List.mem_append, List.mem_singleton] at hf
  exact List.mem_cons.mpr hf.symm

/-- The window is that of the base. -/
theorem SpaceAt.window_eq (h : SpaceAt vm p m base w start table frames) :
    pageDirIndex m.virtualBase = w := by
  rw [h.placed.virtualBase]
  exact (h.window 0 (by omega)).1

end SpaceAt

theorem pagingCopyDirectory_spec (vm : Vm) (p : Slot) :
    let vm' := pagingCopyDirectory vm (some (.process p)) (some .kernel)
    Touches (.process p) ∅ vm vm' ∧ vm'.pmm = vm.pmm
      ∧ vm'.directories (.process p) = vm.directories .kernel := by
  have hother : ∀ d, d ≠ .process p →
      (pagingCopyDirectory vm (some (.process p)) (some .kernel)).directories d
        = vm.directories d := fun d hd => by
    simp [pagingCopyDirectory, Function.update_of_ne hd]
  exact ⟨⟨hother, rfl, fun _ _ => rfl⟩, rfl, by simp [pagingCopyDirectory]⟩

theorem mapOrRelease_cases {start : Nat} {field : ProcessMemory → Nat → ProcessMemory} {vm : Vm}
    {m : ProcessMemory} {next : Vm → ProcessMemory → Except Fault (Bool × Vm × ProcessMemory)}
    {r : Bool × Vm × ProcessMemory} (h : mapOrRelease start field vm m next = .ok r) :
    (∃ vm1, allocProcessPage vm m start = .ok (none, vm1) ∧ r = (false, processReleaseMemory vm1 m))
      ∨ ∃ page vm1, allocProcessPage vm m start = .ok (some page, vm1)
        ∧ next vm1 (field m page) = .ok r := by
  obtain ⟨⟨page, vm1⟩, halloc, h⟩ := bind_eq_ok.mp h
  cases page with
  | none => exact Or.inl ⟨vm1, halloc, (Except.ok.inj h).symm⟩
  | some page => exact Or.inr ⟨page, vm1, halloc, h⟩

theorem placed_layout (p : Slot) (base size : Nat) :
    PlacedAt p (baseOf base p) (layoutMemory p (requestedMemory base size)) :=
  ⟨rfl, rfl, rfl, rfl, rfl, rfl⟩

/-- The machine a mapping needs: the accounting of frames holds, frame 0 is
not free, and the kernel directory leaves the region of the processes
alone. -/
structure VmReady (vm : Vm) : Prop where
  ok : PmmOk vm.pmm
  low : LowUsed vm.pmm
  kernelDirectory : vm.kernelDirectory = some .kernel
  vacant : vm.directories .kernel 8 &&& pagePresent = 0

/-- What a mapping that failed leaves: no more than a leaked table is used
that was not used before. -/
structure Leaves (p : Slot) (vm vm' : Vm) : Prop where
  takes : ∃ leak, Takes leak vm.pmm vm'.pmm
  touches : ∃ frames, Disjoint (usedSet vm.pmm) frames ∧ (∀ f ∈ frames, f < vm.pmm.totalFrames)
    ∧ Touches (.process p) frames vm vm'

/-- A mapping between two pages: what is mapped is what the record names. -/
structure Stage (vm0 vm : Vm) (p : Slot) (m : ProcessMemory) (base w start table : Nat)
    (frames : List Nat) (n : Nat) : Prop where
  mapping : Mapping vm0 vm p w start table frames
  placed : PlacedAt p base m
  addresses : m.addresses = frames.map (· * 4096) ++ List.replicate n 0

section Stages

variable {vm0 vm vm' : Vm} {p : Slot} {m m' : ProcessMemory} {base w start table n v : Nat}
  {frames : List Nat} {ok : Bool} {field : ProcessMemory → Nat → ProcessMemory}
  {rest : Vm → ProcessMemory → Except Fault (Bool × Vm × ProcessMemory)}

theorem Stage.length (h : Stage vm0 vm p m base w start table frames n) :
    frames.length + n = 5 := by
  have hlen := congrArg List.length h.addresses
  simp only [ProcessMemory.addresses, List.length_append, List.length_map, List.length_replicate,
    List.length_cons, List.length_nil] at hlen
  omega

/-- A mapping stops between two pages and releases what it has. -/
theorem Stage.released (hwindow : InWindow base w start) (hlow : LowUsed vm0.pmm)
    (h : Stage vm0 vm p m base w start table frames n) :
    Leaves p vm0 (processReleaseMemory vm m).1 := by
  have hmap := h.mapping
  have hmem : ∀ f ∈ frames, f ∈ (table :: frames).toFinset := fun f hf => by
    rw [List.mem_toFinset]
    exact List.mem_cons_of_mem _ hf
  obtain ⟨hframes, hwhole⟩ :=
    frames_of_addresses h.addresses fun f hf => hmap.takes.ne_zero hlow (hmem f hf)
  have htable := hmap.takes.lt (f := table) (by simp)
  obtain ⟨htouches, hgives⟩ := processReleaseMemory_spec hmap.takes.ok h.placed hwindow hwhole
    hmap.mounted.entry (by omega)
  refine ⟨⟨{table}, hgives.ok, hgives.total.trans hmap.takes.total, ?_, ?_⟩,
    (table :: frames).toFinset, hmap.takes.fresh, fun f hf => hmap.takes.lt_total hf,
    hmap.touches.trans (htouches.mono (by simp))⟩
  · ext f
    have hold : f ∈ usedSet vm0.pmm → f ∉ frames := fun hf hin =>
      Finset.disjoint_left.mp hmap.takes.fresh hf (hmem f hin)
    have hnot : table ∉ frames := (List.nodup_cons.mp hmap.nodup).1
    rw [hgives.used, hmap.takes.used, hframes]
    simp only [Finset.mem_sdiff, Finset.mem_union, List.mem_toFinset, List.mem_cons,
      Finset.mem_singleton]
    constructor
    · rintro ⟨hf | rfl | hf, hnf⟩
      · exact Or.inl hf
      · exact Or.inr rfl
      · exact absurd hf hnf
    · rintro (hf | rfl)
      · exact ⟨Or.inl hf, hold hf⟩
      · exact ⟨Or.inr (Or.inl rfl), hnot⟩
  · refine Finset.disjoint_of_subset_right ?_ hmap.takes.fresh
    simp

theorem set_padded (frames : List Nat) (n page : Nat) :
    (frames ++ List.replicate (n + 1) 0).set frames.length page
      = (frames ++ [page]) ++ List.replicate n 0 := by
  rw [List.set_append_right _ _ (Nat.le_refl _), Nat.sub_self, List.replicate_succ,
    List.set_cons_zero, List.append_assoc]
  rfl

/-- One of the last three pages: the mapping fails and is undone, or goes on
to the next stage. -/
theorem Stage.next (hwindow : InWindow base w start) (hlow : LowUsed vm0.pmm)
    (hstage : Stage vm0 vm p m base w start table frames (n + 1)) (hn : 1 ≤ n)
    (hv : v = pageFrom base frames.length)
    (hfield : ∀ page, PlacedAt p base (field m page)
      ∧ (field m page).addresses = m.addresses.set frames.length page)
    (h : mapOrRelease v field vm m rest = .ok (ok, vm', m')) :
    (ok = false ∧ Leaves p vm0 vm')
      ∨ ∃ f vm1, Stage vm0 vm1 p (field m (f * 4096)) base w start table (frames ++ [f]) n
        ∧ rest vm1 (field m (f * 4096)) = .ok (ok, vm', m') := by
  have hlen := hstage.length
  rcases mapOrRelease_cases h with ⟨vm1, halloc, heq⟩ | ⟨page, vm1, halloc, h⟩
  · obtain ⟨hfalse, hrelease⟩ := Prod.mk.inj heq
    obtain rfl := allocProcessPage_none hstage.mapping.takes.ok
      (hstage.mapping.takes.lowUsed hlow) halloc
    have hvm : vm' = (processReleaseMemory vm1 m).1 := congrArg Prod.fst hrelease
    exact Or.inl ⟨hfalse, hvm ▸ hstage.released hwindow hlow⟩
  · obtain ⟨f, rfl, hmap⟩ := map_next hlow hstage.mapping hstage.placed.directory
      (by rw [hv]; exact hwindow _ (by omega)) halloc
    obtain ⟨hplaced, haddr⟩ := hfield (f * 4096)
    refine Or.inr ⟨f, vm1, ⟨hmap, hplaced, ?_⟩, h⟩
    have hset := set_padded (frames.map (· * 4096)) n (f * 4096)
    rw [List.length_map] at hset
    rw [haddr, hstage.addresses, hset, List.map_append]
    rfl

/-- The last stage fills in the table. -/
theorem Stage.space (hwindow : InWindow base w start) (hlow : LowUsed vm0.pmm)
    (h : Stage vm0 vm p m base w start table frames 1) (hplaced : PlacedAt p base m')
    (haddr : m'.addresses = m.addresses.set 4 (table * 4096)) :
    SpaceAt vm p m' base w start table frames ∧ m'.frames = (table :: frames).toFinset := by
  have hlen := h.length
  have hset := set_padded (frames.map (· * 4096)) 0 (table * 4096)
  rw [List.length_map, show frames.length = 4 by omega] at hset
  have hspace : SpaceAt vm p m' base w start table frames := by
    refine ⟨hplaced, hwindow, ?_, h.mapping.mounted, h.mapping.nodup, ?_⟩
    · rw [haddr, h.addresses, hset, List.map_append, List.replicate_zero, List.append_nil]
      rfl
    · intro f hf
      rw [← List.mem_toFinset] at hf
      exact ⟨h.mapping.takes.ne_zero hlow hf, h.mapping.takes.lt hf⟩
  exact ⟨hspace, hspace.frames_eq.1⟩

/-- The directory copy comes before the first stage. -/
theorem Leaves.after_copy (hcopy : Touches (.process p) ∅ vm vm0)
    (hpmm : vm0.pmm = vm.pmm) (h : Leaves p vm0 vm') : Leaves p vm vm' := by
  obtain ⟨⟨leak, htakes⟩, frames, hfresh, hlt, htouches⟩ := h
  refine ⟨⟨leak, hpmm ▸ htakes⟩, frames, hpmm ▸ hfresh, hpmm ▸ hlt, ?_⟩
  exact (hcopy.mono (Finset.empty_subset _)).trans htouches

/-- The first page: the mapping fails and there is nothing to undo, or the
first stage is reached. -/
theorem stage_first (hwindow : InWindow base w start) (hok : PmmOk vm0.pmm)
    (hlow : LowUsed vm0.pmm) (habsent : vm0.directories (.process p) w &&& pagePresent = 0)
    (hplaced : PlacedAt p base m) (hzero : m.addresses = [0, 0, 0, 0, 0])
    (hv : v = pageFrom base 0)
    (hfield : ∀ page, PlacedAt p base (field m page)
      ∧ (field m page).addresses = m.addresses.set 0 page)
    (h : mapOrRelease v field vm0 m rest = .ok (ok, vm', m')) :
    (ok = false ∧ Leaves p vm0 vm')
      ∨ ∃ table f vm1, Stage vm0 vm1 p (field m (f * 4096)) base w start table [f] 4
        ∧ rest vm1 (field m (f * 4096)) = .ok (ok, vm', m') := by
  rcases mapOrRelease_cases h with ⟨vm1, halloc, heq⟩ | ⟨page, vm1, halloc, h⟩
  · obtain ⟨hfalse, hrelease⟩ := Prod.mk.inj heq
    obtain rfl := allocProcessPage_none hok hlow halloc
    have hnothing : (processReleaseMemory vm1 m).1 = vm1 := by
      simp only [ProcessMemory.addresses, List.cons.injEq] at hzero
      obtain ⟨h1, h2, h3, h4, h5, -⟩ := hzero
      simp [processReleaseMemory, releasePage, releaseTable, hplaced.directory, h1, h2, h3, h4, h5]
    have hvm : vm' = (processReleaseMemory vm1 m).1 := congrArg Prod.fst hrelease
    rw [hvm, hnothing]
    exact Or.inl ⟨hfalse, ⟨∅, Takes.refl hok⟩, ∅, Finset.disjoint_empty_right _,
      fun f hf => absurd hf (Finset.notMem_empty f), Touches.refl _ _ _⟩
  · obtain ⟨table, f, rfl, hmap⟩ := map_first hok hlow hplaced.directory habsent
      (by rw [hv]; exact hwindow 0 (by omega)) halloc
    obtain ⟨hplaced', haddr⟩ := hfield (f * 4096)
    refine Or.inr ⟨table, f, vm1, ⟨hmap, hplaced', ?_⟩, h⟩
    rw [haddr, hzero]
    rfl

end Stages

/-- `process_memory_map` at a base whose window the kernel directory does not
use. -/
theorem processMemoryMap_at {vm vm' : Vm} {p : Slot} {b w start size : Nat} {ok : Bool}
    {m : ProcessMemory} (hok : PmmOk vm.pmm) (hlow : LowUsed vm.pmm)
    (hkernel : vm.kernelDirectory = some .kernel) (hwindow : InWindow (baseOf b p) w start)
    (hvacant : vm.directories .kernel w &&& pagePresent = 0)
    (h : processMemoryMap vm p (requestedMemory b size) = .ok (ok, vm', m)) :
    (ok = false ∧ Leaves p vm vm')
      ∨ ok = true ∧ ∃ table frames, SpaceAt vm' p m (baseOf b p) w start table frames
        ∧ Takes m.frames vm.pmm vm'.pmm ∧ Touches (.process p) m.frames vm vm'
        ∧ ∀ i, i ≠ w → vm'.directories (.process p) i = vm'.directories .kernel i := by
  obtain ⟨hcopy, hpmm, hown⟩ := pagingCopyDirectory_spec vm p
  have hplaced := placed_layout p b size
  have hzero : (layoutMemory p (requestedMemory b size)).addresses = [0, 0, 0, 0, 0] := rfl
  unfold processMemoryMap at h
  dsimp only at h
  rw [hplaced.directory, hkernel] at h
  generalize layoutMemory p (requestedMemory b size) = m0 at h hplaced hzero
  generalize pagingCopyDirectory vm (some (.process p)) (some .kernel) = vm0 at *
  generalize baseOf b p = base at *
  have hlow : LowUsed vm0.pmm := hpmm ▸ hlow
  -- a new page changes no field that is placed
  have hpl : ∀ m1 : ProcessMemory, m1.processPageDirectory = m0.processPageDirectory →
      m1.virtualBase = m0.virtualBase → m1.dataStart = m0.dataStart → m1.bssStart = m0.bssStart →
      m1.heapStart = m0.heapStart → m1.stackBase = m0.stackBase → PlacedAt p base m1 := by
    intro m1 h1 h2 h3 h4 h5 h6
    exact ⟨h1.trans hplaced.directory, h2.trans hplaced.virtualBase, h3.trans hplaced.data,
      h4.trans hplaced.bss, h5.trans hplaced.heap, h6.trans hplaced.stack⟩
  rcases stage_first hwindow (hpmm ▸ hok) hlow (by rw [hown]; exact hvacant)
    hplaced hzero hplaced.data (fun page => ⟨hpl _ rfl rfl rfl rfl rfl rfl, rfl⟩) h with
    ⟨rfl, hfail⟩ | ⟨table, f1, vm1, hs1, h⟩
  · exact Or.inl ⟨rfl, hfail.after_copy hcopy hpmm⟩
  rcases hs1.next hwindow hlow (by omega) hplaced.bss
    (fun page => ⟨hpl _ rfl rfl rfl rfl rfl rfl, rfl⟩) h with ⟨rfl, hfail⟩ | ⟨f2, vm2, hs2, h⟩
  · exact Or.inl ⟨rfl, hfail.after_copy hcopy hpmm⟩
  rcases hs2.next hwindow hlow (by omega) hplaced.heap
    (fun page => ⟨hpl _ rfl rfl rfl rfl rfl rfl, rfl⟩) h with ⟨rfl, hfail⟩ | ⟨f3, vm3, hs3, h⟩
  · exact Or.inl ⟨rfl, hfail.after_copy hcopy hpmm⟩
  rcases hs3.next hwindow hlow (by omega) hplaced.stack
    (fun page => ⟨hpl _ rfl rfl rfl rfl rfl rfl, rfl⟩) h with ⟨rfl, hfail⟩ | ⟨f4, vm4, hs4, h⟩
  · exact Or.inl ⟨rfl, hfail.after_copy hcopy hpmm⟩
  obtain ⟨htrue, heq⟩ := Prod.mk.inj (Except.ok.inj h)
  obtain ⟨rfl, hm⟩ := Prod.mk.inj heq
  have hmap := hs4.mapping
  have htable := hmap.takes.lt (f := table) (by simp)
  have hentry : pageFrame (vm4.dirEntry (.process p) (pageDirIndex m0.virtualBase))
      = table * 4096 := by
    have hindex : pageDirIndex m0.virtualBase = w := by
      rw [hplaced.virtualBase]
      exact (hwindow 0 (by omega)).1
    unfold Vm.dirEntry
    rw [hindex, hmap.mounted.entry, pageFrame_userEntry (by omega)]
  have hplaced' : PlacedAt p base m := by
    rw [← hm]
    exact hpl _ rfl rfl rfl rfl rfl rfl
  obtain ⟨hspace, hframes⟩ := hs4.space hwindow hlow hplaced' (by
    rw [← hm]
    dsimp only [ProcessMemory.addresses]
    rw [hentry]
    rfl)
  have htouches := (hcopy.mono (Finset.empty_subset _)).trans hmap.touches
  refine Or.inr ⟨htrue.symm, table, _, hspace, ?_, ?_, ?_⟩
  · rw [hframes, ← hpmm]
    exact hmap.takes
  · rw [hframes]
    exact htouches
  · intro i hi
    rw [hmap.others i hi, hown, htouches.directories .kernel nofun]

end Kfs
