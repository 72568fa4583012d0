import Kfs.PagingEntries
import Kfs.PagingStable
import Kfs.PmmFirstFit
import Kfs.ProcessSpaces

/-!
# Frames below 16 MB

Page tables and the pages of a process are written at their physical address,
which is where `paging_init` mapped them only below 16 MB. `pmm_alloc_frame`
hands out the lowest frame first, so whether the `t`-th frame from now on is
low depends on how many low frames are spare (`LowTurn`).

An operation that takes frames has a schedule, a list that says for each
frame in turn whether it has to be low; `Within` says that they will be. The
rules follow a schedule through the paging code: what is taken is low, and
the rest of the schedule is good for the state that is left (`LowVm`,
`Within`).
-/

namespace Kfs

/-! ## Turns -/

/-- Those below 16 MB. -/
def spareLow (p : Pmm) : Finset Nat := (spare p).filter fun f => f < 4096

/-- The `t`-th frame that is handed out from now on is below 16 MB, if there
are so many. -/
def LowTurn (p : Pmm) (t : Nat) : Prop := t ≤ (spareLow p).card ∨ (spare p).card < t

/-- Every frame that has to be low will be. -/
def Within (p : Pmm) (schedule : List Bool) : Prop :=
  ∀ t, schedule[t]? = some true → LowTurn p (t + 1)

section Turns

variable {p : Pmm}

/-- Every frame of a machine with 16 MB is low. -/
theorem lowTurn_small (h : p.totalFrames ≤ 4096) (t : Nat) : LowTurn p t := by
  have hall : spareLow p = spare p := by
    refine Finset.filter_true_of_mem ?_
    intro f hf
    have := (mem_spare.mp hf).1
    omega
  unfold LowTurn
  rw [hall]
  omega

/-- One turn: the frame is low if it has to be, and the schedule moves on. -/
theorem Within.take {low : Bool} {schedule : List Bool} (hok : PmmOk p)
    (h : Within p (low :: schedule)) (hne : (pmmAllocFrame p).1 ≠ 0) :
    ∃ f, (pmmAllocFrame p).1 = f * 4096 ∧ f < 32768 ∧ (low = true → f < 4096)
      ∧ Within (pmmAllocFrame p).2 schedule := by
  rcases pmmAllocFrame_first p with ⟨he, -⟩ | ⟨f, hf, hfirst, he⟩
  · rw [he] at hne
    exact absurd rfl hne
  have hlt := (mem_spare.mp hf).1
  have hbound := hok.bound
  rw [he]
  refine ⟨f, pfnToAddr_eq (by omega), by omega, ?_, ?_⟩
  · intro hlow
    have hpos : 0 < (spare p).card := Finset.card_pos.mpr ⟨f, hf⟩
    rcases h 0 (by rw [hlow]; rfl) with hcard | hcard
    · obtain ⟨g, hg⟩ := Finset.card_pos.mp (Nat.lt_of_lt_of_le Nat.zero_lt_one hcard)
      obtain ⟨hspare, hg⟩ := Finset.mem_filter.mp hg
      exact Nat.lt_of_le_of_lt (hfirst g hspare) hg
    · omega
  · intro t ht
    have hlow : spareLow (takeFrame f p) = (spareLow p).erase f := by
      unfold spareLow
      rw [spare_takeFrame, Finset.filter_erase]
    have hpred := Finset.pred_card_le_card_erase (s := spareLow p) (a := f)
    unfold LowTurn
    rw [hlow, spare_takeFrame, Finset.card_erase_of_mem hf]
    rcases h (t + 1) ht with hcard | hcard
    · omega
    · exact Or.inr (by omega)

end Turns

/-! ## Tables -/

/-- The address of a frame below 16 MB. -/
def LowPage (a : Nat) : Prop := a % 4096 = 0 ∧ a < 0x01000000

/-- Which entries of a directory are present. -/
def Vm.present (vm : Vm) (d : Directory) (i : Nat) : Bool :=
  decide (vm.dirEntry d i &&& pagePresent ≠ 0)

/-- Every page table is below 16 MB. -/
structure LowVm (vm : Vm) : Prop where
  ok : PmmOk vm.pmm
  kernelDirectory : vm.kernelDirectory = some .kernel
  tables : ∀ d i, vm.present d i = true → LowPage (pageFrame (vm.dirEntry d i))

/-- Nothing was written from 16 MB on. -/
def HighSame (vm vm' : Vm) : Prop := ∀ x, 0x01000000 ≤ x → vm'.mem x = vm.mem x

/-- The frames a mapping at `v` takes for its table: one, if there is no
table. -/
def tableSchedule (present : Nat → Bool) (v : Nat) : List Bool :=
  if present (pageDirIndex v) then [] else [true]

/-- The schedule of mapping pages one after another, a frame for each page
before the one for its table; `low` is for the pages. -/
def mapSchedule (low : Bool) (present : Nat → Bool) : List Nat → List Bool
  | [] => []
  | v :: vs => low :: tableSchedule present v
      ++ mapSchedule low (Function.update present (pageDirIndex v) true) vs

/-- A mapping at `v` in directory `d`, with `rest` still to be taken. -/
structure LowMap (d : Directory) (v : Nat) (rest : List Bool) (vm vm' : Vm) : Prop where
  low : LowVm vm'
  within : Within vm'.pmm rest
  present : vm'.present d = Function.update (vm.present d) (pageDirIndex v) true
  others : ∀ e, e ≠ d → vm'.directories e = vm.directories e
  current : vm'.currentDirectory = vm.currentDirectory
  high : HighSame vm vm'

section Tables

variable {vm vm' : Vm} {d : Directory} {v phys flags : Nat} {rest : List Bool}

theorem pageFrame_or_user (entry : Nat) :
    pageFrame (entry ||| pageUser) = pageFrame entry
      ∧ (entry ||| pageUser) &&& pagePresent = entry &&& pagePresent := by
  constructor
  · unfold pageFrame
    rw [Nat.and_or_distrib_right, show pageUser &&& 0xFFFFF000 = 0 by decide, Nat.or_zero]
  · rw [Nat.and_or_distrib_right, show pageUser &&& pagePresent = 0 by decide, Nat.or_zero]

/-- The entry of a new table, before the user bit. -/
theorem newEntry {f : Nat} (hf : f < 1048576) :
    pageFrame (f * 4096 ||| pagePresent ||| pageWrite) = f * 4096
      ∧ (f * 4096 ||| pagePresent ||| pageWrite) &&& pagePresent ≠ 0 := by
  have hword : f * 4096 ||| pagePresent ||| pageWrite = f * 4096 + 3 := by
    rw [Nat.or_assoc, show pagePresent ||| pageWrite = 3 by decide, frame_or f (by omega)]
  rw [hword]
  constructor
  · unfold pageFrame
    rw [and_mask4096 (by omega)]
    omega
  · rw [pagePresent, Nat.and_one_is_mod]
    omega

/-- A write to a directory: the entry that changed and the others. -/
theorem dirEntry_setDirEntry_cases (vm : Vm) (d : Directory) (i entry : Nat) (e : Directory)
    (j : Nat) :
    ((vm.setDirEntry d i entry).dirEntry e j = entry ∧ e = d ∧ j = i)
      ∨ ((vm.setDirEntry d i entry).dirEntry e j = vm.dirEntry e j ∧ ¬(e = d ∧ j = i)) := by
  by_cases he : e = d
  · subst he
    by_cases hj : j = i
    · subst hj
      exact Or.inl ⟨dirEntry_setDirEntry _ _ _ _, rfl, rfl⟩
    · refine Or.inr ⟨?_, fun h => hj h.2⟩
      simp [Vm.setDirEntry, Vm.dirEntry, hj]
  · refine Or.inr ⟨?_, fun h => he h.1⟩
    simp [Vm.setDirEntry, Vm.dirEntry, he]

/-- Entering a low table. -/
theorem LowVm.setDirEntry (h : LowVm vm) {i entry : Nat} (hpresent : entry &&& pagePresent ≠ 0)
    (hlow : LowPage (pageFrame entry)) :
    LowVm (vm.setDirEntry d i entry)
      ∧ (vm.setDirEntry d i entry).present d = Function.update (vm.present d) i true := by
  refine ⟨⟨h.ok, h.kernelDirectory, ?_⟩, funext ?_⟩
  · intro e j hj
    rcases dirEntry_setDirEntry_cases vm d i entry e j with ⟨heq, -, -⟩ | ⟨heq, -⟩
    · rw [heq]
      exact hlow
    · unfold Vm.present at hj
      rw [heq] at hj ⊢
      exact h.tables e j hj
  · intro j
    unfold Vm.present
    rcases dirEntry_setDirEntry_cases vm d i entry d j with ⟨heq, -, rfl⟩ | ⟨heq, hne⟩
    · rw [heq, Function.update_self]
      exact decide_eq_true hpresent
    · rw [heq, Function.update_of_ne fun hji => hne ⟨rfl, hji⟩]

/-- The directory entry gets the user bit if the mapping asks for it. -/
theorem LowVm.markUser (h : LowVm vm) (hwithin : Within vm.pmm rest)
    (hpresent : vm.present d (pageDirIndex v) = true)
    (heq : vm' = if flags &&& pageUser ≠ 0 then
      vm.setDirEntry d (pageDirIndex v) (vm.dirEntry d (pageDirIndex v) ||| pageUser) else vm) :
    LowMap d v rest vm vm'
      ∧ pageFrame (vm'.dirEntry d (pageDirIndex v))
        = pageFrame (vm.dirEntry d (pageDirIndex v)) := by
  obtain ⟨hframe, hbit⟩ := pageFrame_or_user (vm.dirEntry d (pageDirIndex v))
  split at heq
  · have hset : LowVm (vm.setDirEntry d (pageDirIndex v)
        (vm.dirEntry d (pageDirIndex v) ||| pageUser))
        ∧ (vm.setDirEntry d (pageDirIndex v)
          (vm.dirEntry d (pageDirIndex v) ||| pageUser)).present d
          = Function.update (vm.present d) (pageDirIndex v) true := by
      refine h.setDirEntry ?_ ?_
      · rw [hbit]
        exact of_decide_eq_true hpresent
      · rw [hframe]
        exact h.tables _ _ hpresent
    subst heq
    refine ⟨⟨hset.1, hwithin, hset.2, (touches_setDirEntry d vm _ _).directories, rfl,
      fun _ _ => rfl⟩, ?_⟩
    rw [dirEntry_setDirEntry, hframe]
  · subst heq
    refine ⟨⟨h, hwithin, ?_, fun _ _ => rfl, rfl, fun _ _ => rfl⟩, rfl⟩
    rw [← hpresent, Function.update_eq_self]

theorem LowMap.trans {vm1 : Vm} (h : LowMap d v rest vm vm1) (h' : LowMap d v rest vm1 vm') :
    LowMap d v rest vm vm' where
  low := h'.low
  within := h'.within
  present := by rw [h'.present, h.present, Function.update_idem]
  others e he := (h'.others e he).trans (h.others e he)
  current := h'.current.trans h.current
  high x hx := (h'.high x hx).trans (h.high x hx)

theorem highSame_clearPage (vm : Vm) {a : Nat} (ha : LowPage a) : HighSame vm (vm.clearPage a) := by
  intro x hx
  refine memset_outside ?_
  unfold LowPage at ha
  omega

theorem highSame_setTableEntry (vm : Vm) {table i entry : Nat} (ha : LowPage table)
    (hi : i < 1024) : HighSame vm (vm.setTableEntry table i entry) := by
  intro x hx
  refine store32_outside ?_
  unfold LowPage at ha
  omega

theorem lowPage_frame {f : Nat} (hf : f < 4096) : LowPage (f * 4096) :=
  ⟨Nat.mul_mod_left f 4096, by omega⟩

/-- A low frame becomes a table. -/
theorem LowVm.newTable (h : LowVm vm) {f : Nat} {pmm : Pmm} (hok : PmmOk pmm) (hf : f < 4096)
    (hwithin : Within pmm rest) :
    LowMap d v rest vm ((({ vm with pmm := pmm } : Vm).clearPage (f * 4096)).setDirEntry d
      (pageDirIndex v) (f * 4096 ||| pagePresent ||| pageWrite)) := by
  obtain ⟨hframe, hbit⟩ := newEntry (f := f) (by omega)
  have hcleared : LowVm (({ vm with pmm := pmm } : Vm).clearPage (f * 4096)) :=
    ⟨hok, h.kernelDirectory, h.tables⟩
  have hset := hcleared.setDirEntry (d := d) (i := pageDirIndex v) hbit
    (hframe.symm ▸ lowPage_frame hf)
  exact ⟨hset.1, hwithin, hset.2, (touches_setDirEntry d _ _ _).directories, rfl,
    highSame_clearPage ({ vm with pmm := pmm } : Vm) (lowPage_frame hf)⟩

/-- The table is low, whether it was there or is taken now. -/
theorem LowVm.getOrCreate (h : LowVm vm) {table : Nat}
    (hwithin : Within vm.pmm (tableSchedule (vm.present d) v ++ rest))
    (hcall : pagingGetOrCreateTable vm d v flags = .ok (table, vm')) :
    LowMap d v rest vm vm' ∧ LowPage table := by
  unfold pagingGetOrCreateTable at hcall
  dsimp only at hcall
  split at hcall
  · next habsent =>
      have hpresent : vm.present d (pageDirIndex v) = false := decide_eq_false (not_not.mpr habsent)
      unfold tableSchedule at hwithin
      rw [hpresent] at hwithin
      have htake := hwithin.take h.ok
      have hok := h.ok.allocFrame
      unfold Vm.allocFrame at hcall
      dsimp only at hcall
      generalize pmmAllocFrame vm.pmm = alloc at hcall htake hok
      split at hcall
      · cases hcall
      · next hne =>
          obtain ⟨f, haddr, -, hlow, hrest⟩ := htake hne
          have hf := hlow rfl
          obtain ⟨htable, hvm⟩ := Prod.mk.inj (Except.ok.inj hcall)
          rw [haddr] at htable hvm
          have hnew := h.newTable (d := d) (v := v) hok hf hrest
          have hthere : Vm.present _ d (pageDirIndex v) = true :=
            (congrFun hnew.present _).trans (Function.update_self _ _ _)
          exact ⟨hnew.trans (hnew.low.markUser hrest hthere hvm.symm).1, htable ▸ lowPage_frame hf⟩
  · next hthere =>
      have hpresent : vm.present d (pageDirIndex v) = true := decide_eq_true hthere
      unfold tableSchedule at hwithin
      rw [hpresent] at hwithin
      obtain ⟨htable, hvm⟩ := Prod.mk.inj (Except.ok.inj hcall)
      obtain ⟨hmap, hframe⟩ := h.markUser hwithin hpresent hvm.symm
      refine ⟨hmap, ?_⟩
      rw [← htable, hvm, hframe]
      exact h.tables _ _ hpresent

theorem LowVm.mapPage (h : LowVm vm)
    (hwithin : Within vm.pmm (tableSchedule (vm.present d) v ++ rest))
    (hcall : pagingMapPageInDirectory vm (some d) v phys flags = .ok vm') :
    LowMap d v rest vm vm' := by
  obtain ⟨⟨table, vm1⟩, htable, hcall⟩ := bind_eq_ok.mp hcall
  obtain rfl := Except.ok.inj hcall
  obtain ⟨hmap, hlow⟩ := h.getOrCreate hwithin htable
  refine ⟨⟨hmap.low.ok, hmap.low.kernelDirectory, hmap.low.tables⟩, hmap.within, hmap.present,
    hmap.others, hmap.current, ?_⟩
  intro x hx
  exact (highSame_setTableEntry vm1 hlow (pageTableIndex_lt v) x hx).trans (hmap.high x hx)

/-- It depends on the allocator and the directories. -/
theorem LowVm.congr (h : LowVm vm) (hok : PmmOk vm'.pmm)
    (hdirectories : vm'.directories = vm.directories)
    (hkernel : vm'.kernelDirectory = vm.kernelDirectory) : LowVm vm' := by
  refine ⟨hok, hkernel.trans h.kernelDirectory, ?_⟩
  intro e i
  unfold Vm.present Vm.dirEntry
  rw [hdirectories]
  exact h.tables e i

/-- What takes no frame: tables are low and nothing high was written. -/
structure LowKeep (vm vm' : Vm) : Prop where
  low : LowVm vm'
  high : HighSame vm vm'

theorem LowKeep.trans {vm1 : Vm} (h : LowKeep vm vm1) (h' : LowKeep vm1 vm') : LowKeep vm vm' :=
  ⟨h'.low, fun x hx => (h'.high x hx).trans (h.high x hx)⟩

/-- Unmapping writes to a table. -/
theorem LowVm.unmapPage (h : LowVm vm) (directory : Option Directory) (v : Nat) :
    LowKeep vm (pagingUnmapPageInDirectory vm directory v) := by
  have hself : LowKeep vm vm := ⟨h, fun _ _ => rfl⟩
  unfold pagingUnmapPageInDirectory
  cases directory with
  | none => exact hself
  | some d =>
      dsimp only
      split
      · exact hself
      · next hthere =>
          have hlow := h.tables d _ (decide_eq_true hthere)
          exact ⟨⟨h.ok, h.kernelDirectory, h.tables⟩,
            highSame_setTableEntry vm hlow (pageTableIndex_lt v)⟩

theorem LowVm.freeFrame (h : LowVm vm) (a : Nat) : LowKeep vm (vm.freeFrame a) :=
  ⟨⟨h.ok.freeFrame a, h.kernelDirectory, h.tables⟩, fun _ _ => rfl⟩

/-- Striking out an entry. -/
theorem LowVm.clearEntry (h : LowVm vm) (i : Nat) : LowKeep vm (vm.setDirEntry d i 0) := by
  refine ⟨⟨h.ok, h.kernelDirectory, ?_⟩, fun _ _ => rfl⟩
  intro e j hj
  rcases dirEntry_setDirEntry_cases vm d i 0 e j with ⟨heq, -, -⟩ | ⟨heq, -⟩
  · unfold Vm.present at hj
    rw [heq] at hj
    cases hj
  · unfold Vm.present at hj
    rw [heq] at hj ⊢
    exact h.tables e j hj

/-! ## Processes -/

theorem LowVm.releasePage (h : LowVm vm) (directory : Option Directory) (page start : Nat) :
    LowKeep vm (releasePage directory page start vm) := by
  unfold Kfs.releasePage
  split
  · have hunmap := h.unmapPage directory start
    exact hunmap.trans (hunmap.low.freeFrame page)
  · exact ⟨h, fun _ _ => rfl⟩

theorem LowVm.processReleaseMemory (h : LowVm vm) (m : ProcessMemory) :
    LowKeep vm (processReleaseMemory vm m).1 := by
  have h1 := h.releasePage m.processPageDirectory m.dataPage m.dataStart
  have h2 := h1.trans (h1.low.releasePage m.processPageDirectory m.bssPage m.bssStart)
  have h3 := h2.trans (h2.low.releasePage m.processPageDirectory m.heapPage m.heapStart)
  have h4 := h3.trans (h3.low.releasePage m.processPageDirectory m.stackPage m.stackBase)
  refine h4.trans ?_
  show LowKeep _ (releaseTable m _)
  unfold releaseTable
  split
  · exact ⟨h4.low, fun _ _ => rfl⟩
  · next d _ =>
      split
      · have hclear := h4.low.clearEntry (d := d) (pageDirIndex m.virtualBase)
        exact hclear.trans (hclear.low.freeFrame _)
      · exact ⟨h4.low, fun _ _ => rfl⟩

/-- One page of a process: its frame and its table are low. -/
theorem LowVm.allocProcessPage (h : LowVm vm) {m : ProcessMemory} {page : Option Nat}
    (hdir : m.processPageDirectory = some d)
    (hwithin : Within vm.pmm (true :: tableSchedule (vm.present d) v ++ rest))
    (hcall : allocProcessPage vm m v = .ok (page, vm')) :
    (page = none ∧ LowKeep vm vm')
      ∨ ∃ a, page = some a ∧ LowPage a ∧ LowMap d v rest vm vm' := by
  have htake := hwithin.take h.ok
  have hok := h.ok.allocFrame
  unfold Kfs.allocProcessPage Vm.allocFrame at hcall
  dsimp only at hcall
  generalize pmmAllocFrame vm.pmm = alloc at hcall htake hok
  have hlow : LowVm { vm with pmm := alloc.2 } := ⟨hok, h.kernelDirectory, h.tables⟩
  split at hcall
  · obtain ⟨hpage, rfl⟩ := Prod.mk.inj (Except.ok.inj hcall)
    exact Or.inl ⟨hpage.symm, hlow, fun _ _ => rfl⟩
  · next hne =>
      obtain ⟨f, haddr, -, hf, hrest⟩ := htake hne
      have hpage := lowPage_frame (hf rfl)
      rw [hdir, haddr] at hcall
      obtain ⟨vm1, hmap, hcall⟩ := bind_eq_ok.mp hcall
      obtain ⟨hpage', rfl⟩ := Prod.mk.inj (Except.ok.inj hcall)
      have hstep := hlow.mapPage hrest hmap
      refine Or.inr ⟨f * 4096, hpage'.symm, hpage, ⟨⟨hstep.low.ok, hstep.low.kernelDirectory,
        hstep.low.tables⟩, hstep.within, hstep.present, hstep.others, hstep.current, ?_⟩⟩
      intro x hx
      exact (highSame_clearPage vm1 hpage x hx).trans (hstep.high x hx)

theorem LowVm.mapOrRelease (h : LowVm vm) {m m' : ProcessMemory} {ok : Bool}
    {field : ProcessMemory → Nat → ProcessMemory}
    {next : Vm → ProcessMemory → Except Fault (Bool × Vm × ProcessMemory)}
    (hdir : m.processPageDirectory = some d)
    (hwithin : Within vm.pmm (true :: tableSchedule (vm.present d) v ++ rest))
    (hcall : mapOrRelease v field vm m next = .ok (ok, vm', m')) :
    (ok = false ∧ LowKeep vm vm')
      ∨ ∃ a vm1, LowPage a ∧ LowMap d v rest vm vm1 ∧ next vm1 (field m a) = .ok (ok, vm', m') := by
  rcases mapOrRelease_cases hcall with ⟨vm1, halloc, heq⟩ | ⟨a, vm1, halloc, hnext⟩
  · obtain ⟨hfalse, hrelease⟩ := Prod.mk.inj heq
    have hvm : vm' = (Kfs.processReleaseMemory vm1 m).1 := congrArg Prod.fst hrelease
    rcases h.allocProcessPage hdir hwithin halloc with ⟨-, hkeep⟩ | ⟨a, hsome, -⟩
    · exact Or.inl ⟨hfalse, hvm ▸ hkeep.trans (hkeep.low.processReleaseMemory m)⟩
    · cases hsome
  · rcases h.allocProcessPage hdir hwithin halloc with ⟨hnone, -⟩ | ⟨a', hsome, hlow, hmap⟩
    · cases hnone
    · obtain rfl := Option.some.inj hsome
      exact Or.inr ⟨a, vm1, hlow, hmap, hnext⟩

theorem LowMap.keep (h : LowMap d v rest vm vm') : LowKeep vm vm' := ⟨h.low, h.high⟩

theorem LowMap.stays (h : LowMap d v rest vm vm') {i : Nat} (hi : vm.present d i = true) :
    vm'.present d i = true := by
  rw [h.present]
  by_cases heq : i = pageDirIndex v
  · rw [heq, Function.update_self]
  · rw [Function.update_of_ne heq, hi]

theorem mapSchedule_cons (low : Bool) (present : Nat → Bool) (v : Nat) (vs : List Nat)
    (rest : List Bool) :
    mapSchedule low present (v :: vs) ++ rest = low :: tableSchedule present v
      ++ (mapSchedule low (Function.update present (pageDirIndex v) true) vs ++ rest) :=
  List.append_assoc _ _ _

/-- The copy of the kernel directory. -/
theorem LowVm.copyDirectory (h : LowVm vm) (p : Slot) :
    let vm' := pagingCopyDirectory vm (some (.process p)) (some .kernel)
    LowKeep vm vm' ∧ vm'.pmm = vm.pmm ∧ vm'.present (.process p) = vm.present .kernel
      ∧ vm'.directories .kernel = vm.directories .kernel := by
  obtain ⟨hcopy, hpmm, hown⟩ := pagingCopyDirectory_spec vm p
  intro vm'
  have hentry : ∀ i, vm'.dirEntry (.process p) i = vm.dirEntry .kernel i := congrFun hown
  have hpresent : vm'.present (.process p) = vm.present .kernel := by
    funext i
    unfold Vm.present
    rw [hentry]
  refine ⟨⟨⟨hpmm ▸ h.ok, hcopy.kernelDirectory.trans h.kernelDirectory, ?_⟩,
    fun x _ => hcopy.mem x (Finset.notMem_empty _)⟩, hpmm, hpresent,
    hcopy.directories .kernel nofun⟩
  intro e i hi
  by_cases he : e = .process p
  · subst he
    rw [hentry]
    exact h.tables .kernel i (hpresent ▸ hi)
  · unfold Vm.present Vm.dirEntry at hi
    unfold Vm.dirEntry
    rw [hcopy.directories e he] at hi ⊢
    exact h.tables e i hi

/-- The addresses of the four pages of a process at `base`. -/
def processPages (base : Nat) : List Nat :=
  [base, add32 base 4096, add32 base (4096 * 2), add32 base (4096 * 3)]

/-- The frames of a process are low, and so is what it was written with. -/
theorem LowVm.processMemoryMap (h : LowVm vm) {p : Slot} {base size : Nat} {ok : Bool}
    {m : ProcessMemory}
    (hwithin : Within vm.pmm
      (mapSchedule true (vm.present .kernel) (processPages (baseOf base p)) ++ rest))
    (hcall : processMemoryMap vm p (requestedMemory base size) = .ok (ok, vm', m)) :
    LowKeep vm vm' ∧ (ok = true → (∀ a ∈ m.addresses, LowPage a) ∧ Within vm'.pmm rest
      ∧ vm'.directories .kernel = vm.directories .kernel) := by
  obtain ⟨hcopy, hpmm, hpresent, hkernel⟩ := h.copyDirectory p
  have hstarts : [(layoutMemory p (requestedMemory base size)).dataStart,
      (layoutMemory p (requestedMemory base size)).bssStart,
      (layoutMemory p (requestedMemory base size)).heapStart,
      (layoutMemory p (requestedMemory base size)).stackBase] = processPages (baseOf base p) := rfl
  have hbase : (layoutMemory p (requestedMemory base size)).virtualBase = baseOf base p := rfl
  have hdir : (layoutMemory p (requestedMemory base size)).processPageDirectory
      = some (.process p) := rfl
  unfold Kfs.processMemoryMap at hcall
  dsimp only at hcall
  rw [h.kernelDirectory, hdir] at hcall
  generalize layoutMemory p (requestedMemory base size) = m0 at *
  generalize pagingCopyDirectory vm (some (.process p)) (some .kernel) = vm0 at *
  rw [← hstarts, ← hpresent, ← hpmm] at hwithin
  rw [mapSchedule_cons] at hwithin
  rcases hcopy.low.mapOrRelease hdir hwithin hcall with
    ⟨rfl, hfail⟩ | ⟨a1, vm1, ha1, hmap1, hcall⟩
  · exact ⟨hcopy.trans hfail, nofun⟩
  have hstep1 := hmap1.within
  rw [← hmap1.present, mapSchedule_cons] at hstep1
  rcases hmap1.low.mapOrRelease (by exact hdir) hstep1 hcall with
    ⟨rfl, hfail⟩ | ⟨a2, vm2, ha2, hmap2, hcall⟩
  · exact ⟨hcopy.trans (hmap1.keep.trans hfail), nofun⟩
  have hstep2 := hmap2.within
  rw [← hmap2.present, mapSchedule_cons] at hstep2
  rcases hmap2.low.mapOrRelease (by exact hdir) hstep2 hcall with
    ⟨rfl, hfail⟩ | ⟨a3, vm3, ha3, hmap3, hcall⟩
  · exact ⟨hcopy.trans (hmap1.keep.trans (hmap2.keep.trans hfail)), nofun⟩
  have hstep3 := hmap3.within
  rw [← hmap3.present, mapSchedule_cons] at hstep3
  rcases hmap3.low.mapOrRelease (by exact hdir) hstep3 hcall with
    ⟨rfl, hfail⟩ | ⟨a4, vm4, ha4, hmap4, hcall⟩
  · exact ⟨hcopy.trans (hmap1.keep.trans (hmap2.keep.trans (hmap3.keep.trans hfail))), nofun⟩
  obtain ⟨-, heq⟩ := Prod.mk.inj (Except.ok.inj hcall)
  obtain ⟨rfl, hm⟩ := Prod.mk.inj heq
  refine ⟨hcopy.trans (hmap1.keep.trans (hmap2.keep.trans (hmap3.keep.trans hmap4.keep))),
    fun _ => ⟨?_, hmap4.within, ?_⟩⟩
  · -- the first mapping entered the table that the record names last
    have hfirst : m0.dataStart = m0.virtualBase := (List.cons.inj hstarts).1.trans hbase.symm
    have hthere : vm1.present (.process p) (pageDirIndex m0.virtualBase) = true := by
      rw [hmap1.present, hfirst, Function.update_self]
    have htable := hmap4.low.tables _ _ (hmap4.stays (hmap3.stays (hmap2.stays hthere)))
    have haddr : m.addresses = [a1, a2, a3, a4,
        pageFrame (vm4.dirEntry (.process p) (pageDirIndex m0.virtualBase))] := by
      rw [← hm]
      rfl
    rw [haddr]
    simpa only [List.forall_mem_cons, List.not_mem_nil, false_implies, implies_true, and_true]
      using ⟨ha1, ha2, ha3, ha4, htable⟩
  · rw [hmap4.others .kernel nofun, hmap3.others .kernel nofun, hmap2.others .kernel nofun,
      hmap1.others .kernel nofun, hkernel]

end Tables

/-! ## The allocator -/

/-- Which entries of the current directory are present. -/
def Vm.currentPresent (vm : Vm) (i : Nat) : Bool :=
  vm.currentDirectory.elim true fun d => vm.present d i

/-- The schedule of `vmalloc`, whose pages may be anywhere. -/
def vmallocSchedule (vm : Vm) (a : Vmalloc) (size : Nat) : List Bool :=
  if size = 0 ∨ add32 a.vmallocCurrent (mul32 (add32 size 4095 / 4096) 4096) > vmallocEnd then []
  else mapSchedule false vm.currentPresent
    ((List.range' 0 (add32 size 4095 / 4096)).map (pageAt a.vmallocCurrent))

section Vmalloc

variable {vm vm' : Vm} {virt : Nat}

theorem LowVm.withMem (h : LowVm vm) (mem : Mem) : LowVm { vm with mem := mem } :=
  ⟨h.ok, h.kernelDirectory, h.tables⟩

theorem LowVm.giveBack (h : LowVm vm) {body : Nat → Vm → Vm} (n : Nat)
    (hbody : ∀ i vm, LowVm vm → LowVm (body i vm)) : LowVm (forRange 0 n body vm) :=
  forRange_invariant (I := fun _ vm => LowVm vm) (Nat.zero_le n) h fun i vm _ _ => hbody i vm

theorem pagingMapPage_current {d : Option Directory} {v phys flags : Nat}
    (h : vm.currentDirectory = d) :
    pagingMapPage vm v phys flags = pagingMapPageInDirectory vm d v phys flags := by
  unfold pagingMapPage
  rw [h]

theorem currentPresent_eq {d : Directory} (h : vm.currentDirectory = some d) :
    vm.currentPresent = vm.present d := by
  funext i
  unfold Vm.currentPresent
  rw [h]
  rfl

theorem LowVm.mapCurrent (h : LowVm vm) {v phys flags : Nat}
    (hwithin : Within vm.pmm (tableSchedule vm.currentPresent v))
    (hcall : pagingMapPage vm v phys flags = .ok vm') : LowVm vm' := by
  cases hdir : vm.currentDirectory with
  | none =>
      rw [pagingMapPage_current hdir] at hcall
      obtain rfl := Except.ok.inj hcall
      exact h
  | some d =>
      rw [pagingMapPage_current hdir] at hcall
      rw [currentPresent_eq hdir, ← List.append_nil (tableSchedule _ _)] at hwithin
      exact (h.mapPage hwithin hcall).low

/-- The loop of `vmalloc`: its tables are low. -/
theorem LowVm.vmallocPages : ∀ {n i : Nat} {vm : Vm} {ok : Bool}, LowVm vm →
    Within vm.pmm (mapSchedule false vm.currentPresent ((List.range' i n).map (pageAt virt))) →
    vmallocPages virt n i vm = .ok (ok, vm') → LowVm vm' := by
  intro n
  induction n with
  | zero =>
      intro i vm ok h _ hcall
      obtain ⟨-, rfl⟩ := Prod.mk.inj (Except.ok.inj hcall)
      exact h
  | succ n ih =>
      intro i vm ok h hwithin hcall
      rw [List.range'_succ, List.map_cons] at hwithin
      have htake := Within.take h.ok hwithin
      have hok := h.ok.allocFrame
      unfold Kfs.vmallocPages Vm.allocFrame at hcall
      dsimp only at hcall
      generalize pmmAllocFrame vm.pmm = alloc at hcall htake hok
      have hlow : LowVm { vm with pmm := alloc.2 } := ⟨hok, h.kernelDirectory, h.tables⟩
      split at hcall
      · obtain ⟨-, rfl⟩ := Prod.mk.inj (Except.ok.inj hcall)
        refine hlow.giveBack i ?_
        intro j vm h
        have hunmap := h.unmapPage vm.currentDirectory (pageAt virt j)
        exact (hunmap.low.freeFrame _).low
      · next hne =>
          obtain ⟨f, -, -, -, hrest⟩ := htake hne
          obtain ⟨vm1, hmap, hcall⟩ := bind_eq_ok.mp hcall
          obtain ⟨vm2, hset, hcall⟩ := bind_eq_ok.mp hcall
          obtain ⟨⟨mem, rfl⟩, hcurrent⟩ := vmallocMemset_same hset
          cases hdir : vm.currentDirectory with
          | none =>
              -- without a directory nothing is mapped, and the page faults
              rw [@pagingMapPage_current { vm with pmm := alloc.2 } _ _ _ _ hdir] at hmap
              obtain rfl := Except.ok.inj hmap
              exact absurd hdir hcurrent
          | some d =>
              rw [@pagingMapPage_current { vm with pmm := alloc.2 } _ _ _ _ hdir] at hmap
              rw [currentPresent_eq hdir] at hrest
              have hstep := hlow.mapPage hrest hmap
              have hupdate : vm1.present d
                  = Function.update (vm.present d) (pageDirIndex (pageAt virt i)) true :=
                hstep.present
              have hnext := hstep.within
              rw [← hupdate, ← currentPresent_eq (hstep.current.trans hdir)] at hnext
              exact ih (hstep.low.withMem mem) hnext hcall

theorem LowVm.vmalloc (h : LowVm vm) {a a' : Vmalloc} {size p : Nat}
    (hwithin : Within vm.pmm (vmallocSchedule vm a size))
    (hcall : vmalloc vm a size = .ok (p, vm', a')) : LowVm vm' := by
  have hsame : ∀ {a1}, (0, vm, a1) = (p, vm', a') → LowVm vm' := by
    intro a1 heq
    obtain ⟨rfl, -⟩ := Prod.mk.inj (Prod.mk.inj heq).2
    exact h
  unfold Kfs.vmalloc at hcall
  split at hcall
  · exact hsame (Except.ok.inj hcall)
  next hsize =>
  dsimp only at hcall
  split at hcall
  · exact hsame (Except.ok.inj hcall)
  next hroom =>
  obtain ⟨⟨region, heap⟩, -, hcall⟩ := bind_eq_ok.mp hcall
  dsimp only at hcall
  split at hcall
  · exact hsame (Except.ok.inj hcall)
  obtain ⟨⟨ok, vm1⟩, hloop, hcall⟩ := bind_eq_ok.mp hcall
  unfold vmallocSchedule at hwithin
  rw [if_neg (not_or.mpr ⟨hsize, hroom⟩)] at hwithin
  have hlow := h.vmallocPages hwithin hloop
  cases ok with
  | true =>
      obtain ⟨rfl, -⟩ := Prod.mk.inj (Prod.mk.inj (Except.ok.inj hcall)).2
      exact hlow
  | false =>
      obtain ⟨⟨heap', warned⟩, -, hcall⟩ := bind_eq_ok.mp hcall
      obtain ⟨rfl, -⟩ := Prod.mk.inj (Prod.mk.inj (Except.ok.inj hcall)).2
      exact hlow

theorem LowVm.vfree (h : LowVm vm) {a a' : Vmalloc} {p : Nat}
    (hcall : vfree vm a p = .ok (vm', a')) : LowVm vm' := by
  unfold Kfs.vfree at hcall
  split at hcall
  · obtain ⟨rfl, -⟩ := Prod.mk.inj (Except.ok.inj hcall)
    exact h
  split at hcall
  · cases hcall
  next region _ =>
  obtain ⟨⟨heap, warned⟩, -, hcall⟩ := bind_eq_ok.mp hcall
  obtain ⟨rfl, -⟩ := Prod.mk.inj (Except.ok.inj hcall)
  refine h.giveBack _ ?_
  intro i vm h
  unfold vfreePage
  dsimp only
  split
  · have hunmap := h.unmapPage vm.currentDirectory (pageAt region.virtAddr i)
    exact (hunmap.low.freeFrame _).low
  · exact h

end Vmalloc

end Kfs
