import Kfs.LowFrames

/-!
# How far the spare frames go

The schedule of an operation and the number of spare frames say how it ends.
If the frames last to the end of the schedule, it succeeds. If they end at
the frame of a page, the operation notices and gives up; if they end at the
frame of a page table, `paging_get_or_create_table` panics.

`Draws` is what was taken on the way, pages and tables apart, since what an
operation gives back when it gives up are its pages.
-/

namespace Kfs

/-- The panic of `paging_get_or_create_table`. -/
def outOfTables : Fault := .panic "paging_map_page: Out of memory for page table"

/-- `n` frames can be handed out. Frame 0 is not one of them: its address
would be taken for a failure. -/
structure Supply (vm : Vm) (n : Nat) : Prop where
  ok : PmmOk vm.pmm
  zero : 0 ∉ spare vm.pmm
  card : (spare vm.pmm).card = n

/-- From `vm` to `vm'` the frames `pages` and `tables` were taken, the latter
for windows of directory `d` that had no table. -/
structure Draws (d : Directory) (pages tables : List Nat) (vm vm' : Vm) : Prop where
  takes : Takes (pages ++ tables).toFinset vm.pmm vm'.pmm
  nodup : (pages ++ tables).Nodup
  ne_zero : ∀ f ∈ pages ++ tables, f ≠ 0
  others : ∀ e, e ≠ d → vm'.directories e = vm.directories e
  current : vm'.currentDirectory = vm.currentDirectory
  kernelDirectory : vm'.kernelDirectory = vm.kernelDirectory
  kept : ∀ i, vm.present d i = true → vm'.present d i = true
    ∧ pageFrame (vm'.dirEntry d i) = pageFrame (vm.dirEntry d i)
  new : ∀ i, vm.present d i = false → vm'.present d i = true →
    ∃ t ∈ tables, pageFrame (vm'.dirEntry d i) = t * 4096

section Supply

variable {vm vm' vm'' : Vm} {d : Directory} {n v phys flags : Nat}
  {pages tables pages' tables' : List Nat}

/-- It depends on the allocator. -/
theorem Supply.congr (h : Supply vm n) (hpmm : vm'.pmm = vm.pmm) : Supply vm' n :=
  ⟨hpmm ▸ h.ok, hpmm ▸ h.zero, hpmm ▸ h.card⟩

theorem Supply.alloc_none (h : Supply vm 0) : vm.allocFrame = (0, vm) := by
  unfold Vm.allocFrame
  rcases pmmAllocFrame_first vm.pmm with ⟨he, -⟩ | ⟨f, hf, -, -⟩
  · rw [he]
  · have hpos := Finset.card_pos.mpr ⟨f, hf⟩
    rw [h.card] at hpos
    omega

/-- The lowest spare frame. -/
theorem Supply.alloc_some (h : Supply vm (n + 1)) :
    ∃ f pmm, f ≠ 0 ∧ vm.allocFrame = (f * 4096, { vm with pmm := pmm })
      ∧ Takes {f} vm.pmm pmm ∧ Supply { vm with pmm := pmm } n := by
  unfold Vm.allocFrame
  rcases pmmAllocFrame_first vm.pmm with ⟨-, hnone⟩ | ⟨f, hf, -, he⟩
  · have hcard := h.card
    rw [hnone, Finset.card_empty] at hcard
    omega
  · obtain ⟨hlt, hfree⟩ := mem_spare.mp hf
    have hbound := h.ok.bound
    have htakes := takes_takeFrame h.ok (show f < vm.pmm.totalFrames by omega) hfree
    refine ⟨f, takeFrame f vm.pmm, ?_, by rw [he, pfnToAddr_eq (by omega)], htakes, htakes.ok, ?_,
      ?_⟩
    · rintro rfl
      exact h.zero hf
    · rw [spare_takeFrame]
      exact fun hin => h.zero (Finset.mem_of_mem_erase hin)
    · rw [spare_takeFrame, Finset.card_erase_of_mem hf, h.card]
      rfl

/-! ## Drawing -/

theorem Draws.refl (d : Directory) (hok : PmmOk vm.pmm) : Draws d [] [] vm vm where
  takes := Takes.refl hok
  nodup := List.nodup_nil
  ne_zero := nofun
  others _ _ := rfl
  current := rfl
  kernelDirectory := rfl
  kept _ hi := ⟨hi, rfl⟩
  new i hi hi' := by
    rw [hi] at hi'
    cases hi'

theorem Draws.trans (h : Draws d pages tables vm vm') (h' : Draws d pages' tables' vm' vm'') :
    Draws d (pages ++ pages') (tables ++ tables') vm vm'' := by
  have hset : (pages ++ pages' ++ (tables ++ tables')).toFinset
      = (pages ++ tables).toFinset ∪ (pages' ++ tables').toFinset := by
    ext f
    simp only [List.mem_toFinset, List.mem_append, Finset.mem_union]
    tauto
  -- what is taken later is not among what is used by then
  have hapart : ∀ f ∈ pages ++ tables, f ∉ pages' ++ tables' := by
    intro f hf hf'
    refine Finset.disjoint_left.mp h'.takes.fresh ?_ (List.mem_toFinset.mpr hf')
    rw [h.takes.used]
    exact Finset.mem_union_right _ (List.mem_toFinset.mpr hf)
  refine ⟨hset ▸ h.takes.trans h'.takes, ?_, ?_, ?_, h'.current.trans h.current,
    h'.kernelDirectory.trans h.kernelDirectory, ?_, ?_⟩
  · have hperm : (pages ++ pages' ++ (tables ++ tables')).Perm
        (pages ++ tables ++ (pages' ++ tables')) := by
      rw [List.append_assoc, List.append_assoc, List.perm_append_left_iff]
      exact (List.perm_append_comm_assoc _ _ _)
    rw [hperm.nodup_iff]
    exact List.nodup_append.mpr ⟨h.nodup, h'.nodup, fun f hf g hg heq =>
      hapart f hf (heq ▸ hg)⟩
  · intro f hf
    rcases Finset.mem_union.mp (hset ▸ List.mem_toFinset.mpr hf) with hf | hf
    · exact h.ne_zero f (List.mem_toFinset.mp hf)
    · exact h'.ne_zero f (List.mem_toFinset.mp hf)
  · intro e he
    exact (h'.others e he).trans (h.others e he)
  · intro i hi
    obtain ⟨hthere, hframe⟩ := h.kept i hi
    obtain ⟨hthere', hframe'⟩ := h'.kept i hthere
    exact ⟨hthere', hframe'.trans hframe⟩
  · intro i hi hi''
    cases hmid : vm'.present d i with
    | true =>
        obtain ⟨t, ht, hframe⟩ := h.new i hi hmid
        exact ⟨t, List.mem_append_left _ ht, (h'.kept i hmid).2.trans hframe⟩
    | false =>
        obtain ⟨t, ht, hframe⟩ := h'.new i hmid hi''
        exact ⟨t, List.mem_append_right _ ht, hframe⟩

/-- What only writes to memory draws nothing. -/
theorem Draws.memory (h : Draws d pages tables vm vm') (mem : Mem) :
    Draws d pages tables vm { vm' with mem := mem } :=
  ⟨h.takes, h.nodup, h.ne_zero, h.others, h.current, h.kernelDirectory, h.kept, h.new⟩

/-- A frame for a page. -/
theorem draws_page {f : Nat} {pmm : Pmm} (hne : f ≠ 0) (htakes : Takes {f} vm.pmm pmm) :
    Draws d [f] [] vm { vm with pmm := pmm } where
  takes := htakes
  nodup := List.nodup_singleton f
  ne_zero g hg := by
    rw [List.append_nil, List.mem_singleton] at hg
    exact hg ▸ hne
  others _ _ := rfl
  current := rfl
  kernelDirectory := rfl
  kept _ hi := ⟨hi, rfl⟩
  new i hi hi' := absurd (hi'.symm.trans hi) (by decide)

/-! ## Tables -/

/-- The entry of a table that is there gets the user bit or not. -/
theorem draws_markUser (hthere : vm.present d (pageDirIndex v) = true) (hok : PmmOk vm.pmm)
    (heq : vm' = if flags &&& pageUser ≠ 0 then
      vm.setDirEntry d (pageDirIndex v) (vm.dirEntry d (pageDirIndex v) ||| pageUser) else vm) :
    Draws d [] [] vm vm' ∧ vm'.present d = vm.present d ∧ vm'.pmm = vm.pmm := by
  obtain ⟨hframe, hbit⟩ := pageFrame_or_user (vm.dirEntry d (pageDirIndex v))
  split at heq
  · have hentries : ∀ i, vm'.present d i = vm.present d i
        ∧ pageFrame (vm'.dirEntry d i) = pageFrame (vm.dirEntry d i) := by
      intro i
      unfold Vm.present
      rw [heq]
      rcases dirEntry_setDirEntry_cases vm d (pageDirIndex v)
        (vm.dirEntry d (pageDirIndex v) ||| pageUser) d i with ⟨he, -, rfl⟩ | ⟨he, -⟩
      · rw [he, hframe, hbit]
        exact ⟨rfl, rfl⟩
      · rw [he]
        exact ⟨rfl, rfl⟩
    subst heq
    refine ⟨⟨Takes.refl hok, List.nodup_nil, nofun,
      (touches_setDirEntry d vm _ _).directories, rfl, rfl, fun i hi => ?_, fun i hi hi' => ?_⟩,
      funext fun i => (hentries i).1, rfl⟩
    · rw [(hentries i).1]
      exact ⟨hi, (hentries i).2⟩
    · rw [(hentries i).1, hi] at hi'
      cases hi'
  · subst heq
    exact ⟨Draws.refl d hok, rfl, rfl⟩

/-- A frame becomes the table of a window that has none. -/
theorem draws_table {t : Nat} {pmm : Pmm} (hne : t ≠ 0) (htakes : Takes {t} vm.pmm pmm)
    (habsent : vm.present d (pageDirIndex v) = false) :
    let vm' := (({ vm with pmm := pmm } : Vm).clearPage (t * 4096)).setDirEntry d
      (pageDirIndex v) (t * 4096 ||| pagePresent ||| pageWrite)
    Draws d [] [t] vm vm'
      ∧ vm'.present d = Function.update (vm.present d) (pageDirIndex v) true
      ∧ pageFrame (vm'.dirEntry d (pageDirIndex v)) = t * 4096 := by
  have hlt := htakes.lt (Finset.mem_singleton_self t)
  obtain ⟨hframe, hbit⟩ := newEntry (f := t) (by omega)
  intro vm'
  have hentry : ∀ i, vm'.dirEntry d i = if i = pageDirIndex v then
      t * 4096 ||| pagePresent ||| pageWrite else vm.dirEntry d i := by
    intro i
    rcases dirEntry_setDirEntry_cases (({ vm with pmm := pmm } : Vm).clearPage (t * 4096)) d
      (pageDirIndex v) (t * 4096 ||| pagePresent ||| pageWrite) d i with ⟨he, -, hi⟩ | ⟨he, hi⟩
    · rw [if_pos hi]
      exact he
    · rw [if_neg fun h => hi ⟨rfl, h⟩]
      exact he
  have hpresent : ∀ i, vm'.present d i = if i = pageDirIndex v then true else vm.present d i := by
    intro i
    unfold Vm.present
    rw [hentry]
    split
    · exact decide_eq_true hbit
    · rfl
  refine ⟨⟨htakes, List.nodup_singleton t, ?_, (touches_setDirEntry d _ _ _).directories, rfl, rfl,
    ?_, ?_⟩, ?_, ?_⟩
  · intro f hf
    rw [List.nil_append, List.mem_singleton] at hf
    exact hf ▸ hne
  · intro i hi
    have hi' : i ≠ pageDirIndex v := by
      rintro rfl
      rw [hi] at habsent
      cases habsent
    rw [hpresent, hentry, if_neg hi', if_neg hi']
    exact ⟨hi, rfl⟩
  · intro i hi hi'
    rw [hpresent] at hi'
    split at hi'
    · next heq =>
        refine ⟨t, List.mem_singleton_self t, ?_⟩
        rw [hentry, if_pos heq, hframe]
    · rw [hi] at hi'
      cases hi'
  · funext i
    rw [hpresent, Function.update_apply]
  · rw [hentry, if_pos rfl, hframe]

/-- Getting the table of a window: it is there, or takes a frame, or there is
no frame left. -/
theorem Supply.getOrCreate (h : Supply vm n) :
    (n = 0 ∧ tableSchedule (vm.present d) v = [true]
        ∧ pagingGetOrCreateTable vm d v flags = .error outOfTables)
      ∨ ∃ tables vm' rest, Draws d [] tables vm vm' ∧ Supply vm' rest ∧ n = rest + tables.length
        ∧ tableSchedule (vm.present d) v = List.replicate tables.length true
        ∧ vm'.present d = Function.update (vm.present d) (pageDirIndex v) true
        ∧ pagingGetOrCreateTable vm d v flags
          = .ok (pageFrame (vm'.dirEntry d (pageDirIndex v)), vm') := by
  unfold pagingGetOrCreateTable tableSchedule
  dsimp only
  cases hpresent : vm.present d (pageDirIndex v) with
  | true =>
      obtain ⟨hdraws, hsame, hpmm⟩ := @draws_markUser _ _ _ _ flags hpresent h.ok rfl
      refine Or.inr ⟨[], _, n, hdraws, h.congr hpmm, rfl, rfl, ?_, ?_⟩
      · rw [hsame, ← hpresent, Function.update_eq_self]
      · rw [if_neg (of_decide_eq_true hpresent)]
  | false =>
      rw [if_pos (not_not.mp (of_decide_eq_false hpresent))]
      cases n with
      | zero =>
          rw [h.alloc_none]
          exact Or.inl ⟨rfl, rfl, rfl⟩
      | succ n =>
          obtain ⟨t, pmm, hne, halloc, htakes, hrest⟩ := h.alloc_some
          obtain ⟨hdraws, hupdate, hframe⟩ := draws_table hne htakes hpresent
          have hthere : Vm.present _ d (pageDirIndex v) = true :=
            (congrFun hupdate _).trans (Function.update_self _ _ _)
          obtain ⟨hmark, hsame, hpmm⟩ := @draws_markUser _ _ _ _ flags hthere hrest.ok rfl
          refine Or.inr ⟨[t], _, n, hdraws.trans hmark, hrest.congr hpmm, rfl, rfl,
            hsame.trans hupdate, ?_⟩
          rw [halloc]
          dsimp only
          rw [if_neg (by omega), (hmark.kept _ hthere).2, hframe]

/-- Mapping a page. Afterwards the entry of the page is the word written. -/
theorem Supply.mapPage (h : Supply vm n) (d : Directory) (v phys flags : Nat) :
    (n = 0 ∧ tableSchedule (vm.present d) v = [true]
        ∧ pagingMapPageInDirectory vm (some d) v phys flags = .error outOfTables)
      ∨ ∃ tables vm' rest, Draws d [] tables vm vm' ∧ Supply vm' rest ∧ n = rest + tables.length
        ∧ tableSchedule (vm.present d) v = List.replicate tables.length true
        ∧ vm'.present d = Function.update (vm.present d) (pageDirIndex v) true
        ∧ ((phys &&& 0xFFFFF000) ||| (flags &&& 0xFFF) < 4294967296 →
          vm'.tableEntry (pageFrame (vm'.dirEntry d (pageDirIndex v))) (pageTableIndex v)
            = (phys &&& 0xFFFFF000) ||| (flags &&& 0xFFF))
        ∧ pagingMapPageInDirectory vm (some d) v phys flags = .ok vm' := by
  rcases h.getOrCreate (d := d) (v := v) with ⟨hn, htab, hcall⟩ | ⟨tables, vm1, rest, hdraws,
    hrest, hn, htab, hpresent, hcall⟩
  · exact Or.inl ⟨hn, htab, bind_of_error hcall⟩
  · exact Or.inr ⟨tables, vm1.setTableEntry (pageFrame (vm1.dirEntry d (pageDirIndex v)))
      (pageTableIndex v) ((phys &&& 0xFFFFF000) ||| (flags &&& 0xFFF)), rest, hdraws.memory _,
      hrest.congr rfl, hn, htab, hpresent, fun hword => load32_store32 hword, bind_of_ok hcall⟩

/-! ## The pages of a process -/

/-- A page of a process: there is no frame for it, or none for its table, or
it is mapped. -/
theorem Supply.allocProcessPage {m : ProcessMemory} (h : Supply vm n)
    (hdir : m.processPageDirectory = some d) :
    (n = 0 ∧ allocProcessPage vm m v = .ok (none, vm))
      ∨ (n = 1 ∧ tableSchedule (vm.present d) v = [true]
        ∧ allocProcessPage vm m v = .error outOfTables)
      ∨ ∃ f tables vm' rest, Draws d [f] tables vm vm' ∧ Supply vm' rest
        ∧ n = rest + 1 + tables.length
        ∧ tableSchedule (vm.present d) v = List.replicate tables.length true
        ∧ vm'.present d = Function.update (vm.present d) (pageDirIndex v) true
        ∧ allocProcessPage vm m v = .ok (some (f * 4096), vm') := by
  unfold Kfs.allocProcessPage
  cases n with
  | zero =>
      rw [h.alloc_none]
      exact Or.inl ⟨rfl, rfl⟩
  | succ n =>
      obtain ⟨f, pmm, hne, halloc, htakes, hrest⟩ := h.alloc_some
      rw [halloc, hdir]
      dsimp only
      rw [if_neg (by omega)]
      have hpage := @draws_page vm d f pmm hne htakes
      rcases hrest.mapPage d v (f * 4096) pageUserRw with
        ⟨hn, htab, hcall⟩ | ⟨tables, vm1, rest, hdraws, hrest, hn, htab, hpresent, -, hcall⟩
      · exact Or.inr (Or.inl ⟨by omega, htab, bind_of_error hcall⟩)
      · exact Or.inr (Or.inr ⟨f, tables, vm1.clearPage (f * 4096), rest,
          (hpage.trans hdraws).memory _, hrest.congr rfl, by omega, htab, hpresent,
          bind_of_ok hcall⟩)

/-- The frames `frames` are given back, and of the directories at most `d`
changes. -/
structure Releases (d : Directory) (frames : Finset Nat) (vm vm' : Vm) : Prop where
  gives : Gives frames vm.pmm vm'.pmm
  others : ∀ e, e ≠ d → vm'.directories e = vm.directories e
  current : vm'.currentDirectory = vm.currentDirectory
  kernelDirectory : vm'.kernelDirectory = vm.kernelDirectory

theorem Releases.trans {frames frames' : Finset Nat} (h : Releases d frames vm vm')
    (h' : Releases d frames' vm' vm'') : Releases d (frames ∪ frames') vm vm'' where
  gives := h.gives.trans h'.gives
  others e he := (h'.others e he).trans (h.others e he)
  current := h'.current.trans h.current
  kernelDirectory := h'.kernelDirectory.trans h.kernelDirectory

theorem releases_page {page : Nat} (d : Directory) (directory : Option Directory) (start : Nat)
    (hok : PmmOk vm.pmm) (hwhole : page % 4096 = 0) :
    Releases d (frameSet page) vm (releasePage directory page start vm) := by
  obtain ⟨mem, hunmap⟩ := pagingUnmapPageInDirectory_memory vm directory start
  unfold releasePage
  by_cases hpage : page = 0
  · subst hpage
    exact ⟨gives_nothing hok, fun _ _ => rfl, rfl, rfl⟩
  · rw [if_pos hpage, hunmap]
    exact ⟨gives_freeFrame hok hwhole hpage, fun _ _ => rfl, rfl, rfl⟩

theorem releases_table {m : ProcessMemory} (hok : PmmOk vm.pmm)
    (hdir : m.processPageDirectory = some d) (hwhole : m.processPageTable % 4096 = 0) :
    Releases d (frameSet m.processPageTable) vm (releaseTable m vm) := by
  unfold releaseTable
  rw [hdir]
  dsimp only
  by_cases htable : m.processPageTable = 0
  · rw [if_neg (not_not.mpr htable), htable]
    exact ⟨gives_nothing hok, fun _ _ => rfl, rfl, rfl⟩
  · rw [if_pos htable]
    exact ⟨gives_freeFrame hok hwhole htable, (touches_setDirEntry d vm _ 0).directories, rfl, rfl⟩

/-- `process_release_memory` frees what the record names. -/
theorem processReleaseMemory_releases {m : ProcessMemory} (hok : PmmOk vm.pmm)
    (hdir : m.processPageDirectory = some d) (hwhole : ∀ a ∈ m.addresses, a % 4096 = 0) :
    Releases d m.frames vm (processReleaseMemory vm m).1 := by
  simp only [ProcessMemory.addresses, List.forall_mem_cons] at hwhole
  obtain ⟨hw1, hw2, hw3, hw4, hw5, -⟩ := hwhole
  have h1 := releases_page d m.processPageDirectory m.dataStart hok hw1
  have h2 := h1.trans (releases_page d m.processPageDirectory m.bssStart h1.gives.ok hw2)
  have h3 := h2.trans (releases_page d m.processPageDirectory m.heapStart h2.gives.ok hw3)
  have h4 := h3.trans (releases_page d m.processPageDirectory m.stackBase h3.gives.ok hw4)
  exact h4.trans (releases_table h4.gives.ok hdir hw5)

end Supply

/-! ## The whole mapping -/

/-- How `process_memory_map` ends with `n` spare frames; window `w` is that
of the first page. A mapping that gives up has given its pages back, and the
tables it drew are leaked. -/
inductive MapEnds (d : Directory) (w : Nat) (schedule : List Bool) (n : Nat) (vm : Vm) :
    Except Fault (Bool × Vm × ProcessMemory) → Prop where
  | short {leak : List Nat} {vm' : Vm} {m' : ProcessMemory} (turn : schedule[n]? = some false)
      (count : leak.length = (schedule.take n).count true)
      (takes : Takes leak.toFinset vm.pmm vm'.pmm)
      (others : ∀ e, e ≠ d → vm'.directories e = vm.directories e)
      (current : vm'.currentDirectory = vm.currentDirectory)
      (kernelDirectory : vm'.kernelDirectory = vm.kernelDirectory) :
      MapEnds d w schedule n vm (.ok (false, vm', m'))
  | fatal (turn : schedule[n]? = some true) : MapEnds d w schedule n vm (.error outOfTables)
  | done {pages tables : List Nat} {vm' : Vm} {m' : ProcessMemory} (turn : schedule.length ≤ n)
      (count : tables.length = schedule.count true)
      (draws : Draws d pages tables vm vm') (supply : Supply vm' (n - schedule.length))
      (directory : m'.processPageDirectory = some d)
      (there : vm'.present d w = true)
      (addresses : m'.addresses = pages.map (· * 4096) ++ [pageFrame (vm'.dirEntry d w)]) :
      MapEnds d w schedule n vm (.ok (true, vm', m'))

/-- A mapping that has mapped `pages` and has `left` to map. -/
structure Underway (d : Directory) (w : Nat) (schedule : List Bool) (n : Nat) (vm0 vm : Vm)
    (m : ProcessMemory) (pages tables left : List Nat) : Prop where
  draws : Draws d pages tables vm0 vm
  directory : m.processPageDirectory = some d
  addresses : m.addresses = pages.map (· * 4096) ++ List.replicate (left.length + 1) 0
  supply : ∃ rest, Supply vm rest ∧ n = rest + pages.length + tables.length
  schedule : ∃ taken, schedule = taken ++ mapSchedule false (vm.present d) left
    ∧ taken.length = pages.length + tables.length ∧ taken.count true = tables.length
  there : pages ≠ [] → vm.present d w = true

section Mapping

variable {vm0 vm vm' : Vm} {d : Directory} {w n v : Nat} {schedule : List Bool}
  {m : ProcessMemory} {pages tables left : List Nat}
  {field : ProcessMemory → Nat → ProcessMemory}
  {goOn : Vm → ProcessMemory → Except Fault (Bool × Vm × ProcessMemory)}

/-- The mapping stops here and its pages are given back. -/
theorem Underway.released (h : Underway d w schedule n vm0 vm m pages tables (v :: left))
    (hsupply : Supply vm 0) :
    MapEnds d w schedule n vm0 (.ok (false, processReleaseMemory vm m)) := by
  obtain ⟨hframes, hwhole⟩ := frames_of_addresses h.addresses fun f hf =>
    h.draws.ne_zero f (List.mem_append_left _ hf)
  have hrel := processReleaseMemory_releases h.draws.takes.ok h.directory hwhole
  rw [hframes] at hrel
  obtain ⟨rest, hrest, hn⟩ := h.supply
  have hzero : rest = 0 := hrest.card.symm.trans hsupply.card
  obtain ⟨taken, hschedule, hlength, hcount⟩ := h.schedule
  have hturn : schedule[n]? = some false := by
    rw [hschedule, List.getElem?_append_right (by omega), show n - taken.length = 0 by omega]
    rfl
  have hleak : tables.length = (schedule.take n).count true := by
    rw [hschedule, List.take_left' (by omega), hcount]
  have htakes : Takes tables.toFinset vm0.pmm (processReleaseMemory vm m).1.pmm := by
    refine ⟨hrel.gives.ok, hrel.gives.total.trans h.draws.takes.total, ?_, ?_⟩
    · -- the pages were free before and are no tables
      have hold : ∀ f ∈ usedSet vm0.pmm, f ∉ pages := fun f hf hin =>
        Finset.disjoint_left.mp h.draws.takes.fresh hf
          (List.mem_toFinset.mpr (List.mem_append_left _ hin))
      have hnot : ∀ f ∈ tables, f ∉ pages := fun f hf hin =>
        (List.nodup_append.mp h.draws.nodup).2.2 f hin f hf rfl
      rw [hrel.gives.used, h.draws.takes.used, List.toFinset_append]
      ext f
      simp only [Finset.mem_sdiff, Finset.mem_union, List.mem_toFinset]
      have := hold f
      have := hnot f
      tauto
    · refine Finset.disjoint_of_subset_right ?_ h.draws.takes.fresh
      intro f hf
      exact List.mem_toFinset.mpr (List.mem_append_right _ (List.mem_toFinset.mp hf))
  exact .short hturn hleak htakes (fun e he => (hrel.others e he).trans (h.draws.others e he))
    (hrel.current.trans h.draws.current) (hrel.kernelDirectory.trans h.draws.kernelDirectory)

/-- The rule for one page: the mapping ends here, or goes on with one page
more. -/
theorem Underway.step (h : Underway d w schedule n vm0 vm m pages tables (v :: left))
    (hw : pages = [] → pageDirIndex v = w)
    (hfield : ∀ page, (field m page).processPageDirectory = some d
      ∧ (field m page).addresses = m.addresses.set pages.length page)
    (hgoOn : ∀ f tables' vm', Underway d w schedule n vm0 vm' (field m (f * 4096)) (pages ++ [f])
      (tables ++ tables') left → MapEnds d w schedule n vm0 (goOn vm' (field m (f * 4096)))) :
    MapEnds d w schedule n vm0 (mapOrRelease v field vm m goOn) := by
  obtain ⟨rest, hrest, hn⟩ := h.supply
  obtain ⟨taken, hschedule, hlength, hcount⟩ := h.schedule
  rcases hrest.allocProcessPage h.directory with ⟨hzero, hcall⟩ | ⟨hone, htab, hcall⟩ | ⟨f, tables',
    vm', rest', hdraws, hrest', hn', htab, hpresent, hcall⟩
  · rw [show mapOrRelease v field vm m goOn = .ok (false, processReleaseMemory vm m) from
      bind_of_ok hcall]
    exact h.released (hzero ▸ hrest)
  · rw [show mapOrRelease v field vm m goOn = .error outOfTables from bind_of_error hcall]
    refine .fatal ?_
    rw [hschedule, List.getElem?_append_right (by omega), show n - taken.length = 1 by omega,
      mapSchedule, htab]
    rfl
  · rw [show mapOrRelease v field vm m goOn = goOn vm' (field m (f * 4096)) from bind_of_ok hcall]
    refine hgoOn f tables' vm' ⟨h.draws.trans hdraws, (hfield _).1, ?_,
      ⟨rest', hrest', ?_⟩, ⟨taken ++ false :: List.replicate tables'.length true, ?_, ?_, ?_⟩, ?_⟩
    · have hset := set_padded (pages.map (· * 4096)) (left.length + 1) (f * 4096)
      rw [List.length_map] at hset
      rw [(hfield _).2, h.addresses, List.map_append]
      exact hset
    · simp only [List.length_append, List.length_singleton]
      omega
    · rw [hschedule, mapSchedule, htab, hpresent, List.append_assoc]
    · simp only [List.length_append, List.length_cons, List.length_replicate, List.length_nil]
      omega
    · simp [hcount]
    · intro _
      by_cases hpages : pages = []
      · rw [hpresent, ← hw hpages, Function.update_self]
      · exact (hdraws.kept w (h.there hpages)).1

end Mapping

/-- The directory of a new process in slot `p` before its pages are mapped. -/
def Vm.withCopy (vm : Vm) (p : Slot) : Vm :=
  pagingCopyDirectory vm (some (.process p)) (some .kernel)

/-- The frames of a process at `base` in slot `p`, `true` for a page table. -/
def Vm.creationFrames (vm : Vm) (base : Nat) (p : Slot) : List Bool :=
  mapSchedule false (vm.present .kernel) (processPages (baseOf base p))

theorem withCopy_present (vm : Vm) (p : Slot) :
    (vm.withCopy p).present (.process p) = vm.present .kernel := by
  obtain ⟨-, -, hown⟩ := pagingCopyDirectory_spec vm p
  funext i
  unfold Vm.present Vm.dirEntry Vm.withCopy
  rw [hown]

theorem processMemoryMap_ends {vm : Vm} {n : Nat} (h : Supply vm n)
    (hk : vm.kernelDirectory = some .kernel) (p : Slot) (base size : Nat) :
    MapEnds (.process p) (pageDirIndex (baseOf base p)) (vm.creationFrames base p) n
      (vm.withCopy p) (processMemoryMap vm p (requestedMemory base size)) := by
  have hpages : processPages (baseOf base p)
      = [(layoutMemory p (requestedMemory base size)).dataStart,
        (layoutMemory p (requestedMemory base size)).bssStart,
        (layoutMemory p (requestedMemory base size)).heapStart,
        (layoutMemory p (requestedMemory base size)).stackBase] := rfl
  have hstart : Underway (.process p) (pageDirIndex (baseOf base p)) (vm.creationFrames base p) n
      (vm.withCopy p) (vm.withCopy p) (layoutMemory p (requestedMemory base size)) [] []
      (processPages (baseOf base p)) := by
    refine ⟨Draws.refl _ h.ok, rfl, rfl, ⟨n, h.congr rfl, rfl⟩, ⟨[], ?_, rfl, rfl⟩, nofun⟩
    rw [withCopy_present, List.nil_append, Vm.creationFrames]
  have hbase : (layoutMemory p (requestedMemory base size)).virtualBase = baseOf base p := rfl
  have hfirst : (layoutMemory p (requestedMemory base size)).dataStart = baseOf base p := rfl
  have hdir : (layoutMemory p (requestedMemory base size)).processPageDirectory
      = some (.process p) := rfl
  unfold processMemoryMap
  dsimp only
  rw [hdir, hk]
  rw [hpages] at hstart
  change MapEnds _ _ _ _ _ (mapOrRelease _ _ (vm.withCopy p) _ _)
  generalize layoutMemory p (requestedMemory base size) = m0 at *
  generalize baseOf base p = b at *
  generalize vm.creationFrames base p = schedule at *
  generalize vm.withCopy p = vm0 at *
  refine hstart.step (fun _ => congrArg pageDirIndex hfirst) (fun page => ⟨hdir, rfl⟩) ?_
  intro f1 t1 vm1 h1
  refine h1.step nofun (fun page => ⟨h1.directory, rfl⟩) ?_
  intro f2 t2 vm2 h2
  refine h2.step nofun (fun page => ⟨h2.directory, rfl⟩) ?_
  intro f3 t3 vm3 h3
  refine h3.step nofun (fun page => ⟨h3.directory, rfl⟩) ?_
  intro f4 t4 vm4 h4
  obtain ⟨rest, hrest, hn⟩ := h4.supply
  obtain ⟨taken, hschedule, hlength, hcount⟩ := h4.schedule
  rw [mapSchedule, List.append_nil] at hschedule
  rw [← hschedule] at hlength hcount
  have hleft : n - schedule.length = rest := by omega
  refine .done (by omega) hcount.symm h4.draws (hleft ▸ hrest) h4.directory (h4.there (by simp)) ?_
  -- the table is where the directory points
  show [f1 * 4096, f2 * 4096, f3 * 4096, f4 * 4096,
    pageFrame (vm4.dirEntry (.process p) (pageDirIndex m0.virtualBase))] = _
  rw [hbase]
  rfl

/-- Frame 0 is taken, and its address is taken for a failure. -/
theorem allocFrame_zero {vm : Vm} (h : 0 ∈ spare vm.pmm) :
    vm.allocFrame = (0, { vm with pmm := takeFrame 0 vm.pmm }) := by
  unfold Vm.allocFrame
  rcases pmmAllocFrame_first vm.pmm with ⟨-, hnone⟩ | ⟨f, -, hfirst, he⟩
  · rw [hnone] at h
    exact absurd h (Finset.notMem_empty 0)
  · obtain rfl : f = 0 := Nat.le_zero.mp (hfirst 0 h)
    rw [he, pfnToAddr_eq (by omega)]

theorem processMemoryMap_zero {vm : Vm} (h : 0 ∈ spare vm.pmm)
    (hk : vm.kernelDirectory = some .kernel) (p : Slot) (base size : Nat) :
    processMemoryMap vm p (requestedMemory base size)
      = .ok (false, { vm.withCopy p with pmm := takeFrame 0 vm.pmm }, processResetMemory) := by
  have hdir : (layoutMemory p (requestedMemory base size)).processPageDirectory
      = some (.process p) := rfl
  have hzero : (layoutMemory p (requestedMemory base size)).addresses = [0, 0, 0, 0, 0] := rfl
  unfold processMemoryMap
  dsimp only
  rw [hdir, hk]
  change mapOrRelease _ _ (vm.withCopy p) _ _ = _
  generalize layoutMemory p (requestedMemory base size) = m0 at *
  have halloc : allocProcessPage (vm.withCopy p) m0 m0.dataStart
      = .ok (none, { vm.withCopy p with pmm := takeFrame 0 vm.pmm }) := by
    unfold allocProcessPage
    rw [@allocFrame_zero (vm.withCopy p) h]
    rfl
  refine (bind_of_ok halloc).trans ?_
  simp only [ProcessMemory.addresses, List.cons.injEq] at hzero
  obtain ⟨h1, h2, h3, h4, h5, -⟩ := hzero
  simp [processReleaseMemory, releasePage, releaseTable, hdir, h1, h2, h3, h4, h5]
  rfl

end Kfs
