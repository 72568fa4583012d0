import Kfs.PagingEntries

/-!
# Two levels as one map

A directory and its page tables are a map from page numbers to frames.
`flatOf` reads that map off the machine; the code that maps, unmaps and
looks up agrees with it page by page.

What makes this work is that no two entries of a directory share a table and
that every table sits in a frame the allocator holds as used (`TablesOk`).
Then an entry written into one table shows at one page and nowhere else
(`flatOf_setTableEntry`), and a table created on the way is a fresh frame
that was cleared, so it shows nowhere at all (`getOrCreateTable_spec`).
-/

namespace Kfs

/-! ## The map of a directory -/

/-- The frame of the table at entry `i`, if there is one. -/
def tableOf (vm : Vm) (d : Directory) (i : Nat) : Option Nat :=
  if vm.dirEntry d i &&& pagePresent = 0 then none else some (vm.dirEntry d i / 4096)

/-- What an entry of a table maps. -/
def entryFrame (entry : Nat) : Option Nat :=
  if entry &&& pagePresent = 0 then none else some (pageFrame entry)

/-- The address of the frame page `n` is mapped to. -/
def flatOf (vm : Vm) (d : Directory) (n : Nat) : Option Nat :=
  (tableOf vm d (n / 1024)).bind fun t => entryFrame (vm.tableEntry (t * 4096) (n % 1024))

/-- The translation of an address by such a map, `0` where there is none. -/
def translate (flat : Nat → Option Nat) (v : Nat) : Nat :=
  match flat (v / 4096) with
  | none => 0
  | some frame => frame ||| (v &&& 0xFFF)

structure TablesOk (vm : Vm) (d : Directory) : Prop where
  word : ∀ i, i < 1024 → vm.dirEntry d i < 4294967296
  inj : ∀ i j t, i < 1024 → j < 1024 → tableOf vm d i = some t → tableOf vm d j = some t → i = j
  used : ∀ i t, i < 1024 → tableOf vm d i = some t → bitmapTest vm.pmm t = true

section Lookup

variable {vm : Vm} {d : Directory}

theorem tableOf_present {i t : Nat} (h : tableOf vm d i = some t) :
    vm.dirEntry d i &&& pagePresent ≠ 0 ∧ vm.dirEntry d i / 4096 = t := by
  unfold tableOf at h
  split at h
  · cases h
  · next hp => exact ⟨hp, Option.some.inj h⟩

theorem TablesOk.pageFrame_eq (h : TablesOk vm d) {i t : Nat} (hi : i < 1024)
    (ht : tableOf vm d i = some t) : pageFrame (vm.dirEntry d i) = t * 4096 := by
  rw [pageFrame, and_mask4096 (h.word i hi), (tableOf_present ht).2]

theorem pageIndex_eq {v : Nat} (hv : v < 4294967296) :
    pageDirIndex v = v / 4096 / 1024 ∧ pageTableIndex v = v / 4096 % 1024
      ∧ v / 4096 / 1024 < 1024 := by
  rw [pageDirIndex_eq hv, pageTableIndex_eq]
  omega

/-- `paging_get_physical_in_directory` reads the map. -/
theorem TablesOk.getPhysical (h : TablesOk vm d) {v : Nat} (hv : v < 4294967296) :
    pagingGetPhysicalInDirectory vm (some d) v = translate (flatOf vm d) v := by
  obtain ⟨hdir, htab, hlt⟩ := pageIndex_eq hv
  unfold pagingGetPhysicalInDirectory translate flatOf
  dsimp only
  rw [hdir, htab]
  cases ht : tableOf vm d (v / 4096 / 1024) with
  | none =>
      unfold tableOf at ht
      split at ht
      · next hp => rw [if_pos hp]; rfl
      · cases ht
  | some t =>
      rw [if_neg (tableOf_present ht).1, h.pageFrame_eq hlt ht, Option.bind_some, entryFrame]
      split
      · rfl
      · rfl

/-- `paging_is_mapped` asks whether the map has the page. -/
theorem TablesOk.isMapped (h : TablesOk vm d) (hcurrent : vm.currentDirectory = some d) {v : Nat}
    (hv : v < 4294967296) : pagingIsMapped vm v = (flatOf vm d (v / 4096)).isSome := by
  obtain ⟨hdir, htab, hlt⟩ := pageIndex_eq hv
  unfold pagingIsMapped flatOf
  rw [hcurrent]
  dsimp only
  rw [hdir, htab]
  cases ht : tableOf vm d (v / 4096 / 1024) with
  | none =>
      unfold tableOf at ht
      split at ht
      · next hp => rw [if_pos hp]; rfl
      · cases ht
  | some t =>
      rw [if_neg (tableOf_present ht).1, h.pageFrame_eq hlt ht, Option.bind_some, entryFrame]
      split
      · next hp => simp [hp]
      · next hp => simp [hp]

end Lookup

/-! ## What a write shows -/

section Writes

variable {vm vm' : Vm} {d : Directory}

theorem tableOf_congr (h : vm'.directories d = vm.directories d) (i : Nat) :
    tableOf vm' d i = tableOf vm d i := by
  unfold tableOf Vm.dirEntry
  rw [h]

theorem TablesOk.congr (h : TablesOk vm d) (hdir : vm'.directories d = vm.directories d)
    (hused : ∀ f, bitmapTest vm.pmm f = true → bitmapTest vm'.pmm f = true) : TablesOk vm' d where
  word i hi := by
    unfold Vm.dirEntry
    rw [hdir]
    exact h.word i hi
  inj i j t hi hj h1 h2 := by
    rw [tableOf_congr hdir] at h1 h2
    exact h.inj i j t hi hj h1 h2
  used i t hi ht := by
    rw [tableOf_congr hdir] at ht
    exact hused t (h.used i t hi ht)

section Read

variable {α : Type} (read : Nat → Option α)

/-- What is read off a page depends on its entry and the frame of its
table. -/
theorem bind_entry_congr {n : Nat} (htable : tableOf vm' d (n / 1024) = tableOf vm d (n / 1024))
    (hmem : ∀ t x, tableOf vm d (n / 1024) = some t → x / 4096 = t → vm'.mem x = vm.mem x) :
    ((tableOf vm' d (n / 1024)).bind fun t => read (vm'.tableEntry (t * 4096) (n % 1024)))
      = (tableOf vm d (n / 1024)).bind fun t => read (vm.tableEntry (t * 4096) (n % 1024)) := by
  rw [htable]
  cases ht : tableOf vm d (n / 1024) with
  | none => rfl
  | some t =>
      rw [Option.bind_some, Option.bind_some,
        tableEntry_congr (Nat.mod_lt n (by omega)) fun x hx => hmem t x ht hx]

/-- An entry written into a table of the directory shows at one page. -/
theorem bind_entry_setTableEntry (h : TablesOk vm d) {i j t entry : Nat} (hi : i < 1024)
    (hj : j < 1024) (ht : tableOf vm d i = some t) (hentry : entry < 4294967296) {n : Nat}
    (hn : n < 1048576) :
    ((tableOf (vm.setTableEntry (t * 4096) j entry) d (n / 1024)).bind fun t' =>
        read ((vm.setTableEntry (t * 4096) j entry).tableEntry (t' * 4096) (n % 1024)))
      = if n = i * 1024 + j then read entry
        else (tableOf vm d (n / 1024)).bind fun t' =>
          read (vm.tableEntry (t' * 4096) (n % 1024)) := by
  have htable : ∀ i', tableOf (vm.setTableEntry (t * 4096) j entry) d i' = tableOf vm d i' :=
    tableOf_congr rfl
  by_cases hsame : n / 1024 = i
  · have hread := tableEntry_setTableEntry vm (f := t) (i := j) (j := n % 1024) hentry
    rw [htable, hsame, ht, Option.bind_some, Option.bind_some, hread]
    by_cases hpage : n = i * 1024 + j
    · rw [if_pos hpage, if_pos (by omega)]
    · rw [if_neg hpage, if_neg (by omega)]
  · have htouches := touches_setTableEntry d vm (f := t) hj entry
    rw [if_neg (by omega)]
    refine bind_entry_congr read (htable _) fun t' x ht' hx => htouches.mem x ?_
    rw [hx, Finset.mem_singleton]
    rintro rfl
    exact hsame (h.inj _ _ _ (by omega) hi ht' ht)

end Read

theorem flatOf_congr {n : Nat} (htable : tableOf vm' d (n / 1024) = tableOf vm d (n / 1024))
    (hmem : ∀ t x, tableOf vm d (n / 1024) = some t → x / 4096 = t → vm'.mem x = vm.mem x) :
    flatOf vm' d n = flatOf vm d n :=
  bind_entry_congr entryFrame htable hmem

theorem flatOf_setTableEntry (h : TablesOk vm d) {i j t entry : Nat} (hi : i < 1024)
    (hj : j < 1024) (ht : tableOf vm d i = some t) (hentry : entry < 4294967296) {n : Nat}
    (hn : n < 1048576) :
    flatOf (vm.setTableEntry (t * 4096) j entry) d n
      = if n = i * 1024 + j then entryFrame entry else flatOf vm d n :=
  bind_entry_setTableEntry entryFrame h hi hj ht hentry hn

end Writes

/-! ## Mapping and unmapping -/

/-- The table for entry `i` is in frame `table`, and whether it is new. -/
structure TableReady (vm vm' : Vm) (d : Directory) (i table : Nat) : Prop where
  tables : TablesOk vm' d
  here : tableOf vm' d i = some table
  others : ∀ i', i' ≠ i → tableOf vm' d i' = tableOf vm d i'
  flat : ∀ n, n < 1048576 → flatOf vm' d n = flatOf vm d n
  touches : Touches d {table} vm vm'
  old : (tableOf vm d i = some table ∧ vm'.pmm = vm.pmm ∧ vm'.mem = vm.mem)
    ∨ (tableOf vm d i = none ∧ Takes {table} vm.pmm vm'.pmm)
  current : vm'.currentDirectory = vm.currentDirectory

theorem tableOf_setDirEntry_ne (vm : Vm) (d : Directory) {i i' : Nat} (entry : Nat)
    (h : i' ≠ i) : tableOf (vm.setDirEntry d i entry) d i' = tableOf vm d i' := by
  unfold tableOf Vm.dirEntry Vm.setDirEntry
  simp [h]

/-- A present entry stays one when the user bit is set. -/
theorem or_user {entry : Nat} (h : entry &&& pagePresent ≠ 0) (hword : entry < 4294967296) :
    (entry ||| pageUser) &&& pagePresent ≠ 0 ∧ (entry ||| pageUser) / 4096 = entry / 4096
      ∧ entry ||| pageUser < 4294967296 := by
  refine ⟨?_, ?_, Nat.or_lt_two_pow (n := 32) hword (by decide)⟩
  · rw [Nat.and_or_distrib_right]
    intro hzero
    exact h (Nat.or_eq_zero_iff.mp hzero).1
  · have hshift := Nat.shiftRight_or_distrib (a := entry) (b := pageUser) (i := 12)
    rw [Nat.shiftRight_eq_div_pow, Nat.shiftRight_eq_div_pow] at hshift
    exact hshift.trans (Nat.or_zero _)

/-- `directory->entries[i] |= PAGE_USER`, where a table is there. -/
def userOpen (vm : Vm) (d : Directory) (i flags : Nat) : Vm :=
  if flags &&& pageUser ≠ 0 then vm.setDirEntry d i (vm.dirEntry d i ||| pageUser) else vm

theorem userOpen_ready {vm : Vm} {d : Directory} {i t : Nat} (h : TablesOk vm d) (hi : i < 1024)
    (ht : tableOf vm d i = some t) (flags : Nat) : TableReady vm (userOpen vm d i flags) d i t := by
  unfold userOpen
  split
  · obtain ⟨hpresent, hframe⟩ := tableOf_present ht
    obtain ⟨hor, hdiv, hword⟩ := or_user hpresent (h.word i hi)
    have htable : ∀ i', tableOf (vm.setDirEntry d i (vm.dirEntry d i ||| pageUser)) d i'
        = tableOf vm d i' := by
      intro i'
      by_cases hii : i' = i
      · subst hii
        rw [ht]
        unfold tableOf
        rw [dirEntry_setDirEntry, if_neg hor, hdiv, hframe]
      · exact tableOf_setDirEntry_ne vm d _ hii
    have htables : TablesOk (vm.setDirEntry d i (vm.dirEntry d i ||| pageUser)) d := by
      refine ⟨?_, ?_, ?_⟩
      · intro i' hi'
        by_cases hii : i' = i
        · subst hii
          rw [dirEntry_setDirEntry]
          exact hword
        · have := h.word i' hi'
          simpa [Vm.setDirEntry, Vm.dirEntry, hii] using this
      · intro a b t' ha hb h1 h2
        rw [htable] at h1 h2
        exact h.inj a b t' ha hb h1 h2
      · intro a t' ha h1
        rw [htable] at h1
        exact h.used a t' ha h1
    exact ⟨htables, (htable i).trans ht, fun i' _ => htable i',
      fun n _ => flatOf_congr (htable _) fun _ _ _ _ => rfl,
      (touches_setDirEntry d vm i _).mono (Finset.empty_subset _), Or.inl ⟨ht, rfl, rfl⟩, rfl⟩
  · exact ⟨h, ht, fun _ _ => rfl, fun _ _ => rfl, Touches.refl _ _ _, Or.inl ⟨ht, rfl, rfl⟩, rfl⟩

/-- A fresh table, cleared and installed. -/
theorem install_ready {vm : Vm} {d : Directory} {i t : Nat} {pmm : Pmm} (h : TablesOk vm d)
    (hi : i < 1024) (habsent : tableOf vm d i = none) (htakes : Takes {t} vm.pmm pmm) :
    TableReady vm ((({ vm with pmm := pmm }).clearPage (t * 4096)).setDirEntry d i
      (t * 4096 ||| pagePresent ||| pageWrite)) d i t := by
  have hlt := htakes.lt (Finset.mem_singleton_self t)
  obtain ⟨hfree, hused⟩ := htakes.test (Finset.mem_singleton_self t)
  have hentry : t * 4096 ||| pagePresent ||| pageWrite = t * 4096 + 3 := by
    rw [Nat.or_assoc]
    exact frame_or t (by decide)
  have hpresent : (t * 4096 + 3) &&& pagePresent ≠ 0 := by
    have : (t * 4096 + 3) &&& pagePresent = (t * 4096 + 3) % 2 := Nat.and_one_is_mod _
    omega
  rw [hentry]
  generalize hvm1 : ({ vm with pmm := pmm } : Vm).clearPage (t * 4096) = vm1
  have hdirs : vm1.directories = vm.directories := by rw [← hvm1]; rfl
  have hpmm : vm1.pmm = pmm := by rw [← hvm1]; rfl
  have hclear : Touches d {t} vm vm1 := by
    rw [← hvm1]
    exact (touches_pmm d _ vm pmm).trans (touches_clearPage d _ t)
  have hother : ∀ i', i' ≠ i →
      tableOf (vm1.setDirEntry d i (t * 4096 + 3)) d i' = tableOf vm d i' := fun i' hii =>
    (tableOf_setDirEntry_ne vm1 d _ hii).trans (tableOf_congr (by rw [hdirs]) i')
  have hhere : tableOf (vm1.setDirEntry d i (t * 4096 + 3)) d i = some t := by
    unfold tableOf
    rw [dirEntry_setDirEntry, if_neg hpresent]
    congr 1
    omega
  -- a table of another entry is used already, so it is not the new one
  have hne : ∀ i' t', i' < 1024 → tableOf vm d i' = some t' → t' ≠ t := by
    rintro i' t' hi' ht' rfl
    have := h.used i' t' hi' ht'
    rw [hfree] at this
    cases this
  have hcases : ∀ i' t', i' < 1024 →
      tableOf (vm1.setDirEntry d i (t * 4096 + 3)) d i' = some t' →
      (i' = i ∧ t' = t) ∨ (i' ≠ i ∧ tableOf vm d i' = some t') := by
    intro i' t' hi' ht'
    by_cases hii : i' = i
    · rw [hii, hhere] at ht'
      exact Or.inl ⟨hii, (Option.some.inj ht').symm⟩
    · rw [hother i' hii] at ht'
      exact Or.inr ⟨hii, ht'⟩
  refine ⟨⟨?_, ?_, ?_⟩, hhere, hother,
    ?_, hclear.trans ((touches_setDirEntry d vm1 i _).mono (Finset.empty_subset _)),
    Or.inr ⟨habsent, ?_⟩, by rw [← hvm1]; rfl⟩
  · intro i' hi'
    by_cases hii : i' = i
    · subst hii
      rw [dirEntry_setDirEntry]
      omega
    · have hword := h.word i' hi'
      simpa [Vm.setDirEntry, Vm.dirEntry, hii, hdirs] using hword
  · intro a b t' ha hb h1 h2
    rcases hcases a t' ha h1 with ⟨ha', heq⟩ | ⟨-, h1'⟩
    · rcases hcases b t' hb h2 with ⟨hb', -⟩ | ⟨-, h2'⟩
      · exact ha'.trans hb'.symm
      · exact absurd heq (hne b t' hb h2')
    · rcases hcases b t' hb h2 with ⟨-, heq⟩ | ⟨-, h2'⟩
      · exact absurd heq (hne a t' ha h1')
      · exact h.inj a b t' ha hb h1' h2'
  · intro a t' ha h1
    show bitmapTest vm1.pmm t' = true
    rw [hpmm]
    rcases hcases a t' ha h1 with ⟨-, rfl⟩ | ⟨-, h1'⟩
    · exact hused
    · exact htakes.test_mono (h.used a t' ha h1')
  · intro n hn
    by_cases hin : n / 1024 = i
    · have hzero : (vm1.setDirEntry d i (t * 4096 + 3)).tableEntry (t * 4096) (n % 1024) = 0 := by
        rw [← hvm1]
        exact tableEntry_clearPage _ (by omega)
      unfold flatOf
      rw [hin, hhere, habsent, Option.bind_some, hzero]
      rfl
    · refine flatOf_congr (hother _ hin) fun t' x ht' hx => hclear.mem x ?_
      rw [hx, Finset.mem_singleton]
      exact hne _ t' (by omega) ht'
  · show Takes {t} vm.pmm vm1.pmm
    rw [hpmm]
    exact htakes

theorem TableReady.trans {vm vm' vm'' : Vm} {d : Directory} {i t : Nat}
    (h : TableReady vm vm' d i t) (h' : TableReady vm' vm'' d i t) : TableReady vm vm'' d i t where
  tables := h'.tables
  here := h'.here
  others i' hi := (h'.others i' hi).trans (h.others i' hi)
  flat n hn := (h'.flat n hn).trans (h.flat n hn)
  touches := h.touches.trans h'.touches
  old := by
    rcases h'.old with ⟨-, hpmm', hmem'⟩ | ⟨hnone, -⟩
    · rcases h.old with ⟨ht, hpmm, hmem⟩ | ⟨ht, htakes⟩
      · exact Or.inl ⟨ht, hpmm'.trans hpmm, hmem'.trans hmem⟩
      · exact Or.inr ⟨ht, hpmm' ▸ htakes⟩
    · rw [h.here] at hnone
      cases hnone
  current := h'.current.trans h.current

/-- `paging_get_or_create_table` finds the table or installs a fresh one. -/
theorem getOrCreateTable_spec {vm vm' : Vm} {d : Directory} {v flags addr : Nat}
    (htables : TablesOk vm d) (hok : PmmOk vm.pmm) (hlow : LowUsed vm.pmm) (hv : v < 4294967296)
    (h : pagingGetOrCreateTable vm d v flags = .ok (addr, vm')) :
    ∃ t, addr = t * 4096 ∧ TableReady vm vm' d (v / 4096 / 1024) t := by
  obtain ⟨hdir, -, hi⟩ := pageIndex_eq hv
  unfold pagingGetOrCreateTable at h
  dsimp only at h
  rw [hdir] at h
  cases ht : tableOf vm d (v / 4096 / 1024) with
  | none =>
      have habsent : vm.dirEntry d (v / 4096 / 1024) &&& pagePresent = 0 := by
        unfold tableOf at ht
        split at ht
        · assumption
        · cases ht
      rw [if_pos habsent] at h
      rcases allocFrame_cases hok hlow with he | ⟨t, pmm, hne, htakes, he⟩
      · rw [he] at h
        cases h
      · rw [he] at h
        dsimp only at h
        rw [if_neg (by omega)] at h
        obtain ⟨rfl, rfl⟩ := Prod.mk.inj (Except.ok.inj h)
        have hready := install_ready htables hi ht htakes
        exact ⟨t, rfl, hready.trans (userOpen_ready hready.tables hi hready.here flags)⟩
  | some t =>
      rw [if_neg (tableOf_present ht).1] at h
      obtain ⟨haddr, rfl⟩ := Prod.mk.inj (Except.ok.inj h)
      have hready := userOpen_ready htables hi ht flags
      exact ⟨t, haddr.symm.trans (hready.tables.pageFrame_eq hi hready.here), hready⟩

/-- Page `n` goes to `frame` now, and every other page stays. The entry went
into `table`, which is new if the directory had none. -/
structure Maps (vm vm' : Vm) (d : Directory) (n : Nat) (frame : Option Nat) (table : Nat) :
    Prop where
  tables : TablesOk vm' d
  here : tableOf vm' d (n / 1024) = some table
  others : ∀ i, i ≠ n / 1024 → tableOf vm' d i = tableOf vm d i
  flat : ∀ n', n' < 1048576 → flatOf vm' d n' = if n' = n then frame else flatOf vm d n'
  touches : Touches d {table} vm vm'
  old : (tableOf vm d (n / 1024) = some table ∧ vm'.pmm = vm.pmm)
    ∨ (tableOf vm d (n / 1024) = none ∧ Takes {table} vm.pmm vm'.pmm)
  current : vm'.currentDirectory = vm.currentDirectory

theorem TableReady.setTableEntry {vm vm' : Vm} {d : Directory} {n t entry : Nat}
    (h : TableReady vm vm' d (n / 1024) t) (hn : n < 1048576) (hentry : entry < 4294967296) :
    Maps vm (vm'.setTableEntry (t * 4096) (n % 1024) entry) d n (entryFrame entry) t where
  tables := h.tables.congr rfl fun _ hf => hf
  here := h.here
  others := h.others
  flat n' hn' := by
    rw [flatOf_setTableEntry h.tables (by omega) (by omega) h.here hentry hn', h.flat n' hn',
      show n / 1024 * 1024 + n % 1024 = n by omega]
  touches := h.touches.trans (touches_setTableEntry d vm' (by omega) entry)
  old := by
    rcases h.old with ⟨ht, hpmm, -⟩ | hnew
    · exact Or.inl ⟨ht, hpmm⟩
    · exact Or.inr hnew
  current := h.current

theorem Maps.pmm {vm vm' : Vm} {d : Directory} {n table : Nat} {frame : Option Nat}
    (h : Maps vm vm' d n frame table) (hok : PmmOk vm.pmm) (hlow : LowUsed vm.pmm) :
    PmmOk vm'.pmm ∧ LowUsed vm'.pmm := by
  rcases h.old with ⟨-, hsame⟩ | ⟨-, htakes⟩
  · rw [hsame]
    exact ⟨hok, hlow⟩
  · exact ⟨htakes.ok, htakes.lowUsed hlow⟩

/-- The word `paging_map_page_in_directory` writes. -/
theorem mapWord {phys flags : Nat} (hflags : flags &&& pagePresent ≠ 0) :
    let word := (phys &&& 0xFFFFF000) ||| (flags &&& 0xFFF)
    word < 4294967296 ∧ entryFrame word = some (phys &&& 0xFFFFF000) := by
  intro word
  have hword : word < 2 ^ 32 :=
    Nat.or_lt_two_pow (Nat.and_lt_two_pow _ (by decide)) (Nat.and_lt_two_pow _ (by decide))
  have hpresent : word &&& pagePresent ≠ 0 := by
    rw [Nat.and_or_distrib_right, Nat.and_assoc flags]
    intro hzero
    exact hflags (Nat.or_eq_zero_iff.mp hzero).2
  have hframe : pageFrame word = phys &&& 0xFFFFF000 := by
    unfold pageFrame
    rw [Nat.and_or_distrib_right, Nat.and_assoc, Nat.and_self, Nat.and_assoc]
    show (phys &&& 0xFFFFF000) ||| (flags &&& 0) = _
    rw [Nat.and_zero, Nat.or_zero]
  exact ⟨hword, by rw [entryFrame, if_neg hpresent, hframe]⟩

/-- `paging_map_page_in_directory` maps one page. -/
theorem pagingMapPageInDirectory_spec {vm vm' : Vm} {d : Directory} {v phys flags : Nat}
    (htables : TablesOk vm d) (hok : PmmOk vm.pmm) (hlow : LowUsed vm.pmm) (hv : v < 4294967296)
    (hflags : flags &&& pagePresent ≠ 0)
    (h : pagingMapPageInDirectory vm (some d) v phys flags = .ok vm') :
    ∃ table, Maps vm vm' d (v / 4096) (some (phys &&& 0xFFFFF000)) table := by
  obtain ⟨⟨addr, vm1⟩, htable, h⟩ := bind_eq_ok.mp h
  obtain ⟨t, rfl, hready⟩ := getOrCreateTable_spec htables hok hlow hv htable
  obtain ⟨hword, hframe⟩ := @mapWord phys _ hflags
  obtain rfl := Except.ok.inj h
  rw [(pageIndex_eq hv).2.1, ← hframe]
  exact ⟨t, hready.setTableEntry (by omega) hword⟩

/-- It returns if there is a table or a frame for one. -/
theorem pagingMapPageInDirectory_ok {vm : Vm} {d : Directory} {v : Nat} (phys flags : Nat)
    (hv : v < 4294967296) (h : tableOf vm d (v / 4096 / 1024) ≠ none ∨ vm.allocFrame.1 ≠ 0) :
    ∃ vm', pagingMapPageInDirectory vm (some d) v phys flags = .ok vm' := by
  have htable : ∃ r, pagingGetOrCreateTable vm d v flags = .ok r := by
    unfold pagingGetOrCreateTable
    dsimp only
    rw [(pageIndex_eq hv).1]
    split
    · next habsent =>
        rw [tableOf, if_pos habsent] at h
        rcases h with h | h
        · exact absurd rfl h
        · rw [if_neg h]
          exact ⟨_, rfl⟩
    · exact ⟨_, rfl⟩
  obtain ⟨⟨table, vm1⟩, hr⟩ := htable
  exact ⟨_, bind_eq_ok.mpr ⟨_, hr, rfl⟩⟩

/-- Page `n` goes nowhere now, and every other page stays. -/
structure Unmaps (vm vm' : Vm) (d : Directory) (n : Nat) : Prop where
  tables : TablesOk vm' d
  directories : vm'.directories = vm.directories
  flat : ∀ n', n' < 1048576 → flatOf vm' d n' = if n' = n then none else flatOf vm d n'
  mem : ∀ x, (∀ t, tableOf vm d (n / 1024) = some t → x / 4096 ≠ t) → vm'.mem x = vm.mem x
  pmm : vm'.pmm = vm.pmm
  current : vm'.currentDirectory = vm.currentDirectory
  kernel : vm'.kernelDirectory = vm.kernelDirectory

theorem pagingUnmapPageInDirectory_spec {vm : Vm} {d : Directory} {v : Nat}
    (htables : TablesOk vm d) (hv : v < 4294967296) :
    Unmaps vm (pagingUnmapPageInDirectory vm (some d) v) d (v / 4096) := by
  obtain ⟨hdir, htab, hi⟩ := pageIndex_eq hv
  unfold pagingUnmapPageInDirectory
  dsimp only
  rw [hdir, htab]
  cases ht : tableOf vm d (v / 4096 / 1024) with
  | none =>
      have habsent : vm.dirEntry d (v / 4096 / 1024) &&& pagePresent = 0 := by
        unfold tableOf at ht
        split at ht
        · assumption
        · cases ht
      rw [if_pos habsent]
      refine ⟨htables, rfl, ?_, fun _ _ => rfl, rfl, rfl, rfl⟩
      intro n' hn'
      split
      · next heq => rw [heq, flatOf, ht, Option.bind_none]
      · rfl
  | some t =>
      rw [if_neg (tableOf_present ht).1, htables.pageFrame_eq hi ht]
      have htouches := touches_setTableEntry d vm (f := t) (i := v / 4096 % 1024) (by omega) 0
      refine ⟨htables.congr rfl fun _ hf => hf, rfl, ?_, ?_, rfl, rfl,
        rfl⟩
      · intro n' hn'
        rw [flatOf_setTableEntry htables hi (by omega) ht (by decide) hn',
          show v / 4096 / 1024 * 1024 + v / 4096 % 1024 = v / 4096 by omega]
        rfl
      · intro x hx
        exact htouches.mem x (by rw [Finset.mem_singleton]; exact hx t ht)

/-! ## The map `paging_init` builds -/

/-- The four static tables: page aligned, apart from each other, in frames
the allocator keeps. -/
structure KernelTables (kernelPageTables : Fin 4 → Nat) (p : Pmm) : Prop where
  aligned : ∀ i, kernelPageTables i % 4096 = 0
  lt : ∀ i, kernelPageTables i < 4294967296
  inj : ∀ i j, kernelPageTables i = kernelPageTables j → i = j
  used : ∀ i, bitmapTest p (kernelPageTables i / 4096) = true

/-- Identity on the first 16 MB, nothing above. -/
def identityMap (n : Nat) : Option Nat := if n < 4096 then some (n * 4096) else none

/-- The inner loop of `paging_init`: table `i` at `t`. -/
theorem identityTable (m : Mem) (t i : Nat) (hi : i < 4) :
    let m' := forRange 0 1024
      (fun j m => store32 m (t + 4 * j) ((i * 1024 + j) * 4096 ||| pageKernel))
      (memset m t 0#8 4096)
    (∀ x, x < t ∨ t + 4096 ≤ x → m' x = m x)
      ∧ ∀ j, j < 1024 → load32 m' (t + 4 * j) = (i * 1024 + j) * 4096 + 3 := by
  refine forRange_invariant (I := fun n m' => (∀ x, x < t ∨ t + 4096 ≤ x → m' x = m x)
    ∧ ∀ j, j < n → load32 m' (t + 4 * j) = (i * 1024 + j) * 4096 + 3) (by omega)
    ⟨fun x hx => memset_outside hx, fun j hj => absurd hj (Nat.not_lt_zero j)⟩ ?_
  rintro n m' - hn ⟨hout, hin⟩
  have hword : (i * 1024 + n) * 4096 ||| pageKernel = (i * 1024 + n) * 4096 + 3 :=
    frame_or _ (by decide)
  refine ⟨?_, ?_⟩
  · intro x hx
    rw [store32_outside (by omega), hout x hx]
  · intro j hj
    by_cases hjn : j = n
    · rw [hjn, load32_store32 (by omega), hword]
    · rw [load32_store32_apart (by omega), hin j (by omega)]

section Init

variable {kernelPageTables : Fin 4 → Nat} {vm : Vm}

/-- One table more is filled in. -/
theorem identityTable_step (hk : KernelTables kernelPageTables vm.pmm) {m m' : Mem} {n : Nat}
    (hn : n < 4)
    (ih : ∀ i : Fin 4, i.val < n → ∀ j, j < 1024 →
      load32 m (kernelPageTables i + 4 * j) = (i.val * 1024 + j) * 4096 + 3)
    (hout : ∀ x,
      x < kernelPageTables (Fin.ofNat 4 n) ∨ kernelPageTables (Fin.ofNat 4 n) + 4096 ≤ x →
      m' x = m x)
    (hin : ∀ j, j < 1024 → load32 m' (kernelPageTables (Fin.ofNat 4 n) + 4 * j)
      = (n * 1024 + j) * 4096 + 3) (i : Fin 4) (hi : i.val < n + 1) (j : Nat) (hj : j < 1024) :
    load32 m' (kernelPageTables i + 4 * j) = (i.val * 1024 + j) * 4096 + 3 := by
  have hof : (Fin.ofNat 4 n).val = n := Nat.mod_eq_of_lt hn
  by_cases hsame : i = Fin.ofNat 4 n
  · rw [hsame, hof]
    exact hin j hj
  · have hne : kernelPageTables i ≠ kernelPageTables (Fin.ofNat 4 n) := fun heq =>
      hsame (hk.inj _ _ heq)
    have hval : i.val ≠ n := fun heq => hsame (Fin.ext (heq.trans hof.symm))
    have ha := hk.aligned i
    have hb := hk.aligned (Fin.ofNat 4 n)
    rw [← ih i (by omega) j hj]
    exact load32_congr fun x hlo hhi => hout x (by omega)

theorem pagingInit_entry (hk : KernelTables kernelPageTables vm.pmm) (i : Fin 4) {j : Nat}
    (hj : j < 1024) :
    (pagingInit kernelPageTables vm).tableEntry (kernelPageTables i) j
      = (i.val * 1024 + j) * 4096 + 3 := by
  have hall := forRange_invariant (I := fun n m => ∀ i : Fin 4, i.val < n → ∀ j, j < 1024 →
      load32 m (kernelPageTables i + 4 * j) = (i.val * 1024 + j) * 4096 + 3)
    (f := fun i m => forRange 0 1024
      (fun j m => store32 m (kernelPageTables (Fin.ofNat 4 i) + 4 * j)
        ((i * 1024 + j) * 4096 ||| pageKernel))
      (memset m (kernelPageTables (Fin.ofNat 4 i)) 0#8 4096)) (s := vm.mem)
    (Nat.zero_le 4) (fun i hi => absurd hi (Nat.not_lt_zero _)) fun n m _ hn ih =>
      identityTable_step hk hn ih (identityTable m _ n hn).1 (identityTable m _ n hn).2
  unfold Vm.tableEntry pagingInit
  dsimp only
  exact hall i i.isLt j hj

theorem pagingInit_directories (kernelPageTables : Fin 4 → Nat) (vm : Vm) :
    (pagingInit kernelPageTables vm).currentDirectory = some .kernel
      ∧ (pagingInit kernelPageTables vm).kernelDirectory = some .kernel
      ∧ ∀ d, d ≠ .kernel → (pagingInit kernelPageTables vm).directories d = vm.directories d := by
  unfold pagingInit
  exact ⟨rfl, rfl, fun d hd => Function.update_of_ne hd _ _⟩

theorem pagingInit_pmm (kernelPageTables : Fin 4 → Nat) (vm : Vm) :
    (pagingInit kernelPageTables vm).pmm = vm.pmm := by
  unfold pagingInit
  rfl

theorem pagingInit_tableOf (hk : KernelTables kernelPageTables vm.pmm) (i : Nat) :
    tableOf (pagingInit kernelPageTables vm) .kernel i
      = if h : i < 4 then some (kernelPageTables ⟨i, h⟩ / 4096) else none := by
  have hdir : (pagingInit kernelPageTables vm).dirEntry .kernel i
      = if h : i < 4 then kernelPageTables ⟨i, h⟩ ||| pageKernel else 0 := by
    simp [pagingInit, Vm.dirEntry]
  unfold tableOf
  rw [hdir]
  by_cases hi : i < 4
  · rw [dif_pos hi, dif_pos hi]
    have ha := hk.aligned ⟨i, hi⟩
    have hword : kernelPageTables ⟨i, hi⟩ ||| pageKernel = kernelPageTables ⟨i, hi⟩ + 3 := by
      have := frame_or (kernelPageTables ⟨i, hi⟩ / 4096) (show pageKernel < 4096 by decide)
      rwa [show kernelPageTables ⟨i, hi⟩ / 4096 * 4096 = kernelPageTables ⟨i, hi⟩ by omega] at this
    have hpresent : (kernelPageTables ⟨i, hi⟩ + 3) &&& pagePresent ≠ 0 := by
      have : (kernelPageTables ⟨i, hi⟩ + 3) &&& pagePresent = (kernelPageTables ⟨i, hi⟩ + 3) % 2 :=
        Nat.and_one_is_mod _
      omega
    rw [hword, if_neg hpresent]
    congr 1
    omega
  · rw [dif_neg hi, dif_neg hi, if_pos not_present_zero]

theorem pagingInit_tables (hk : KernelTables kernelPageTables vm.pmm) :
    TablesOk (pagingInit kernelPageTables vm) .kernel := by
  refine ⟨?_, ?_, ?_⟩
  · intro i _
    simp only [pagingInit, Vm.dirEntry, Function.update_self]
    split
    · next hi => exact Nat.or_lt_two_pow (n := 32) (hk.lt _) (by decide)
    · omega
  · intro i j t _ _ h1 h2
    rw [pagingInit_tableOf hk] at h1 h2
    split at h1
    · next hi =>
        split at h2
        · next hj =>
            have hi' := hk.aligned ⟨i, hi⟩
            have hj' := hk.aligned ⟨j, hj⟩
            have heq := (Option.some.inj h1).trans (Option.some.inj h2).symm
            exact congrArg Fin.val (hk.inj ⟨i, hi⟩ ⟨j, hj⟩ (by omega))
        · cases h2
    · cases h1
  · intro i t _ ht
    rw [pagingInit_tableOf hk] at ht
    split at ht
    · obtain rfl := Option.some.inj ht
      rw [pagingInit_pmm]
      exact hk.used _
    · cases ht

/-- `paging_init` builds the identity map. -/
theorem pagingInit_flat (hk : KernelTables kernelPageTables vm.pmm) {n : Nat} (hn : n < 1048576) :
    flatOf (pagingInit kernelPageTables vm) .kernel n = identityMap n := by
  unfold flatOf identityMap
  rw [pagingInit_tableOf hk]
  by_cases hlow : n < 4096
  · have hi : n / 1024 < 4 := by omega
    have ha := hk.aligned ⟨n / 1024, hi⟩
    have hentry := pagingInit_entry hk ⟨n / 1024, hi⟩ (j := n % 1024) (by omega)
    rw [dif_pos hi, if_pos hlow, Option.bind_some,
      show kernelPageTables ⟨n / 1024, hi⟩ / 4096 * 4096 = kernelPageTables ⟨n / 1024, hi⟩ by omega,
      hentry,
      show (n / 1024 * 1024 + n % 1024) * 4096 + 3 = n * 4096 + 3 by omega]
    have hpresent : (n * 4096 + 3) &&& pagePresent = (n * 4096 + 3) % 2 := Nat.and_one_is_mod _
    rw [entryFrame, if_neg (by omega), pageFrame, and_mask4096 (by omega)]
    exact congrArg some (by omega)
  · rw [dif_neg (by omega), if_neg hlow, Option.bind_none]

end Init

end Kfs
