import Kfs.PagingRuns

/-!
# The rights of a page

The processor grants a right on a page if the directory entry and the table
entry both do. The entry of the directory is shared by 1024 pages: it is
created writable, and opened to user mode by the first page of its window
that is, for good. So it never takes anything from a page (`WindowsOpen`), and what
decides is the table entry, which has the flags of the last call.
-/

namespace Kfs

/-- What an access may do besides reading. -/
structure Rights where
  writable : Bool
  user : Bool
  deriving DecidableEq, Repr

/-- The rights in an entry, or in the flags it is made of. -/
def entryRights (entry : Nat) : Rights where
  writable := decide (entry &&& pageWrite ≠ 0)
  user := decide (entry &&& pageUser ≠ 0)

/-- What two entries on the way to a page grant together. -/
def Rights.both (a b : Rights) : Rights where
  writable := a.writable && b.writable
  user := a.user && b.user

/-- The rights the processor derives for an address, if its page is mapped. -/
def pageRights (vm : Vm) (d : Directory) (v : Nat) : Option Rights :=
  let dirEntry := vm.dirEntry d (pageDirIndex v)
  if dirEntry &&& pagePresent = 0 then none
  else
    let entry := vm.tableEntry (pageFrame dirEntry) (pageTableIndex v)
    if entry &&& pagePresent = 0 then none
    else some ((entryRights dirEntry).both (entryRights entry))

/-! ## The flags of the last mapping -/

/-- `paging_init` maps the first 16 MB with `PAGE_KERNEL`. -/
def identityFlags (n : Nat) : Option Nat := if n < 4096 then some pageKernel else none

/-- What the call does to the flags pages are mapped with. -/
def PagingEvent.applyFlags (flagsOf : Nat → Option Nat) : PagingEvent → Nat → Option Nat
  | .map virt _ flags => Function.update flagsOf (virt / 4096) (some flags)
  | .unmap virt => Function.update flagsOf (virt / 4096) none

/-- The flags of the last mapping of each page that is mapped. -/
def lastFlags (events : List PagingEvent) : Nat → Option Nat :=
  events.foldl PagingEvent.applyFlags identityFlags

/-! ## Bits of entries -/

theorem or_and_ne_zero {a b bit : Nat} :
    (a ||| b) &&& bit ≠ 0 ↔ a &&& bit ≠ 0 ∨ b &&& bit ≠ 0 := by
  rw [Nat.and_or_distrib_right, Ne, Nat.or_eq_zero_iff]
  tauto

/-- The word `paging_map_page_in_directory` writes has the rights of the
flags. -/
theorem entryRights_mapWord (phys flags : Nat) :
    entryRights ((phys &&& 0xFFFFF000) ||| (flags &&& 0xFFF)) = entryRights flags := by
  have hbit : ∀ bit, 0xFFFFF000 &&& bit = 0 → 0xFFF &&& bit = bit →
      ((phys &&& 0xFFFFF000) ||| (flags &&& 0xFFF)) &&& bit = flags &&& bit := by
    intro bit hhigh hlow
    rw [Nat.and_or_distrib_right, Nat.and_assoc, Nat.and_assoc, hhigh, hlow, Nat.and_zero,
      Nat.zero_or]
  unfold entryRights
  rw [hbit pageWrite (by decide) (by decide), hbit pageUser (by decide) (by decide)]

/-! ## Entries that are there -/

/-- The word, if it is present. -/
def presentEntry (entry : Nat) : Option Nat :=
  if entry &&& pagePresent = 0 then none else some entry

/-- The table entry of page `n`, if the page is mapped. -/
def pageEntry (vm : Vm) (d : Directory) (n : Nat) : Option Nat :=
  (tableOf vm d (n / 1024)).bind fun t => presentEntry (vm.tableEntry (t * 4096) (n % 1024))

/-- No directory entry takes a right from the pages behind it. -/
structure WindowsOpen (vm : Vm) (d : Directory) : Prop where
  write : ∀ i t, tableOf vm d i = some t → vm.dirEntry d i &&& pageWrite ≠ 0
  user : ∀ n entry, n < 1048576 → pageEntry vm d n = some entry → entry &&& pageUser ≠ 0 →
    vm.dirEntry d (n / 1024) &&& pageUser ≠ 0

section

variable {vm vm' : Vm} {d : Directory}

theorem flatOf_eq_map (vm : Vm) (d : Directory) (n : Nat) :
    flatOf vm d n = (pageEntry vm d n).map pageFrame := by
  unfold flatOf pageEntry
  cases tableOf vm d (n / 1024) with
  | none => rfl
  | some t =>
      rw [Option.bind_some, Option.bind_some, entryFrame, presentEntry]
      split
      · rfl
      · rfl

/-- Where the directory takes nothing, the table entry decides. -/
theorem WindowsOpen.pageRights (h : WindowsOpen vm d) (htables : TablesOk vm d) {v : Nat}
    (hv : v < 4294967296) :
    pageRights vm d v = (pageEntry vm d (v / 4096)).map entryRights := by
  obtain ⟨hdir, htab, hi⟩ := pageIndex_eq hv
  have huser := h.user (v / 4096)
  unfold Kfs.pageRights
  dsimp only
  rw [hdir, htab]
  unfold pageEntry at huser ⊢
  cases ht : tableOf vm d (v / 4096 / 1024) with
  | none =>
      unfold tableOf at ht
      split at ht
      · next hp =>
          rw [if_pos hp]
          rfl
      · cases ht
  | some t =>
      rw [if_neg (tableOf_present ht).1, htables.pageFrame_eq hi ht, Option.bind_some]
      rw [ht, Option.bind_some] at huser
      unfold presentEntry at huser ⊢
      split
      · rfl
      · next hp =>
          rw [if_neg hp] at huser
          have hw := h.write _ t ht
          have hu := huser _ (by omega) rfl
          rw [Option.map_some, Rights.both, entryRights, entryRights]
          simp only [hw, ne_eq, not_false_eq_true, decide_true, Bool.true_and]
          congr 2
          by_cases hpage : vm.tableEntry (t * 4096) (v / 4096 % 1024) &&& pageUser = 0
          · simp [hpage]
          · simp [hpage, hu hpage]

/-- Making the table ready maps no page. -/
theorem TableReady.pageEntry {i t : Nat} (h : TableReady vm vm' d i t) (hi : i < 1024)
    {n : Nat} (hn : n < 1048576) : pageEntry vm' d n = pageEntry vm d n := by
  rcases h.old with ⟨ht, -, hmem⟩ | ⟨hnone, -⟩
  · refine bind_entry_congr presentEntry ?_ fun _ x _ _ => by rw [hmem]
    by_cases hin : n / 1024 = i
    · rw [hin, h.here, ht]
    · exact h.others _ hin
  · by_cases hin : n / 1024 = i
    -- the table is new, and empty as the map shows
    · have hbefore : Kfs.pageEntry vm d n = none := by
        rw [Kfs.pageEntry, hin, hnone, Option.bind_none]
      have hflat := h.flat n hn
      rw [flatOf_eq_map, flatOf_eq_map, hbefore, Option.map_none, Option.map_eq_none_iff] at hflat
      rw [hflat, hbefore]
    · refine bind_entry_congr presentEntry (h.others _ hin) fun t' x ht' hx => h.touches.mem x ?_
      rw [hx, Finset.mem_singleton]
      rintro rfl
      rw [← h.others _ hin] at ht'
      exact hin (h.tables.inj _ _ _ (by omega) hi ht' h.here)

end

/-! ## Widening -/

/-- What a call leaves in entry `i` of the directory. -/
structure Widens (vm vm' : Vm) (d : Directory) (i flags : Nat) : Prop where
  others : ∀ i', i' ≠ i → vm'.dirEntry d i' = vm.dirEntry d i'
  keeps : vm.dirEntry d i &&& pagePresent ≠ 0 →
    ∀ bit, vm.dirEntry d i &&& bit ≠ 0 → vm'.dirEntry d i &&& bit ≠ 0
  write : vm.dirEntry d i &&& pagePresent = 0 → vm'.dirEntry d i &&& pageWrite ≠ 0
  user : flags &&& pageUser ≠ 0 → vm'.dirEntry d i &&& pageUser ≠ 0

theorem userOpen_dirEntry_ne (vm : Vm) (d : Directory) {i i' : Nat} (flags : Nat) (h : i' ≠ i) :
    (userOpen vm d i flags).dirEntry d i' = vm.dirEntry d i' := by
  unfold userOpen Vm.setDirEntry Vm.dirEntry
  split
  · simp [h]
  · rfl

theorem userOpen_keeps (vm : Vm) (d : Directory) (i flags : Nat) {bit : Nat}
    (h : vm.dirEntry d i &&& bit ≠ 0) : (userOpen vm d i flags).dirEntry d i &&& bit ≠ 0 := by
  unfold userOpen
  split
  · rw [dirEntry_setDirEntry, or_and_ne_zero]
    exact Or.inl h
  · exact h

theorem userOpen_user (vm : Vm) (d : Directory) (i : Nat) {flags : Nat}
    (h : flags &&& pageUser ≠ 0) : (userOpen vm d i flags).dirEntry d i &&& pageUser ≠ 0 := by
  rw [userOpen, if_pos h, dirEntry_setDirEntry, or_and_ne_zero]
  exact Or.inr (by decide)

theorem getOrCreateTable_widens {vm vm' : Vm} {d : Directory} {v flags table : Nat}
    (hv : v < 4294967296) (h : pagingGetOrCreateTable vm d v flags = .ok (table, vm')) :
    Widens vm vm' d (v / 4096 / 1024) flags := by
  unfold pagingGetOrCreateTable at h
  dsimp only at h
  rw [(pageIndex_eq hv).1] at h
  split at h
  · next habsent =>
      split at h
      · cases h
      · obtain ⟨-, rfl⟩ := Prod.mk.inj (Except.ok.inj h)
        refine ⟨fun i' hne => (userOpen_dirEntry_ne _ d flags hne).trans ?_,
          fun hpresent => absurd habsent hpresent,
          fun _ => userOpen_keeps _ d _ flags ?_, userOpen_user _ d _⟩
        · simp [Vm.setDirEntry, Vm.dirEntry, Vm.clearPage, Vm.allocFrame, hne]
        · rw [dirEntry_setDirEntry, or_and_ne_zero]
          exact Or.inr (by decide)
  · next hpresent =>
      obtain ⟨-, rfl⟩ := Prod.mk.inj (Except.ok.inj h)
      exact ⟨fun i' hne => userOpen_dirEntry_ne vm d flags hne,
        fun _ bit hbit => userOpen_keeps vm d _ flags hbit,
        fun habsent => absurd habsent hpresent, userOpen_user vm d _⟩

/-! ## What a call does to the rights -/

section

variable {vm vm' : Vm} {d : Directory}

/-- A table entry that is there has a present directory entry. -/
theorem pageEntry_present {n entry : Nat} (h : pageEntry vm d n = some entry) :
    vm.dirEntry d (n / 1024) &&& pagePresent ≠ 0 := by
  unfold pageEntry at h
  cases ht : tableOf vm d (n / 1024) with
  | none =>
      rw [ht] at h
      cases h
  | some t => exact (tableOf_present ht).1

/-- The page of the call gets the rights of its flags, no other page loses
or gains any. -/
theorem pagingMapPageInDirectory_rights {v phys flags : Nat} (hopen : WindowsOpen vm d)
    (htables : TablesOk vm d) (hok : PmmOk vm.pmm) (hlow : LowUsed vm.pmm) (hv : v < 4294967296)
    (hflags : flags &&& pagePresent ≠ 0)
    (h : pagingMapPageInDirectory vm (some d) v phys flags = .ok vm') :
    WindowsOpen vm' d ∧ ∀ n, n < 1048576 →
      (pageEntry vm' d n).map entryRights
        = if n = v / 4096 then some (entryRights flags)
          else (pageEntry vm d n).map entryRights := by
  obtain ⟨⟨addr, vm1⟩, htable, h⟩ := bind_eq_ok.mp h
  obtain ⟨t, rfl, hready⟩ := getOrCreateTable_spec htables hok hlow hv htable
  have hwidens := getOrCreateTable_widens hv htable
  obtain ⟨hword, hframe⟩ := @mapWord phys _ hflags
  have hrights := entryRights_mapWord phys flags
  obtain rfl := Except.ok.inj h
  rw [(pageIndex_eq hv).2.1]
  generalize (phys &&& 0xFFFFF000) ||| (flags &&& 0xFFF) = word at hword hframe hrights ⊢
  have hpresent : presentEntry word = some word := by
    unfold entryFrame at hframe
    split at hframe
    · cases hframe
    · next hp => rw [presentEntry, if_neg hp]
  have hentry : ∀ n, n < 1048576 →
      pageEntry (vm1.setTableEntry (t * 4096) (v / 4096 % 1024) word) d n
        = if n = v / 4096 then some word else pageEntry vm d n := by
    intro n hn
    have hset := bind_entry_setTableEntry presentEntry hready.tables (i := v / 4096 / 1024)
      (j := v / 4096 % 1024) (by omega) (by omega) hready.here hword hn
    rw [show v / 4096 / 1024 * 1024 + v / 4096 % 1024 = v / 4096 by omega, hpresent] at hset
    exact hset.trans (by rw [← hready.pageEntry (by omega) hn]; rfl)
  refine ⟨⟨?_, ?_⟩, ?_⟩
  · intro i t' ht'
    show vm1.dirEntry d i &&& pageWrite ≠ 0
    by_cases hi : i = v / 4096 / 1024
    · rw [hi]
      by_cases hp : vm.dirEntry d (v / 4096 / 1024) &&& pagePresent = 0
      · exact hwidens.write hp
      · refine hwidens.keeps hp _ (hopen.write _ (vm.dirEntry d (v / 4096 / 1024) / 4096) ?_)
        rw [tableOf, if_neg hp]
    · rw [hwidens.others i hi]
      exact hopen.write i t' ((hready.others i hi).symm.trans ht')
  · intro n entry hn hpage huser
    show vm1.dirEntry d (n / 1024) &&& pageUser ≠ 0
    rw [hentry n hn] at hpage
    split at hpage
    · next hn' =>
        obtain rfl := Option.some.inj hpage
        rw [hn']
        refine hwidens.user ?_
        have := congrArg Rights.user hrights
        simpa [entryRights, huser] using this
    · have hbefore := hopen.user n entry hn hpage huser
      by_cases hi : n / 1024 = v / 4096 / 1024
      · rw [hi] at hbefore ⊢
        exact hwidens.keeps (hi ▸ pageEntry_present hpage) _ hbefore
      · rwa [hwidens.others _ hi]
  · intro n hn
    rw [hentry n hn]
    split
    · rw [Option.map_some, hrights]
    · rfl

theorem pagingUnmapPageInDirectory_rights {v : Nat} (hopen : WindowsOpen vm d)
    (htables : TablesOk vm d) (hv : v < 4294967296) :
    WindowsOpen (pagingUnmapPageInDirectory vm (some d) v) d ∧ ∀ n, n < 1048576 →
      (pageEntry (pagingUnmapPageInDirectory vm (some d) v) d n).map entryRights
        = if n = v / 4096 then none else (pageEntry vm d n).map entryRights := by
  obtain ⟨hdir, htab, hi⟩ := pageIndex_eq hv
  unfold pagingUnmapPageInDirectory
  dsimp only
  rw [hdir, htab]
  split
  · next habsent =>
      refine ⟨hopen, fun n hn => ?_⟩
      split
      · next hn' => rw [hn', pageEntry, tableOf, if_pos habsent]; rfl
      · rfl
  · next hpresent =>
      have ht : tableOf vm d (v / 4096 / 1024)
          = some (vm.dirEntry d (v / 4096 / 1024) / 4096) := by rw [tableOf, if_neg hpresent]
      rw [htables.pageFrame_eq hi ht]
      generalize vm.dirEntry d (v / 4096 / 1024) / 4096 = t at ht
      have hentry : ∀ n, n < 1048576 →
          pageEntry (vm.setTableEntry (t * 4096) (v / 4096 % 1024) 0) d n
            = if n = v / 4096 then none else pageEntry vm d n := by
        intro n hn
        have hset := bind_entry_setTableEntry presentEntry htables hi
          (j := v / 4096 % 1024) (by omega) ht (by decide : 0 < 4294967296) hn
        rwa [show v / 4096 / 1024 * 1024 + v / 4096 % 1024 = v / 4096 by omega] at hset
      refine ⟨⟨hopen.write, ?_⟩, ?_⟩
      · intro n entry hn hpage
        rw [hentry n hn] at hpage
        split at hpage
        · cases hpage
        · exact hopen.user n entry hn hpage
      · intro n hn
        rw [hentry n hn]
        split
        · rfl
        · rfl

end

/-! ## Runs -/

section Init

variable {kernelPageTables : Fin 4 → Nat} {vm : Vm}

theorem pagingInit_pageEntry (hk : KernelTables kernelPageTables vm.pmm) {n : Nat}
    (hn : n < 1048576) :
    pageEntry (pagingInit kernelPageTables vm) .kernel n
      = (identityFlags n).map fun flags => (n * 4096 &&& 0xFFFFF000) ||| (flags &&& 0xFFF) := by
  unfold pageEntry identityFlags
  rw [pagingInit_tableOf hk]
  by_cases hlow : n < 4096
  · have hi : n / 1024 < 4 := by omega
    have ha := hk.aligned ⟨n / 1024, hi⟩
    have hentry := pagingInit_entry hk ⟨n / 1024, hi⟩ (j := n % 1024) (by omega)
    have hword : (n * 4096 &&& 0xFFFFF000) ||| (pageKernel &&& 0xFFF) = n * 4096 + 3 := by
      rw [and_mask4096 (by omega), Nat.mul_div_cancel n (by omega)]
      exact frame_or n (by decide)
    have hpresent : (n * 4096 + 3) &&& pagePresent = (n * 4096 + 3) % 2 := Nat.and_one_is_mod _
    rw [dif_pos hi, if_pos hlow, Option.bind_some, Option.map_some, hword,
      show kernelPageTables ⟨n / 1024, hi⟩ / 4096 * 4096 = kernelPageTables ⟨n / 1024, hi⟩ by omega,
      hentry, show (n / 1024 * 1024 + n % 1024) * 4096 + 3 = n * 4096 + 3 by omega,
      presentEntry, if_neg (by omega)]
  · rw [dif_neg (by omega), if_neg hlow]
    rfl

theorem pagingInit_rights (hk : KernelTables kernelPageTables vm.pmm) {n : Nat}
    (hn : n < 1048576) :
    (pageEntry (pagingInit kernelPageTables vm) .kernel n).map entryRights
      = (identityFlags n).map entryRights := by
  rw [pagingInit_pageEntry hk hn, Option.map_map]
  exact congrArg (fun f => (identityFlags n).map f)
    (funext fun flags => entryRights_mapWord _ flags)

theorem pagingInit_windowsOpen (hk : KernelTables kernelPageTables vm.pmm) :
    WindowsOpen (pagingInit kernelPageTables vm) .kernel where
  write i t ht := by
    rw [pagingInit_tableOf hk] at ht
    split at ht
    · next hi =>
        simp only [pagingInit, Vm.dirEntry, Function.update_self, dif_pos hi]
        exact or_and_ne_zero.mpr (Or.inr (by decide))
    · cases ht
  user n entry hn hpage huser := by
    have hrights := pagingInit_rights hk hn
    rw [hpage, identityFlags, Option.map_some] at hrights
    split at hrights
    · have hsame := congrArg Rights.user (Option.some.inj hrights)
      have hkernel : (entryRights pageKernel).user = false := by decide
      rw [Option.map_some, Option.some.injEq] at hrights
      rw [hrights, hkernel] at hsame
      simp_all [entryRights]
    · cases hrights

end Init

/-- The flags stand for the rights, and the calls can go on. -/
structure RightsKnown (flagsOf : Nat → Option Nat) (vm : Vm) : Prop where
  tables : TablesOk vm .kernel
  ok : PmmOk vm.pmm
  low : LowUsed vm.pmm
  windows : WindowsOpen vm .kernel
  rights : ∀ n, n < 1048576 →
    (pageEntry vm .kernel n).map entryRights = (flagsOf n).map entryRights

theorem RightsKnown.step {flagsOf : Nat → Option Nat} {vm vm' : Vm} {e : PagingEvent}
    (h : RightsKnown flagsOf vm) (hstep : PagingStep vm e vm') :
    RightsKnown (e.applyFlags flagsOf) vm' := by
  cases hstep with
  | map hvirt hflags hcall =>
      obtain ⟨table, hmaps⟩ :=
        pagingMapPageInDirectory_spec h.tables h.ok h.low hvirt hflags hcall
      obtain ⟨hwindows, hrights⟩ :=
        pagingMapPageInDirectory_rights h.windows h.tables h.ok h.low hvirt hflags hcall
      obtain ⟨hok, hlow⟩ := hmaps.pmm h.ok h.low
      refine ⟨hmaps.tables, hok, hlow, hwindows, fun n hn => ?_⟩
      rw [hrights n hn, h.rights n hn, PagingEvent.applyFlags, Function.update_apply]
      split
      · rfl
      · rfl
  | unmap hvirt =>
      have hunmaps := pagingUnmapPageInDirectory_spec h.tables hvirt
      obtain ⟨hwindows, hrights⟩ := pagingUnmapPageInDirectory_rights h.windows h.tables hvirt
      refine ⟨hunmaps.tables, hunmaps.pmm ▸ h.ok, hunmaps.pmm ▸ h.low, hwindows, fun n hn => ?_⟩
      rw [hrights n hn, h.rights n hn, PagingEvent.applyFlags, Function.update_apply]
      split
      · rfl
      · rfl

/-- After any calls a page has the rights in the flags of its last mapping,
whatever the other pages of its window were mapped with. -/
theorem pagingRun_rights {kernelPageTables : Fin 4 → Nat} {vm vm' : Vm}
    {events : List PagingEvent} (hk : KernelTables kernelPageTables vm.pmm) (hok : PmmOk vm.pmm)
    (hlow : LowUsed vm.pmm) (hrun : Run PagingStep (pagingInit kernelPageTables vm) events vm')
    {v : Nat} (hv : v < 4294967296) :
    pageRights vm' .kernel v = (lastFlags events (v / 4096)).map entryRights := by
  have hknown : RightsKnown (lastFlags events) vm' := by
    refine hrun.invariant_trace (I := fun events vm' => RightsKnown (lastFlags events) vm')
      ⟨pagingInit_tables hk, ?_, ?_, pagingInit_windowsOpen hk, fun n hn => pagingInit_rights hk hn⟩
      fun {es t e u} ih hstep => ?_
    · rwa [pagingInit_pmm]
    · rwa [pagingInit_pmm]
    · rw [lastFlags, List.foldl_append]
      exact ih.step hstep
  rw [hknown.windows.pageRights hknown.tables hv, hknown.rights (v / 4096) (by omega)]

/-- A kernel page and a page that user mode may read, in one window. -/
theorem pagingRun_rights_window :
    ∃ vm, Run PagingStep (pagingInit (fun i => 0x110000 + 4096 * i.val) eightMegabytes)
        [.map 0x01400000 0x300000 pageKernel, .map 0x01401000 0x301000 (pagePresent ||| pageUser)]
        vm
      ∧ pageRights vm .kernel 0x01400000 = some ⟨true, false⟩
      ∧ pageRights vm .kernel 0x01401000 = some ⟨false, true⟩ := by
  have hk := eightMegabytes_kernelTables
  have hok := eightMegabytes_ready.ok
  have hlow := eightMegabytes_ready.low
  have hfree : (pagingInit (fun i => 0x110000 + 4096 * i.val) eightMegabytes).allocFrame.1 ≠ 0 := by
    decide +kernel
  have hok0 : PmmOk (pagingInit (fun i => 0x110000 + 4096 * i.val) eightMegabytes).pmm := by
    rwa [pagingInit_pmm]
  have hlow0 : LowUsed (pagingInit (fun i => 0x110000 + 4096 * i.val) eightMegabytes).pmm := by
    rwa [pagingInit_pmm]
  have htables := pagingInit_tables hk
  generalize hvm : pagingInit (fun i => 0x110000 + 4096 * i.val) eightMegabytes = vm0 at *
  obtain ⟨vm1, hcall1⟩ := pagingMapPageInDirectory_ok (d := .kernel) (v := 0x01400000) 0x300000
    pageKernel (by decide) (Or.inr hfree)
  obtain ⟨table, hmaps⟩ := pagingMapPageInDirectory_spec htables hok0 hlow0 (by decide) (by decide)
    hcall1
  have htable : tableOf vm1 .kernel (0x01401000 / 4096 / 1024) ≠ none := by
    rw [show 0x01401000 / 4096 / 1024 = 0x01400000 / 4096 / 1024 from rfl, hmaps.here]
    exact Option.some_ne_none _
  obtain ⟨vm2, hcall2⟩ := pagingMapPageInDirectory_ok (d := .kernel) (v := 0x01401000) 0x301000
    (pagePresent ||| pageUser) (by decide) (Or.inl htable)
  have hrun := (Run.one (PagingStep.map (by decide) (by decide) hcall1)).snoc
    (PagingStep.map (by decide) (by decide) hcall2)
  have hrun' := hvm ▸ hrun
  have h1 := pagingRun_rights hk hok hlow hrun' (v := 0x01400000) (by decide)
  have h2 := pagingRun_rights hk hok hlow hrun' (v := 0x01401000) (by decide)
  exact ⟨vm2, hrun, h1.trans (by decide +kernel), h2.trans (by decide +kernel)⟩

end Kfs
