import Mathlib.Data.Finset.Option
import Mathlib.Order.Interval.Finset.Nat
import Mathlib.Data.Fintype.Sum
import Kfs.Lib.Ledger
import Kfs.PagingFlat
import Kfs.Vmalloc

/-!
# Pages of the allocator

What `vmalloc` and `vfree` do to the machine, a page at a time.

`Backed base d vm` accounts for every used frame: it is in `base`, or it is
the frame of one page of the allocator's range, or the page table of one of
its windows, and no frame is in two places. Mapping a page enters a fresh
frame for the page, and one for a table if the window had none; unmapping
strikes the page's frame out. Tables stay.

`Stays` is the frame condition: other directories, every byte of `base` and
every directory entry that was present are as before.
-/

namespace Kfs

/-! ## Frames of pages -/

section Flat

variable {vm : Vm} {d : Directory}

theorem flatOf_aligned {n addr : Nat} (h : flatOf vm d n = some addr) :
    addr % 4096 = 0 ∧ addr < 4294967296 := by
  unfold flatOf at h
  obtain ⟨t, -, hentry⟩ := Option.bind_eq_some_iff.mp h
  unfold entryFrame at hentry
  split at hentry
  · cases hentry
  · obtain rfl := Option.some.inj hentry
    have hlt := load32_lt vm.mem (t * 4096 + 4 * (n % 1024))
    rw [pageFrame, Vm.tableEntry, and_mask4096 hlt]
    omega

/-- The first address of a page. -/
theorem translate_start {flat : Nat → Option Nat} {v addr : Nat} (hv : v % 4096 = 0)
    (h : flat (v / 4096) = some addr) : translate flat v = addr := by
  have hoffset : v &&& 0xFFF = 0 := (Nat.and_two_pow_sub_one_eq_mod v 12).trans hv
  unfold translate
  rw [h]
  show addr ||| (v &&& 0xFFF) = addr
  rw [hoffset, Nat.or_zero]

end Flat

/-- The pages of the allocator's range and its windows. -/
abbrev Holder := Finset.Ico 4096 65536 ⊕ Finset.Ico 4 64

/-- The frames of the pages, and of the tables of the windows. -/
def held (vm : Vm) (d : Directory) : Holder → Finset Nat
  | .inl n => ((flatOf vm d n.val).map (· / 4096)).toFinset
  | .inr i => (tableOf vm d i.val).toFinset

structure Backed (base : Finset Nat) (d : Directory) (vm : Vm) : Prop where
  tables : TablesOk vm d
  ok : PmmOk vm.pmm
  low : 0 < vm.pmm.totalFrames → 0 ∈ base
  current : vm.currentDirectory = some d
  ledger : Ledger (usedSet vm.pmm) base (held vm d)
  fixed : ∀ i t, i < 1024 → ¬(4 ≤ i ∧ i < 64) → tableOf vm d i = some t →
    t ∈ base ∨ vm.pmm.totalFrames ≤ t

/-- What an operation on the pages of the windows `W` leaves alone. -/
structure Stays (base : Finset Nat) (d : Directory) (W : Nat → Prop) (vm vm' : Vm) : Prop where
  directories : ∀ e, e ≠ d → vm'.directories e = vm.directories e
  kernelDirectory : vm'.kernelDirectory = vm.kernelDirectory
  total : vm'.pmm.totalFrames = vm.pmm.totalFrames
  entries : ∀ i, vm.dirEntry d i &&& pagePresent ≠ 0 ∨ ¬W i → vm'.dirEntry d i = vm.dirEntry d i
  mem : ∀ x, x / 4096 ∈ base → vm'.mem x = vm.mem x

theorem Stays.refl (base : Finset Nat) (d : Directory) (W : Nat → Prop) (vm : Vm) :
    Stays base d W vm vm :=
  ⟨fun _ _ => rfl, rfl, rfl, fun _ _ => rfl, fun _ _ => rfl⟩

theorem Stays.trans {base : Finset Nat} {d : Directory} {W : Nat → Prop} {vm vm' vm'' : Vm}
    (h : Stays base d W vm vm') (h' : Stays base d W vm' vm'') : Stays base d W vm vm'' where
  directories e he := (h'.directories e he).trans (h.directories e he)
  kernelDirectory := h'.kernelDirectory.trans h.kernelDirectory
  total := h'.total.trans h.total
  entries i hi := by
    have hfirst := h.entries i hi
    refine (h'.entries i ?_).trans hfirst
    rwa [hfirst]
  mem x hx := (h'.mem x hx).trans (h.mem x hx)

section Frames

variable {base : Finset Nat} {d : Directory} {vm : Vm}

/-- The page as a holder. -/
def pageHolder (n : Nat) (hn : 4096 ≤ n ∧ n < 65536) : Holder := .inl ⟨n, Finset.mem_Ico.mpr hn⟩

/-- The window as a holder. -/
def tableHolder (i : Nat) (hi : 4 ≤ i ∧ i < 64) : Holder := .inr ⟨i, Finset.mem_Ico.mpr hi⟩

theorem pageHolder_inj {n n' : Nat} {hn : 4096 ≤ n ∧ n < 65536} {hn' : 4096 ≤ n' ∧ n' < 65536}
    (h : pageHolder n hn = pageHolder n' hn') : n = n' :=
  congrArg Subtype.val (Sum.inl.inj h)

/-- A holder is a page or a window. -/
theorem holder_cases (j : Holder) :
    (∃ n hn, j = pageHolder n hn) ∨ ∃ i hi, j = tableHolder i hi := by
  cases j with
  | inl n => exact Or.inl ⟨n.val, Finset.mem_Ico.mp n.property, rfl⟩
  | inr i => exact Or.inr ⟨i.val, Finset.mem_Ico.mp i.property, rfl⟩

theorem held_page {n : Nat} (hn : 4096 ≤ n ∧ n < 65536) :
    held vm d (pageHolder n hn) = ((flatOf vm d n).map (· / 4096)).toFinset := rfl

theorem held_table {i : Nat} (hi : 4 ≤ i ∧ i < 64) :
    held vm d (tableHolder i hi) = (tableOf vm d i).toFinset := rfl

theorem mem_held_page {n addr : Nat} (hn : 4096 ≤ n ∧ n < 65536)
    (h : flatOf vm d n = some addr) : addr / 4096 ∈ held vm d (pageHolder n hn) := by
  rw [held_page hn, h]
  simp

theorem mem_held_table {i t : Nat} (hi : 4 ≤ i ∧ i < 64) (h : tableOf vm d i = some t) :
    t ∈ held vm d (tableHolder i hi) := by
  rw [held_table hi, h]
  simp

theorem Backed.lowUsed (h : Backed base d vm) : LowUsed vm.pmm := fun hpos =>
  h.ledger.base_subset (h.low hpos)

/-- The frame of a page is used, is not frame 0 and is not in the base. -/
theorem Backed.frame (h : Backed base d vm) {n addr : Nat} (hn : 4096 ≤ n ∧ n < 65536)
    (hflat : flatOf vm d n = some addr) :
    addr / 4096 ∈ usedSet vm.pmm ∧ addr / 4096 ∉ base ∧ addr / 4096 ≠ 0 := by
  have hmem := mem_held_page hn hflat
  have hused := h.ledger.owned_subset _ hmem
  have hbase : addr / 4096 ∉ base := fun hin =>
    Finset.disjoint_left.mp (h.ledger.apart _) hin hmem
  refine ⟨hused, hbase, fun hzero => hbase ?_⟩
  rw [hzero]
  exact h.low (Nat.lt_of_le_of_lt (Nat.zero_le _) (mem_usedSet.mp hused).1)

/-- No page of the range is a page table. -/
theorem Backed.page_ne_table (h : Backed base d vm) {n addr i t : Nat}
    (hn : 4096 ≤ n ∧ n < 65536) (hflat : flatOf vm d n = some addr) (hi : i < 1024)
    (ht : tableOf vm d i = some t) : t ≠ addr / 4096 := by
  rintro rfl
  have hmem := mem_held_page hn hflat
  obtain ⟨hused, hbase, -⟩ := h.frame hn hflat
  by_cases hwindow : 4 ≤ i ∧ i < 64
  · exact Finset.disjoint_left.mp (h.ledger.disjoint _ _ Sum.inl_ne_inr) hmem
      (mem_held_table hwindow ht)
  · rcases h.fixed i _ hi hwindow ht with hin | hout
    · exact hbase hin
    · exact absurd (mem_usedSet.mp hused).1 (by omega)

/-- Two pages of the range have two frames. -/
theorem Backed.page_inj (h : Backed base d vm) {n n' addr addr' : Nat}
    (hn : 4096 ≤ n ∧ n < 65536) (hn' : 4096 ≤ n' ∧ n' < 65536)
    (hflat : flatOf vm d n = some addr) (hflat' : flatOf vm d n' = some addr')
    (heq : addr / 4096 = addr' / 4096) : n = n' := by
  by_contra hne
  have hindex : pageHolder n hn ≠ pageHolder n' hn' := fun h => hne (pageHolder_inj h)
  refine Finset.disjoint_left.mp (h.ledger.disjoint _ _ hindex) (mem_held_page hn hflat) ?_
  rw [heq]
  exact mem_held_page hn' hflat'

end Frames

/-! ## Mapping a page -/

theorem flatOf_clearPage {vm : Vm} {d : Directory} {f : Nat}
    (h : ∀ i t, i < 1024 → tableOf vm d i = some t → t ≠ f) {n : Nat} (hn : n < 1048576) :
    flatOf (vm.clearPage (f * 4096)) d n = flatOf vm d n := by
  refine flatOf_congr (tableOf_congr rfl _) fun t x ht hx =>
    (touches_clearPage d vm f).mem x ?_
  rw [hx, Finset.mem_singleton]
  exact h _ t (by omega) ht

/-- With the flags of the kernel a directory entry that is there stays as it
is. -/
theorem pagingMapPageInDirectory_entries {vm vm' : Vm} {d : Directory} {v phys : Nat}
    (hv : v < 4294967296)
    (h : pagingMapPageInDirectory vm (some d) v phys pageKernel = .ok vm') (i : Nat)
    (hi : vm.dirEntry d i &&& pagePresent ≠ 0 ∨ i ≠ v / 4096 / 1024) :
    vm'.dirEntry d i = vm.dirEntry d i := by
  obtain ⟨⟨table, vm1⟩, htable, h⟩ := bind_eq_ok.mp h
  obtain rfl := Except.ok.inj h
  show vm1.dirEntry d i = _
  have hflags : pageKernel &&& pageUser = 0 := by decide
  unfold pagingGetOrCreateTable at htable
  dsimp only at htable
  rw [(pageIndex_eq hv).1] at htable
  split at htable
  · next habsent =>
      split at htable
      · cases htable
      · rw [if_neg (by simp [hflags])] at htable
        obtain ⟨-, rfl⟩ := Prod.mk.inj (Except.ok.inj htable)
        have hne : i ≠ v / 4096 / 1024 := by
          rintro rfl
          rcases hi with hi | hi
          · exact hi habsent
          · exact hi rfl
        simp [Vm.setDirEntry, Vm.dirEntry, hne, Vm.clearPage, Vm.allocFrame]
  · rw [if_neg (by simp [hflags])] at htable
    obtain ⟨-, rfl⟩ := Prod.mk.inj (Except.ok.inj htable)
    rfl

section MapPage

variable {base : Finset Nat} {d : Directory} {vm vm2 : Vm} {n f t : Nat} {pmm : Pmm}

/-- The frame was free when the page's table, if it is new, was still to be
found. -/
theorem Backed.fresh_ne_table (h : Backed base d vm) (htakes : Takes {f} vm.pmm pmm)
    (hmaps : Maps { vm with pmm := pmm } vm2 d n (some (f * 4096)) t) {i t' : Nat} (hi : i < 1024)
    (ht : tableOf vm2 d i = some t') : t' ≠ f := by
  rintro rfl
  have hself := Finset.mem_singleton_self t'
  have hold : tableOf vm d i ≠ some t' := fun hin => by
    have hused := h.tables.used i t' hi hin
    rw [(htakes.test hself).1] at hused
    cases hused
  by_cases hin : i = n / 1024
  · subst hin
    rw [hmaps.here] at ht
    obtain rfl := Option.some.inj ht
    rcases hmaps.old with ⟨hthere, -⟩ | ⟨-, htakes'⟩
    · exact hold hthere
    · have hfree := (htakes'.test hself).1
      rw [(htakes.test hself).2] at hfree
      cases hfree
  · exact hold ((hmaps.others i hin).symm.trans ht)

/-- The ledger enters the frame for the page, and the table if it is new. -/
theorem Backed.mapPage_ledger (h : Backed base d vm) (hn : 4096 ≤ n ∧ n < 65536)
    (hfree : flatOf vm d n = none) (htakes : Takes {f} vm.pmm pmm)
    (hmaps : Maps { vm with pmm := pmm } vm2 d n (some (f * 4096)) t) :
    Ledger (usedSet vm2.pmm) base (held vm2 d) := by
  have hpages : ∀ n' hn', held vm2 d (pageHolder n' hn')
      = if n' = n then {f} else held vm d (pageHolder n' hn') := by
    intro n' hn'
    rw [held_page, held_page, hmaps.flat n' (by omega)]
    split
    · simp
    · rfl
  have hwindows : ∀ i hi, i ≠ n / 1024 →
      held vm2 d (tableHolder i hi) = held vm d (tableHolder i hi) := by
    intro i hi hne
    rw [held_table, held_table, hmaps.others i hne]
    rfl
  -- first the page, as if the windows were not looked at
  have hpage : Ledger (usedSet pmm) base (Function.update (held vm d) (pageHolder n hn) {f}) := by
    rw [htakes.used]
    refine h.ledger.grant (i := pageHolder n hn) ?_ htakes.fresh (Function.update_self _ _ _)
      fun j hj => Function.update_of_ne hj _ _
    rw [held_page, hfree]
    rfl
  have hother : ∀ j, (∀ hi, j ≠ tableHolder (n / 1024) hi) →
      held vm2 d j = Function.update (held vm d) (pageHolder n hn) {f} j := by
    intro j hj
    rcases holder_cases j with ⟨n', hn', rfl⟩ | ⟨i, hi, rfl⟩
    · rw [hpages n' hn']
      by_cases heq : n' = n
      · subst heq
        rw [if_pos rfl, Function.update_self]
      · rw [if_neg heq, Function.update_of_ne fun hc => heq (pageHolder_inj hc)]
    · rw [Function.update_of_ne (by exact Sum.inr_ne_inl)]
      refine hwindows i hi ?_
      rintro rfl
      exact hj hi rfl
  have hwindow : 4 ≤ n / 1024 ∧ n / 1024 < 64 := by omega
  rcases hmaps.old with ⟨hthere, hpmm⟩ | ⟨habsent, htakes'⟩
  · have hsame : held vm2 d = Function.update (held vm d) (pageHolder n hn) {f} := by
      funext j
      by_cases hj : j = tableHolder (n / 1024) hwindow
      · subst hj
        rw [Function.update_of_ne (by exact Sum.inr_ne_inl), held_table, held_table, hmaps.here,
          ← hthere]
        rfl
      · exact hother j fun _ => hj
    rw [hsame, hpmm]
    exact hpage
  · rw [htakes'.used]
    refine hpage.grant (i := tableHolder (n / 1024) hwindow) ?_ htakes'.fresh ?_ fun j hj =>
      hother j fun _ => hj
    · rw [Function.update_of_ne (by exact Sum.inr_ne_inl), held_table]
      show (tableOf vm d (n / 1024)).toFinset = ∅
      rw [show tableOf vm d (n / 1024) = none from habsent]
      rfl
    · rw [held_table, hmaps.here]
      rfl

theorem Backed.withPmm (h : Backed base d vm) (htakes : Takes {f} vm.pmm pmm) :
    TablesOk { vm with pmm := pmm } d :=
  h.tables.congr rfl fun _ hf => htakes.test_mono hf

/-- The loop of `vmalloc` on a page, up to the clearing. -/
theorem Backed.maps (h : Backed base d vm) {v : Nat} (hv : v < 0x10000000)
    (htakes : Takes {f} vm.pmm pmm)
    (hmap : pagingMapPage { vm with pmm := pmm } v (f * 4096) pageKernel = .ok vm2) :
    ∃ t, Maps { vm with pmm := pmm } vm2 d (v / 4096) (some (f * 4096)) t
      ∧ ∀ i, vm.dirEntry d i &&& pagePresent ≠ 0 ∨ i ≠ v / 4096 / 1024 →
        vm2.dirEntry d i = vm.dirEntry d i := by
  have hf := htakes.lt (Finset.mem_singleton_self f)
  have hmap : pagingMapPageInDirectory { vm with pmm := pmm } (some d) v (f * 4096) pageKernel
      = .ok vm2 := by
    rw [← h.current]
    exact hmap
  have hentries := pagingMapPageInDirectory_entries (by omega) hmap
  obtain ⟨t, hmaps⟩ := pagingMapPageInDirectory_spec (h.withPmm htakes) htakes.ok
    (htakes.lowUsed h.lowUsed) (by omega) (by decide) hmap
  rw [and_mask4096 (by omega), Nat.mul_div_cancel f (by omega)] at hmaps
  exact ⟨t, hmaps, hentries⟩

/-- The page is mapped, so clearing it through its address clears its frame. -/
theorem vmallocMemset_mapped {vm : Vm} (htables : TablesOk vm d)
    (hcurrent : vm.currentDirectory = some d) (hn : n < 65536)
    (hflat : flatOf vm d n = some (f * 4096)) :
    vmallocMemset vm (n * 4096) = .ok (vm.clearPage (f * 4096)) := by
  have hpage : n * 4096 / 4096 = n := Nat.mul_div_cancel n (by omega)
  have hoffset : pageOffset (n * 4096) = 0 := (pageOffset_eq _).trans (Nat.mul_mod_left n 4096)
  have hmapped : pagingIsMapped vm (n * 4096) = true := by
    rw [htables.isMapped hcurrent (by omega), hpage, hflat]
    rfl
  have hphys : pagingGetPhysical vm (n * 4096) = f * 4096 := by
    unfold pagingGetPhysical
    rw [hcurrent, htables.getPhysical (by omega)]
    exact translate_start (Nat.mul_mod_left n 4096) (hpage.symm ▸ hflat)
  unfold vmallocMemset clearMapped
  rw [hmapped, hphys, hoffset]
  rfl

/-- One page more: a frame, perhaps a table, an entry, and the frame is
cleared. -/
theorem Backed.mapPage (h : Backed base d vm) (hn : 4096 ≤ n ∧ n < 65536)
    (hfree : flatOf vm d n = none) (htakes : Takes {f} vm.pmm pmm)
    (hmap : pagingMapPage { vm with pmm := pmm } (n * 4096) (f * 4096) pageKernel = .ok vm2) :
    vmallocMemset vm2 (n * 4096) = .ok (vm2.clearPage (f * 4096))
      ∧ Backed base d (vm2.clearPage (f * 4096))
      ∧ Stays base d (fun i => i = n / 1024) vm (vm2.clearPage (f * 4096))
      ∧ ∀ n', n' < 1048576 → flatOf (vm2.clearPage (f * 4096)) d n'
        = if n' = n then some (f * 4096) else flatOf vm d n' := by
  obtain ⟨t, hmaps, hentries⟩ := h.maps (by omega) htakes hmap
  rw [Nat.mul_div_cancel n (by omega)] at hmaps hentries
  have hne : ∀ i t', i < 1024 → tableOf vm2 d i = some t' → t' ≠ f := fun i t' =>
    h.fresh_ne_table htakes hmaps
  have hflat : ∀ n', n' < 1048576 → flatOf vm2 d n'
      = if n' = n then some (f * 4096) else flatOf vm d n' := by
    intro n' hn'
    rw [hmaps.flat n' hn']
    rfl
  have hcleared : ∀ n', n' < 1048576 →
      flatOf (vm2.clearPage (f * 4096)) d n' = flatOf vm2 d n' := fun n' => flatOf_clearPage hne
  have htotal : vm2.pmm.totalFrames = vm.pmm.totalFrames := by
    rcases hmaps.old with ⟨-, hpmm⟩ | ⟨-, htakes'⟩
    · rw [hpmm]
      exact htakes.total
    · exact htakes'.total.trans htakes.total
  have hok : PmmOk vm2.pmm := by
    rcases hmaps.old with ⟨-, hpmm⟩ | ⟨-, htakes'⟩
    · rw [hpmm]
      exact htakes.ok
    · exact htakes'.ok
  have hledger := h.mapPage_ledger hn hfree htakes hmaps
  have hclear := touches_clearPage d vm2 f
  refine ⟨vmallocMemset_mapped hmaps.tables (hmaps.current.trans h.current) hn.2
    ((hflat n (by omega)).trans (if_pos rfl)), ⟨hmaps.tables.congr rfl fun _ hf => hf, hok,
    fun hpos => h.low (htotal ▸ hpos), hmaps.current.trans h.current, ?_, ?_⟩,
    ⟨fun e he => hmaps.touches.directories e he, hmaps.touches.kernelDirectory, htotal,
      fun i hi => hentries i hi, ?_⟩,
    fun n' hn' => (hcleared n' hn').trans (hflat n' hn')⟩
  · have hsame : held (vm2.clearPage (f * 4096)) d = held vm2 d := by
      funext j
      rcases holder_cases j with ⟨n', hn', rfl⟩ | ⟨i, hi, rfl⟩
      · rw [held_page, held_page, hcleared n' (by omega)]
      · rfl
    rw [hsame]
    exact hledger
  · intro i t' hi hout ht'
    have hother : tableOf vm d i = some t' := (hmaps.others i (by omega)).symm.trans ht'
    rcases h.fixed i t' hi hout hother with hin | hge
    · exact Or.inl hin
    · exact Or.inr (htotal.symm ▸ hge)
  · intro x hx
    -- the base holds neither the frame nor the table
    have hf : x / 4096 ≠ f := by
      rintro rfl
      exact Finset.disjoint_left.mp htakes.fresh (h.ledger.base_subset hx)
        (Finset.mem_singleton_self _)
    have hwindow : 4 ≤ n / 1024 ∧ n / 1024 < 64 := by omega
    have hin := mem_held_table hwindow hmaps.here
    have ht : x / 4096 ≠ t := by
      rintro rfl
      exact Finset.disjoint_left.mp (hledger.apart _) hx hin
    rw [hclear.mem x (by rwa [Finset.mem_singleton]),
      hmaps.touches.mem x (by rwa [Finset.mem_singleton])]

/-- Where the page does not start on a page boundary, clearing it runs into
the next page, which is not mapped. -/
theorem Backed.memset_faults (h : Backed base d vm) {v : Nat} (hv : v / 4096 + 1 < 65536)
    (hoffset : v % 4096 ≠ 0) (hnext : flatOf vm d (v / 4096 + 1) = none)
    (htakes : Takes {f} vm.pmm pmm)
    (hmap : pagingMapPage { vm with pmm := pmm } v (f * 4096) pageKernel = .ok vm2) :
    vmallocMemset vm2 v = .error (.panic "Page fault") := by
  obtain ⟨t, hmaps, -⟩ := h.maps (by omega) htakes hmap
  have hne : ∀ i t', i < 1024 → tableOf vm2 d i = some t' → t' ≠ f := fun i t' =>
    h.fresh_ne_table htakes hmaps
  have hcurrent : vm2.currentDirectory = some d := hmaps.current.trans h.current
  have hpage : flatOf vm2 d (v / 4096) = some (f * 4096) :=
    (hmaps.flat _ (by omega)).trans (if_pos rfl)
  have hpage' : flatOf vm2 d (v / 4096 + 1) = none :=
    ((hmaps.flat _ (by omega)).trans (if_neg (by omega))).trans hnext
  have hmapped : pagingIsMapped vm2 v = true := by
    rw [hmaps.tables.isMapped hcurrent (by omega), hpage]
    rfl
  have hphys : pagingGetPhysical vm2 v = f * 4096 + v % 4096 := by
    unfold pagingGetPhysical
    rw [hcurrent, hmaps.tables.getPhysical (by omega)]
    unfold translate
    rw [hpage]
    show f * 4096 ||| pageOffset v = _
    rw [pageOffset_eq, frame_or f (by omega)]
  obtain ⟨vm3, hvm3⟩ : ∃ vm3 : Vm, vm3
      = { vm2 with mem := memset vm2.mem (f * 4096 + v % 4096) 0#8 (4096 - v % 4096) } := ⟨_, rfl⟩
  have hfirst : clearMapped vm2 v (4096 - v % 4096) = .ok vm3 := by
    unfold clearMapped
    rw [hmapped, hphys, hvm3]
    rfl
  have hdirs : vm3.directories d = vm2.directories d := by rw [hvm3]
  -- the first piece stays in the frame of the page, so it changes no entry
  have hflat : flatOf vm3 d (v / 4096 + 1) = none := by
    refine (flatOf_congr (tableOf_congr hdirs _) ?_).trans hpage'
    intro t' x ht hx
    have := hne _ t' (by omega) ht
    rw [hvm3]
    exact memset_outside (by omega)
  have hunmapped : pagingIsMapped vm3 (v + (4096 - v % 4096)) = false := by
    have htables : TablesOk vm3 d := hmaps.tables.congr hdirs fun _ hf => by rwa [hvm3]
    have hpage'' : (v + (4096 - v % 4096)) / 4096 = v / 4096 + 1 := by omega
    rw [htables.isMapped (by rw [hvm3]; exact hcurrent) (by omega), hpage'', hflat]
    rfl
  unfold vmallocMemset
  dsimp only
  rw [pageOffset_eq, hfirst]
  show (if v % 4096 = 0 then Except.ok vm3
    else clearMapped vm3 (add32 v (4096 - v % 4096)) (v % 4096)) = _
  rw [if_neg hoffset, add32_of_lt (by omega)]
  unfold clearMapped
  rw [hunmapped]
  rfl

end MapPage

/-! ## Giving a page back -/

section UndoPage

variable {base : Finset Nat} {d : Directory} {vm : Vm} {n addr : Nat}

theorem Backed.getPhysical (h : Backed base d vm) (hn : n < 65536)
    (hflat : flatOf vm d n = some addr) : pagingGetPhysical vm (n * 4096) = addr := by
  have hpage : n * 4096 / 4096 = n := Nat.mul_div_cancel n (by omega)
  unfold pagingGetPhysical
  rw [h.current, h.tables.getPhysical (by omega)]
  exact translate_start (Nat.mul_mod_left n 4096) (hpage.symm ▸ hflat)

/-- A mapped page is unmapped and its frame is free. -/
theorem Backed.undoPage (h : Backed base d vm) (hn : 4096 ≤ n ∧ n < 65536)
    (hflat : flatOf vm d n = some addr) :
    let vm' := (pagingUnmapPage vm (n * 4096)).freeFrame addr
    Backed base d vm' ∧ Stays base d (fun _ => False) vm vm'
      ∧ (∀ n', n' < 1048576 → flatOf vm' d n' = if n' = n then none else flatOf vm d n')
      ∧ usedSet vm'.pmm = (usedSet vm.pmm).erase (addr / 4096) := by
  have hpage : n * 4096 / 4096 = n := Nat.mul_div_cancel n (by omega)
  have hunmaps := pagingUnmapPageInDirectory_spec h.tables (v := n * 4096) (by omega)
  rw [hpage] at hunmaps
  unfold pagingUnmapPage
  rw [h.current]
  generalize pagingUnmapPageInDirectory vm (some d) (n * 4096) = vm1 at hunmaps
  obtain ⟨f, rfl⟩ : ∃ f, addr = f * 4096 := ⟨addr / 4096, by
    have := (flatOf_aligned hflat).1
    omega⟩
  obtain ⟨hfused, hfbase, -⟩ := h.frame hn hflat
  have hntable := fun i t hi => h.page_ne_table (i := i) (t := t) hn hflat hi
  rw [Nat.mul_div_cancel f (by omega)] at hfused hfbase hntable
  intro vm'
  have hdirs : vm'.directories = vm.directories := hunmaps.directories
  have htable : ∀ i, tableOf vm' d i = tableOf vm d i := fun i => tableOf_congr (by rw [hdirs]) i
  have hpmm : vm'.pmm = pmmFreeFrame vm.pmm (f * 4096) := by
    show pmmFreeFrame vm1.pmm (f * 4096) = _
    rw [hunmaps.pmm]
  have hused : usedSet vm'.pmm = (usedSet vm.pmm).erase f := by
    rw [hpmm, usedSet_freeFrame]
  have htotal : vm'.pmm.totalFrames = vm.pmm.totalFrames := by
    rw [hpmm, pmmFreeFrame_totalFrames]
  have hflat' : ∀ n', n' < 1048576 →
      flatOf vm' d n' = if n' = n then none else flatOf vm d n' := fun n' hn' =>
    (flatOf_congr (tableOf_congr rfl _) fun _ _ _ _ => rfl).trans (hunmaps.flat n' hn')
  have hok : PmmOk vm'.pmm := hpmm ▸ h.ok.freeFrame _
  refine ⟨⟨?_, hok, fun hpos => h.low (htotal ▸ hpos),
    (hunmaps.current.trans h.current : vm1.currentDirectory = _), ?_, ?_⟩,
    ⟨fun e _ => by rw [hdirs], hunmaps.kernel, htotal, fun i _ => by unfold Vm.dirEntry; rw [hdirs],
      fun x hx => hunmaps.mem x ?_⟩, hflat', ?_⟩
  · -- a table is another frame than the one given back
    refine ⟨?_, ?_, ?_⟩
    · intro i hi
      unfold Vm.dirEntry
      rw [hdirs]
      exact h.tables.word i hi
    · intro i j t hi hj h1 h2
      rw [htable] at h1 h2
      exact h.tables.inj i j t hi hj h1 h2
    · intro i t hi ht
      rw [htable] at ht
      have hold := h.tables.used i t hi ht
      by_cases hlt : t < vm.pmm.totalFrames
      · have hmem : t ∈ usedSet vm'.pmm := by
          rw [hused, Finset.mem_erase]
          exact ⟨hntable i t hi ht, mem_usedSet.mpr ⟨hlt, hold⟩⟩
        exact (mem_usedSet.mp hmem).2
      · exact hok.high t (by rw [htotal]; omega)
  · have howned : held vm d (pageHolder n hn) = {f} := by
      rw [held_page, hflat]
      simp
    rw [hused, ← Finset.sdiff_singleton_eq_erase, ← howned]
    refine h.ledger.revoke ?_ ?_
    · rw [held_page, hflat' n (by omega), if_pos rfl]
      rfl
    · intro j hj
      rcases holder_cases j with ⟨n', hn', rfl⟩ | ⟨i, hi, rfl⟩
      · have hne : n' ≠ n := by
          rintro rfl
          exact hj rfl
        rw [held_page, held_page, hflat' n' (by omega), if_neg hne]
      · rw [held_table, held_table, htable]
  · intro i t hi hout ht
    rw [htable] at ht
    rw [htotal]
    exact h.fixed i t hi hout ht
  · intro t ht
    rintro rfl
    have hwindow : 4 ≤ n / 1024 ∧ n / 1024 < 64 := by omega
    have hin := mem_held_table hwindow ht
    exact Finset.disjoint_left.mp (h.ledger.apart _) hx hin
  · rw [hused, Nat.mul_div_cancel f (by omega)]

end UndoPage

/-! ## The loops -/

theorem pageAt_eq {first i : Nat} (h : first + i < 65536) :
    pageAt (first * 4096) i = (first + i) * 4096 := by
  unfold pageAt
  rw [mul32_eq, Nat.mod_eq_of_lt (by omega), add32_of_lt (by omega)]
  omega

section Loops

variable {base : Finset Nat} {d : Directory} {vm vm' : Vm} {first i : Nat}

/-- Both loops that give pages back: the pages are unmapped and their frames
free, and nothing else changes. -/
theorem Backed.undoPages {body : Nat → Vm → Vm} (h : Backed base d vm) (hfirst : 4096 ≤ first)
    (hlast : first + i ≤ 65536) (hmapped : ∀ j, j < i → flatOf vm d (first + j) ≠ none)
    (hbody : ∀ j vm addr, j < i → Backed base d vm → flatOf vm d (first + j) = some addr →
      body j vm = (pagingUnmapPage vm ((first + j) * 4096)).freeFrame addr) :
    Backed base d (forRange 0 i body vm) ∧ Stays base d (fun _ => False) vm (forRange 0 i body vm)
      ∧ (∀ n, n < 1048576 → flatOf (forRange 0 i body vm) d n
        = if first ≤ n ∧ n < first + i then none else flatOf vm d n)
      ∧ ∀ j addr, j < i → flatOf vm d (first + j) = some addr →
        addr / 4096 ∉ usedSet (forRange 0 i body vm).pmm := by
  refine forRange_invariant (I := fun i' vm' => Backed base d vm'
    ∧ Stays base d (fun _ => False) vm vm'
    ∧ (∀ n, n < 1048576 → flatOf vm' d n
      = if first ≤ n ∧ n < first + i' then none else flatOf vm d n)
    ∧ ∀ j addr, j < i' → flatOf vm d (first + j) = some addr → addr / 4096 ∉ usedSet vm'.pmm)
    (Nat.zero_le i) ⟨h, Stays.refl _ _ _ _, fun n _ => (if_neg (by omega)).symm,
      fun j _ hj => absurd hj (Nat.not_lt_zero j)⟩ ?_
  rintro i' vm' - hi' ⟨hback, hstays, hflat, hfree⟩
  obtain ⟨addr, haddr⟩ := Option.ne_none_iff_exists'.mp (hmapped i' hi')
  have haddr' : flatOf vm' d (first + i') = some addr := by
    rw [hflat _ (by omega), if_neg (by omega), haddr]
  obtain ⟨hback', hstays', hflat', hused'⟩ := hback.undoPage (n := first + i') (by omega) haddr'
  rw [hbody i' vm' addr hi' hback haddr']
  refine ⟨hback', hstays.trans hstays', ?_, ?_⟩
  · intro n hn
    rw [hflat' n hn]
    by_cases hin : n = first + i'
    · rw [if_pos hin, if_pos (by omega)]
    · rw [if_neg hin, hflat n hn]
      by_cases hbefore : first ≤ n ∧ n < first + i'
      · rw [if_pos hbefore, if_pos (by omega)]
      · rw [if_neg hbefore, if_neg (by omega)]
  · intro j addr' hj haddr''
    rw [hused', Finset.mem_erase]
    rintro ⟨hne, hin⟩
    by_cases hji : j = i'
    · subst hji
      rw [haddr] at haddr''
      obtain rfl := Option.some.inj haddr''
      exact hne rfl
    · exact hfree j addr' (by omega) haddr'' hin

theorem vmallocUndo_eq {j addr : Nat} (h : Backed base d vm) (hj : first + j < 65536)
    (hflat : flatOf vm d (first + j) = some addr) :
    vmallocUndo (first * 4096) j vm
      = (pagingUnmapPage vm ((first + j) * 4096)).freeFrame addr := by
  unfold vmallocUndo
  dsimp only
  rw [pageAt_eq hj, h.getPhysical hj hflat]

theorem vfreePage_eq {j addr : Nat} (h : Backed base d vm) (hfirst : 4096 ≤ first)
    (hj : first + j < 65536) (hflat : flatOf vm d (first + j) = some addr) :
    vfreePage (first * 4096) j vm
      = (pagingUnmapPage vm ((first + j) * 4096)).freeFrame addr := by
  have hne : addr ≠ 0 := fun hzero =>
    (h.frame (by omega) hflat).2.2 (by rw [hzero])
  unfold vfreePage
  dsimp only
  rw [pageAt_eq hj, h.getPhysical hj hflat, if_pos hne]

/-- What the loop of `vmalloc` did: all pages are mapped, or none. -/
structure PagesDone (base : Finset Nat) (d : Directory) (first count : Nat) (vm vm' : Vm)
    (ok : Bool) : Prop where
  backed : Backed base d vm'
  stays : Stays base d (fun w => first / 1024 ≤ w ∧ w ≤ (first + count - 1) / 1024) vm vm'
  mapped : ok = true → ∀ n, first ≤ n → n < first + count → flatOf vm' d n ≠ none
  others : ∀ n, n < 1048576 → ok = false ∨ n < first ∨ first + count ≤ n →
    flatOf vm' d n = flatOf vm d n

theorem Stays.mono {W W' : Nat → Prop} (h : Stays base d W vm vm') (hW : ∀ w, W w → W' w) :
    Stays base d W' vm vm' :=
  ⟨h.directories, h.kernelDirectory, h.total,
    fun i hi => h.entries i (hi.imp_right fun hn hw => hn (hW i hw)), h.mem⟩

/-- The loop of `vmalloc` in the middle: the first `i` pages are mapped,
which is all that changed since `vm`. -/
structure PagesSoFar (base : Finset Nat) (d : Directory) (first count i : Nat) (vm vm1 : Vm) :
    Prop where
  backed : Backed base d vm1
  stays : Stays base d (fun w => first / 1024 ≤ w ∧ w ≤ (first + count - 1) / 1024) vm vm1
  mapped : ∀ n, first ≤ n → n < first + i → flatOf vm1 d n ≠ none
  others : ∀ n, n < 1048576 → n < first ∨ first + i ≤ n → flatOf vm1 d n = flatOf vm d n

theorem vmallocPages_spec {count : Nat} (hfirst : 4096 ≤ first) (hlast : first + count ≤ 65536)
    (hclear : ∀ n, first ≤ n → n < first + count → flatOf vm d n = none) {ok : Bool} :
    ∀ {n i : Nat} {vm1 : Vm}, i + n = count → PagesSoFar base d first count i vm vm1 →
      vmallocPages (first * 4096) n i vm1 = .ok (ok, vm') →
      PagesDone base d first count vm vm' ok := by
  intro n
  induction n with
  | zero =>
      intro i vm1 hin h hcall
      obtain ⟨hok, rfl⟩ := Prod.mk.inj (Except.ok.inj hcall)
      obtain rfl : i = count := hin
      refine ⟨h.backed, h.stays, fun _ => h.mapped, fun n hn hor => h.others n hn ?_⟩
      rcases hor with hfalse | hout
      · rw [← hok] at hfalse
        cases hfalse
      · exact hout
  | succ n ih =>
      intro i vm1 hin h hcall
      unfold vmallocPages at hcall
      rcases allocFrame_cases h.backed.ok h.backed.lowUsed with he | ⟨f, pmm, hne, htakes, he⟩
      · -- out of frames: the rollback loop
        rw [he] at hcall
        obtain ⟨hok, rfl⟩ := Prod.mk.inj (Except.ok.inj hcall)
        obtain ⟨hback, hstays, hflat, -⟩ := h.backed.undoPages (i := i) hfirst (by omega)
          (fun j hj => h.mapped _ (by omega) (by omega))
          fun j vm addr hj hb haddr => vmallocUndo_eq hb (by omega) haddr
        refine ⟨hback, h.stays.trans (hstays.mono fun _ => False.elim), ?_, ?_⟩
        · intro htrue
          rw [← hok] at htrue
          cases htrue
        · intro n hn _
          rw [hflat n hn]
          by_cases hrange : first ≤ n ∧ n < first + i
          · rw [if_pos hrange, hclear n hrange.1 (by omega)]
          · rw [if_neg hrange, h.others n hn (by omega)]
      · rw [he] at hcall
        dsimp only at hcall
        rw [if_neg (by omega), pageAt_eq (by omega)] at hcall
        obtain ⟨vm2, hmap, hcall⟩ := bind_eq_ok.mp hcall
        have hnone : flatOf vm1 d (first + i) = none := by
          rw [h.others _ (by omega) (by omega), hclear _ (by omega) (by omega)]
        obtain ⟨hset, hback, hstays, hflat⟩ :=
          h.backed.mapPage (n := first + i) (by omega) hnone htakes hmap
        obtain ⟨vm3, hset', hcall⟩ := bind_eq_ok.mp hcall
        obtain rfl := Except.ok.inj (hset.symm.trans hset')
        refine ih (by omega) ⟨hback, h.stays.trans (hstays.mono ?_), ?_, ?_⟩ hcall
        · rintro w rfl
          omega
        · intro n hlo hhi
          rw [hflat n (by omega)]
          split
          · exact Option.some_ne_none _
          · exact h.mapped n hlo (by omega)
        · intro n hn hout
          rw [hflat n hn, if_neg (by omega), h.others n hn (by omega)]

end Loops

end Kfs
