import Kfs.ProcessIsolation
import Kfs.System
import Kfs.VmallocRuns

/-!
# One machine, two owners

Processes and the allocator take their frames from one bitmap and write to
one memory. Each side has its invariant already, with a fixed part that the
other side's operations must leave alone: for the processes that is `base`
and what the allocator holds, for the allocator it is `base` and the frames
of the live processes. `SystemInv` puts the two together, over a `base` that
belongs to neither and has the kernel's tables outside the allocator's range.

A process step spares the kernel directory and every table of it, so the
allocator's view of the machine is unchanged (`SystemInv.process`); a call
of the allocator stays out of the frames of the processes and out of their
directories (`SystemInv.vmalloc`, `SystemInv.vfree`).
-/

namespace Kfs

/-- The frames of the live processes. -/
def Kernel.owned (k : Kernel) : Finset Nat := Finset.univ.biUnion k.framesOf

/-- The frames of the allocator's pages and tables. -/
def allHeld (vm : Vm) : Finset Nat := Finset.univ.biUnion (held vm .kernel)

/-- The machine as it is once the kernel directory is current. -/
def Vm.home (vm : Vm) : Vm := { vm with currentDirectory := some .kernel }

structure SystemInv (base : Finset Nat) (total : Nat) (s : System) : Prop where
  linkage : Linkage s.1
  regions : Regions (base ∪ allHeld s.vm) total s.1
  steady : Steady (base ∪ s.1.owned) (s.vm.home, s.2)
  fixed : ∀ i t, i < 1024 → ¬(4 ≤ i ∧ i < 64) → tableOf s.vm .kernel i = some t →
    t ∈ base ∨ total ≤ t

/-- A page is mapped if the map has it. -/
theorem TablesOk.mapped {vm : Vm} {d : Directory} (h : TablesOk vm d) {v : Nat}
    (hv : v < 4294967296) : Mapped vm d v ↔ flatOf vm d (v / 4096) ≠ none := by
  obtain ⟨hdir, htab, hlt⟩ := pageIndex_eq hv
  unfold Mapped walk flatOf
  dsimp only
  rw [hdir, htab]
  cases ht : tableOf vm d (v / 4096 / 1024) with
  | none =>
      unfold tableOf at ht
      split at ht
      · next habsent => simp [habsent]
      · cases ht
  | some t =>
      rw [h.pageFrame_eq hlt ht, Option.bind_some, entryFrame]
      split
      · next habsent => simp [habsent]
      · next hpresent => simp [hpresent, (tableOf_present ht).1]

section Views

variable {base : Finset Nat} {total : Nat} {s : System} {vm vm' : Vm}

theorem home_current (h : vm.currentDirectory = some .kernel) : vm.home = vm := by
  unfold Vm.home
  rw [← h]

theorem TablesOk.home (h : TablesOk vm .kernel) : TablesOk vm.home .kernel :=
  h.congr rfl fun _ hf => hf

/-- The allocator on another machine with the same map of its range. -/
theorem Steady.moved {base base' : Finset Nat} {a : Vmalloc} (h : Steady base (vm, a))
    (hbacked : Backed base' .kernel vm')
    (hflat : ∀ n, 4096 ≤ n → n < 65536 → flatOf vm' .kernel n = flatOf vm .kernel n) :
    Steady base' (vm', a) := by
  obtain ⟨hinv, hcurrent⟩ := h
  refine ⟨⟨hbacked, hinv.regions, ?_, hinv.highest, hinv.top, hinv.count,
    hinv.pages, hinv.heap⟩, hcurrent⟩
  intro n hlo hhi
  show flatOf vm' .kernel n ≠ none ↔ _
  rw [hflat n hlo hhi]
  exact hinv.mapped n hlo hhi

theorem SystemInv.backed (h : SystemInv base total s) :
    Backed (base ∪ s.1.owned) .kernel s.vm.home := h.steady.inv.backed

theorem SystemInv.kernelTables (h : SystemInv base total s) : TablesOk s.vm .kernel :=
  h.backed.tables.congr rfl fun _ hf => hf

/-- Nothing of `base` belongs to the allocator or to a process. -/
theorem SystemInv.apart (h : SystemInv base total s) :
    (∀ j, Disjoint base (held s.vm .kernel j)) ∧ ∀ p, Disjoint base (s.1.framesOf p) :=
  ⟨fun j => Finset.disjoint_of_subset_left Finset.subset_union_left (h.backed.ledger.apart j),
    fun p => Finset.disjoint_of_subset_left Finset.subset_union_left (h.regions.ledger.apart p)⟩

theorem SystemInv.low (h : SystemInv base total s) (hpos : 0 < total) : 0 ∈ base := by
  have hheld := h.regions.low hpos
  have howned := h.backed.low (by rw [← h.regions.frames] at hpos; exact hpos)
  rcases Finset.mem_union.mp howned with hbase | howned
  · exact hbase
  · obtain ⟨p, -, hp⟩ := Finset.mem_biUnion.mp howned
    exact absurd hp (Finset.disjoint_left.mp (h.regions.ledger.apart p) hheld)

/-- Where the kernel's tables are. -/
theorem SystemInv.table (h : SystemInv base total s) {i t : Nat} (hi : i < 1024)
    (ht : tableOf s.vm .kernel i = some t) : t ∈ base ∪ allHeld s.vm ∨ total ≤ t := by
  by_cases hrange : 4 ≤ i ∧ i < 64
  · refine Or.inl (Finset.mem_union_right _ (Finset.mem_biUnion.mpr ⟨tableHolder i hrange,
      Finset.mem_univ _, ?_⟩))
    exact mem_held_table hrange ht
  · exact (h.fixed i t hi hrange ht).imp_left (Finset.mem_union_left _)

/-- What spares the kernel's tables spares its map. -/
theorem SystemInv.flat (h : SystemInv base total s)
    (hspares : Spares (base ∪ allHeld s.vm) total s.vm vm') {n : Nat} (hn : n < 1048576) :
    flatOf vm' .kernel n = flatOf s.vm .kernel n :=
  flatOf_congr (tableOf_congr hspares.kernel _) fun t x ht hx =>
    hspares.mem x (hx ▸ h.table (by omega) ht)

theorem SystemInv.held (h : SystemInv base total s)
    (hspares : Spares (base ∪ allHeld s.vm) total s.vm vm') :
    held vm' .kernel = held s.vm .kernel := by
  funext j
  rcases holder_cases j with ⟨n, hn, rfl⟩ | ⟨i, hi, rfl⟩
  · rw [held_page, held_page, h.flat hspares (by omega)]
  · rw [held_table, held_table, tableOf_congr hspares.kernel]

end Views

/-! ## Process events -/

section Process

variable {base base' : Finset Nat} {total : Nat} {s s' : System}

theorem SystemInv.tables (h : SystemInv base total s)
    (hspares : Spares (base ∪ allHeld s.vm) total s.vm s'.vm)
    (hregions : Regions base' total s'.1) (hgrows : base ∪ allHeld s.vm ⊆ base') :
    TablesOk s'.vm .kernel := by
  have htables := h.backed.tables
  refine ⟨?_, ?_, ?_⟩
  · intro i hi
    unfold Vm.dirEntry
    rw [hspares.kernel]
    exact htables.word i hi
  · intro i j t hi hj h1 h2
    rw [tableOf_congr hspares.kernel] at h1 h2
    exact htables.inj i j t hi hj h1 h2
  · intro i t hi ht
    rw [tableOf_congr hspares.kernel] at ht
    rcases h.table hi ht with hin | hge
    · exact (mem_usedSet.mp (hregions.ledger.base_subset (hgrows hin))).2
    · exact hregions.ok.high t (hregions.frames ▸ hge)

/-- The allocator after a process event. -/
theorem SystemInv.spared (h : SystemInv base total s)
    (hspares : Spares (base ∪ allHeld s.vm) total s.vm s'.vm)
    (hregions : Regions (base' ∪ allHeld s.vm) total s'.1) (hgrows : base ⊆ base')
    (hapart : Disjoint base' (allHeld s.vm)) (hl : Linkage s'.1) (hsame : s'.2 = s.2) :
    SystemInv base' total s' := by
  have hheld := h.held hspares
  have hall : allHeld s'.vm = allHeld s.vm := by
    unfold allHeld
    rw [hheld]
  have hledger : Ledger (usedSet s'.vm.pmm) (base' ∪ s'.1.owned) (Kfs.held s'.vm .kernel) := by
    rw [hheld]
    refine hregions.ledger.exchange ?_ h.backed.ledger.disjoint
    intro j
    exact Finset.disjoint_of_subset_right
      (Finset.subset_biUnion_of_mem _ (Finset.mem_univ j)) hapart
  have hfixed : ∀ i t, i < 1024 → ¬(4 ≤ i ∧ i < 64) → tableOf s'.vm .kernel i = some t →
      t ∈ base' ∨ total ≤ t := by
    intro i t hi hout ht
    rw [tableOf_congr hspares.kernel] at ht
    exact (h.fixed i t hi hout ht).imp_left fun hin => hgrows hin
  have htables := h.tables hspares hregions (Finset.union_subset_union_left hgrows)
  refine ⟨hl, hall.symm ▸ hregions, ?_, hfixed⟩
  rw [hsame]
  refine h.steady.moved ⟨htables.home, hregions.ok, ?_, rfl, hledger,
    ?_⟩ fun n hlo hhi => h.flat hspares (by omega)
  · intro hpos
    exact Finset.mem_union_left _ (hgrows (h.low (hregions.frames ▸ hpos)))
  · intro i t hi hout ht
    rcases hfixed i t hi hout ht with hin | hge
    · exact Or.inl (Finset.mem_union_left _ hin)
    · exact Or.inr (hregions.frames.le.trans hge)

theorem SystemInv.apart_held (h : SystemInv base total s) : Disjoint base (allHeld s.vm) :=
  (Finset.disjoint_biUnion_right _ _ _).mpr fun j _ => h.apart.1 j

/-- What leaks no frame. -/
theorem SystemInv.within {B : Nat → Prop} (h : SystemInv base total s)
    (hout : Outcome (base ∪ allHeld s.vm) (base ∪ allHeld s.vm) total B s.1 s'.1)
    (hl : Linkage s'.1) (hsame : s'.2 = s.2) : SystemInv base total s' :=
  h.spared hout.spares hout.regions (Finset.Subset.refl _) h.apart_held hl hsame

/-- A process event that creates only at free windows. -/
theorem SystemInv.process {e : Event} {r : SystemReply} (h : SystemInv base total s)
    (hstep : SystemStep s (.process e, r) s') (hfree : e.FreeWindow s.vm) :
    ∃ reply base', r = .reply reply ∧ SystemInv base' total s'
      ∧ Outcome (base ∪ allHeld s.vm) (base' ∪ allHeld s.vm) total (· = e.base) s.1 s'.1
      ∧ base ⊆ base' ∧ (¬refuses (e, reply) → base' = base) := by
  obtain ⟨reply, hreply, hkernel, hsame⟩ := hstep.process
  obtain ⟨all, hout, hexact⟩ := h.regions.step h.linkage hkernel hfree
  have hsub : allHeld s.vm ⊆ all := Finset.subset_union_right.trans hout.grows
  -- what was leaked is nobody's
  have hsplit : all \ allHeld s.vm ∪ allHeld s.vm = all := Finset.sdiff_union_of_subset hsub
  have hbase : base = (base ∪ allHeld s.vm) \ allHeld s.vm :=
    (Finset.union_sdiff_cancel_right h.apart_held).symm
  have hgrows : base ⊆ all \ allHeld s.vm := by
    rw [hbase]
    exact Finset.sdiff_subset_sdiff hout.grows (Finset.Subset.refl _)
  rw [← hsplit] at hout
  refine ⟨reply, all \ allHeld s.vm, hreply, ?_, hout, hgrows, ?_⟩
  · exact h.spared hout.spares hout.regions hgrows Finset.sdiff_disjoint
      (h.linkage.step hkernel) hsame
  · intro hr
    rw [hexact hr]
    exact hbase.symm

end Process

/-! ## Calls of the allocator -/

/-- The windows in which a call of `vmalloc` may enter a table. -/
def vmallocTables (a : Vmalloc) (n w : Nat) : Prop :=
  0 < n ∧ a.vmallocCurrent + (n + 4095) / 4096 * 4096 ≤ vmallocEnd
    ∧ a.vmallocCurrent / 4096 / 1024 ≤ w
    ∧ w ≤ (a.vmallocCurrent / 4096 + (n + 4095) / 4096 - 1) / 1024

section Allocator

variable {base : Finset Nat} {total : Nat} {s s' : System} {r : SystemReply} {W : Nat → Prop}

/-- The processes after a call of the allocator. -/
theorem SystemInv.stayed (h : SystemInv base total s)
    (hstays : Stays (base ∪ s.1.owned) .kernel W s.vm s'.vm) (hW : ∀ w, W w → 4 ≤ w ∧ w < 64)
    (hsteady : Steady (base ∪ s.1.owned) (s'.vm, s'.2)) (hsame : s'.1 = { s.1 with vm := s'.vm }) :
    SystemInv base total s' := by
  have hbacked : Backed (base ∪ s.1.owned) .kernel s'.vm := hsteady.inv.backed
  have htable : s'.1.processTable = s.1.processTable := by rw [hsame]
  have hframes : s'.1.framesOf = s.1.framesOf := by rw [hsame]; rfl
  have howned : s'.1.owned = s.1.owned := by
    unfold Kernel.owned
    rw [hframes]
  refine ⟨hsame ▸ h.linkage.withVm _, ⟨hbacked.ok, hstays.kernelDirectory.trans
    h.regions.kernelDirectory, hstays.total.trans h.regions.frames,
    fun hpos => Finset.mem_union_left _ (h.low hpos), ?_, ?_⟩, ?_, ?_⟩
  · rw [hframes]
    exact hbacked.ledger.exchange h.apart.2 h.regions.ledger.disjoint
  · intro p hp
    have hlive : s.1.Live p := by
      unfold Kernel.Live at hp ⊢
      rwa [htable] at hp
    obtain ⟨b, w, start, table, frames, hspace⟩ := h.regions.spaces p hlive
    unfold Kernel.HasSpace
    rw [htable]
    refine ⟨b, w, start, table, frames, hspace.congr (hstays.directories _ nofun) fun x hx =>
      hstays.mem x ?_⟩
    refine Finset.mem_union_right _ (Finset.mem_biUnion.mpr ⟨p, Finset.mem_univ p, ?_⟩)
    rw [hx, framesOf_live hlive]
    exact hspace.table_mem
  · rw [howned, home_current hbacked.current]
    exact hsteady
  · intro i t hi hout ht
    have hentry := hstays.entries i (Or.inr fun hw => hout (hW i hw))
    refine h.fixed i t hi hout ?_
    unfold tableOf at ht ⊢
    rwa [hentry] at ht

/-- A size beyond the range is refused, up to where the sum overflows. -/
theorem vmalloc_beyond {vm : Vm} {a : Vmalloc} {n : Nat} (hlow : 0x01000000 ≤ a.vmallocCurrent)
    (htop : a.vmallocCurrent ≤ 0x10000000) (hbeyond : 0x0F000000 < n) (hn : n ≤ 0xEFFFF000) :
    vmalloc vm a n = .ok (0, vm, a) := by
  have hpages : add32 n 4095 = n + 4095 := add32_of_lt (by omega)
  have hsize : mul32 ((n + 4095) / 4096) 4096 = (n + 4095) / 4096 * 4096 := by
    rw [mul32_eq, Nat.mod_eq_of_lt (by omega)]
  unfold Kfs.vmalloc
  dsimp only
  rw [if_neg (by omega), hpages, hsize, add32_of_lt (by omega), if_pos]
  unfold vmallocEnd
  omega

theorem SystemInv.vmalloc {n : Nat} (h : SystemInv base total s)
    (hstep : SystemStep s (.vmalloc n, r) s') (hcurrent : s.vm.currentDirectory = some .kernel)
    (hn : n ≤ 0xEFFFF000) :
    SystemInv base total s'
      ∧ Stays (base ∪ s.1.owned) .kernel (vmallocTables s.2 n) s.vm s'.vm := by
  obtain ⟨p, -, hcall, hsame⟩ := hstep.vmalloc
  have hsteady := h.steady
  rw [home_current hcurrent] at hsteady
  have hinv : VmallocInv (base ∪ s.1.owned) s.vm s.2 := hsteady.inv
  have hlow := hinv.regions.highestEnd.1
  have hhigh := hinv.highest
  have hwindows : ∀ w, vmallocTables s.2 n w → 4 ≤ w ∧ w < 64 := by
    rintro w ⟨hpos, hfits, hlo, hhi⟩
    unfold vmallocEnd at hfits
    omega
  by_cases hfit : n ≤ 0x0F000000
  · have hstays : Stays (base ∪ s.1.owned) .kernel (vmallocTables s.2 n) s.vm s'.vm := by
      rcases hinv.vmalloc_start hfit hcall with ⟨-, heq⟩ | ⟨hpos, hfits, -⟩
      · rw [heq]
        exact Stays.refl _ _ _ _
      · exact (hinv.vmalloc_cases hsteady.aligned hfit hcall).2.mono fun w hw => ⟨hpos, hfits, hw⟩
    have hnext : Steady (base ∪ s.1.owned) (s'.vm, s'.2) :=
      @Steady.step _ (s.vm, s.2) (s'.vm, s'.2) (.vmalloc n, p) hsteady ⟨hfit, hcall⟩ rfl
    exact ⟨h.stayed hstays hwindows hnext hsame, hstays⟩
  · rw [vmalloc_beyond (by omega) hinv.top (by omega) hn] at hcall
    obtain ⟨-, heq⟩ := Prod.mk.inj (Except.ok.inj hcall)
    obtain ⟨hvm, ha⟩ := Prod.mk.inj heq
    have hstays : Stays (base ∪ s.1.owned) .kernel (vmallocTables s.2 n) s.vm s'.vm := by
      rw [← hvm]
      exact Stays.refl _ _ _ _
    refine ⟨h.stayed hstays hwindows ?_ hsame, hstays⟩
    rw [← hvm, ← ha]
    exact hsteady

/-- `vfree` returns only from the null pointer and from live regions. -/
theorem vfree_cases {vm vm' : Vm} {a a' : Vmalloc} {p : Nat} (h : vfree vm a p = .ok (vm', a')) :
    (p = 0 ∧ vm' = vm ∧ a' = a) ∨ ∃ r ∈ a.regionList, r.virtAddr = p := by
  unfold Kfs.vfree at h
  split at h
  · next hp =>
      obtain ⟨rfl, rfl⟩ := Prod.mk.inj (Except.ok.inj h)
      exact Or.inl ⟨hp, rfl, rfl⟩
  · split at h
    · cases h
    · next region hfind =>
        have htest := List.find?_some hfind
        exact Or.inr ⟨region, List.mem_of_find?_eq_some hfind, (of_decide_eq_true htest).2⟩

theorem SystemInv.vfree {p : Nat} (h : SystemInv base total s)
    (hstep : SystemStep s (.vfree p, r) s') (hcurrent : s.vm.currentDirectory = some .kernel) :
    SystemInv base total s'
      ∧ Stays (base ∪ s.1.owned) .kernel (fun _ => False) s.vm s'.vm := by
  obtain ⟨hcall, hsame⟩ := hstep.vfree
  have hsteady := h.steady
  rw [home_current hcurrent] at hsteady
  have hinv : VmallocInv (base ∪ s.1.owned) s.vm s.2 := hsteady.inv
  rcases vfree_cases hcall with ⟨-, hvm, ha⟩ | ⟨region, hregion, rfl⟩
  · have hstays : Stays (base ∪ s.1.owned) .kernel (fun _ => False) s.vm s'.vm := by
      rw [hvm]
      exact Stays.refl _ _ _ _
    refine ⟨h.stayed hstays (fun _ => False.elim) ?_ hsame, hstays⟩
    rw [hvm, ha]
    exact hsteady
  · obtain ⟨vm', a', hcall', hinv', hfreed⟩ := hinv.vfree hregion
    rw [hcall] at hcall'
    obtain ⟨rfl, rfl⟩ := Prod.mk.inj (Except.ok.inj hcall')
    exact ⟨h.stayed hfreed.stays (fun _ => False.elim) ⟨hinv', hfreed.current⟩ hsame, hfreed.stays⟩

end Allocator

/-! ## Mapping a page outside the range -/

section MapPage

variable {base : Finset Nat} {total : Nat} {s s' : System} {r : SystemReply}

/-- The table `paging_map_page` writes to is fixed, or was free before. -/
theorem Maps.taken {n table : Nat} {frame : Option Nat} (h : SystemInv base total s)
    (hmaps : Maps s.vm s'.vm .kernel n frame table) (hn : n < 1048576)
    (hout : ¬(4096 ≤ n ∧ n < 65536)) :
    ∃ leak, Takes leak s.vm.pmm s'.vm.pmm ∧ (table ∈ base ∪ leak ∨ total ≤ table)
      ∧ ∀ p, s.1.Live p → table ∉ (s.1.processTable p).memory.frames := by
  rcases hmaps.old with ⟨htable, hpmm⟩ | ⟨-, htakes⟩
  · have hfixed := h.fixed (n / 1024) table (by omega) (by omega) htable
    refine ⟨∅, hpmm.symm ▸ Takes.refl h.regions.ok, ?_, ?_⟩
    · rwa [Finset.union_empty]
    · intro p hp hin
      exact h.regions.owned hp hin (hfixed.imp_left (Finset.mem_union_left _))
  · refine ⟨{table}, htakes, Or.inl (Finset.mem_union_right _ (Finset.mem_singleton_self _)), ?_⟩
    intro p hp hin
    exact Finset.disjoint_left.mp htakes.fresh (h.regions.used hp hin)
      (Finset.mem_singleton_self _)

/-- A page outside the range does not show in it. -/
theorem Maps.held {n table : Nat} {frame : Option Nat} {vm vm' : Vm}
    (hmaps : Maps vm vm' .kernel n frame table) (hout : ¬(4096 ≤ n ∧ n < 65536)) :
    held vm' .kernel = held vm .kernel := by
  funext j
  rcases holder_cases j with ⟨m, hm, rfl⟩ | ⟨i, hi, rfl⟩
  · rw [held_page, held_page, hmaps.flat m (by omega), if_neg (by omega)]
  · rw [held_table, held_table, hmaps.others i (by omega)]

theorem SystemInv.maps {n table : Nat} {frame : Option Nat} (h : SystemInv base total s)
    (hmaps : Maps s.vm s'.vm .kernel n frame table) (hn : n < 1048576)
    (hout : ¬(4096 ≤ n ∧ n < 65536)) (hsame : s'.1 = { s.1 with vm := s'.vm })
    (halloc : s'.2 = s.2) : ∃ base', SystemInv base' total s' ∧ base ⊆ base' := by
  obtain ⟨leak, htakes, htable, hforeign⟩ := hmaps.taken h hn hout
  have hheld := hmaps.held hout
  have hall : allHeld s'.vm = allHeld s.vm := by
    unfold allHeld
    rw [hheld]
  have hprocesses : s'.1.processTable = s.1.processTable := by rw [hsame]
  have hframes : s'.1.framesOf = s.1.framesOf := by rw [hsame]; rfl
  have hledger : Ledger (usedSet s'.vm.pmm) (base ∪ leak ∪ allHeld s'.vm) s'.1.framesOf := by
    rw [htakes.used, hframes, hall, Finset.union_right_comm]
    exact h.regions.ledger.waste htakes.fresh
  have hapart : ∀ j, Disjoint (base ∪ leak) (Kfs.held s'.vm .kernel j) := by
    intro j
    rw [hheld]
    exact Finset.disjoint_union_left.mpr
      ⟨h.apart.1 j, (h.backed.ledger.fresh_owned htakes.fresh j).symm⟩
  have hfixed : ∀ i t, i < 1024 → ¬(4 ≤ i ∧ i < 64) → tableOf s'.vm .kernel i = some t →
      t ∈ base ∪ leak ∨ total ≤ t := by
    intro i t hi hwindow ht
    by_cases heq : i = n / 1024
    · rw [heq, hmaps.here] at ht
      exact Option.some.inj ht ▸ htable
    · rw [hmaps.others i heq] at ht
      exact (h.fixed i t hi hwindow ht).imp_left (Finset.mem_union_left _)
  refine ⟨base ∪ leak, ⟨hsame ▸ h.linkage.withVm _, ⟨htakes.ok, hmaps.touches.kernelDirectory.trans
    h.regions.kernelDirectory, htakes.total.trans h.regions.frames, ?_, hledger,
    ?_⟩, ?_, hfixed⟩, Finset.subset_union_left⟩
  · intro hpos
    exact Finset.mem_union_left _ (Finset.mem_union_left _ (h.low hpos))
  · intro p hp
    have hlive : s.1.Live p := by
      unfold Kernel.Live at hp ⊢
      rwa [hprocesses] at hp
    obtain ⟨b, w, start, tab, frames, hspace⟩ := h.regions.spaces p hlive
    unfold Kernel.HasSpace
    rw [hprocesses]
    refine ⟨b, w, start, tab, frames, hspace.touched (d := .kernel) nofun hmaps.touches ?_⟩
    exact Finset.disjoint_singleton_right.mpr (hforeign p hlive)
  · have htotal : s'.vm.pmm.totalFrames = total := htakes.total.trans h.regions.frames
    have hback : Backed (base ∪ leak ∪ s'.1.owned) .kernel s'.vm.home := by
      refine ⟨hmaps.tables.home, htakes.ok, ?_, rfl, hledger.exchange hapart ?_, ?_⟩
      · intro hpos
        exact Finset.mem_union_left _ (Finset.mem_union_left _ (h.low (htotal ▸ hpos)))
      · rw [hheld]
        exact h.backed.ledger.disjoint
      · intro i t hi hwindow ht
        rcases hfixed i t hi hwindow ht with hin | hge
        · exact Or.inl (Finset.mem_union_left _ hin)
        · exact Or.inr (htotal.le.trans hge)
    rw [halloc]
    refine h.steady.moved hback ?_
    intro m hlo hhi
    show flatOf s'.vm .kernel m = flatOf s.vm .kernel m
    rw [hmaps.flat m (by omega), if_neg (by omega)]

theorem SystemInv.mapPage {virt phys flags : Nat} (h : SystemInv base total s)
    (hstep : SystemStep s (.mapPage virt phys flags, r) s')
    (hcurrent : s.vm.currentDirectory = some .kernel) (hvirt : virt < 4294967296)
    (hout : virt < vmallocStart ∨ vmallocEnd ≤ virt) (hflags : flags &&& pagePresent ≠ 0) :
    ∃ base', SystemInv base' total s' ∧ base ⊆ base' := by
  obtain ⟨hcall, hsame, halloc⟩ := hstep.mapPage
  have hbacked := h.backed
  rw [home_current hcurrent] at hbacked
  unfold pagingMapPage at hcall
  rw [hcurrent] at hcall
  obtain ⟨table, hmaps⟩ := pagingMapPageInDirectory_spec hbacked.tables hbacked.ok
    hbacked.lowUsed hvirt hflags hcall
  have hpage : ¬(4096 ≤ virt / 4096 ∧ virt / 4096 < 65536) := by
    unfold vmallocStart vmallocEnd at hout
    omega
  exact h.maps hmaps (by omega) hpage hsame halloc

end MapPage

/-! ## Boot -/

/-- `process_init` clears directories that are clear. -/
theorem BootReady.vm_eq {vm : Vm} {heap : Heap} (h : BootReady vm heap) :
    (systemInit vm heap).vm = vm := by
  have hdirs : (systemInit vm heap).vm.directories = vm.directories := by
    funext d
    cases d with
    | kernel => rfl
    | process p => exact (h.processes (.process p) nofun).symm
  calc (systemInit vm heap).vm
      = { vm with directories := (systemInit vm heap).vm.directories } := rfl
    _ = vm := by rw [hdirs]

theorem BootReady.systemInv {vm : Vm} {heap : Heap} (h : BootReady vm heap) :
    SystemInv (usedSet vm.pmm) vm.pmm.totalFrames (systemInit vm heap) := by
  have hbacked := h.backed
  have hregions := regions_processInit hbacked.ok hbacked.lowUsed h.kernelDirectory
  -- neither side has anything yet
  have hheld : allHeld (systemInit vm heap).vm = ∅ := by
    rw [h.vm_eq]
    exact hbacked.ledger.nobody
  have howned : (systemInit vm heap).1.owned = ∅ := hregions.ledger.nobody
  refine ⟨linkage_processInit vm, ?_, ?_, fun i t hi hout ht => hbacked.fixed i t hi hout ht⟩
  · rw [hheld, Finset.union_empty]
    exact hregions
  · rw [howned, Finset.union_empty, h.vm_eq, home_current h.refines.current]
    exact ⟨h.vmallocInv, rfl⟩

end Kfs
