import Mathlib.Data.Fintype.BigOperators
import Kfs.Boot
import Kfs.VmallocRegions

/-!
# Runs of the allocator

The calls of `vmalloc`, `vfree` and `vbrk` by the kernel, one after another
from boot, in the kernel directory. Without `vbrk` the break is always the
end of the highest region, and the allocator keeps its layout
(`vmallocRun_layout`) and its frames (`vmallocRun_conserves`).
-/

namespace Kfs

inductive VmallocEvent where
  | vmalloc (size : Nat)
  | vfree (p : Nat)
  | vbrk (increment : Int)
  deriving DecidableEq

/-- What callers pass: a size the range can hold, the address of a live
region, an increment below 16 MB. -/
def VmallocEvent.Allowed (s : Vm × Vmalloc) : VmallocEvent → Prop
  | .vmalloc size => size ≤ 0x0F000000
  | .vfree p => ∃ r ∈ s.2.regionList, r.virtAddr = p
  | .vbrk increment => -0x01000000 < increment ∧ increment < 0x01000000

instance (s : Vm × Vmalloc) : (e : VmallocEvent) → Decidable (e.Allowed s)
  | .vmalloc _ => inferInstanceAs (Decidable (_ ≤ _))
  | .vfree _ => inferInstanceAs (Decidable (∃ r ∈ _, _))
  | .vbrk _ => inferInstanceAs (Decidable (_ ∧ _))

/-- The call, with what it returns. -/
def VmallocEvent.exec (s : Vm × Vmalloc) : VmallocEvent → Except Fault (Nat × Vm × Vmalloc)
  | .vmalloc size => Kfs.vmalloc s.1 s.2 size
  | .vfree p => (Kfs.vfree s.1 s.2 p).map fun s => (0, s)
  | .vbrk increment => .ok ((Kfs.vbrk s.2 increment).1, s.1, (Kfs.vbrk s.2 increment).2)

def VmallocStep (s : Vm × Vmalloc) (label : VmallocEvent × Nat) (s' : Vm × Vmalloc) : Prop :=
  label.1.Allowed s ∧ label.1.exec s = .ok (label.2, s')

/-- `VmallocStep` as a function. -/
def vmallocExec (s : Vm × Vmalloc) (e : VmallocEvent) : Option (Nat × Vm × Vmalloc) :=
  if e.Allowed s then (e.exec s).toOption else none

theorem vmallocExec_step ⦃s : Vm × Vmalloc⦄ ⦃e : VmallocEvent⦄ ⦃r : Nat⦄ ⦃s' : Vm × Vmalloc⦄
    (h : vmallocExec s e = some (r, s')) : VmallocStep s (e, r) s' := by
  unfold vmallocExec at h
  split at h
  · next hallowed => exact ⟨hallowed, eq_ok_of_toOption h⟩
  · cases h

/-- A call of `vbrk`. -/
def VmallocEvent.isVbrk : VmallocEvent → Bool
  | .vbrk _ => true
  | _ => false

/-! ## The invariant along runs -/

section Boot

variable {vm : Vm} {heap : Heap}

theorem BootReady.backed (h : BootReady vm heap) : Backed (usedSet vm.pmm) .kernel vm := by
  have hempty : held vm .kernel = fun _ => ∅ := by
    funext j
    rcases holder_cases j with ⟨n, hn, rfl⟩ | ⟨i, hi, rfl⟩
    · rw [held_page, h.refines.flat n (by omega), identityMap, if_neg (by omega)]
      rfl
    · rw [held_table]
      cases ht : tableOf vm .kernel i with
      | none => rfl
      | some t => exact absurd (h.tables i t ht).1 (by omega)
  refine ⟨h.refines.tables, h.refines.ok, h.refines.low, h.refines.current, ?_, ?_⟩
  · rw [hempty]
    refine ⟨?_, fun _ => Finset.disjoint_empty_right _, fun _ _ _ => Finset.disjoint_empty_left _⟩
    ext f
    simp
  · intro i t hi hout ht
    by_cases hlt : t < vm.pmm.totalFrames
    · exact Or.inl (mem_usedSet.mpr ⟨hlt, h.refines.tables.used i t hi ht⟩)
    · exact Or.inr (Nat.not_lt.mp hlt)

theorem BootReady.vmallocInv (h : BootReady vm heap) :
    VmallocInv (usedSet vm.pmm) vm (vmallocInit heap) := by
  refine ⟨h.backed, ⟨fun _ hr => (List.not_mem_nil hr).elim, List.Pairwise.nil⟩,
    fun n hlo hhi => ?_, Nat.le_refl _, ?_, rfl, rfl, h.heap⟩
  swap
  · show vmallocStart ≤ 0x10000000
    decide
  rw [h.refines.flat n (by omega), identityMap, if_neg (by omega)]
  refine iff_of_false (fun hne => hne rfl) ?_
  rintro ⟨r, hr, -⟩
  exact List.not_mem_nil hr

end Boot

/-- The invariant of runs without `vbrk`. -/
structure Steady (base : Finset Nat) (s : Vm × Vmalloc) : Prop where
  inv : VmallocInv base s.1 s.2
  current : s.2.vmallocCurrent = vmallocHighestEnd s.2.regionList

theorem Steady.aligned {base : Finset Nat} {s : Vm × Vmalloc} (h : Steady base s) :
    s.2.vmallocCurrent % 4096 = 0 := by
  rw [h.current]
  exact h.inv.regions.highestEnd_aligned.1

theorem Steady.step {base : Finset Nat} {s s' : Vm × Vmalloc} {label : VmallocEvent × Nat}
    (h : Steady base s) (hstep : VmallocStep s label s') (hvbrk : label.1.isVbrk = false) :
    Steady base s' := by
  obtain ⟨e, r⟩ := label
  obtain ⟨hallowed, hexec⟩ := hstep
  cases e with
  | vmalloc n =>
      rcases (h.inv.vmalloc_cases h.aligned hallowed hexec).1 with hr | hg
      · refine ⟨h.inv.refused hr, ?_⟩
        rw [hr.same]
        exact h.current
      · obtain ⟨hinv, hcurrent⟩ := h.inv.granted h.aligned hg
        exact ⟨hinv, hcurrent⟩
  | vfree p =>
      obtain ⟨region, hregion, rfl⟩ := hallowed
      obtain ⟨vm', a', hcall, hinv, hfreed⟩ := h.inv.vfree hregion
      have hcall' : (Kfs.vfree s.1 s.2 region.virtAddr).map (fun s => (0, s)) = .ok (r, s') := hexec
      rw [hcall] at hcall'
      obtain ⟨-, rfl⟩ := Prod.mk.inj (Except.ok.inj hcall')
      exact ⟨hinv, hfreed.current⟩
  | vbrk k => cases hvbrk

theorem vmallocRun_steady {vm : Vm} {heap : Heap} (hboot : Booted vm heap)
    {labels : List (VmallocEvent × Nat)} {s : Vm × Vmalloc}
    (hrun : Run VmallocStep (vm, vmallocInit heap) labels s)
    (hvbrk : ∀ label ∈ labels, label.1.isVbrk = false) : Steady (usedSet vm.pmm) s := by
  refine hrun.invariant_trace (I := fun labels s =>
    (∀ label ∈ labels, label.1.isVbrk = false) → Steady (usedSet vm.pmm) s)
    (fun _ => ⟨hboot.ready.vmallocInv, rfl⟩) ?_ hvbrk
  intro labels s label s' ih hstep hall
  exact (ih fun l hl => hall l (List.mem_append_left _ hl)).step hstep (hall label (by simp))

/-! ## Layout -/

/-- The bytes of a region. -/
def VmRegion.Has (r : VmRegion) (v : Nat) : Prop := r.virtAddr ≤ v ∧ v < r.virtAddr + r.mappedSize

instance (r : VmRegion) (v : Nat) : Decidable (r.Has v) := inferInstanceAs (Decidable (_ ∧ _))

structure VmallocLayout (vm : Vm) (a : Vmalloc) : Prop where
  aligned : ∀ r ∈ a.regionList, r.virtAddr % 4096 = 0
  inside : ∀ r ∈ a.regionList,
    vmallocStart ≤ r.virtAddr ∧ r.virtAddr + r.mappedSize ≤ vmallocEnd
  size : ∀ r ∈ a.regionList,
    r.mappedSize = 4096 * r.numPages ∧ r.size ≤ r.mappedSize ∧ 0 < r.size
  disjoint : a.regionList.Pairwise fun r r' =>
    r.virtAddr + r.mappedSize ≤ r'.virtAddr ∨ r'.virtAddr + r'.mappedSize ≤ r.virtAddr
  mapped : ∀ r ∈ a.regionList, ∀ v, r.Has v →
    pagingIsMapped vm v = true ∧ pagingGetPhysical vm v / 4096 ∈ usedSet vm.pmm
  unshared : ∀ r ∈ a.regionList, ∀ r' ∈ a.regionList, ∀ v v', r.Has v → r'.Has v' →
    pagingGetPhysical vm v / 4096 = pagingGetPhysical vm v' / 4096 → v / 4096 = v' / 4096
  unmapped : ∀ v, vmallocStart ≤ v → v < vmallocEnd → (∀ r ∈ a.regionList, ¬r.Has v) →
    pagingIsMapped vm v = false
  current : (a.regionList = [] ∧ a.vmallocCurrent = vmallocStart)
    ∨ ((∃ r ∈ a.regionList, a.vmallocCurrent = r.virtAddr + r.mappedSize)
      ∧ ∀ r ∈ a.regionList, r.virtAddr + r.mappedSize ≤ a.vmallocCurrent)
  regions : a.totalRegions = a.regionList.length
  pages : a.totalPagesAllocated = (a.regionList.map VmRegion.numPages).sum

section Layout

variable {base : Finset Nat} {vm : Vm} {a : Vmalloc} {r : VmRegion} {v : Nat}

theorem RegionOk.has_iff (h : RegionOk r) : r.Has v ↔ r.Covers (v / 4096) := by
  have hp := h.pages
  unfold VmRegion.Has VmRegion.Covers
  unfold VmRegion.stop at hp
  omega

/-- The frame behind an address is the frame of its page. -/
theorem Backed.getPhysical_frame (h : Backed base .kernel vm) (hv : v < 4294967296) {addr : Nat}
    (hflat : flatOf vm .kernel (v / 4096) = some addr) :
    pagingGetPhysical vm v / 4096 = addr / 4096 := by
  obtain ⟨f, rfl⟩ : ∃ f, addr = f * 4096 := ⟨addr / 4096, by
    have := (flatOf_aligned hflat).1
    omega⟩
  unfold pagingGetPhysical
  rw [h.current, h.tables.getPhysical hv]
  unfold translate
  rw [hflat]
  show (f * 4096 ||| pageOffset v) / 4096 = _
  rw [pageOffset_eq, frame_or f (by omega)]
  omega

theorem VmallocInv.page (h : VmallocInv base vm a) (hr : r ∈ a.regionList) (hv : r.Has v) :
    4096 ≤ v / 4096 ∧ v / 4096 < 65536 ∧ ∃ addr, flatOf vm .kernel (v / 4096) = some addr := by
  have hok := h.regions.each r hr
  have hcovers := hok.has_iff.mp hv
  have hrange := hok.covers_range hcovers
  obtain ⟨addr, haddr⟩ := Option.ne_none_iff_exists'.mp
    ((h.mapped _ hrange.1 hrange.2).mpr ⟨r, hr, hcovers⟩)
  exact ⟨hrange.1, hrange.2, addr, haddr⟩

theorem Steady.layout {s : Vm × Vmalloc} (h : Steady base s) : VmallocLayout s.1 s.2 := by
  obtain ⟨vm, a⟩ := s
  have hinv := h.inv
  have hback := hinv.backed
  refine ⟨fun r hr => (hinv.regions.each r hr).aligned, ?_, ?_,
    hinv.regions.sorted.imp fun h => Or.inr h, ?_, ?_, ?_, ?_, hinv.count, hinv.pages⟩
  · intro r hr
    exact ⟨(hinv.regions.each r hr).start, (hinv.regions.each r hr).top⟩
  · intro r hr
    have hok := hinv.regions.each r hr
    exact ⟨hok.mapped, hok.size.2, hok.size.1⟩
  · intro r hr v hv
    obtain ⟨hlo, hhi, addr, haddr⟩ := hinv.page hr hv
    refine ⟨?_, ?_⟩
    · rw [hback.tables.isMapped hback.current (by omega), haddr]
      rfl
    · rw [hback.getPhysical_frame (by omega) haddr]
      exact (hback.frame ⟨hlo, hhi⟩ haddr).1
  · intro r hr r' hr' v v' hv hv' heq
    obtain ⟨hlo, hhi, addr, haddr⟩ := hinv.page hr hv
    obtain ⟨hlo', hhi', addr', haddr'⟩ := hinv.page hr' hv'
    rw [hback.getPhysical_frame (by omega) haddr, hback.getPhysical_frame (by omega) haddr'] at heq
    exact hback.page_inj ⟨hlo, hhi⟩ ⟨hlo', hhi'⟩ haddr haddr' heq
  · intro v hlo hhi hout
    unfold vmallocStart at hlo
    unfold vmallocEnd at hhi
    rw [hback.tables.isMapped hback.current (by omega)]
    have hnone : flatOf vm .kernel (v / 4096) = none := by
      by_contra hsome
      obtain ⟨r, hr, hcovers⟩ := (hinv.mapped _ (by omega) (by omega)).mp hsome
      exact hout r hr ((hinv.regions.each r hr).has_iff.mpr hcovers)
    show (flatOf vm .kernel (v / 4096)).isSome = false
    rw [hnone]
    rfl
  · have hhigh := hinv.regions.highestEnd
    rw [← h.current] at hhigh
    rcases hhigh.2.2 with heq | ⟨r, hr, heq⟩
    · cases hlist : a.regionList with
      | nil => exact Or.inl ⟨rfl, heq⟩
      | cons r rest =>
          -- a region ends above the start of the range
          have hr : r ∈ a.regionList := by
            rw [hlist]
            exact List.mem_cons_self
          have hle := hhigh.2.1 r hr
          have hp := (hinv.regions.each r hr).pages
          omega
    · exact Or.inr ⟨⟨r, hr, heq⟩, hhigh.2.1⟩

end Layout

/-- In every state `vmalloc` and `vfree` reach from boot the regions are laid
out as they should be. -/
theorem vmallocRun_layout {vm : Vm} {heap : Heap} (hboot : Booted vm heap)
    {labels : List (VmallocEvent × Nat)} {s : Vm × Vmalloc}
    (hrun : Run VmallocStep (vm, vmallocInit heap) labels s)
    (hvbrk : ∀ label ∈ labels, label.1.isVbrk = false) : VmallocLayout s.1 s.2 :=
  (vmallocRun_steady hboot hrun hvbrk).layout

/-- Three regions, of which the middle one is freed. -/
theorem vmallocRun_layout_middle :
    ∃ s, Run VmallocStep (machine 4096 2576, vmallocInit machineHeap)
        [(.vmalloc 5000, 0x1000000), (.vmalloc 1, 0x1002000), (.vmalloc 4096, 0x1003000),
          (.vfree 0x1002000, 0)] s
      ∧ s.2.totalRegions = 2 ∧ VmallocLayout s.1 s.2 := by
  obtain ⟨s, hrun, hcount⟩ := execRun_observe vmallocExec_step
    (machine 4096 2576, vmallocInit machineHeap)
    [.vmalloc 5000, .vmalloc 1, .vmalloc 4096, .vfree 0x1002000]
    [0x1000000, 0x1002000, 0x1003000, 0] (fun s => s.2.totalRegions = 2) (by decide +kernel)
  have hboot : Booted (machine 4096 2576) machineHeap :=
    rangeMachine_booted (by decide) (by decide) (by decide)
  exact ⟨s, hrun, hcount, vmallocRun_layout hboot hrun (by decide)⟩

/-! ## Conservation -/

/-- The windows of the range that have a page table. -/
def tableWindows (vm : Vm) : Finset Nat :=
  (Finset.Ico 4 64).filter fun i => (tableOf vm .kernel i).isSome

/-- Beyond the frames of `boot`, the frames of the regions' pages and one for
each table are in use. -/
structure FramesConserved (boot : Pmm) (vm : Vm) (a : Vmalloc) : Prop where
  exact : ∀ f, f ∈ usedSet vm.pmm ↔ f ∈ usedSet boot
    ∨ (∃ r ∈ a.regionList, ∃ v, r.Has v ∧ pagingGetPhysical vm v / 4096 = f)
    ∨ ∃ i ∈ tableWindows vm, tableOf vm .kernel i = some f
  count : vm.pmm.usedFrames
    = boot.usedFrames + (a.regionList.map VmRegion.numPages).sum + (tableWindows vm).card

/-- The call left everything but the heap's own bookkeeping as it was. -/
structure Untouched (vm vm' : Vm) (a a' : Vmalloc) : Prop where
  translation : ∀ v, v < 4294967296 →
    pagingGetPhysicalInDirectory vm' (some .kernel) v
      = pagingGetPhysicalInDirectory vm (some .kernel) v
  mapped : ∀ v, v < 4294967296 → pagingIsMapped vm' v = pagingIsMapped vm v
  regions : a'.regionList = a.regionList
  current : a'.vmallocCurrent = a.vmallocCurrent
  count : a'.totalRegions = a.totalRegions
  pages : a'.totalPagesAllocated = a.totalPagesAllocated
  heap : ∀ p, a'.heap.Allocated p ↔ a.heap.Allocated p

/-- As many pages as the regions say. -/
theorem covered_card {regions : List VmRegion} (h : RegionsOk regions) :
    ((Finset.Ico 4096 65536).filter fun n => ∃ r ∈ regions, r.Covers n).card
      = (regions.map VmRegion.numPages).sum := by
  induction regions with
  | nil => simp
  | cons r regions ih =>
      have hrest : RegionsOk regions :=
        ⟨fun r' hr' => h.each r' (List.mem_cons_of_mem _ hr'), (List.pairwise_cons.mp h.sorted).2⟩
      have hp := (h.each r List.mem_cons_self).pages
      have hsplit : ((Finset.Ico 4096 65536).filter fun n => ∃ r' ∈ r :: regions, r'.Covers n)
          = Finset.Ico (r.virtAddr / 4096) (r.virtAddr / 4096 + r.numPages)
            ∪ (Finset.Ico 4096 65536).filter fun n => ∃ r' ∈ regions, r'.Covers n := by
        ext n
        simp only [Finset.mem_filter, Finset.mem_Ico, Finset.mem_union, List.exists_mem_cons_iff]
        constructor
        · rintro ⟨hn, hc | hc⟩
          · exact Or.inl hc
          · exact Or.inr ⟨hn, hc⟩
        · rintro (hc | ⟨hn, hc⟩)
          · exact ⟨by omega, Or.inl hc⟩
          · exact ⟨hn, Or.inr hc⟩
      have hapart : Disjoint (Finset.Ico (r.virtAddr / 4096) (r.virtAddr / 4096 + r.numPages))
          ((Finset.Ico 4096 65536).filter fun n => ∃ r' ∈ regions, r'.Covers n) := by
        refine Finset.disjoint_left.mpr ?_
        intro n hn hin
        obtain ⟨-, r', hr', hc⟩ := Finset.mem_filter.mp hin
        have hle := (List.pairwise_cons.mp h.sorted).1 r' hr'
        have hp' := (h.each r' (List.mem_cons_of_mem _ hr')).pages
        rw [Finset.mem_Ico] at hn
        unfold VmRegion.Covers at hc
        omega
      rw [hsplit, Finset.card_union_of_disjoint hapart, ih hrest, Nat.card_Ico, List.map_cons,
        List.sum_cons]
      omega

/-- Each holder has one frame or none. -/
theorem sum_toFinset_card (s : Finset Nat) (g : Nat → Option Nat) :
    ∑ n : s, ((g n.val).toFinset).card = (s.filter fun n => (g n).isSome).card := by
  rw [Finset.card_filter, Finset.sum_coe_sort s fun n => ((g n).toFinset).card]
  refine Finset.sum_congr rfl ?_
  intro n _
  cases g n with
  | none => rfl
  | some f => rfl

theorem held_card (vm : Vm) :
    ∑ j, (held vm .kernel j).card
      = ((Finset.Ico 4096 65536).filter fun n =>
          ((flatOf vm .kernel n).map (· / 4096)).isSome).card
        + (tableWindows vm).card := by
  rw [Fintype.sum_sum_type]
  exact congrArg₂ (· + ·) (sum_toFinset_card _ fun n => (flatOf vm .kernel n).map (· / 4096))
    (sum_toFinset_card _ fun i => tableOf vm .kernel i)

section Conserved

variable {vm : Vm} {s : Vm × Vmalloc}

theorem Steady.conserved (hok : PmmOk vm.pmm) (h : Steady (usedSet vm.pmm) s) :
    FramesConserved vm.pmm s.1 s.2 := by
  have hinv := h.inv
  have hback := hinv.backed
  constructor
  · intro f
    rw [hback.ledger.total, Finset.mem_union, Finset.mem_biUnion]
    refine or_congr_right ?_
    constructor
    · rintro ⟨j, -, hj⟩
      rcases holder_cases j with ⟨n, hn, rfl⟩ | ⟨i, hi, rfl⟩
      · rw [held_page, Option.mem_toFinset, Option.mem_def, Option.map_eq_some_iff] at hj
        obtain ⟨addr, haddr, rfl⟩ := hj
        obtain ⟨r, hr, hc⟩ := (hinv.mapped n hn.1 hn.2).mp
          (by rw [haddr]; exact Option.some_ne_none _)
        have hpage : n * 4096 / 4096 = n := Nat.mul_div_cancel n (by omega)
        refine Or.inl ⟨r, hr, n * 4096, (hinv.regions.each r hr).has_iff.mpr (by rwa [hpage]), ?_⟩
        exact hback.getPhysical_frame (by omega) (by rwa [hpage])
      · rw [held_table, Option.mem_toFinset, Option.mem_def] at hj
        refine Or.inr ⟨i, Finset.mem_filter.mpr ⟨Finset.mem_Ico.mpr hi, ?_⟩, hj⟩
        rw [hj]
        rfl
    · rintro (⟨r, hr, v, hv, rfl⟩ | ⟨i, hi, ht⟩)
      · obtain ⟨hlo, hhi, addr, haddr⟩ := hinv.page hr hv
        refine ⟨pageHolder (v / 4096) ⟨hlo, hhi⟩, Finset.mem_univ _, ?_⟩
        rw [hback.getPhysical_frame (by omega) haddr]
        exact mem_held_page _ haddr
      · exact ⟨tableHolder i (Finset.mem_Ico.mp (Finset.mem_filter.mp hi).1), Finset.mem_univ _,
          mem_held_table _ ht⟩
  · have hpages : ((Finset.Ico 4096 65536).filter fun n =>
        ((flatOf s.1 .kernel n).map (· / 4096)).isSome)
        = (Finset.Ico 4096 65536).filter fun n => ∃ r ∈ s.2.regionList, r.Covers n := by
      refine Finset.filter_congr ?_
      intro n hn
      have hrange := Finset.mem_Ico.mp hn
      rw [← hinv.mapped n hrange.1 hrange.2, Option.isSome_map, Option.isSome_iff_ne_none]
    rw [hback.ok.exact, hback.ledger.card, held_card, hpages, covered_card hinv.regions, hok.exact,
      Nat.add_assoc]

theorem Refused.untouched {base : Finset Nat} {vm' : Vm} {a' : Vmalloc} {p : Nat}
    (h : Steady base s) (hr : Refused base s.1 vm' s.2 a' p) : Untouched s.1 vm' s.2 a' := by
  have hback := h.inv.backed
  have hpage : ∀ v, v < 4294967296 →
      flatOf vm' .kernel (v / 4096) = flatOf s.1 .kernel (v / 4096) := fun v hv =>
    hr.flat _ (by omega)
  refine ⟨?_, ?_, ?_, ?_, ?_, ?_, ?_⟩
  · intro v hv
    rw [hr.backed.tables.getPhysical hv, hback.tables.getPhysical hv]
    unfold translate
    rw [hpage v hv]
  · intro v hv
    rw [hr.backed.tables.isMapped hr.backed.current hv, hback.tables.isMapped hback.current hv,
      hpage v hv]
  · rw [hr.same]
  · rw [hr.same]
  · rw [hr.same]
  · rw [hr.same]
  · intro q
    exact (hr.heap.allocated q).trans (h.inv.heap.allocated q).symm

end Conserved

/-- Frames are conserved, a failed `vmalloc` leaves no trace and `vfree` gives
everything back. -/
theorem vmallocRun_conserves {vm : Vm} {heap : Heap} (hboot : Booted vm heap)
    {labels : List (VmallocEvent × Nat)} {s : Vm × Vmalloc}
    (hrun : Run VmallocStep (vm, vmallocInit heap) labels s)
    (hvbrk : ∀ label ∈ labels, label.1.isVbrk = false) :
    FramesConserved vm.pmm s.1 s.2
      ∧ (∀ n vm' a', n ≤ 0x0F000000 → vmalloc s.1 s.2 n = .ok (0, vm', a') →
        Untouched s.1 vm' s.2 a')
      ∧ ∀ r ∈ s.2.regionList, ∃ vm' a', vfree s.1 s.2 r.virtAddr = .ok (vm', a')
        ∧ ∀ v, r.Has v → pagingIsMapped vm' v = false
          ∧ bitmapTest vm'.pmm (pagingGetPhysical s.1 v / 4096) = false := by
  have h := vmallocRun_steady hboot hrun hvbrk
  have hback := h.inv.backed
  refine ⟨h.conserved hboot.ready.refines.ok, ?_, ?_⟩
  · intro n vm' a' hn hcall
    rcases (h.inv.vmalloc_cases h.aligned hn hcall).1 with hr | hg
    · exact hr.untouched h
    · -- a region never starts at the null address
      have hstart := h.inv.regions.highestEnd.1
      have hcurrent := h.inv.highest
      have haddress := hg.address
      omega
  · intro r hr
    obtain ⟨vm', a', hcall, hinv, hfreed⟩ := h.inv.vfree hr
    refine ⟨vm', a', hcall, ?_⟩
    intro v hv
    have hcovers := (h.inv.regions.each r hr).has_iff.mp hv
    obtain ⟨hlo, hhi, addr, haddr⟩ := h.inv.page hr hv
    constructor
    · rw [hinv.backed.tables.isMapped hinv.backed.current (by omega), hfreed.flat _ (by omega),
        if_pos hcovers]
      rfl
    · have hused := (hback.frame ⟨hlo, hhi⟩ haddr).1
      have hfree := hfreed.free _ _ hcovers haddr
      rw [hback.getPhysical_frame (by omega) haddr]
      rw [mem_usedSet, hfreed.stays.total, not_and] at hfree
      exact Bool.eq_false_iff.mpr (hfree (mem_usedSet.mp hused).1)

/-- Eight frames are free; the second call finds five of the eight it needs. -/
theorem vmallocRun_conserves_rollback :
    ∃ s vm' a', Run VmallocStep (machine 4096 4088, vmallocInit machineHeap)
        [(.vmalloc 8192, 0x1000000)] s
      ∧ vmalloc s.1 s.2 0x8000 = .ok (0, vm', a') ∧ Untouched s.1 vm' s.2 a' := by
  obtain ⟨s, hrun, hnull⟩ := execRun_observe vmallocExec_step
    (machine 4096 4088, vmallocInit machineHeap) [.vmalloc 8192] [0x1000000]
    (fun s => (vmalloc s.1 s.2 0x8000).toOption.map Prod.fst = some 0) (by decide +kernel)
  obtain ⟨⟨vm', a'⟩, hcall⟩ := eq_ok_of_fst hnull
  have hboot : Booted (machine 4096 4088) machineHeap :=
    rangeMachine_booted (by decide) (by decide) (by decide)
  exact ⟨s, vm', a', hrun, hcall,
    (vmallocRun_conserves hboot hrun (by decide)).2.1 _ _ _ (by decide) hcall⟩

end Kfs
