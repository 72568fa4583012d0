import Kfs.KmallocRuns
import Kfs.VmallocPages

/-!
# Regions of the allocator

The region list and the map of the kernel directory say the same: a page of
the allocator's range is mapped if and only if a region covers it. The list
is sorted, the newest region first and the highest, since the break is never
below the end of a region (`VmallocInv`).

`vmalloc_cases` takes `vmalloc` apart once; the invariant and what a call
changes are stated for its outcomes, `Refused` and `Granted`.
-/

namespace Kfs

/-! ## The region list -/

/-- The end of a region. -/
def VmRegion.stop (r : VmRegion) : Nat := r.virtAddr + r.mappedSize

/-- The pages of a region. -/
def VmRegion.Covers (r : VmRegion) (n : Nat) : Prop :=
  r.virtAddr / 4096 ≤ n ∧ n < r.virtAddr / 4096 + r.numPages

instance (r : VmRegion) (n : Nat) : Decidable (r.Covers n) := inferInstanceAs (Decidable (_ ∧ _))

structure RegionOk (r : VmRegion) : Prop where
  magic : r.magic = vmMagic
  aligned : r.virtAddr % 4096 = 0
  start : 0x01000000 ≤ r.virtAddr
  top : r.stop ≤ 0x10000000
  mapped : r.mappedSize = 4096 * r.numPages
  size : 0 < r.size ∧ r.size ≤ r.mappedSize

/-- The regions, the highest first. -/
structure RegionsOk (regions : List VmRegion) : Prop where
  each : ∀ r ∈ regions, RegionOk r
  sorted : regions.Pairwise fun r r' => r'.stop ≤ r.virtAddr

section Regions

variable {r r' : VmRegion} {regions : List VmRegion}

/-- In terms of pages. -/
theorem RegionOk.pages (h : RegionOk r) :
    4096 ≤ r.virtAddr / 4096 ∧ r.virtAddr / 4096 + r.numPages ≤ 65536 ∧ 0 < r.numPages
      ∧ r.virtAddr = r.virtAddr / 4096 * 4096
      ∧ r.stop = (r.virtAddr / 4096 + r.numPages) * 4096 := by
  have h1 := h.aligned
  have h2 := h.start
  have h3 := h.top
  have h4 := h.mapped
  have h5 := h.size
  unfold VmRegion.stop at *
  omega

theorem RegionOk.add32_stop (h : RegionOk r) : add32 r.virtAddr r.mappedSize = r.stop :=
  add32_of_lt (by
    have := h.top
    unfold VmRegion.stop at this
    omega)

theorem RegionOk.covers_range (h : RegionOk r) {n : Nat} (hn : r.Covers n) :
    4096 ≤ n ∧ n < 65536 := by
  have := h.pages
  unfold VmRegion.Covers at hn
  omega

theorem RegionsOk.disjoint (h : RegionsOk regions) (hr : r ∈ regions) (hr' : r' ∈ regions) :
    r = r' ∨ r.stop ≤ r'.virtAddr ∨ r'.stop ≤ r.virtAddr := by
  by_cases heq : r = r'
  · exact Or.inl heq
  · have hsym : Std.Symm fun r r' : VmRegion => r.stop ≤ r'.virtAddr ∨ r'.stop ≤ r.virtAddr :=
      ⟨fun _ _ => Or.symm⟩
    have hpair : regions.Pairwise fun r r' => r.stop ≤ r'.virtAddr ∨ r'.stop ≤ r.virtAddr :=
      h.sorted.imp fun h => Or.inr h
    exact Or.inr (hpair.forall hr hr' heq)

theorem RegionsOk.covers_inj (h : RegionsOk regions) (hr : r ∈ regions) (hr' : r' ∈ regions)
    {n : Nat} (hn : r.Covers n) (hn' : r'.Covers n) : r = r' := by
  have hp := (h.each r hr).pages
  have hp' := (h.each r' hr').pages
  unfold VmRegion.Covers at hn hn'
  rcases h.disjoint hr hr' with heq | hle | hle
  · exact heq
  · omega
  · omega

/-- A region is found by its address. -/
theorem RegionsOk.start_inj (h : RegionsOk regions) (hr : r ∈ regions) (hr' : r' ∈ regions)
    (heq : r.virtAddr = r'.virtAddr) : r = r' := by
  have hp := (h.each r hr).pages
  refine h.covers_inj hr hr' (n := r.virtAddr / 4096) ⟨Nat.le_refl _, by omega⟩ ?_
  have hp' := (h.each r' hr').pages
  unfold VmRegion.Covers
  omega

theorem RegionsOk.find (h : RegionsOk regions) (hr : r ∈ regions) :
    vmallocFindRegion regions r.virtAddr = some r := by
  have hat : r.isAt r.virtAddr = true := decide_eq_true ⟨(h.each r hr).magic, rfl⟩
  obtain ⟨r', hfind⟩ := Option.isSome_iff_exists.mp (List.find?_isSome.mpr ⟨r, hr, hat⟩)
  have hat' : r'.isAt r.virtAddr = true := List.find?_some hfind
  obtain rfl := h.start_inj (List.mem_of_find?_eq_some hfind) hr (of_decide_eq_true hat').2
  exact hfind

/-- The loop of `vmalloc_highest_end` from any lower bound. -/
theorem highestEnd_foldl {step : Nat → VmRegion → Nat}
    (hstep : step = fun highest current =>
      let stop := add32 current.virtAddr current.mappedSize
      if stop > highest then stop else highest)
    (h : ∀ r ∈ regions, RegionOk r) (low : Nat) :
    low ≤ regions.foldl step low ∧ (∀ r ∈ regions, r.stop ≤ regions.foldl step low)
      ∧ (regions.foldl step low = low ∨ ∃ r ∈ regions, regions.foldl step low = r.stop) := by
  induction regions generalizing low with
  | nil => exact ⟨Nat.le_refl _, fun _ hr => (List.not_mem_nil hr).elim, Or.inl rfl⟩
  | cons r regions ih =>
      have hfirst : step low r = if r.stop > low then r.stop else low := by
        rw [hstep]
        dsimp only
        rw [(h r List.mem_cons_self).add32_stop]
      have hle : low ≤ (if r.stop > low then r.stop else low)
          ∧ r.stop ≤ (if r.stop > low then r.stop else low) := by
        split <;> omega
      rw [List.foldl_cons, hfirst]
      obtain ⟨hge, hall, hex⟩ := ih (fun r hr => h r (List.mem_cons_of_mem _ hr))
        (if r.stop > low then r.stop else low)
      refine ⟨Nat.le_trans hle.1 hge, ?_, ?_⟩
      · intro r' hr'
        rcases List.mem_cons.mp hr' with rfl | hr'
        · exact Nat.le_trans hle.2 hge
        · exact hall r' hr'
      · rcases hex with heq | ⟨r', hr', heq⟩
        · rw [heq]
          split
          · exact Or.inr ⟨r, List.mem_cons_self, rfl⟩
          · exact Or.inl rfl
        · exact Or.inr ⟨r', List.mem_cons_of_mem _ hr', heq⟩

theorem RegionsOk.highestEnd (h : RegionsOk regions) :
    0x01000000 ≤ vmallocHighestEnd regions ∧ (∀ r ∈ regions, r.stop ≤ vmallocHighestEnd regions)
      ∧ (vmallocHighestEnd regions = 0x01000000
        ∨ ∃ r ∈ regions, vmallocHighestEnd regions = r.stop) :=
  highestEnd_foldl rfl h.each vmallocStart

theorem RegionsOk.highestEnd_aligned (h : RegionsOk regions) :
    vmallocHighestEnd regions % 4096 = 0 ∧ vmallocHighestEnd regions ≤ 0x10000000 := by
  rcases h.highestEnd.2.2 with heq | ⟨r, hr, heq⟩
  · omega
  · have hp := (h.each r hr).pages
    have ht := (h.each r hr).top
    omega

end Regions

/-! ## The heap of the records -/

/-- The pointer of a block in use, on the block list. -/
def Heap.Allocated (h : Heap) (p : Nat) : Prop :=
  ∃ l b, Linked (nextBlock h.mem) (ptr h.blockList) l none ∧ b ∈ l
    ∧ (readHeader h.mem b).free = 0#8 ∧ p = b + headerSize

/-- The live allocations of a client are the blocks in use. -/
theorem HeapInv.allocated {s : HeapClient} (h : HeapInv s) (p : Nat) :
    s.heap.Allocated p ↔ p ∈ s.live.map Prod.fst := by
  obtain ⟨bs, hrep, hlive⟩ := h
  have hfree : ∀ c ∈ bs, (readHeader s.heap.mem c.addr).free = 0#8 ↔ c.free = false := by
    intro c hc
    obtain ⟨pre, post, rfl⟩ := List.append_of_mem hc
    rw [hrep.reps.header]
    have := headerOf_free_ne_zero c (headOr 0 post) (lastOr 0 pre)
    cases hf : c.free with
    | false => simpa [hf] using this
    | true => simpa [hf] using this
  constructor
  · rintro ⟨l, b, hlinked, hb, hused, rfl⟩
    obtain rfl := hlinked.unique hrep.linked
    obtain ⟨c, hc, rfl⟩ := List.mem_map.mp hb
    obtain ⟨e, he, heq⟩ := hlive.owned c hc ((hfree c hc).mp hused)
    rw [headerSize_eq, ← heq]
    exact List.mem_map_of_mem he
  · intro hp
    obtain ⟨e, he, rfl⟩ := List.mem_map.mp hp
    obtain ⟨c, hc, hcf, heq, -⟩ := hlive.block e he
    refine ⟨_, c.addr, hrep.linked, List.mem_map_of_mem hc, (hfree c hc).mpr hcf, ?_⟩
    rw [headerSize_eq, heq]

/-- The records of the regions, as allocations of the heap. -/
def recordsOf (regions : List VmRegion) : List (Nat × Nat) := regions.map fun r => (r.node, 24)

/-- A record that was taken from the heap and given back leaves no trace. -/
theorem HeapInv.undo {heap heap' : Heap} {live : List (Nat × Nat)} {p n : Nat}
    (h : HeapInv ⟨heap, (p, n) :: live⟩) {warned : Bool}
    (hcall : kfree heap p = .ok (heap', warned)) : HeapInv ⟨heap', live⟩ := by
  have hstep := h.step (HeapStep.kfree (s := ⟨heap, (p, n) :: live⟩) List.mem_cons_self hcall)
  obtain ⟨bs, hrep, hlive⟩ := h
  have hnot : p ∉ live.map Prod.fst := (List.nodup_cons.mp hlive.nodup).1
  have hfilter : ((p, n) :: live).filter (fun e => e.1 ≠ p) = live := by
    rw [List.filter_cons_of_neg (by simp)]
    refine List.filter_eq_self.mpr fun e he => decide_eq_true ?_
    rintro rfl
    exact hnot (List.mem_map_of_mem he)
  rwa [hfilter] at hstep

/-! ## The invariant -/

structure VmallocInv (base : Finset Nat) (vm : Vm) (a : Vmalloc) : Prop where
  backed : Backed base .kernel vm
  regions : RegionsOk a.regionList
  mapped : ∀ n, 4096 ≤ n → n < 65536 →
    (flatOf vm .kernel n ≠ none ↔ ∃ r ∈ a.regionList, r.Covers n)
  highest : vmallocHighestEnd a.regionList ≤ a.vmallocCurrent
  top : a.vmallocCurrent ≤ 0x10000000
  count : a.totalRegions = a.regionList.length
  pages : a.totalPagesAllocated = (a.regionList.map VmRegion.numPages).sum
  heap : HeapInv ⟨a.heap, recordsOf a.regionList⟩

/-- The counters cannot overflow: the regions fit below `bound`. -/
theorem pages_sum_le {regions : List VmRegion} (h : RegionsOk regions) {bound : Nat}
    (hbound : 0x01000000 ≤ bound) (hstop : ∀ r ∈ regions, r.stop ≤ bound) :
    (regions.map VmRegion.numPages).sum * 4096 + 0x01000000 ≤ bound
      ∧ regions.length ≤ (regions.map VmRegion.numPages).sum := by
  induction regions generalizing bound with
  | nil => exact ⟨by simpa using hbound, Nat.le_refl 0⟩
  | cons r regions ih =>
      have hr := h.each r List.mem_cons_self
      have hsorted := List.pairwise_cons.mp h.sorted
      obtain ⟨hsum, hlen⟩ := @ih ⟨fun r' hr' => h.each r' (List.mem_cons_of_mem _ hr'), hsorted.2⟩
        r.virtAddr hr.start hsorted.1
      have hpages := hr.pages
      have htop := hstop r List.mem_cons_self
      rw [List.map_cons, List.sum_cons, List.length_cons]
      omega

section Steps

variable {base : Finset Nat} {vm vm' : Vm} {a a' : Vmalloc} {n p : Nat}

theorem VmallocInv.sum_le (h : VmallocInv base vm a) :
    a.totalPagesAllocated ≤ 61440 ∧ a.totalRegions ≤ 61440 := by
  obtain ⟨hsum, hlen⟩ := @pages_sum_le _ h.regions 0x10000000 (by omega)
    fun r hr => (h.regions.each r hr).top
  have h1 := h.pages
  have h2 := h.count
  omega

/-- A call that maps nothing, or takes back what it mapped. -/
structure Refused (base : Finset Nat) (vm vm' : Vm) (a a' : Vmalloc) (p : Nat) : Prop where
  null : p = 0
  backed : Backed base .kernel vm'
  flat : ∀ n, n < 1048576 → flatOf vm' .kernel n = flatOf vm .kernel n
  heap : HeapInv ⟨a'.heap, recordsOf a.regionList⟩
  same : a' = { a with heap := a'.heap }

/-- A call that returns a region. -/
structure Granted (base : Finset Nat) (vm vm' : Vm) (a a' : Vmalloc) (n p : Nat) : Prop where
  address : p = a.vmallocCurrent
  pos : 0 < n
  fits : a.vmallocCurrent + (n + 4095) / 4096 * 4096 ≤ 0x10000000
  backed : Backed base .kernel vm'
  mapped : ∀ m, a.vmallocCurrent / 4096 ≤ m → m < a.vmallocCurrent / 4096 + (n + 4095) / 4096 →
    flatOf vm' .kernel m ≠ none
  others : ∀ m, m < 1048576 →
    m < a.vmallocCurrent / 4096 ∨ a.vmallocCurrent / 4096 + (n + 4095) / 4096 ≤ m →
    flatOf vm' .kernel m = flatOf vm .kernel m
  record : ∃ node heap, a' = linkRegion { a with heap := heap } node n ((n + 4095) / 4096)
    ∧ HeapInv ⟨heap, (node, 24) :: recordsOf a.regionList⟩

/-- The windows a call of `vmalloc` may enter a table for. -/
def vmallocWindows (a : Vmalloc) (n w : Nat) : Prop :=
  a.vmallocCurrent / 4096 / 1024 ≤ w
    ∧ w ≤ (a.vmallocCurrent / 4096 + (n + 4095) / 4096 - 1) / 1024

/-- Above the break nothing is mapped. -/
theorem VmallocInv.clear (h : VmallocInv base vm a) (haligned : a.vmallocCurrent % 4096 = 0)
    {m : Nat} (hlo : a.vmallocCurrent / 4096 ≤ m) (hhi : m < 65536) :
    flatOf vm .kernel m = none := by
  by_contra hsome
  have hhigh := h.regions.highestEnd
  have hcurrent := h.highest
  obtain ⟨r, hr, hcovers⟩ := (h.mapped m (by omega) hhi).mp hsome
  have hstop := hhigh.2.1 r hr
  have hpages := (h.regions.each r hr).pages
  unfold VmRegion.Covers at hcovers
  omega

/-- The end of `vmalloc`, after the loop. -/
def vmallocEnds (a a' : Vmalloc) (n node : Nat) (heap : Heap) (p : Nat) : Bool → Prop
  | true => p = a.vmallocCurrent
    ∧ a' = linkRegion { a with heap := heap } node n ((n + 4095) / 4096)
  | false => p = 0 ∧ HeapInv ⟨a'.heap, recordsOf a.regionList⟩ ∧ a' = { a with heap := a'.heap }

/-- `vmalloc` up to its loop: the call is refused before it, or there is room
for the pages and a record for the region. -/
theorem VmallocInv.vmalloc_start (h : VmallocInv base vm a) (hn : n ≤ 0x0F000000)
    (hcall : vmalloc vm a n = .ok (p, vm', a')) :
    (Refused base vm vm' a a' p ∧ vm' = vm)
      ∨ (0 < n ∧ a.vmallocCurrent + (n + 4095) / 4096 * 4096 ≤ 0x10000000
        ∧ ∃ node heap ok, HeapInv ⟨heap, (node, 24) :: recordsOf a.regionList⟩
          ∧ vmallocPages a.vmallocCurrent ((n + 4095) / 4096) 0 vm = .ok (ok, vm')
          ∧ vmallocEnds a a' n node heap p ok) := by
  have htop := h.top
  have hrefused : ∀ heap, HeapInv ⟨heap, recordsOf a.regionList⟩ →
      (0, vm, { a with heap := heap }) = (p, vm', a') → Refused base vm vm' a a' p ∧ vm' = vm := by
    intro heap hheap heq
    obtain ⟨hp, heq⟩ := Prod.mk.inj heq
    obtain ⟨rfl, rfl⟩ := Prod.mk.inj heq
    exact ⟨⟨hp.symm, h.backed, fun _ _ => rfl, hheap, rfl⟩, rfl⟩
  unfold vmalloc at hcall
  by_cases hzero : n = 0
  · rw [if_pos hzero] at hcall
    exact Or.inl (hrefused a.heap h.heap (Except.ok.inj hcall))
  rw [if_neg hzero] at hcall
  have hpages : add32 n 4095 = n + 4095 := add32_of_lt (by omega)
  have hsize : mul32 ((n + 4095) / 4096) 4096 = (n + 4095) / 4096 * 4096 := by
    rw [mul32_eq, Nat.mod_eq_of_lt (by omega)]
  dsimp only at hcall
  rw [hpages, hsize, add32_of_lt (by omega)] at hcall
  by_cases hroom : a.vmallocCurrent + (n + 4095) / 4096 * 4096 > vmallocEnd
  · rw [if_pos hroom] at hcall
    exact Or.inl (hrefused a.heap h.heap (Except.ok.inj hcall))
  rw [if_neg hroom] at hcall
  obtain ⟨⟨node, heap⟩, hkmalloc, hcall⟩ := bind_eq_ok.mp hcall
  have hheap := h.heap.step
    (HeapStep.kmalloc (s := ⟨a.heap, recordsOf a.regionList⟩) (by decide) hkmalloc)
  dsimp only at hcall hheap
  by_cases hnode : node = 0
  · rw [if_pos hnode] at hcall hheap
    exact Or.inl (hrefused heap hheap (Except.ok.inj hcall))
  rw [if_neg hnode] at hcall hheap
  obtain ⟨⟨ok, vm1⟩, hloop, hcall⟩ := bind_eq_ok.mp hcall
  refine Or.inr ⟨by omega, Nat.not_lt.mp hroom, node, heap, ok, hheap, ?_⟩
  cases ok with
  | true =>
      obtain ⟨hp, heq⟩ := Prod.mk.inj (Except.ok.inj hcall)
      obtain ⟨rfl, rfl⟩ := Prod.mk.inj heq
      exact ⟨hloop, hp.symm, rfl⟩
  | false =>
      obtain ⟨⟨heap', warned⟩, hkfree, hcall⟩ := bind_eq_ok.mp hcall
      obtain ⟨hp, heq⟩ := Prod.mk.inj (Except.ok.inj hcall)
      obtain ⟨rfl, rfl⟩ := Prod.mk.inj heq
      exact ⟨hloop, hp.symm, hheap.undo hkfree, rfl⟩

/-- `vmalloc`, with the break on a page boundary. -/
theorem VmallocInv.vmalloc_cases (h : VmallocInv base vm a)
    (haligned : a.vmallocCurrent % 4096 = 0) (hn : n ≤ 0x0F000000)
    (hcall : vmalloc vm a n = .ok (p, vm', a')) :
    (Refused base vm vm' a a' p ∨ Granted base vm vm' a a' n p)
      ∧ Stays base .kernel (vmallocWindows a n) vm vm' := by
  rcases h.vmalloc_start hn hcall with ⟨hr, rfl⟩ | ⟨hpos, hfits, node, heap, ok, hheap, hloop, hend⟩
  · exact ⟨Or.inl hr, Stays.refl _ _ _ _⟩
  have hhigh := h.regions.highestEnd.1
  have hcurrent := h.highest
  have hstart : a.vmallocCurrent = a.vmallocCurrent / 4096 * 4096 := by omega
  rw [hstart] at hloop
  have hnone : PagesSoFar base .kernel (a.vmallocCurrent / 4096) ((n + 4095) / 4096) 0 vm vm :=
    ⟨h.backed, Stays.refl _ _ _ _, fun m hlo hhi => absurd hhi (by omega), fun m hm _ => rfl⟩
  have hdone := vmallocPages_spec (by omega) (by omega)
    (fun m hlo hhi => h.clear haligned hlo (by omega)) (Nat.zero_add _) hnone hloop
  refine ⟨?_, hdone.stays⟩
  cases ok with
  | true =>
      obtain ⟨hp, ha⟩ := hend
      exact Or.inr ⟨hp, hpos, hfits, hdone.backed, hdone.mapped rfl,
        fun m hm hout => hdone.others m hm (Or.inr hout), node, heap, ha, hheap⟩
  | false =>
      obtain ⟨hp, hheap', ha⟩ := hend
      exact Or.inl ⟨hp, hdone.backed, fun m hm => hdone.others m hm (Or.inl rfl), hheap', ha⟩

/-- With the break inside a page, the first page that is cleared is a page
fault, so a call that returns has mapped nothing. -/
theorem VmallocInv.vmalloc_crossing (h : VmallocInv base vm a)
    (hoffset : a.vmallocCurrent % 4096 ≠ 0) (hn : n ≤ 0x0F000000)
    (hcall : vmalloc vm a n = .ok (p, vm', a')) : Refused base vm vm' a a' p := by
  rcases h.vmalloc_start hn hcall with ⟨hr, rfl⟩ | ⟨hpos, hfits, node, heap, ok, hheap, hloop, hend⟩
  · exact hr
  obtain ⟨m, hm⟩ : ∃ m, (n + 4095) / 4096 = m + 1 := ⟨(n + 4095) / 4096 - 1, by omega⟩
  rw [hm, vmallocPages] at hloop
  rcases allocFrame_cases h.backed.ok h.backed.lowUsed with he | ⟨f, pmm, hne, htakes, he⟩
  · rw [he] at hloop
    obtain ⟨hok, hvm⟩ := Prod.mk.inj (Except.ok.inj hloop)
    rw [forRange_of_le (Nat.le_refl 0)] at hvm
    obtain rfl : vm = vm' := hvm
    rw [← hok] at hend
    obtain ⟨hp, hheap', ha⟩ := hend
    exact ⟨hp, h.backed, fun _ _ => rfl, hheap', ha⟩
  · have hpage : pageAt a.vmallocCurrent 0 = a.vmallocCurrent := by
      unfold pageAt
      rw [mul32_eq, add32_of_lt (by omega)]
      omega
    rw [he] at hloop
    dsimp only at hloop
    rw [if_neg (by omega), hpage] at hloop
    obtain ⟨vm2, hmap, hloop⟩ := bind_eq_ok.mp hloop
    obtain ⟨vm3, hset, -⟩ := bind_eq_ok.mp hloop
    have hhigh := h.regions.highestEnd
    have hcurrent := h.highest
    have hnext : flatOf vm .kernel (a.vmallocCurrent / 4096 + 1) = none := by
      by_contra hsome
      obtain ⟨r, hr, hcovers⟩ := (h.mapped _ (by omega) (by omega)).mp hsome
      have hstop := hhigh.2.1 r hr
      have hpages := (h.regions.each r hr).pages
      unfold VmRegion.Covers at hcovers
      omega
    rw [h.backed.memset_faults (by omega) hoffset hnext htakes hmap] at hset
    cases hset

theorem VmallocInv.refused (h : VmallocInv base vm a) (hr : Refused base vm vm' a a' p) :
    VmallocInv base vm' a' := by
  rw [hr.same]
  refine ⟨hr.backed, h.regions, ?_, h.highest, h.top, h.count, h.pages, hr.heap⟩
  intro m hlo hhi
  rw [hr.flat m (by omega)]
  exact h.mapped m hlo hhi

/-- The region `vmalloc` enters. -/
theorem Granted.region (h : VmallocInv base vm a) (haligned : a.vmallocCurrent % 4096 = 0)
    (hg : Granted base vm vm' a a' n p) :
    ∃ r, RegionOk r ∧ r.virtAddr = a.vmallocCurrent ∧ r.numPages = (n + 4095) / 4096
      ∧ a'.regionList = r :: a.regionList ∧ a'.vmallocCurrent = r.stop
      ∧ a'.totalRegions = a.totalRegions + 1
      ∧ a'.totalPagesAllocated = a.totalPagesAllocated + r.numPages
      ∧ HeapInv ⟨a'.heap, recordsOf (r :: a.regionList)⟩ := by
  obtain ⟨node, heap, rfl, hheap⟩ := hg.record
  have hfits := hg.fits
  have hpos := hg.pos
  have hsum := h.sum_le
  have hhigh := h.regions.highestEnd.1
  have hcurrent := h.highest
  have hsize : mul32 ((n + 4095) / 4096) 4096 = (n + 4095) / 4096 * 4096 := by
    rw [mul32_eq, Nat.mod_eq_of_lt (by omega)]
  refine ⟨⟨node, a.vmallocCurrent, n, mul32 ((n + 4095) / 4096) 4096, (n + 4095) / 4096, vmMagic⟩,
    ?_, rfl, rfl, rfl, ?_, ?_, ?_, hheap⟩
  · rw [hsize]
    refine ⟨rfl, haligned, ?_, ?_, ?_, hpos, ?_⟩
    · show 0x01000000 ≤ a.vmallocCurrent
      omega
    · exact hfits
    · exact Nat.mul_comm _ _
    · show n ≤ (n + 4095) / 4096 * 4096
      omega
  · exact add32_of_lt (by rw [hsize]; dsimp only; omega)
  · exact add32_of_lt (by dsimp only; omega)
  · exact add32_of_lt (by dsimp only; omega)

theorem VmallocInv.granted (h : VmallocInv base vm a) (haligned : a.vmallocCurrent % 4096 = 0)
    (hg : Granted base vm vm' a a' n p) :
    VmallocInv base vm' a' ∧ a'.vmallocCurrent = vmallocHighestEnd a'.regionList := by
  obtain ⟨r, hr, hvirt, hpages, hlist, hbreak, hcount, htotal, hheap⟩ := hg.region h haligned
  have hhigh := h.regions.highestEnd
  have hcurrent := h.highest
  have hregions : RegionsOk (r :: a.regionList) := by
    refine ⟨List.forall_mem_cons.mpr ⟨hr, h.regions.each⟩, List.pairwise_cons.mpr
      ⟨?_, h.regions.sorted⟩⟩
    intro r' hr'
    have := hhigh.2.1 r' hr'
    omega
  -- the new region ends above all others
  have hend : vmallocHighestEnd (r :: a.regionList) = r.stop := by
    have hnew := hregions.highestEnd
    have hself := hnew.2.1 r List.mem_cons_self
    have hp := hr.pages
    rcases hnew.2.2 with heq | ⟨r', hr', heq⟩
    · have := hr.start
      omega
    · rcases List.mem_cons.mp hr' with rfl | hr'
      · exact heq
      · have := hhigh.2.1 r' hr'
        omega
  have hp := hr.pages
  refine ⟨⟨hg.backed, hlist ▸ hregions, ?_, ?_, ?_, ?_, ?_, hlist ▸ hheap⟩, ?_⟩
  · intro m hlo hhi
    rw [hlist]
    by_cases hin : r.Covers m
    · refine iff_of_true (hg.mapped m ?_ ?_) ⟨r, List.mem_cons_self, hin⟩
      · unfold VmRegion.Covers at hin
        omega
      · unfold VmRegion.Covers at hin
        omega
    · have hout : ¬(a.vmallocCurrent / 4096 ≤ m
          ∧ m < a.vmallocCurrent / 4096 + (n + 4095) / 4096) := by
        intro hc
        exact hin ⟨by omega, by omega⟩
      rw [hg.others m (by omega) (by omega), h.mapped m hlo hhi]
      constructor
      · rintro ⟨r', hr', hc⟩
        exact ⟨r', List.mem_cons_of_mem _ hr', hc⟩
      · rintro ⟨r', hr', hc⟩
        rcases List.mem_cons.mp hr' with rfl | hr'
        · exact absurd hc hin
        · exact ⟨r', hr', hc⟩
  · rw [hlist, hend, hbreak]
  · rw [hbreak]
    exact hr.top
  · rw [hlist, hcount, h.count, List.length_cons]
  · rw [hlist, htotal, h.pages, List.map_cons, List.sum_cons, Nat.add_comm]
  · rw [hlist, hend, hbreak]

/-! ## Freeing -/

/-- What `vfree` of region `r` does. -/
structure Freed (base : Finset Nat) (vm vm' : Vm) (a a' : Vmalloc) (r : VmRegion) : Prop where
  regions : ∀ r', r' ∈ a'.regionList ↔ r' ∈ a.regionList ∧ r' ≠ r
  current : a'.vmallocCurrent = vmallocHighestEnd a'.regionList
  flat : ∀ n, n < 1048576 → flatOf vm' .kernel n = if r.Covers n then none else flatOf vm .kernel n
  free : ∀ n addr, r.Covers n → flatOf vm .kernel n = some addr → addr / 4096 ∉ usedSet vm'.pmm
  stays : Stays base .kernel (fun _ => False) vm vm'

theorem recordsOf_filter {pre post : List VmRegion} {r : VmRegion}
    (h : ((recordsOf (pre ++ r :: post)).map Prod.fst).Nodup) :
    (recordsOf (pre ++ r :: post)).filter (fun e => e.1 ≠ r.node) = recordsOf (pre ++ post) := by
  unfold recordsOf at *
  rw [List.map_map, List.map_append, List.map_cons] at h
  obtain ⟨-, hcons, hne⟩ := List.nodup_append.mp h
  have hpost := (List.nodup_cons.mp hcons).1
  have hkeep : ∀ l : List VmRegion, (∀ r' ∈ l, r'.node ≠ r.node) →
      (l.map fun r' => (r'.node, 24)).filter (fun e => e.1 ≠ r.node)
        = l.map fun r' => (r'.node, 24) := by
    intro l hl
    refine List.filter_eq_self.mpr fun e he => decide_eq_true ?_
    obtain ⟨r', hr', rfl⟩ := List.mem_map.mp he
    exact hl r' hr'
  rw [List.map_append, List.map_cons, List.filter_append, List.filter_cons_of_neg (by simp),
    hkeep pre fun r' hr' => hne _ (List.mem_map_of_mem hr') _ List.mem_cons_self,
    hkeep post fun r' hr' heq => hpost (List.mem_map.mpr ⟨r', hr', heq⟩), List.map_append]

/-- `vfree` of a live region returns and keeps the invariant. -/
theorem VmallocInv.vfree (h : VmallocInv base vm a) {r : VmRegion} (hr : r ∈ a.regionList) :
    ∃ vm' a', vfree vm a r.virtAddr = .ok (vm', a') ∧ VmallocInv base vm' a'
      ∧ Freed base vm vm' a a' r := by
  have hrok := h.regions.each r hr
  have hp := hrok.pages
  have hfind := h.regions.find hr
  have hat : r.isAt r.virtAddr = true := decide_eq_true ⟨hrok.magic, rfl⟩
  -- the list is `pre ++ r :: post` and becomes `pre ++ post`
  obtain ⟨r', pre, post, -, hat', hsplit, herase⟩ := List.exists_of_eraseP hr hat
  have hr' : r' ∈ a.regionList := by
    rw [hsplit]
    simp
  obtain rfl := h.regions.start_inj hr' hr (of_decide_eq_true hat').2
  have hsub : RegionsOk (pre ++ post) := by
    have hsublist : (pre ++ post).Sublist a.regionList := by
      rw [hsplit]
      exact (List.sublist_cons_self r' post).append_left pre
    exact ⟨fun r hr => h.regions.each r (hsublist.subset hr), h.regions.sorted.sublist hsublist⟩
  have hnot : r' ∉ pre ++ post := by
    have hsorted := h.regions.sorted
    rw [hsplit] at hsorted
    obtain ⟨-, hcons, hcross⟩ := List.pairwise_append.mp hsorted
    intro hin
    rcases List.mem_append.mp hin with hin | hin
    · have := hcross r' hin r' List.mem_cons_self
      omega
    · have := (List.pairwise_cons.mp hcons).1 r' hin
      omega
  have hmem : ∀ r, r ∈ pre ++ post ↔ r ∈ a.regionList ∧ r ≠ r' := by
    intro r
    rw [hsplit]
    constructor
    · intro hin
      refine ⟨?_, fun heq => hnot (heq ▸ hin)⟩
      rcases List.mem_append.mp hin with hin | hin
      · simp [hin]
      · simp [hin]
    · rintro ⟨hin, hne⟩
      rcases List.mem_append.mp hin with hin | hin
      · exact List.mem_append_left _ hin
      · exact List.mem_append_right _ ((List.mem_cons.mp hin).resolve_left hne)
  -- the pages
  obtain ⟨hback, hstays, hflat, hfree⟩ := h.backed.undoPages (i := r'.numPages) hp.1 hp.2.1
    (fun j hj => (h.mapped _ (by omega) (by omega)).mpr ⟨r', hr', ⟨by omega, by omega⟩⟩)
    fun j vm addr hj hb haddr => vfreePage_eq hb hp.1 (by omega) haddr
  rw [← hp.2.2.2.1] at hback hstays hflat hfree
  generalize hvm : forRange 0 r'.numPages (vfreePage r'.virtAddr) vm = vm' at *
  -- the record
  have hlive : (r'.node, 24) ∈ recordsOf a.regionList :=
    List.mem_map_of_mem (f := fun r => (r.node, 24)) hr'
  obtain ⟨heap', hkfree⟩ := h.heap.progress.2 _ hlive
  have hheap := h.heap.step
    (HeapStep.kfree (s := ⟨a.heap, recordsOf a.regionList⟩) hlive hkfree)
  have hrecords : (recordsOf a.regionList).filter (fun e => e.1 ≠ r'.node)
      = recordsOf (pre ++ post) := by
    obtain ⟨bs, -, hok⟩ := h.heap
    have hnodup := hok.nodup
    rw [hsplit] at hnodup ⊢
    exact recordsOf_filter hnodup
  rw [hrecords] at hheap
  have hcount := h.count
  have hpages := h.pages
  have hsum := h.sum_le
  rw [hsplit, List.length_append, List.length_cons] at hcount
  rw [hsplit, List.map_append, List.map_cons, List.sum_append, List.sum_cons] at hpages
  have hne : r'.virtAddr ≠ 0 := by
    have := hrok.start
    omega
  have hcall : Kfs.vfree vm a r'.virtAddr = .ok (vm',
      { heap := heap'
        regionList := pre ++ post
        totalRegions := sub32 a.totalRegions 1
        totalPagesAllocated := sub32 a.totalPagesAllocated r'.numPages
        vmallocCurrent := vmallocHighestEnd (pre ++ post) }) := by
    unfold Kfs.vfree
    rw [if_neg hne, hfind]
    dsimp only
    rw [hvm, hkfree, herase]
    rfl
  refine ⟨_, _, hcall, ⟨hback, hsub, ?_, Nat.le_refl _,
    hsub.highestEnd_aligned.2, ?_, ?_, hheap⟩, hmem, rfl, ?_, ?_, hstays⟩
  · intro m hlo hhi
    rw [hflat m (by omega)]
    by_cases hc : r'.virtAddr / 4096 ≤ m ∧ m < r'.virtAddr / 4096 + r'.numPages
    · rw [if_pos hc]
      refine iff_of_false (fun hn => hn rfl) ?_
      rintro ⟨r, hin, hcr⟩
      obtain ⟨hin, hne⟩ := (hmem r).mp hin
      exact hne (h.regions.covers_inj hin hr' hcr hc)
    · rw [if_neg hc, h.mapped m hlo hhi]
      constructor
      · rintro ⟨r, hin, hcr⟩
        refine ⟨r, (hmem r).mpr ⟨hin, ?_⟩, hcr⟩
        rintro rfl
        exact hc hcr
      · rintro ⟨r, hin, hcr⟩
        exact ⟨r, ((hmem r).mp hin).1, hcr⟩
  · show sub32 a.totalRegions 1 = (pre ++ post).length
    rw [sub32_of_le (by omega) (by omega), List.length_append]
    omega
  · show sub32 a.totalPagesAllocated r'.numPages = ((pre ++ post).map VmRegion.numPages).sum
    rw [sub32_of_le (by omega) (by omega), List.map_append, List.sum_append]
    omega
  · intro m hm
    rw [hflat m hm]
    rfl
  · intro m addr hc haddr
    unfold VmRegion.Covers at hc
    have hj := hfree (m - r'.virtAddr / 4096) addr (by omega)
    rw [show r'.virtAddr / 4096 + (m - r'.virtAddr / 4096) = m by omega] at hj
    exact hj haddr

end Steps

end Kfs
