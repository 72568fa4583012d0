import Mathlib.Algebra.BigOperators.Group.List.Basic
import Kfs.KmallocUndo

/-!
# Heap statistics

`kmalloc_get_stats` walks the block list and adds up, on 32 bits. The blocks
tile the heap, so nothing wraps, and the bytes of the used blocks, the free
payloads and the headers of the free blocks make up the heap
(`tiles_bytes`). The live allocations are the used blocks, one each
(`LiveOk.perm`). What the two counters of the allocator have to do with it is
an invariant of its own (`Counted`).
-/

namespace Kfs

/-- The bytes of the used blocks, with their headers. -/
def usedBytes (bs : List Block) : Nat := ((usedBlocks bs).map fun b => b.size + headerSize).sum

def freeBlocks (bs : List Block) : List Block := bs.filter Block.free

/-- The bytes of the free blocks, without their headers. -/
def freeBytes (bs : List Block) : Nat := ((freeBlocks bs).map Block.size).sum

/-- The statistics of a heap with live allocations. -/
structure StatsExact (s : HeapClient) (stats : KmallocStats) : Prop where
  live : stats.numAllocations = s.live.length
  counters : stats.numAllocations = sub32 s.heap.totalAllocations s.heap.totalFrees
  heapSize : stats.heapSize = s.heap.heapEnd - s.heap.heapStart
  bytes : stats.heapSize = stats.usedSize + stats.freeSize + headerSize * stats.numFreeBlocks
  used : stats.usedSize = (s.live.map fun e => ksize s.heap e.1 + headerSize).sum

/-! ## The walk -/

theorem countBlocks_linked {m : Mem} : ∀ {l : List Nat} {fuel : Nat} {p : Option Nat}
    (stats : KmallocStats), Linked (nextBlock m) p l none → l.length < fuel →
    countBlocks m fuel p stats
      = .ok (l.foldl (fun stats b => stats.count (readHeader m b)) stats)
  | [], fuel + 1, _, _, h, _ => by
      obtain rfl : _ = none := h
      rfl
  | x :: l, fuel + 1, _, stats, h, hlen => by
      obtain ⟨rfl, hl⟩ := h
      exact countBlocks_linked (stats.count (readHeader m x)) hl (by simpa using hlen)

section Sums

variable {b : Block} (bs : List Block)

theorem usedBytes_used (h : b.free = false) :
    usedBytes (b :: bs) = b.size + headerSize + usedBytes bs := by
  rw [usedBytes, usedBlocks_used bs h, List.map_cons, List.sum_cons]
  rfl

theorem usedBytes_free (h : b.free = true) : usedBytes (b :: bs) = usedBytes bs := by
  rw [usedBytes, usedBlocks_free bs h]
  rfl

theorem freeBlocks_free (h : b.free = true) : freeBlocks (b :: bs) = b :: freeBlocks bs :=
  List.filter_cons_of_pos h

theorem freeBlocks_used (h : b.free = false) : freeBlocks (b :: bs) = freeBlocks bs :=
  List.filter_cons_of_neg (by simp [h])

theorem freeBytes_free (h : b.free = true) : freeBytes (b :: bs) = b.size + freeBytes bs := by
  rw [freeBytes, freeBlocks_free bs h, List.map_cons, List.sum_cons]
  rfl

theorem freeBytes_used (h : b.free = false) : freeBytes (b :: bs) = freeBytes bs := by
  rw [freeBytes, freeBlocks_used bs h]
  rfl

end Sums

/-- No byte of a tiling is lost or counted twice. -/
theorem tiles_bytes : ∀ {bs : List Block} {lo hi : Nat}, Tiles lo bs hi →
    lo + (usedBytes bs + freeBytes bs + headerSize * (freeBlocks bs).length) = hi
  | [], _, _, h => h
  | b :: bs, lo, hi, ⟨haddr, hbs⟩ => by
      have ih := tiles_bytes hbs
      rw [headerSize_eq] at ih
      unfold Block.stop at ih
      cases hb : b.free with
      | true =>
          rw [usedBytes_free bs hb, freeBytes_free bs hb, freeBlocks_free bs hb, List.length_cons,
            headerSize_eq]
          omega
      | false =>
          rw [usedBytes_used bs hb, freeBytes_used bs hb, freeBlocks_used bs hb, headerSize_eq]
          omega

theorem usedBlocks_length_le (bs : List Block) : 24 * (usedBlocks bs).length ≤ usedBytes bs := by
  induction bs with
  | nil => exact Nat.le_refl _
  | cons b bs ih =>
      cases hb : b.free with
      | true =>
          rw [usedBlocks_free bs hb, usedBytes_free bs hb]
          exact ih
      | false =>
          rw [usedBlocks_used bs hb, usedBytes_used bs hb, List.length_cons, headerSize_eq]
          omega

/-- The sums of the walk, as long as they fit in 32 bits. -/
theorem count_blocks {m : Mem} : ∀ {bs : List Block} (stats : KmallocStats),
    (∀ b ∈ bs, (readHeader m b.addr).size = b.size) →
    (∀ b ∈ bs, (readHeader m b.addr).free ≠ 0#8 ↔ b.free = true) →
    stats.usedSize + usedBytes bs < 4294967296 → stats.freeSize + freeBytes bs < 4294967296 →
    stats.numAllocations + (usedBlocks bs).length < 4294967296 →
    stats.numFreeBlocks + (freeBlocks bs).length < 4294967296 →
    (bs.map Block.addr).foldl (fun stats b => stats.count (readHeader m b)) stats
      = { stats with
          usedSize := stats.usedSize + usedBytes bs
          freeSize := stats.freeSize + freeBytes bs
          numAllocations := stats.numAllocations + (usedBlocks bs).length
          numFreeBlocks := stats.numFreeBlocks + (freeBlocks bs).length }
  | [], _, _, _, _, _, _, _ => rfl
  | b :: bs, stats, hsize, hfree, hused, hfreeBytes, hallocs, hblocks => by
      obtain ⟨hb, hsize⟩ := List.forall_mem_cons.mp hsize
      obtain ⟨hbf, hfree⟩ := List.forall_mem_cons.mp hfree
      rw [List.map_cons, List.foldl_cons]
      cases hcase : b.free with
      | true =>
          rw [usedBytes_free bs hcase] at hused ⊢
          rw [freeBytes_free bs hcase] at hfreeBytes ⊢
          rw [usedBlocks_free bs hcase] at hallocs ⊢
          rw [freeBlocks_free bs hcase, List.length_cons] at hblocks ⊢
          have hstep : stats.count (readHeader m b.addr)
              = { stats with
                  freeSize := stats.freeSize + b.size
                  numFreeBlocks := stats.numFreeBlocks + 1 } := by
            rw [KmallocStats.count, if_pos (hbf.mpr hcase), hb, add32_of_lt (by omega),
              add32_of_lt (by omega)]
          have ih := count_blocks { stats with
              freeSize := stats.freeSize + b.size
              numFreeBlocks := stats.numFreeBlocks + 1 } hsize hfree hused
            (by dsimp only; omega) hallocs (by dsimp only; omega)
          rw [hstep, ih]
          simp only [KmallocStats.mk.injEq, true_and]
          omega
      | false =>
          rw [usedBytes_used bs hcase] at hused ⊢
          rw [freeBytes_used bs hcase] at hfreeBytes ⊢
          rw [usedBlocks_used bs hcase, List.length_cons] at hallocs ⊢
          rw [freeBlocks_used bs hcase] at hblocks ⊢
          have hnot : ¬(readHeader m b.addr).free ≠ 0#8 := by
            rw [hbf, hcase]
            exact Bool.false_ne_true
          have hstep : stats.count (readHeader m b.addr)
              = { stats with
                  usedSize := stats.usedSize + (b.size + headerSize)
                  numAllocations := stats.numAllocations + 1 } := by
            rw [KmallocStats.count, if_neg hnot, hb,
              add32_of_lt (a := b.size) (b := headerSize) (by omega), add32_of_lt (by omega),
              add32_of_lt (by omega)]
          have ih := count_blocks { stats with
              usedSize := stats.usedSize + (b.size + headerSize)
              numAllocations := stats.numAllocations + 1 } hsize hfree (by dsimp only; omega)
            hfreeBytes (by dsimp only; omega) hblocks
          rw [hstep, ih]
          simp only [KmallocStats.mk.injEq, true_and, and_true]
          omega

/-- What `kmalloc_get_stats` reports for a heap that represents `bs`. -/
theorem HeapRep.stats {h : Heap} {bs : List Block} (hrep : HeapRep h bs) :
    kmallocGetStats h = .ok
      { heapSize := h.heapEnd - h.heapStart
        usedSize := usedBytes bs
        freeSize := freeBytes bs
        numAllocations := (usedBlocks bs).length
        numFreeBlocks := (freeBlocks bs).length } := by
  have hbytes := tiles_bytes hrep.ok.tiles
  have hlen := usedBlocks_length_le bs
  have hlt := hrep.inRange.lt
  have hle := hrep.ok.tiles.le
  have hreads := hrep.reads
  rw [headerSize_eq] at hbytes
  unfold kmallocGetStats
  rw [countBlocks_linked _ hreads.linked hrep.length_lt,
    count_blocks _ hreads.size hreads.free (by dsimp only; omega) (by dsimp only; omega)
      (by dsimp only; omega) (by dsimp only; omega)]
  simp only [Nat.zero_add]
  rw [sub32_of_le (by omega) (by omega)]

/-! ## Live allocations -/

/-- The pointers of the live allocations are those of the used blocks. -/
theorem LiveOk.perm {bs : List Block} {live : List (Nat × Nat)} {lo hi : Nat}
    (hlive : LiveOk bs live) (ht : Tiles lo bs hi) :
    (live.map Prod.fst).Perm ((usedBlocks bs).map fun b => b.addr + 24) := by
  have hnodup : ((usedBlocks bs).map fun b => b.addr + 24).Nodup := by
    have hsub : ((usedBlocks bs).map Block.addr).Nodup :=
      ht.nodup_addr.sublist (List.filter_sublist.map _)
    have hmap : (usedBlocks bs).map (fun b => b.addr + 24)
        = ((usedBlocks bs).map Block.addr).map (· + 24) := by rw [List.map_map]; rfl
    rw [hmap]
    exact hsub.map fun a b h => Nat.add_right_cancel h
  refine (List.perm_ext_iff_of_nodup hlive.nodup hnodup).mpr ?_
  intro q
  constructor
  · intro hq
    obtain ⟨e, he, rfl⟩ := List.mem_map.mp hq
    obtain ⟨b, hb, hbf, hp, -⟩ := hlive.block e he
    exact List.mem_map.mpr ⟨b, List.mem_filter.mpr ⟨hb, by simp [hbf]⟩, hp.symm⟩
  · intro hq
    obtain ⟨b, hb, rfl⟩ := List.mem_map.mp hq
    obtain ⟨hb, hbf⟩ := List.mem_filter.mp hb
    obtain ⟨e, he, hp⟩ := hlive.owned b hb (by simpa using hbf)
    exact List.mem_map.mpr ⟨e, he, hp⟩

/-- The used bytes, in terms of what `ksize` says of the live pointers. -/
theorem LiveOk.usedBytes {h : Heap} {bs : List Block} {live : List (Nat × Nat)}
    (hlive : LiveOk bs live) (hrep : HeapRep h bs) :
    (live.map fun e => ksize h e.1 + headerSize).sum = Kfs.usedBytes bs := by
  have hmap : (live.map fun e => ksize h e.1 + headerSize)
      = (live.map Prod.fst).map fun q => ksize h q + headerSize := by rw [List.map_map]; rfl
  rw [hmap, ((hlive.perm hrep.ok.tiles).map _).sum_eq, List.map_map]
  refine congrArg List.sum (List.map_congr_left ?_)
  intro b hb
  show ksize h (b.addr + 24) + headerSize = _
  rw [(hrep.ksize_eq (List.mem_filter.mp hb).1).1]

/-! ## The counters -/

/-- A release takes one live allocation off. -/
theorem live_filter_length {live : List (Nat × Nat)} {e : Nat × Nat}
    (hnodup : (live.map Prod.fst).Nodup) (he : e ∈ live) :
    (live.filter fun f => f.1 ≠ e.1).length + 1 = live.length := by
  have hperm := List.perm_cons_erase (List.mem_map_of_mem (f := Prod.fst) he)
  have hrest := (filter_map_fst hnodup hperm.symm).length_eq
  have hall := hperm.length_eq
  rw [List.length_map] at hrest
  rw [List.length_map, List.length_cons] at hall
  omega

/-- Every allocation since boot was released or is live. -/
structure Counted (s : HeapClient) : Prop where
  frees : s.heap.totalFrees < 4294967296
  balance : s.heap.totalAllocations = add32 s.heap.totalFrees s.live.length

theorem Counted.step {s t : HeapClient} {e : HeapEvent} (hinv : HeapInv s) (hcount : Counted s)
    (hstep : HeapStep s e t) : Counted t := by
  obtain ⟨hfrees, hbalance⟩ := hcount
  obtain ⟨bs, hrep, hlive⟩ := hinv
  rw [add32_eq] at hbalance
  cases hstep with
  | @kmalloc n p h' hn hcall =>
      by_cases h1 : 1 ≤ n
      · obtain ⟨p', h'', hcall', hfit⟩ := HeapInv.firstFit hrep hlive h1 hn
        obtain ⟨rfl, rfl⟩ := Prod.mk.inj (Except.ok.inj (hcall.symm.trans hcall'))
        by_cases hp : p = 0
        · rw [if_pos hp, hfit.unchanged hp]
          exact ⟨hfrees, by rw [hbalance, add32_eq]⟩
        · obtain ⟨halloc, hfree⟩ := hfit.counters hp
          rw [if_neg hp]
          refine ⟨by rw [hfree]; exact hfrees, ?_⟩
          rw [halloc, hfree, List.length_cons, add32_eq, add32_eq, hbalance]
          omega
      · obtain rfl : n = 0 := by omega
        rw [kmalloc_zero] at hcall
        obtain ⟨rfl, rfl⟩ := Prod.mk.inj (Except.ok.inj hcall)
        exact ⟨hfrees, by rw [if_pos rfl, hbalance, add32_eq]⟩
  | @kfree p n h' warned hmem hcall =>
      obtain ⟨b, hb, hbf, hp, -⟩ := hlive.block _ hmem
      obtain ⟨pre, post, rfl⟩ := List.append_of_mem hb
      obtain ⟨m', hcall', -⟩ := kfree_live hrep hbf
      have hp' : p = b.addr + 24 := hp
      subst hp'
      obtain ⟨rfl, -⟩ := Prod.mk.inj (Except.ok.inj (hcall.symm.trans hcall'))
      have hlen : (s.live.filter fun e => e.1 ≠ b.addr + 24).length + 1 = s.live.length :=
        live_filter_length hlive.nodup hmem
      refine ⟨?_, ?_⟩
      · show add32 s.heap.totalFrees 1 < 4294967296
        rw [add32_eq]
        omega
      · show s.heap.totalAllocations = add32 (add32 s.heap.totalFrees 1)
          (s.live.filter fun e => e.1 ≠ b.addr + 24).length
        rw [hbalance, add32_eq, add32_eq]
        omega
  | write => exact ⟨hfrees, by rw [hbalance, add32_eq]⟩

/-! ## Runs -/

/-- Along every run the statistics are those of the live allocations. -/
theorem heapRun_stats {kernelEnd : Nat} {m : Mem} {p : Pmm}
    (hlim : heapLimit kernelEnd < 2147483648) {es : List HeapEvent} {s : HeapClient}
    (hrun : Run HeapStep ⟨(kmallocInit kernelEnd m p).1, []⟩ es s) :
    ∃ stats, kmallocGetStats s.heap = .ok stats ∧ StatsExact s stats := by
  have h := hrun.invariant (I := fun s => HeapInv s ∧ Counted s)
    ⟨heapInv_init m hlim, ⟨Nat.zero_lt_succ _, (add32_eq 0 0).symm⟩⟩
    fun h hstep => ⟨h.1.step hstep, h.2.step h.1 hstep⟩
  obtain ⟨⟨bs, hrep, hlive⟩, hcount⟩ := h
  have hperm := (hlive.perm hrep.ok.tiles).length_eq
  rw [List.length_map, List.length_map] at hperm
  have hbytes := tiles_bytes hrep.ok.tiles
  have hlen := usedBlocks_length_le bs
  have hlt := hrep.inRange.lt
  have hfrees := hcount.frees
  refine ⟨_, hrep.stats, hperm.symm, ?_, rfl, ?_, (hlive.usedBytes hrep).symm⟩
  · dsimp only
    rw [hcount.balance, sub32_eq, add32_eq, hperm]
    omega
  · dsimp only
    omega

/-- Two live allocations with a free block between them. -/
theorem heapRun_stats_three : ∃ s, Run HeapStep
      ⟨(kmallocInit 0x200000 (fun _ => 0#8) (allUsed 0)).1, []⟩
      [.kmalloc 24, .kmalloc 100, .kmalloc 10, .kfree 0x210048] s
    ∧ s.live = [(0x2100C8, 10), (0x210018, 24)]
    ∧ ∃ stats, kmallocGetStats s.heap = .ok stats ∧ StatsExact s stats := by
  obtain ⟨s, hrun, hlive⟩ := execSteps_observe heapExec_step
    ⟨(kmallocInit 0x200000 (fun _ => 0#8) (allUsed 0)).1, []⟩
    [.kmalloc 24, .kmalloc 100, .kmalloc 10, .kfree 0x210048]
    (fun s => s.live = [(0x2100C8, 10), (0x210018, 24)]) (by decide +kernel)
  exact ⟨s, hrun, hlive, heapRun_stats (p := allUsed 0) (by decide) hrun⟩

end Kfs
