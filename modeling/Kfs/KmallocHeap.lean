import Kfs.KmallocOps

/-!
# The heap refines the block list

`HeapRep h bs` ties a heap to its list of blocks. The two theorems of this
file say what the allocator's entry points do to a represented heap:

* `kmalloc_outcome`: every request of 1 to `0x7FFFFFE0` bytes returns, and does
  one of three things (`KmallocOutcome`): it reuses the first block that
  fits, extends the heap, or returns `NULL` and leaves the heap as it was.
* `kfree_live`: freeing the payload of a used block returns without a warning
  and releases the block.

Both also say that only block headers are written. Nothing later unfolds the
code of the allocator again.
-/

namespace Kfs

structure HeapRep (h : Heap) (bs : List Block) : Prop where
  ok : BlocksOk h.heapStart h.heapEnd bs
  list : h.blockList = headOr 0 bs
  reps : Reps h.mem 0 0 bs
  pos : 0 < h.heapStart
  aligned : h.heapStart % 8 = 0
  top : h.heapEnd ≤ h.heapMax
  max : h.heapMax < 2147483648

theorem HeapRep.inRange {h : Heap} {bs : List Block} (hrep : HeapRep h bs) :
    InRange h.heapStart h.heapEnd :=
  ⟨hrep.pos, Nat.lt_of_le_of_lt hrep.top hrep.max⟩

theorem HeapRep.addr {h : Heap} {bs : List Block} (hrep : HeapRep h bs) {b : Block}
    (hb : b ∈ bs) : 0 < b.addr ∧ b.addr + 24 + b.size < 2147483648 :=
  hrep.inRange.addr hrep.ok.tiles hb

/-- The walk of the block list is a walk over `bs`. -/
theorem HeapRep.linked {h : Heap} {bs : List Block} (hrep : HeapRep h bs) :
    Linked (nextBlock h.mem) (ptr h.blockList) (bs.map Block.addr) none := by
  rw [hrep.list]
  exact hrep.reps.linked fun b hb => by have := hrep.addr hb; omega

theorem HeapRep.length_lt {h : Heap} {bs : List Block} (hrep : HeapRep h bs) :
    (bs.map Block.addr).length < 4294967296 := by
  have hlen := hrep.ok.tiles.length_le
  have hlt := hrep.inRange.lt
  rw [List.length_map]
  omega

theorem HeapRep.findFreeBlock {h : Heap} {bs : List Block} (hrep : HeapRep h bs) (size : Nat) :
    findFreeBlock h size = .ok ((bs.find? (Block.fits size)).map Block.addr) := by
  unfold Kfs.findFreeBlock
  rw [search_eq hrep.linked hrep.length_lt, hrep.reps.find?]

/-! ## Sizes -/

/-- The block size for a request: a multiple of 8, at least 16 and at least
the request. -/
theorem blockSizeFor_spec {n : Nat} (h1 : 1 ≤ n) (hn : n ≤ 0x7FFFFFE0) :
    blockSizeFor n % 8 = 0 ∧ 16 ≤ blockSizeFor n ∧ n ≤ blockSizeFor n
      ∧ blockSizeFor n ≤ 0x7FFFFFE0 := by
  have halign : align n = (n + 7) / 8 * 8 := by
    rw [align, add32_of_lt (by omega), and_mask8 (by omega)]
  unfold blockSizeFor
  rw [halign, minBlockSize_eq]
  split <;> omega

/-- `kbrk` called with the size of a whole block. -/
theorem kbrk_block {h : Heap} {size : Nat} (hsize : size ≤ 0x7FFFFFE0)
    (hend : h.heapEnd < 2147483648) :
    kbrk h (toInt32 (add32 headerSize size))
      = if h.heapEnd + 24 + size > h.heapMax then (0xFFFFFFFF, h)
        else (h.heapEnd, { h with heapEnd := h.heapEnd + 24 + size }) := by
  have htotal : add32 headerSize size = 24 + size := by
    rw [headerSize_eq, add32_of_lt (by omega)]
  have hint : toInt32 (add32 headerSize size) = ((24 + size : Nat) : Int) := by
    rw [htotal, toInt32_of_lt (by omega)]
  have hend' : add32 h.heapEnd (toUInt32 (toInt32 (add32 headerSize size)))
      = h.heapEnd + 24 + size := by
    rw [toUInt32_toInt32, htotal, Nat.mod_eq_of_lt (by omega), add32_of_lt (by omega)]
    omega
  unfold kbrk
  rw [if_neg (by rw [hint]; omega)]
  simp only [hend']
  rw [if_pos (by rw [hint]; omega)]

/-! ## Extending the heap -/

/-- The header of a new block behind the last one keeps the list. -/
theorem reps_newHeader {m : Mem} {bs : List Block} {lo block : Nat} (size : Nat)
    (ht : Tiles lo bs block) (hrep : Reps m 0 0 bs) :
    Reps (newHeader m block size) 0 0 bs := by
  refine hrep.congr ?_
  intro b hb
  have := (ht.bounds b hb).2
  unfold Block.stop at this
  simp (disch := omega) [newHeader]

theorem findLastBlock_eq {m : Mem} {pre : List Block} {a : Block} {lo hi : Nat}
    (hr : InRange lo hi) (ht : Tiles lo (pre ++ [a]) hi) (hrep : Reps m 0 0 (pre ++ [a])) :
    findLastBlock m (headOr 0 (pre ++ [a])) = .ok (some a.addr) := by
  have hlinked : Linked (nextBlock m) (ptr (headOr 0 (pre ++ [a])))
      ((pre.map Block.addr) ++ [a.addr]) none := by
    have := hrep.linked fun b hb => by have := hr.addr ht hb; omega
    simpa using this
  have hlen : ((pre.map Block.addr) ++ [a.addr]).length < 4294967296 := by
    have hlt := hr.lt
    have := ht.length_le
    simp only [List.length_append, List.length_map, List.length_singleton] at this ⊢
    omega
  rw [findLastBlock, search_eq hlinked hlen, hlinked.find?_last]

/-- Writing the header of a new block at the end of the list and linking it
there. -/
theorem appendBlock_reps {h : Heap} {bs : List Block} {lo block size : Nat} (hlo : 0 < lo)
    (ht : Tiles lo bs block) (hrep : Reps h.mem 0 0 bs) (hlist : h.blockList = headOr 0 bs)
    (hlim : block + 24 + size < 2147483648) :
    ∃ m', appendBlock h block size
        = .ok { h with mem := m', blockList := headOr 0 (bs ++ [⟨block, size, false⟩]) }
      ∧ Reps m' 0 0 (bs ++ [⟨block, size, false⟩])
      ∧ SameOffHeaders (bs ++ [⟨block, size, false⟩]) h.mem m' := by
  have hr : InRange lo block := ⟨hlo, by omega⟩
  have hnew : readHeader (newHeader h.mem block size) block = ⟨size, 0#8, 0, 0, blockMagic⟩ := by
    simp (disch := omega) [newHeader]
  have hout : ∀ x, x < block ∨ block + 24 ≤ x → newHeader h.mem block size x = h.mem x := by
    intro x hx
    simp (disch := omega) [newHeader]
  have hbs : ∀ b ∈ bs, b.addr + 24 ≤ block := by
    intro b hb
    have := (ht.bounds b hb).2
    unfold Block.stop at this
    omega
  have hrep1 : Reps (newHeader h.mem block size) 0 0 bs := reps_newHeader size ht hrep
  unfold appendBlock
  generalize newHeader h.mem block size = m1 at *
  rcases List.eq_nil_or_concat bs with rfl | ⟨pre, a, rfl⟩
  · refine ⟨m1, ?_, ⟨hnew, trivial⟩, fun x hx => hout x (hx ⟨block, size, false⟩ (by simp))⟩
    simp only [if_pos (show h.blockList = 0 from hlist)]
    rfl
  · rw [List.concat_eq_append] at *
    have ha := hr.addr ht (b := a) (by simp)
    have hA : readHeader m1 a.addr = headerOf a 0 (lastOr 0 pre) := hrep1.header
    have hab := hbs a (by simp)
    have hsearch : findLastBlock m1 h.blockList = .ok (some a.addr) := by
      rw [hlist]
      exact findLastBlock_eq hr ht hrep1
    have hne : h.blockList ≠ 0 := by
      rw [hlist]
      exact (headOr_zero_ne hr ht).mpr (by simp)
    refine ⟨setPrev (setNext m1 a.addr block) block a.addr, ?_, ?_, ?_⟩
    · simp only [if_neg hne, hsearch]
      simp only [hlist, headOr_append, headOr_cons]
      rfl
    · obtain ⟨hpre, -⟩ := reps_append.mp hrep1
      rw [List.append_assoc]
      refine reps_append.mpr ⟨hpre.congr ?_, ?_, ?_, trivial⟩
      · intro x hx
        have hx' := ht.before x hx
        unfold Block.stop at hx'
        simp (disch := omega)
      · simp (disch := omega) [hA, headerOf]
      · simp (disch := omega) [hnew, headerOf]
    · intro x hx
      have hxa := hx a (by simp)
      have hxb : x < block ∨ block + 24 ≤ x := hx ⟨block, size, false⟩ (by simp)
      simp (disch := omega) [hout x hxb]

/-! ## `kmalloc` -/

/-- What `kmalloc` does with a request for a block of `size` bytes: the
pointer it returns, the heap and the list of blocks it leaves. -/
inductive KmallocOutcome (h : Heap) (bs : List Block) (size : Nat) :
    Nat → Heap → List Block → Prop where
  | reuse {pre post : List Block} {b : Block} {m' : Mem}
      (split : bs = pre ++ b :: post) (fits : b.fits size = true)
      (first : ∀ x ∈ pre, x.fits size = false)
      (same : SameOffHeaders (bs ++ (pre ++ carve size b ++ post)) h.mem m') :
      KmallocOutcome h bs size (b.addr + 24)
        { h with mem := m', totalAllocations := add32 h.totalAllocations 1 }
        (pre ++ carve size b ++ post)
  | extend {m' : Mem} (full : ∀ x ∈ bs, x.fits size = false)
      (room : h.heapEnd + 24 + size ≤ h.heapMax)
      (same : SameOffHeaders (bs ++ [⟨h.heapEnd, size, false⟩]) h.mem m') :
      KmallocOutcome h bs size (h.heapEnd + 24)
        { h with
          mem := m'
          heapEnd := h.heapEnd + 24 + size
          blockList := headOr 0 (bs ++ [⟨h.heapEnd, size, false⟩])
          totalAllocations := add32 h.totalAllocations 1 }
        (bs ++ [⟨h.heapEnd, size, false⟩])
  | fail (full : ∀ x ∈ bs, x.fits size = false)
      (room : h.heapMax < h.heapEnd + 24 + size) : KmallocOutcome h bs size 0 h bs

/-- The heap does not shrink. -/
theorem KmallocOutcome.heapEnd_le {h h' : Heap} {bs bs' : List Block} {size p : Nat}
    (hout : KmallocOutcome h bs size p h' bs') : h.heapEnd ≤ h'.heapEnd := by
  cases hout with
  | reuse => exact Nat.le_refl _
  | extend =>
      show h.heapEnd ≤ h.heapEnd + 24 + size
      omega
  | fail => exact Nat.le_refl _

/-- The ends of the memory for the heap stay. -/
theorem KmallocOutcome.range {h h' : Heap} {bs bs' : List Block} {size p : Nat}
    (hout : KmallocOutcome h bs size p h' bs') :
    h'.heapStart = h.heapStart ∧ h'.heapMax = h.heapMax := by
  cases hout with
  | reuse | extend | fail => exact ⟨rfl, rfl⟩

theorem kmalloc_zero (h : Heap) : kmalloc h 0 = .ok (0, h) := rfl

/-- The extension of the heap, when no block fits. -/
theorem kmallocExtend_outcome {h : Heap} {bs : List Block} (hrep : HeapRep h bs) {size : Nat}
    (hmod : size % 8 = 0) (hmin : 16 ≤ size) (hsize : size ≤ 0x7FFFFFE0)
    (hfull : ∀ x ∈ bs, x.fits size = false) :
    ∃ p h' bs', kmallocExtend h size = .ok (p, h') ∧ HeapRep h' bs'
      ∧ KmallocOutcome h bs size p h' bs' := by
  have hend := hrep.inRange.lt
  have hk := kbrk_block hsize hend
  unfold kmallocExtend
  by_cases hroom : h.heapEnd + 24 + size > h.heapMax
  · rw [if_pos hroom] at hk
    rw [hk]
    exact ⟨0, h, bs, rfl, hrep, .fail hfull hroom⟩
  · rw [if_neg hroom] at hk
    have hmax := hrep.max
    obtain ⟨m', happ, hreps, hsame⟩ := appendBlock_reps
      (h := { h with heapEnd := h.heapEnd + 24 + size }) hrep.pos hrep.ok.tiles hrep.reps
      hrep.list (show h.heapEnd + 24 + size < 2147483648 by omega)
    have hp : add32 h.heapEnd headerSize = h.heapEnd + 24 := by
      rw [headerSize_eq, add32_of_lt (by omega)]
    refine ⟨_, _, _, ?_, ?_, .extend hfull (by omega) hsame⟩
    · simp only [hk, if_neg (show h.heapEnd ≠ 0xFFFFFFFF by omega), happ, hp]
      rfl
    · exact ⟨hrep.ok.append hmod hmin, rfl, hreps, hrep.pos, hrep.aligned,
        Nat.le_of_not_lt hroom, hrep.max⟩

theorem kmalloc_outcome {h : Heap} {bs : List Block} (hrep : HeapRep h bs) {n : Nat}
    (h1 : 1 ≤ n) (hn : n ≤ 0x7FFFFFE0) :
    ∃ p h' bs', kmalloc h n = .ok (p, h') ∧ HeapRep h' bs'
      ∧ KmallocOutcome h bs (blockSizeFor n) p h' bs' := by
  obtain ⟨hmod, hmin, -, hmaxsize⟩ := blockSizeFor_spec h1 hn
  unfold kmalloc
  simp only [if_neg (show n ≠ 0 by omega), hrep.findFreeBlock]
  generalize blockSizeFor n = size at *
  cases hfind : bs.find? (Block.fits size) with
  | none =>
      exact kmallocExtend_outcome hrep hmod hmin hmaxsize
        (by simpa using List.find?_eq_none.mp hfind)
  | some b =>
      obtain ⟨hfits, pre, post, rfl, hfirst⟩ := List.find?_eq_some_iff_append.mp hfind
      have hfit : b.free = true ∧ size ≤ b.size := by simpa [Block.fits] using hfits
      obtain ⟨hreps, hsame⟩ := splitBlock_reps hrep.inRange hrep.ok.tiles hrep.reps hfit.2
      have hb := hrep.addr (b := b) (by simp)
      have hp : add32 b.addr headerSize = b.addr + 24 := by
        rw [headerSize_eq, add32_of_lt (by omega)]
      refine ⟨_, _, _, ?_, ?_, .reuse rfl hfits (by simpa using hfirst) hsame⟩
      · rw [← hp]
        rfl
      · refine ⟨hrep.ok.carve hfit.1 hmod hmin, ?_, hreps, hrep.pos, hrep.aligned, hrep.top,
          hrep.max⟩
        -- the list still starts where it did
        rw [List.append_assoc, headOr_append, hrep.list, headOr_append]
        congr 1
        unfold carve
        split <;> rfl

/-! ## `kfree` -/

/-- Releasing a block leaves the first block of the list where it is. -/
theorem headOr_mergePrev (pre post : List Block) (b : Block) :
    headOr 0 (mergePrev pre b post) = headOr b.addr pre := by
  unfold mergePrev
  split
  · rename_i a ha
    obtain ⟨pre, rfl⟩ : ∃ pre', _ = pre' ++ [a] := List.getLast?_eq_some_iff.mp ha
    split
    · rw [List.dropLast_concat, headOr_append, headOr_append]
      rfl
    · rw [headOr_append, headOr_cons]
  · rw [headOr_append, headOr_cons]

/-- Marking a block free, before any merging. -/
theorem HeapRep.marked {h : Heap} {pre post : List Block} {b : Block}
    (hrep : HeapRep h (pre ++ b :: post)) :
    Reps (setFree h.mem b.addr 1#8) 0 0 (pre ++ ⟨b.addr, b.size, true⟩ :: post) := by
  obtain ⟨hpre, -, hpost⟩ := reps_append.mp hrep.reps
  refine reps_append.mpr ⟨hpre.congr ?_, ?_, hpost.congr ?_⟩
  · intro x hx
    have hx' := hrep.ok.tiles.before x hx
    unfold Block.stop at hx'
    exact readHeader_setFree_apart (by omega)
  · rw [readHeader_setFree, hrep.reps.header]
    rfl
  · intro x hx
    have hx' := hrep.ok.tiles.behind x hx
    unfold Block.stop at hx'
    exact readHeader_setFree_apart (by omega)

/-- Freeing the payload of a used block. -/
theorem kfree_live {h : Heap} {pre post : List Block} {b : Block}
    (hrep : HeapRep h (pre ++ b :: post)) (hused : b.free = false) :
    ∃ m', kfree h (b.addr + 24)
        = .ok ({ h with mem := m', totalFrees := add32 h.totalFrees 1 }, false)
      ∧ HeapRep { h with mem := m', totalFrees := add32 h.totalFrees 1 } (releaseAt pre b post)
      ∧ SameOffHeaders (pre ++ b :: post) h.mem m' := by
  have hb := hrep.addr (b := b) (by simp)
  have hB := hrep.reps.header
  have hr := hrep.inRange
  have hblock : sub32 (b.addr + 24) headerSize = b.addr := by
    rw [headerSize_eq, sub32_of_le (by omega) (by omega)]
    omega
  have hmarked := hrep.marked
  have hseam := hrep.ok.seam
  obtain ⟨hnext, hsame1⟩ := coalesceNext_reps hr hseam.tiles hmarked
  obtain ⟨hprev, hsame2⟩ := coalescePrev_reps hr hseam.mergeNext.1.tiles hnext
  rw [mergeNext_addr] at hprev hsame2
  refine ⟨coalesceBlocks (setFree h.mem b.addr 1#8) b.addr, ?_, ?_, ?_⟩
  · unfold kfree
    simp only [hblock, hB, headerOf, hused]
    rw [if_neg (by omega)]
    rfl
  · refine ⟨hrep.ok.releaseAt, ?_, hprev, hrep.pos, hrep.aligned, hrep.top, hrep.max⟩
    rw [releaseAt, headOr_mergePrev, mergeNext_addr, hrep.list, headOr_append, headOr_cons]
  · have hmark : SameOffHeaders (pre ++ b :: post) h.mem (setFree h.mem b.addr 1#8) :=
      fun x hx => setFree_outside (hx b (by simp))
    refine (hmark.trans (hsame1.mono ?_)).trans (hsame2.mono ?_)
    · intro c hc
      rcases List.mem_append.mp hc with hc | hc
      · exact ⟨c, by simp [hc], rfl⟩
      · rcases List.mem_cons.mp hc with rfl | hc
        · exact ⟨b, by simp, rfl⟩
        · exact ⟨c, by simp [hc], rfl⟩
    · intro c hc
      rcases List.mem_append.mp hc with hc | hc
      · exact ⟨c, by simp [hc], rfl⟩
      · rcases List.mem_cons.mp hc with rfl | hc
        · exact ⟨b, by simp, (mergeNext_addr ⟨b.addr, b.size, true⟩ post).symm⟩
        · exact ⟨c, by simp [mergeNext_subset _ _ c hc], rfl⟩

end Kfs
