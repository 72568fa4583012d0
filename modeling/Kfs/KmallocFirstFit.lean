import Kfs.KmallocSizes

/-!
# First fit

What `kmalloc` does with a request, in terms of the list of blocks that is
read in memory (`Reads`): it takes the lowest free block that is large enough
(`Lowest`), extends the heap when there is none, and is refused only when
there is no room for that either. `KmallocOutcome` has the three cases;
`FirstFitCall` says what they come to for a caller.
-/

namespace Kfs

/-- The blocks from `block_list` on, as their headers in memory have them. -/
structure Reads (h : Heap) (bs : List Block) : Prop where
  linked : Linked (nextBlock h.mem) (ptr h.blockList) (bs.map Block.addr) none
  size : ∀ b ∈ bs, (readHeader h.mem b.addr).size = b.size
  free : ∀ b ∈ bs, (readHeader h.mem b.addr).free ≠ 0#8 ↔ b.free = true

theorem HeapRep.reads {h : Heap} {bs : List Block} (hrep : HeapRep h bs) : Reads h bs := by
  refine ⟨hrep.linked, ?_, ?_⟩
  · intro b hb
    obtain ⟨pre, post, rfl⟩ := List.append_of_mem hb
    rw [hrep.reps.header]
    rfl
  · intro b hb
    obtain ⟨pre, post, rfl⟩ := List.append_of_mem hb
    rw [hrep.reps.header, headerOf_free_ne_zero]

/-- The size of the block for a request: rounded up to 8, and at least 16. -/
def roundedSize (n : Nat) : Nat := max 16 ((n + 7) / 8 * 8)

theorem blockSizeFor_rounded {n : Nat} (hn : n ≤ 0x7FFFFFE0) : blockSizeFor n = roundedSize n := by
  have halign := align_of_le (show n ≤ 0xFFFFFFF8 by omega)
  unfold blockSizeFor roundedSize
  rw [halign, minBlockSize_eq]
  split <;> omega

/-- `b` is the free block of at least `size` bytes with the lowest address. -/
structure Lowest (size : Nat) (bs : List Block) (b : Block) : Prop where
  mem : b ∈ bs
  free : b.free = true
  fits : size ≤ b.size
  lowest : ∀ c ∈ bs, c.free = true → size ≤ c.size → b.addr ≤ c.addr

def usedBlocks (bs : List Block) : List Block := bs.filter fun b => !b.free

/-- What a caller can tell of a request for `n` bytes on a heap with the
blocks `bs`. -/
structure FirstFitCall (s : HeapClient) (bs : List Block) (n p : Nat) (h' : Heap) : Prop where
  reuse : ∀ b, Lowest (roundedSize n) bs b → p = b.addr + headerSize ∧ h'.heapEnd = s.heap.heapEnd
  extend : (∀ b, ¬Lowest (roundedSize n) bs b) →
    s.heap.heapEnd + headerSize + roundedSize n ≤ s.heap.heapMax →
      p = s.heap.heapEnd + headerSize ∧ h'.heapEnd = s.heap.heapEnd + headerSize + roundedSize n
  refused : p = 0 ↔ (∀ b, ¬Lowest (roundedSize n) bs b)
    ∧ s.heap.heapMax < s.heap.heapEnd + headerSize + roundedSize n
  unchanged : p = 0 → h' = s.heap
  added : p ≠ 0 → ∃ bs' c, Reads h' bs' ∧ LiveOk bs' ((p, n) :: s.live)
    ∧ (usedBlocks bs').Perm (c :: usedBlocks bs) ∧ p = c.addr + headerSize
    ∧ roundedSize n ≤ c.size
  counters : p ≠ 0 → h'.totalAllocations = add32 s.heap.totalAllocations 1
    ∧ h'.totalFrees = s.heap.totalFrees
  kept : ∀ e ∈ s.live, ksize h' e.1 = ksize s.heap e.1

/-! ## The block that is taken -/

theorem fits_iff {size : Nat} {b : Block} :
    b.fits size = true ↔ b.free = true ∧ size ≤ b.size := by
  simp [Block.fits]

theorem Lowest.addr_eq {size : Nat} {bs : List Block} {b c : Block} (hb : Lowest size bs b)
    (hc : Lowest size bs c) : b.addr = c.addr :=
  Nat.le_antisymm (hb.lowest c hc.mem hc.free hc.fits) (hc.lowest b hb.mem hb.free hb.fits)

/-- The first block that fits is the lowest. -/
theorem lowest_first {size lo hi : Nat} {pre post : List Block} {b : Block}
    (ht : Tiles lo (pre ++ b :: post) hi) (hfits : b.fits size = true)
    (hfirst : ∀ x ∈ pre, x.fits size = false) : Lowest size (pre ++ b :: post) b := by
  obtain ⟨hfree, hsize⟩ := fits_iff.mp hfits
  refine ⟨by simp, hfree, hsize, ?_⟩
  intro c hc hcf hcs
  rcases List.mem_append.mp hc with hc | hc
  · have hno := hfirst c hc
    rw [fits_iff.mpr ⟨hcf, hcs⟩] at hno
    cases hno
  · rcases List.mem_cons.mp hc with rfl | hc
    · exact Nat.le_refl _
    · have := ht.behind c hc
      unfold Block.stop at this
      omega

theorem not_lowest {size : Nat} {bs : List Block} (hfull : ∀ x ∈ bs, x.fits size = false)
    (b : Block) : ¬Lowest size bs b := by
  intro hb
  have hno := hfull b hb.mem
  rw [fits_iff.mpr ⟨hb.free, hb.fits⟩] at hno
  cases hno

/-! ## Used blocks -/

theorem usedBlocks_append (xs ys : List Block) :
    usedBlocks (xs ++ ys) = usedBlocks xs ++ usedBlocks ys := List.filter_append xs ys

theorem usedBlocks_free {b : Block} (bs : List Block) (h : b.free = true) :
    usedBlocks (b :: bs) = usedBlocks bs := by
  rw [usedBlocks, List.filter_cons_of_neg (by simp [h])]
  rfl

theorem usedBlocks_used {b : Block} (bs : List Block) (h : b.free = false) :
    usedBlocks (b :: bs) = b :: usedBlocks bs := by
  rw [usedBlocks, List.filter_cons_of_pos (by simp [h])]
  rfl

/-- A block that is carved is one used block. -/
theorem usedBlocks_carve {size : Nat} {b : Block} (hfit : size ≤ b.size) :
    ∃ c, usedBlocks (carve size b) = [c] ∧ c.addr = b.addr ∧ size ≤ c.size := by
  unfold carve
  split
  · exact ⟨⟨b.addr, size, false⟩, rfl, rfl, Nat.le_refl _⟩
  · exact ⟨⟨b.addr, b.size, false⟩, rfl, rfl, hfit⟩

theorem KmallocOutcome.used {h h' : Heap} {bs bs' : List Block} {size p : Nat}
    (hout : KmallocOutcome h bs size p h' bs') (hp : p ≠ 0) :
    ∃ c, (usedBlocks bs').Perm (c :: usedBlocks bs) ∧ p = c.addr + 24 ∧ size ≤ c.size := by
  cases hout with
  | @reuse pre post b m' hsplit hfits hfirst hsame =>
      obtain ⟨hfree, hfit⟩ := fits_iff.mp hfits
      obtain ⟨c, hc, haddr, hsize⟩ := usedBlocks_carve hfit
      refine ⟨c, ?_, by rw [haddr], hsize⟩
      rw [hsplit, usedBlocks_append, usedBlocks_append, usedBlocks_append, hc,
        usedBlocks_free post hfree, List.append_assoc]
      exact List.perm_middle
  | extend hfull hroom hsame =>
      refine ⟨⟨h.heapEnd, size, false⟩, ?_, rfl, Nat.le_refl _⟩
      rw [usedBlocks_append]
      exact List.perm_append_singleton _ _
  | fail hfull hroom => exact absurd rfl hp

/-- The blocks of the live allocations are still there. -/
theorem KmallocOutcome.keeps {h h' : Heap} {bs bs' : List Block} {size p : Nat}
    (hout : KmallocOutcome h bs size p h' bs') : ∀ b ∈ bs, b.free = false → b ∈ bs' := by
  intro b hb hbf
  by_cases hp : p = 0
  · cases hout with
    | reuse => omega
    | extend => omega
    | fail => exact hb
  · obtain ⟨c, hperm, -⟩ := hout.used hp
    have hin : b ∈ usedBlocks bs := List.mem_filter.mpr ⟨hb, by simp [hbf]⟩
    exact (List.mem_filter.mp (hperm.symm.subset (List.mem_cons_of_mem _ hin))).1

/-! ## Runs -/

theorem HeapInv.firstFit {s : HeapClient} {bs : List Block} (hrep : HeapRep s.heap bs)
    (hlive : LiveOk bs s.live) {n : Nat} (h1 : 1 ≤ n) (hn : n ≤ 0x7FFFFFE0) :
    ∃ p h', kmalloc s.heap n = .ok (p, h') ∧ FirstFitCall s bs n p h' := by
  obtain ⟨p, h', bs', hcall, hrep', hout⟩ := kmalloc_outcome hrep h1 hn
  have hlive' := hlive.kmalloc hrep h1 hn hout
  rw [blockSizeFor_rounded hn] at hout
  have hused := hout.used
  have hkeeps := hout.keeps
  have hadded : p ≠ 0 → ∃ bs' c, Reads h' bs' ∧ LiveOk bs' ((p, n) :: s.live)
      ∧ (usedBlocks bs').Perm (c :: usedBlocks bs) ∧ p = c.addr + headerSize
      ∧ roundedSize n ≤ c.size := by
    intro hp
    obtain ⟨c, hperm, hpc, hsize⟩ := hused hp
    rw [if_neg hp] at hlive'
    exact ⟨bs', c, hrep'.reads, hlive', hperm, headerSize_eq ▸ hpc, hsize⟩
  have hkept : ∀ e ∈ s.live, ksize h' e.1 = ksize s.heap e.1 := by
    intro e he
    obtain ⟨b, hb, hbf, hp, -⟩ := hlive.block e he
    rw [hp, (hrep'.ksize_eq (hkeeps b hb hbf)).1, (hrep.ksize_eq hb).1]
  refine ⟨p, h', hcall, ?_⟩
  clear hcall hrep' hlive' hused hkeeps
  cases hout with
  | @reuse pre post b m' hsplit hfits hfirst hsame =>
      subst hsplit
      have hlow := lowest_first hrep.ok.tiles hfits hfirst
      have haddr : 0 < b.addr := (hrep.addr hlow.mem).1
      refine ⟨?_, ?_, ?_, ?_, hadded, fun _ => ⟨rfl, rfl⟩, hkept⟩
      · intro c hc
        rw [hc.addr_eq hlow, headerSize_eq]
        exact ⟨rfl, rfl⟩
      · intro hnone
        exact absurd hlow (hnone b)
      · exact iff_of_false (by omega) fun h => h.1 b hlow
      · intro hp
        omega
  | extend hfull hroom hsame =>
      have hnone := not_lowest hfull
      refine ⟨fun c hc => absurd hc (hnone c), ?_, ?_, ?_, hadded, fun _ => ⟨rfl, rfl⟩, hkept⟩
      · intro _ _
        rw [headerSize_eq]
        exact ⟨rfl, rfl⟩
      · refine iff_of_false (by omega) ?_
        rintro ⟨-, hlt⟩
        rw [headerSize_eq] at hlt
        omega
      · intro hp
        omega
  | fail hfull hroom =>
      have hnone := not_lowest hfull
      refine ⟨fun c hc => absurd hc (hnone c), ?_, ?_, fun _ => rfl, hadded,
        fun hp => absurd rfl hp, hkept⟩
      · intro _ hle
        rw [headerSize_eq] at hle
        omega
      · rw [headerSize_eq]
        exact iff_of_true rfl ⟨hnone, hroom⟩

/-- In every state of the heap a request takes the lowest block that fits,
extends the heap, or is refused for want of room. -/
theorem heapRun_firstFit {kernelEnd : Nat} {m : Mem} {p : Pmm}
    (hlim : heapLimit kernelEnd < 2147483648) {es : List HeapEvent} {s : HeapClient}
    (hrun : Run HeapStep ⟨(kmallocInit kernelEnd m p).1, []⟩ es s) :
    ∃ bs, Reads s.heap bs ∧ LiveOk bs s.live
      ∧ ∀ n, 1 ≤ n → n ≤ 0x7FFFFFE0 →
        ∃ p h', kmalloc s.heap n = .ok (p, h') ∧ FirstFitCall s bs n p h' := by
  obtain ⟨bs, hrep, hlive⟩ := HeapInv.of_run hlim hrun
  exact ⟨bs, hrep.reads, hlive, fun n h1 hn => HeapInv.firstFit hrep hlive h1 hn⟩

/-- After one request and its release. -/
theorem heapRun_firstFit_reuse : ∃ s, Run HeapStep
      ⟨(kmallocInit 0x200000 (fun _ => 0#8) (allUsed 0)).1, []⟩
      [.kmalloc 10, .kfree 0x210018] s
    ∧ ∃ bs, Reads s.heap bs ∧ LiveOk bs s.live
      ∧ ∀ n, 1 ≤ n → n ≤ 0x7FFFFFE0 →
        ∃ p h', kmalloc s.heap n = .ok (p, h') ∧ FirstFitCall s bs n p h' := by
  obtain ⟨h, hcall⟩ : ∃ h, kmalloc (kmallocInit 0x200000 (fun _ => 0#8) (allUsed 0)).1 10
      = .ok (0x210018, h) := eq_ok_of_fst (by decide +kernel)
  have hrun := Run.snoc .nil (HeapStep.kmalloc (s := ⟨_, []⟩) (n := 10) (by decide) hcall)
  obtain ⟨h', hfree⟩ := (HeapInv.of_run (p := allUsed 0) (by decide) hrun).progress.2
    (0x210018, 10) List.mem_cons_self
  have hrun' := hrun.snoc (HeapStep.kfree List.mem_cons_self hfree)
  exact ⟨_, hrun', heapRun_firstFit (p := allUsed 0) (by decide) hrun'⟩

end Kfs
