import Kfs.KmallocRuns

/-!
# Requests of every size

`kmalloc` rounds the request up to 8 bytes, adds the header and passes the sum
to `kbrk`, which takes a signed increment, all of it on 32 bits:

* above `0xFFFFFFF8` the rounding wraps to 0 and the request is served as one
  of 16 bytes;
* above `0xFFFFFFE8` the sum wraps and the heap grows by 8 or 16 bytes only,
  at `0xFFFFFFE8` itself by none;
* above `0x7FFFFFE0` the sum is negative, and `kbrk` moves the end of the heap
  down, or wraps it around.

In none of these cases does the block hold the request (`Honours`), so the
request is honoured only if it is refused. `Serviceable` tells which are, and
the runs all of whose requests are serviceable are the runs of `HeapStep` with
some refused requests in between.
-/

namespace Kfs

/-- What a caller relies on when `kmalloc` returns a pointer: the block is
large enough, and the heap still has its bounds. -/
def Honours (h : Heap) (n : Nat) : Prop :=
  ∀ p h', kmalloc h n = .ok (p, h') → p ≠ 0 →
    n ≤ ksize h' p ∧ h'.heapStart ≤ p ∧ p + n ≤ h'.heapEnd ∧ h'.heapEnd ≤ h'.heapMax
      ∧ h.heapEnd ≤ h'.heapEnd

/-- The request fits in a signed increment, or one that does not is refused
for want of the few bytes it is mistaken for. -/
def Serviceable (h : Heap) (n : Nat) : Prop :=
  n ≤ 0x7FFFFFE0
    ∨ (0xFFFFFFE8 < n ∧ n ≤ 0xFFFFFFF8 ∧ h.heapMax < h.heapEnd + (align n - 0xFFFFFFE8))
    ∨ (0xFFFFFFF8 < n ∧ findFreeBlock h 16 = .ok none ∧ h.heapMax < h.heapEnd + 40)

/-! ## Rounding -/

section Sizes

variable {n : Nat}

theorem align_of_le (hn : n ≤ 0xFFFFFFF8) : align n = (n + 7) / 8 * 8 := by
  rw [align, add32_of_lt (by omega), and_mask8 (by omega)]

/-- The rounded size of a request too large for a signed increment. -/
theorem blockSizeFor_huge (hlo : 0x7FFFFFE0 < n) (hn : n ≤ 0xFFFFFFF8) :
    blockSizeFor n = align n := by
  have halign := align_of_le hn
  rw [blockSizeFor, if_neg]
  rw [minBlockSize_eq]
  omega

/-- The rounding wraps. -/
theorem blockSizeFor_wrapped (hlo : 0xFFFFFFF8 < n) (hn : n < 4294967296) :
    blockSizeFor n = 16 := by
  have halign : align n = 0 := by
    rw [align, add32_eq, and_mask8 (by omega)]
    omega
  rw [blockSizeFor, halign]
  rfl

end Sizes

/-! ## Requests that are served -/

section Served

variable {h h' : Heap} {bs bs' : List Block} {n p : Nat}

/-- What can be read off a pointer to a block of the list. -/
theorem HeapRep.ksize_eq (hrep : HeapRep h bs) {c : Block} (hc : c ∈ bs) :
    ksize h (c.addr + 24) = c.size ∧ h.heapStart ≤ c.addr ∧ c.stop ≤ h.heapEnd := by
  have haddr := hrep.addr hc
  have hbounds := hrep.ok.tiles.bounds c hc
  refine ⟨?_, hbounds⟩
  have hblock : sub32 (c.addr + 24) headerSize = c.addr := by
    rw [headerSize_eq, sub32_of_le (by omega) (by omega)]
    omega
  obtain ⟨pre, post, rfl⟩ := List.append_of_mem hc
  unfold ksize
  simp only [hblock, hrep.reps.header]
  rw [if_neg (by omega)]
  rfl

/-- The block behind the pointer, unless the request was refused. -/
theorem KmallocOutcome.block {size : Nat} (hout : KmallocOutcome h bs size p h' bs')
    (hp : p ≠ 0) :
    ∃ c ∈ bs', p = c.addr + 24 ∧ size ≤ c.size := by
  cases hout with
  | @reuse pre post b m' hsplit hfits hfirst hsame =>
      have hfit : b.free = true ∧ size ≤ b.size := by simpa [Block.fits] using hfits
      obtain ⟨c, hc, -, haddr, hsize, -⟩ := mem_carve_used hfit.2
      exact ⟨c, List.mem_append_left _ (List.mem_append_right _ hc), by rw [haddr], hsize⟩
  | extend hfull hroom hsame =>
      exact ⟨_, List.mem_append_right _ List.mem_cons_self, rfl, Nat.le_refl _⟩
  | fail hfull hroom => exact absurd rfl hp

/-- A request of at most `0x7FFFFFE0` bytes is honoured. -/
theorem HeapRep.honours (hrep : HeapRep h bs) (h1 : 1 ≤ n) (hn : n ≤ 0x7FFFFFE0) :
    Honours h n := by
  intro p h' hcall hp
  obtain ⟨p', h'', bs', hcall', hrep', hout⟩ := kmalloc_outcome hrep h1 hn
  obtain ⟨rfl, rfl⟩ := Prod.mk.inj (Except.ok.inj (hcall.symm.trans hcall'))
  obtain ⟨c, hc, rfl, hsize⟩ := hout.block hp
  obtain ⟨hksize, hstart, hstop⟩ := hrep'.ksize_eq hc
  have hround := (blockSizeFor_spec h1 hn).2.2.1
  unfold Block.stop at hstop
  refine ⟨by omega, by omega, by omega, hrep'.top, hout.heapEnd_le⟩

/-- No heap holds a larger request. -/
theorem not_honours (hn : 0x7FFFFFE0 < n) (hmax : h'.heapMax < 2147483648)
    (hcall : kmalloc h n = .ok (p, h')) (hp : 32 ≤ p) : ¬Honours h n := by
  intro hhonours
  obtain ⟨-, -, hend, htop, -⟩ := hhonours p h' hcall (by omega)
  omega

end Served

/-! ## Requests that are not -/

section Huge

variable {h : Heap} {bs : List Block} {n : Nat}

/-- The walk to the last block does not depend on the size of the new one. -/
theorem appendBlock_returns {block : Nat} (size : Nat) (hpos : 0 < h.heapStart)
    (hblock : block < 2147483648) (ht : Tiles h.heapStart bs block)
    (hrep : Reps h.mem 0 0 bs) (hlist : h.blockList = headOr 0 bs) :
    ∃ h', appendBlock h block size = .ok h' ∧ h'.heapMax = h.heapMax := by
  have hr : InRange h.heapStart block := ⟨hpos, hblock⟩
  have hnew := reps_newHeader size ht hrep
  unfold appendBlock
  rcases List.eq_nil_or_concat bs with rfl | ⟨pre, a, rfl⟩
  · simp only [if_pos (show h.blockList = 0 from hlist)]
    exact ⟨_, rfl, rfl⟩
  · rw [List.concat_eq_append] at *
    have hne : headOr 0 (pre ++ [a]) ≠ 0 := (headOr_zero_ne hr ht).mpr (by simp)
    simp only [hlist, if_neg hne, findLastBlock_eq hr ht hnew]
    exact ⟨_, rfl, rfl⟩

/-- `kbrk` with the sum of a huge size and the header: it fails when the sum
wraps to an increment there is no room for, and else leaves the old end and
an end of its own making. -/
theorem kbrk_huge {size : Nat} (hend : h.heapEnd < 2147483648) (hlo : 0x7FFFFFE8 ≤ size)
    (hhi : size ≤ 0xFFFFFFF8) :
    (kbrk h (toInt32 (add32 headerSize size)) = (0xFFFFFFFF, h)
        ∧ 0xFFFFFFE8 < size ∧ h.heapMax < h.heapEnd + (size - 0xFFFFFFE8))
      ∨ (¬(0xFFFFFFE8 < size ∧ h.heapMax < h.heapEnd + (size - 0xFFFFFFE8))
        ∧ ∃ e, kbrk h (toInt32 (add32 headerSize size))
          = (h.heapEnd, { h with heapEnd := e })) := by
  have hmove : add32 h.heapEnd (toUInt32 (toInt32 (add32 headerSize size)))
      = (h.heapEnd + (24 + size) % 4294967296) % 4294967296 := by
    rw [toUInt32_toInt32, headerSize_eq, add32_eq 24, add32_eq, Nat.mod_mod]
  have hint : toInt32 (add32 headerSize size)
      = if 0xFFFFFFE8 ≤ size then ((size - 0xFFFFFFE8 : Nat) : Int)
        else ((24 + size : Nat) : Int) - 4294967296 := by
    rw [headerSize_eq, add32_eq, toInt32]
    split <;> split <;> omega
  unfold kbrk
  by_cases hwrap : 0xFFFFFFE8 < size
  · rw [if_pos (by omega)] at hint
    rw [hint] at hmove ⊢
    rw [if_neg (by omega)]
    simp only [hmove]
    rw [if_pos (by omega)]
    by_cases hroom : h.heapMax < h.heapEnd + (size - 0xFFFFFFE8)
    · rw [if_pos (by omega)]
      exact Or.inl ⟨rfl, hwrap, hroom⟩
    · rw [if_neg (by omega)]
      exact Or.inr ⟨fun hr => hroom hr.2, _, rfl⟩
  · refine Or.inr ⟨fun hr => hwrap hr.1, ?_⟩
    by_cases hzero : 0xFFFFFFE8 ≤ size
    · rw [if_pos hzero] at hint
      rw [hint, if_pos (by omega)]
      exact ⟨_, rfl⟩
    · rw [if_neg hzero] at hint
      rw [hint, if_neg (by omega)]
      dsimp only
      rw [if_neg (by omega)]
      exact ⟨_, rfl⟩

/-- A request larger than any heap: refused as `Serviceable` says, and else
answered with a pointer. -/
theorem kmalloc_huge (hrep : HeapRep h bs) (hlo : 0x7FFFFFE0 < n) (hn : n < 4294967296) :
    (Serviceable h n ∧ kmalloc h n = .ok (0, h))
      ∨ (¬Serviceable h n ∧ ∃ p h', kmalloc h n = .ok (p, h') ∧ 32 ≤ p
        ∧ h'.heapMax < 2147483648) := by
  have hmax := hrep.max
  have hend := hrep.inRange.lt
  have hstart : 8 ≤ h.heapStart := by
    have := hrep.pos
    have := hrep.aligned
    omega
  by_cases hwrapped : 0xFFFFFFF8 < n
  · -- served as a request of 16 bytes
    have hsize : blockSizeFor 16 = 16 := by decide +kernel
    have hsame : kmalloc h n = kmalloc h 16 := by
      unfold kmalloc
      rw [if_neg (by omega), if_neg (by decide), blockSizeFor_wrapped hwrapped hn, hsize]
    obtain ⟨p, h', bs', hcall, hrep', hout⟩ := kmalloc_outcome hrep (n := 16) (by decide)
      (by decide)
    rw [hsize] at hout
    rw [hsame, hcall]
    have hserve : Serviceable h n ↔ findFreeBlock h 16 = .ok none ∧ h.heapMax < h.heapEnd + 40 := by
      unfold Serviceable
      constructor
      · rintro (hle | ⟨-, hle, -⟩ | ⟨-, hnone⟩)
        · omega
        · omega
        · exact hnone
      · intro hnone
        exact Or.inr (Or.inr ⟨hwrapped, hnone⟩)
    rw [hserve, hrep.findFreeBlock]
    cases hout with
    | @reuse pre post b m' hsplit hfits hfirst hsame =>
        refine Or.inr ⟨?_, _, _, rfl, ?_, hmax⟩
        · rintro ⟨hnone, -⟩
          have hfind : bs.find? (Block.fits 16) = none := by simpa using hnone
          have hnot := List.find?_eq_none.mp hfind b (by rw [hsplit]; simp)
          exact hnot hfits
        · have := (hrep.ok.tiles.bounds b (by rw [hsplit]; simp)).1
          omega
    | extend hfull hroom hsame =>
        refine Or.inr ⟨?_, _, _, rfl, ?_, hmax⟩
        · rintro ⟨-, hnone⟩
          omega
        · have := hrep.ok.tiles.le
          omega
    | fail hfull hroom =>
        refine Or.inl ⟨⟨?_, by omega⟩, rfl⟩
        rw [List.find?_eq_none.mpr fun x hx => by rw [hfull x hx]; exact Bool.false_ne_true]
        rfl
  · -- no block is that large, so the heap is extended
    have halign := align_of_le (Nat.not_lt.mp hwrapped)
    have hsize := blockSizeFor_huge hlo (Nat.not_lt.mp hwrapped)
    have hnone : findFreeBlock h (align n) = .ok none := by
      rw [hrep.findFreeBlock, List.find?_eq_none.mpr]
      · rfl
      · intro b hb
        have := hrep.addr hb
        simp only [Block.fits, Bool.and_eq_true, decide_eq_true_eq]
        omega
    have hcall : kmalloc h n = kmallocExtend h (align n) := by
      unfold kmalloc
      rw [if_neg (by omega), hsize]
      simp only [hnone]
      rfl
    have hserve : Serviceable h n ↔ 0xFFFFFFE8 < align n
        ∧ h.heapMax < h.heapEnd + (align n - 0xFFFFFFE8) := by
      unfold Serviceable
      constructor
      · rintro (hle | ⟨hlow, -, hroom⟩ | ⟨hle, -⟩)
        · omega
        · exact ⟨by omega, hroom⟩
        · omega
      · rintro ⟨hlow, hroom⟩
        exact Or.inr (Or.inl ⟨by omega, by omega, hroom⟩)
    rw [hserve, hcall]
    unfold kmallocExtend
    rcases kbrk_huge hend (show 0x7FFFFFE8 ≤ align n by omega) (by omega) with
      ⟨hbrk, hrefused⟩ | ⟨hserved, e, hbrk⟩
    · rw [hbrk]
      exact Or.inl ⟨hrefused, rfl⟩
    · rw [hbrk]
      obtain ⟨h', happend, hmax'⟩ := appendBlock_returns (h := { h with heapEnd := e }) (align n)
        hrep.pos hend hrep.ok.tiles hrep.reps hrep.list
      have hp : add32 h.heapEnd headerSize = h.heapEnd + 24 := by
        rw [headerSize_eq, add32_of_lt (by omega)]
      have hle := hrep.ok.tiles.le
      refine Or.inr ⟨hserved, h.heapEnd + 24,
        { h' with totalAllocations := add32 h'.totalAllocations 1 }, ?_, by omega, ?_⟩
      · simp only [if_neg (show h.heapEnd ≠ 0xFFFFFFFF by omega), happend, hp]
        rfl
      · show h'.heapMax < 2147483648
        rw [hmax']
        exact hmax

theorem HeapRep.honours_iff (hrep : HeapRep h bs) (h1 : 1 ≤ n) (hn : n < 4294967296) :
    Honours h n ↔ Serviceable h n := by
  by_cases hle : n ≤ 0x7FFFFFE0
  · exact iff_of_true (hrep.honours h1 hle) (Or.inl hle)
  · rcases kmalloc_huge hrep (Nat.not_le.mp hle) hn with
      ⟨hserve, hcall⟩ | ⟨hserve, p, h', hcall, hp, hmax⟩
    · refine iff_of_true ?_ hserve
      intro p h' hcall' hp
      obtain ⟨rfl, -⟩ := Prod.mk.inj (Except.ok.inj (hcall.symm.trans hcall'))
      exact absurd rfl hp
    · exact iff_of_false (not_honours (Nat.not_le.mp hle) hmax hcall hp) hserve

end Huge

/-! ## Runs -/

/-- As `HeapStep`, with requests of every size. -/
inductive RequestStep : HeapClient → HeapEvent → HeapClient → Prop where
  | bounded {s t : HeapClient} {e : HeapEvent} (h : HeapStep s e t) : RequestStep s e t
  | kmalloc {s : HeapClient} {n p : Nat} {h' : Heap} (hlo : 0x7FFFFFE0 < n) (hn : n < 4294967296)
      (hcall : kmalloc s.heap n = .ok (p, h')) :
      RequestStep s (.kmalloc n) ⟨h', if p = 0 then s.live else (p, n) :: s.live⟩

def HeapEvent.Serviceable (h : Heap) : HeapEvent → Prop
  | .kmalloc n => Kfs.Serviceable h n
  | .kfree _ => True
  | .write _ _ => True

def ServiceableStep (s : HeapClient) (e : HeapEvent) (t : HeapClient) : Prop :=
  RequestStep s e t ∧ e.Serviceable s.heap

theorem HeapInv.serviceableStep {s t : HeapClient} {e : HeapEvent} (hinv : HeapInv s)
    (hstep : ServiceableStep s e t) : HeapInv t := by
  obtain ⟨hstep, hserve⟩ := hstep
  cases hstep with
  | bounded h => exact hinv.step h
  | @kmalloc n p h' hlo hn hcall =>
      -- a serviceable request of this size was refused
      obtain ⟨bs, hrep, hlive⟩ := hinv
      rcases kmalloc_huge hrep hlo hn with ⟨-, hrefused⟩ | ⟨hnot, -⟩
      · obtain ⟨rfl, rfl⟩ := Prod.mk.inj (Except.ok.inj (hcall.symm.trans hrefused))
        exact ⟨bs, hrep, hlive⟩
      · exact absurd hserve hnot

/-- After any run of serviceable requests a request is honoured exactly if it
is serviceable. -/
theorem heapRun_honours {kernelEnd : Nat} {m : Mem} {p : Pmm}
    (hlim : heapLimit kernelEnd < 2147483648) {es : List HeapEvent} {s : HeapClient}
    (hrun : Run ServiceableStep ⟨(kmallocInit kernelEnd m p).1, []⟩ es s) {n : Nat}
    (h1 : 1 ≤ n) (hn : n < 4294967296) : Honours s.heap n ↔ Serviceable s.heap n := by
  obtain ⟨bs, hrep, -⟩ := hrun.invariant (heapInv_init m hlim) HeapInv.serviceableStep
  exact hrep.honours_iff h1 hn

theorem HeapStep.serviceable {s t : HeapClient} {e : HeapEvent} (h : HeapStep s e t) :
    ServiceableStep s e t := by
  refine ⟨.bounded h, ?_⟩
  cases h with
  | kmalloc hn hcall => exact Or.inl hn
  | kfree | write => trivial

/-- The free block between two live allocations serves the request. -/
theorem heapRun_honours_reuse : ∃ s, Run ServiceableStep
      ⟨(kmallocInit 0x200000 (fun _ => 0#8) (allUsed 0)).1, []⟩
      [.kmalloc 24, .kmalloc 100, .kmalloc 10, .kfree 0x210048] s
    ∧ s.live = [(0x2100C8, 10), (0x210018, 24)] ∧ Honours s.heap 50
    ∧ ∃ h', kmalloc s.heap 50 = .ok (0x210048, h') := by
  obtain ⟨s, hrun, hlive, hfirst⟩ := execSteps_observe heapExec_step
    ⟨(kmallocInit 0x200000 (fun _ => 0#8) (allUsed 0)).1, []⟩
    [.kmalloc 24, .kmalloc 100, .kmalloc 10, .kfree 0x210048]
    (fun s => s.live = [(0x2100C8, 10), (0x210018, 24)]
      ∧ (kmalloc s.heap 50).toOption.map Prod.fst = some 0x210048) (by decide +kernel)
  have hserviceable := hrun.mono HeapStep.serviceable
  exact ⟨s, hserviceable, hlive, (heapRun_honours (p := allUsed 0) (by decide) hserviceable
    (n := 50) (by decide) (by decide)).mpr (Or.inl (by decide)), eq_ok_of_fst hfirst⟩

/-- On the empty heap a request of `0xFFFFFFFF` bytes gets a block of 16, and
one of `0x80000000` bytes moves the end of the heap out of its bounds. -/
theorem heapRun_honours_fails : ∃ h, h = (kmallocInit 0x200000 (fun _ => 0#8) (allUsed 0)).1
    ∧ (∃ h', kmalloc h 0xFFFFFFFF = .ok (0x210018, h') ∧ ksize h' 0x210018 = 16)
    ∧ (∃ h', kmalloc h 0x80000000 = .ok (0x210018, h') ∧ h'.heapMax < h'.heapEnd)
    ∧ ¬Honours h 0xFFFFFFFF ∧ ¬Honours h 0x80000000 := by
  obtain ⟨⟨p, h1⟩, hcall, hsize⟩ := eq_ok_of_map
    (x := kmalloc (kmallocInit 0x200000 (fun _ => 0#8) (allUsed 0)).1 0xFFFFFFFF)
    (f := fun r => (r.1, ksize r.2 0x210018)) (b := (0x210018, 16)) (by decide +kernel)
  obtain ⟨⟨q, h2⟩, hcall', hend⟩ := eq_ok_of_map
    (x := kmalloc (kmallocInit 0x200000 (fun _ => 0#8) (allUsed 0)).1 0x80000000)
    (f := fun r => (r.1, decide (r.2.heapMax < r.2.heapEnd))) (b := (0x210018, true))
    (by decide +kernel)
  obtain ⟨rfl, hsize⟩ := Prod.mk.inj hsize
  obtain ⟨rfl, hend⟩ := Prod.mk.inj hend
  have hend := of_decide_eq_true hend
  refine ⟨_, rfl, ⟨h1, hcall, hsize⟩, ⟨h2, hcall', hend⟩, ?_, ?_⟩
  · intro hhonours
    have hle := (hhonours _ h1 hcall (by decide)).1
    rw [hsize] at hle
    exact absurd hle (by decide)
  · intro hhonours
    exact Nat.not_lt.mpr (hhonours _ h2 hcall' (by decide)).2.2.2.1 hend

end Kfs
