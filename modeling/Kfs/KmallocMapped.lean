import Kfs.KmallocRuns
import Kfs.Lib.Mapped

/-!
# Frees that may page-fault

Memory is total in `Kmalloc`: a header can be read anywhere. The processor
reads through the page directory, and an access to an address it does not map
is a page fault, which the kernel answers with a panic. `kfreeMapped` is
`kfree` with its accesses checked; `mapped` tells which addresses the
directory maps. On a well-formed heap that is mapped the two are the same
(`HeapRep.kfreeMapped_eq`). They differ where a link is followed that is none.
-/

namespace Kfs

/-- The addresses `paging_init` maps. -/
def lowMapped (a : Nat) : Bool := decide (a < 0x1000000)

section Code

variable (mapped : Nat → Bool)

/-- `if (next) next->prev = prev;` -/
def relinkMapped (m : Mem) (next prev : Nat) : Except Fault Mem :=
  if next = 0 then .ok m
  else do
    access mapped (next + 12) 4
    return setPrev m next prev

def coalesceNextMapped (m : Mem) (block : Nat) : Except Fault Mem := do
  access mapped (block + 8) 4
  let next := (readHeader m block).next
  if next = 0 then return m
  else do
    access mapped (next + 4) 1
    if (readHeader m next).free = 0#8 then return m
    else do
      access mapped next 4
      access mapped block 4
      let m := setSize m block
        (add32 (readHeader m block).size (add32 headerSize (readHeader m next).size))
      access mapped (next + 8) 4
      let m := setNext m block (readHeader m next).next
      relinkMapped mapped m (readHeader m block).next block

def coalescePrevMapped (m : Mem) (block : Nat) : Except Fault Mem := do
  access mapped (block + 12) 4
  let prev := (readHeader m block).prev
  if prev = 0 then return m
  else do
    access mapped (prev + 4) 1
    if (readHeader m prev).free = 0#8 then return m
    else do
      access mapped block 4
      access mapped prev 4
      let m := setSize m prev
        (add32 (readHeader m prev).size (add32 headerSize (readHeader m block).size))
      access mapped (block + 8) 4
      access mapped (prev + 8) 4
      let m := setNext m prev (readHeader m block).next
      relinkMapped mapped m (readHeader m block).next prev

def coalesceBlocksMapped (m : Mem) (block : Nat) : Except Fault Mem := do
  coalescePrevMapped mapped (← coalesceNextMapped mapped m block) block

def kfreeMapped (h : Heap) (p : Nat) : Except Fault (Heap × Bool) :=
  if p = 0 then .ok (h, false)
  else do
    let block := sub32 p headerSize
    access mapped (block + 16) 4
    if (readHeader h.mem block).magic ≠ blockMagic then
      throw (.panic "kfree: Invalid block (corrupted or double-free)")
    else do
      access mapped (block + 4) 1
      if (readHeader h.mem block).free ≠ 0#8 then return (h, true)
      else do
        let m ← coalesceBlocksMapped mapped (setFree h.mem block 1#8) block
        return ({ h with mem := m, totalFrees := add32 h.totalFrees 1 }, false)

end Code

/-! ## Page faults -/

section Faults

variable {mapped : Nat → Bool} {m : Mem} {h : Heap} {block next prev : Nat}

theorem relinkMapped_faults : OnlyPageFaults (relinkMapped mapped m next prev) :=
  .ite (.ok _) (.bind .access fun _ => .ok _)

theorem coalesceNextMapped_faults : OnlyPageFaults (coalesceNextMapped mapped m block) := by
  refine .bind .access fun _ => .ite (.ok _) (.bind .access fun _ => .ite (.ok _) ?_)
  exact .bind .access fun _ => .bind .access fun _ => .bind .access fun _ =>
    relinkMapped_faults

theorem coalescePrevMapped_faults : OnlyPageFaults (coalescePrevMapped mapped m block) := by
  refine .bind .access fun _ => .ite (.ok _) (.bind .access fun _ => .ite (.ok _) ?_)
  exact .bind .access fun _ => .bind .access fun _ => .bind .access fun _ =>
    .bind .access fun _ => relinkMapped_faults

theorem coalesceBlocksMapped_faults : OnlyPageFaults (coalesceBlocksMapped mapped m block) :=
  .bind coalesceNextMapped_faults fun _ => coalescePrevMapped_faults

/-- A link to an address that is not mapped is not followed. -/
theorem coalesceBlocksMapped_wild (hblock : ∀ i < 4, mapped (block + 8 + i) = true)
    (hnext : (readHeader m block).next ≠ 0)
    (hwild : mapped ((readHeader m block).next + 4) = false) :
    coalesceBlocksMapped mapped m block = .error pageFault := by
  unfold coalesceBlocksMapped coalesceNextMapped
  rw [bind_of_ok (access_ok hblock)]
  dsimp only
  rw [if_neg hnext, bind_of_error (access_unmapped Nat.one_pos hwild)]
  rfl

end Faults

/-! ## Mapped headers -/

/-- The header at `g` is mapped. -/
def HeaderMapped (mapped : Nat → Bool) (g : Nat) : Prop := ∀ i < 20, mapped (g + i) = true

section Headers

variable {mapped : Nat → Bool} {m : Mem} {g next prev block off size : Nat}

theorem HeaderMapped.access (h : HeaderMapped mapped g) (hoff : off + size ≤ 20) :
    access mapped (g + off) size = .ok () := by
  refine access_ok ?_
  intro i hi
  rw [Nat.add_assoc]
  exact h (off + i) (by omega)

theorem HeaderMapped.access_zero (h : HeaderMapped mapped g) (hsize : size ≤ 20) :
    Kfs.access mapped g size = .ok () :=
  h.access (show 0 + size ≤ 20 by omega)

theorem relinkMapped_eq (h : next ≠ 0 → HeaderMapped mapped next) :
    relinkMapped mapped m next prev = .ok (relink m next prev) := by
  unfold relinkMapped relink
  by_cases hnext : next = 0
  · rw [if_pos hnext, if_neg (not_not.mpr hnext)]
  · rw [if_neg hnext, if_pos hnext, (h hnext).access (by omega)]
    rfl

/-- Nothing to merge with. -/
theorem coalesceNextMapped_same (hblock : HeaderMapped mapped block)
    (hnext : (readHeader m block).next ≠ 0 → HeaderMapped mapped (readHeader m block).next)
    (hused : (readHeader m block).next ≠ 0 →
      (readHeader m (readHeader m block).next).free = 0#8) :
    coalesceNextMapped mapped m block = .ok m := by
  unfold coalesceNextMapped
  rw [bind_of_ok (hblock.access (by omega))]
  dsimp only
  split
  · rfl
  · next hne =>
      rw [bind_of_ok ((hnext hne).access (by omega)), if_pos (hused hne)]
      rfl

theorem coalescePrevMapped_same (hblock : HeaderMapped mapped block)
    (hprev : (readHeader m block).prev ≠ 0 → HeaderMapped mapped (readHeader m block).prev)
    (hused : (readHeader m block).prev ≠ 0 →
      (readHeader m (readHeader m block).prev).free = 0#8) :
    coalescePrevMapped mapped m block = .ok m := by
  unfold coalescePrevMapped
  rw [bind_of_ok (hblock.access (by omega))]
  dsimp only
  split
  · rfl
  · next hne =>
      rw [bind_of_ok ((hprev hne).access (by omega)), if_pos (hused hne)]
      rfl

end Headers

/-! ## Well-formed lists -/

section Blocks

variable {mapped : Nat → Bool} {m : Mem} {lo hi : Nat} {pre post : List Block} {b : Block}

theorem headOr_mapped (h : ∀ c ∈ post, HeaderMapped mapped c.addr) (hne : headOr 0 post ≠ 0) :
    HeaderMapped mapped (headOr 0 post) := by
  cases post with
  | nil => exact absurd rfl hne
  | cons c post => exact h c List.mem_cons_self

theorem coalesceNextMapped_eq (hr : InRange lo hi) (ht : Tiles lo (pre ++ b :: post) hi)
    (hrep : Reps m 0 0 (pre ++ b :: post))
    (hmapped : ∀ c ∈ pre ++ b :: post, HeaderMapped mapped c.addr) :
    coalesceNextMapped mapped m b.addr = .ok (coalesceNext m b.addr) := by
  have hB := hrep.header
  have hb := hr.addr ht (b := b) (by simp)
  have hblock := hmapped b (by simp)
  cases post with
  | nil =>
      have hnext : (readHeader m b.addr).next = 0 := by rw [hB]; rfl
      rw [coalesceNext_same hrep (by simp)]
      exact coalesceNextMapped_same hblock (absurd hnext) (absurd hnext)
  | cons c post =>
      have hC : readHeader m c.addr = headerOf c (headOr 0 post) b.addr :=
        (reps_append.mp hrep).2.2.1
      have hc := hr.addr ht (b := c) (by simp)
      have hnext : (readHeader m b.addr).next = c.addr := by rw [hB]; rfl
      have hcmapped := hmapped c (by simp)
      by_cases hfree : c.free = true
      · have hca : c.addr = b.addr + 24 + b.size := ht.around.2.1
        have hnlt : headOr 0 post < 4294967296 := by
          have ht' : Tiles lo ((pre ++ [b]) ++ c :: post) hi := by simpa using ht
          exact (ht'.next hr).2.1
        have hsize : add32 b.size (add32 headerSize c.size) = b.size + 24 + c.size := by
          simp only [headerSize_eq, add32_eq]
          omega
        have hfree' : ¬(readHeader m c.addr).free = 0#8 := by
          rw [hC]
          simp [headerOf, hfree]
        rw [coalesceNext_grow hr ht hrep hfree]
        unfold coalesceNextMapped grow
        rw [bind_of_ok (hblock.access (by omega))]
        simp only [hnext]
        rw [if_neg (by omega), bind_of_ok (hcmapped.access (by omega)), if_neg hfree',
          bind_of_ok (hcmapped.access_zero (by omega)), bind_of_ok (hblock.access_zero (by omega)),
          bind_of_ok (hcmapped.access (by omega))]
        simp (disch := omega) only [hB, hC, headerOf, hsize, readHeader_setSize_apart,
          readHeader_setNext]
        exact relinkMapped_eq (headOr_mapped fun d hd => hmapped d (by simp [hd]))
      · rw [coalesceNext_same hrep (by simpa using hfree)]
        refine coalesceNextMapped_same hblock (fun _ => hnext ▸ hcmapped) fun _ => ?_
        rw [hnext, hC]
        simp [headerOf, hfree]

theorem coalescePrevMapped_eq (hr : InRange lo hi) (ht : Tiles lo (pre ++ b :: post) hi)
    (hrep : Reps m 0 0 (pre ++ b :: post))
    (hmapped : ∀ c ∈ pre ++ b :: post, HeaderMapped mapped c.addr) :
    coalescePrevMapped mapped m b.addr = .ok (coalescePrev m b.addr) := by
  have hB := hrep.header
  have hb := hr.addr ht (b := b) (by simp)
  have hblock := hmapped b (by simp)
  rcases List.eq_nil_or_concat pre with rfl | ⟨pre, a, rfl⟩
  · have hprev : (readHeader m b.addr).prev = 0 := by rw [hB]; rfl
    rw [coalescePrev_same hrep (by simp)]
    exact coalescePrevMapped_same hblock (absurd hprev) (absurd hprev)
  · rw [List.concat_eq_append] at *
    have hrep' : Reps m 0 0 (pre ++ a :: b :: post) := by simpa using hrep
    have ht' : Tiles lo (pre ++ a :: b :: post) hi := by simpa using ht
    have hA : readHeader m a.addr = headerOf a b.addr (lastOr 0 pre) := hrep'.header
    have ha := hr.addr ht' (b := a) (by simp)
    have hprev : (readHeader m b.addr).prev = a.addr := by rw [hB, lastOr_concat]; rfl
    have hamapped := hmapped a (by simp)
    by_cases hfree : a.free = true
    · have hba : b.addr = a.addr + 24 + a.size := ht'.around.2.1
      have hnlt : headOr 0 post < 4294967296 := (ht.next hr).2.1
      have hsize : add32 a.size (add32 headerSize b.size) = a.size + 24 + b.size := by
        simp only [headerSize_eq, add32_eq]
        omega
      have hfree' : ¬(readHeader m a.addr).free = 0#8 := by
        rw [hA]
        simp [headerOf, hfree]
      rw [coalescePrev_grow hr ht' hrep' hfree]
      unfold coalescePrevMapped grow
      rw [bind_of_ok (hblock.access (by omega))]
      simp only [hprev]
      rw [if_neg (by omega), bind_of_ok (hamapped.access (by omega)), if_neg hfree',
        bind_of_ok (hblock.access_zero (by omega)), bind_of_ok (hamapped.access_zero (by omega)),
        bind_of_ok (hblock.access (by omega)), bind_of_ok (hamapped.access (by omega))]
      simp (disch := omega) only [hA, hB, headerOf, hsize, readHeader_setSize_apart,
        readHeader_setNext_apart]
      exact relinkMapped_eq (headOr_mapped fun d hd => hmapped d (by simp [hd]))
    · rw [coalescePrev_same hrep (by simpa using hfree)]
      refine coalescePrevMapped_same hblock (fun _ => hprev ▸ hamapped) fun _ => ?_
      rw [hprev, hA]
      simp [headerOf, hfree]

end Blocks

/-! ## `kfree` -/

section Free

variable {mapped : Nat → Bool} {h : Heap} {pre post bs : List Block} {b : Block} {g : Nat}

theorem HeapRep.header_mapped (hrep : HeapRep h bs)
    (hmapped : ∀ a, h.heapStart ≤ a → a < h.heapEnd → mapped a = true) :
    ∀ c ∈ bs, HeaderMapped mapped c.addr := by
  intro c hc i hi
  obtain ⟨hlo, hhi⟩ := hrep.ok.tiles.bounds c hc
  unfold Block.stop at hhi
  exact hmapped _ (by omega) (by omega)

/-- The header of a pointer decides what `kfree` does with it. -/
theorem kfree_header (hg : g + 24 < 4294967296) :
    kfree h (g + 24)
      = if (readHeader h.mem g).magic ≠ blockMagic then
          .error (.panic "kfree: Invalid block (corrupted or double-free)")
        else if (readHeader h.mem g).free ≠ 0#8 then .ok (h, true)
        else .ok ({ h with
          mem := coalesceBlocks (setFree h.mem g 1#8) g
          totalFrees := add32 h.totalFrees 1 }, false) := by
  have hblock : sub32 (g + 24) headerSize = g := by
    rw [headerSize_eq, sub32_of_le (by omega) (by omega)]
    omega
  unfold kfree
  rw [if_neg (by omega)]
  simp only [hblock]
  by_cases hmagic : (readHeader h.mem g).magic ≠ blockMagic
  · rw [if_pos hmagic, if_pos hmagic]
    rfl
  · rw [if_neg hmagic, if_neg hmagic]
    by_cases hfree : (readHeader h.mem g).free ≠ 0#8
    · rw [if_pos hfree, if_pos hfree]
      rfl
    · rw [if_neg hfree, if_neg hfree]
      rfl

theorem kfreeMapped_header (hg : g + 24 < 4294967296) (hheader : HeaderMapped mapped g) :
    kfreeMapped mapped h (g + 24)
      = if (readHeader h.mem g).magic ≠ blockMagic then
          .error (.panic "kfree: Invalid block (corrupted or double-free)")
        else if (readHeader h.mem g).free ≠ 0#8 then .ok (h, true)
        else (coalesceBlocksMapped mapped (setFree h.mem g 1#8) g).map fun m =>
          ({ h with mem := m, totalFrees := add32 h.totalFrees 1 }, false) := by
  have hblock : sub32 (g + 24) headerSize = g := by
    rw [headerSize_eq, sub32_of_le (by omega) (by omega)]
    omega
  unfold kfreeMapped
  rw [if_neg (by omega)]
  simp only [hblock]
  rw [bind_of_ok (hheader.access (by omega))]
  split
  · rfl
  · rw [bind_of_ok (hheader.access (by omega))]
    split
    · rfl
    · cases coalesceBlocksMapped mapped (setFree h.mem g 1#8) g <;> rfl

/-- A block of a mapped heap is freed without a page fault. -/
theorem HeapRep.kfreeMapped_eq (hrep : HeapRep h (pre ++ b :: post))
    (hmapped : ∀ a, h.heapStart ≤ a → a < h.heapEnd → mapped a = true) :
    kfreeMapped mapped h (b.addr + 24) = kfree h (b.addr + 24) := by
  have hb := hrep.addr (b := b) (by simp)
  have hr := hrep.inRange
  have hheaders := hrep.header_mapped hmapped
  have hmarked := hrep.marked
  have hseam := hrep.ok.seam
  have hnext := (coalesceNext_reps hr hseam.tiles hmarked).1
  have hfirst : coalesceNextMapped mapped (setFree h.mem b.addr 1#8) b.addr
      = .ok (coalesceNext (setFree h.mem b.addr 1#8) b.addr) := by
    refine coalesceNextMapped_eq (b := ⟨b.addr, b.size, true⟩) hr hseam.tiles hmarked ?_
    intro c hc
    rcases List.mem_append.mp hc with hc | hc
    · exact hheaders c (by simp [hc])
    · rcases List.mem_cons.mp hc with rfl | hc
      · exact hheaders b (by simp)
      · exact hheaders c (by simp [hc])
  have hsecond : coalescePrevMapped mapped (coalesceNext (setFree h.mem b.addr 1#8) b.addr)
      (mergeNext ⟨b.addr, b.size, true⟩ post).1.addr
        = .ok (coalescePrev (coalesceNext (setFree h.mem b.addr 1#8) b.addr)
          (mergeNext ⟨b.addr, b.size, true⟩ post).1.addr) := by
    refine coalescePrevMapped_eq hr hseam.mergeNext.1.tiles hnext ?_
    intro c hc
    rcases List.mem_append.mp hc with hc | hc
    · exact hheaders c (by simp [hc])
    · rcases List.mem_cons.mp hc with rfl | hc
      · rw [mergeNext_addr]
        exact hheaders b (by simp)
      · exact hheaders c (by simp [mergeNext_subset _ _ c hc])
  rw [mergeNext_addr] at hsecond
  have hboth : coalesceBlocksMapped mapped (setFree h.mem b.addr 1#8) b.addr
      = .ok (coalesceBlocks (setFree h.mem b.addr 1#8) b.addr) := by
    unfold coalesceBlocksMapped
    rw [bind_of_ok hfirst]
    exact hsecond
  rw [kfreeMapped_header (by omega) (hheaders b (by simp)), kfree_header (by omega), hboth]
  rfl

end Free

end Kfs
