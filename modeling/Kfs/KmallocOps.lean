import Kfs.KmallocRep

/-!
# What the allocator does to the block list

Each piece of `kmalloc.c` that writes block headers, run on a memory that
represents a list of blocks, leaves a memory that represents the list the
operation of `KmallocBlocks` gives, and writes nothing but block headers.
-/

namespace Kfs

variable {m : Mem} {lo hi : Nat} {pre post : List Block} {b : Block}

/-! ## Splitting -/

/-- The writes of a split, in their order. -/
theorem splitBlock_eq {block size : Nat} {B : BlockHeader} (hB : readHeader m block = B)
    (hsplit : size + 40 ≤ B.size) (hlim : block + 24 + B.size < 2147483648) :
    splitBlock m block size
      = (let new := block + 24 + size
        let m := setSize m new (B.size - size - 24)
        let m := setMagic (setFree m new 1#8) new
        let m := setPrev (setNext m new B.next) new block
        setSize (setNext (relink m B.next new) block new) block size) := by
  have hsum : add32 (add32 size headerSize) minBlockSize = size + 40 := by
    simp only [headerSize_eq, minBlockSize_eq, add32_eq]
    omega
  have hnew : add32 (add32 block headerSize) size = block + 24 + size := by
    simp only [headerSize_eq, add32_eq]
    omega
  have hrest : sub32 (sub32 B.size size) headerSize = B.size - size - 24 := by
    simp only [headerSize_eq, sub32_eq]
    omega
  unfold splitBlock
  rw [if_pos (by rw [hB, hsum]; exact hsplit)]
  simp (disch := omega) only [hnew, hB, hrest, readHeader_setSize_apart,
    readHeader_setFree_apart, readHeader_setMagic_apart, readHeader_setNext_apart,
    readHeader_setPrev_apart]

/-- The headers around a split, and the bytes it leaves alone. -/
theorem splitBlock_headers {block size : Nat} {B : BlockHeader}
    (hB : readHeader m block = B) (hsplit : size + 40 ≤ B.size)
    (hlim : block + 24 + B.size < 2147483648)
    (hbehind : B.next = 0 ∨ block + 24 + B.size ≤ B.next) (hn : B.next < 4294967296) :
    readHeader (splitBlock m block size) block
        = { B with size := size, next := block + 24 + size }
      ∧ readHeader (splitBlock m block size) (block + 24 + size)
        = ⟨B.size - size - 24, 1#8, B.next, block, blockMagic⟩
      ∧ (B.next ≠ 0 → readHeader (splitBlock m block size) B.next
        = { readHeader m B.next with prev := block + 24 + size })
      ∧ (∀ c, c + 24 ≤ block ∨ (block + 24 + B.size ≤ c ∧ (B.next = 0 ∨ B.next + 24 ≤ c)) →
        readHeader (splitBlock m block size) c = readHeader m c)
      ∧ (∀ x, (x < block ∨ block + 24 ≤ x) →
        (x < block + 24 + size ∨ block + 24 + size + 24 ≤ x) →
        (B.next = 0 ∨ x < B.next ∨ B.next + 24 ≤ x) → splitBlock m block size x = m x) := by
  rw [splitBlock_eq hB hsplit hlim]
  dsimp only
  refine ⟨?_, ?_, ?_, ?_, ?_⟩
  · simp (disch := omega) [hB]
  · simp (disch := omega)
  · intro h0
    simp (disch := omega) [readHeader_relink h0]
  · intro c hc
    simp (disch := omega)
  · intro x h1 h2 h3
    simp (disch := omega)

/-- Without room for another block, `split_block` does nothing. -/
theorem splitBlock_small {block size : Nat} (hsize : size + 40 < 4294967296)
    (h : (readHeader m block).size < size + 40) : splitBlock m block size = m := by
  have hsum : add32 (add32 size headerSize) minBlockSize = size + 40 := by
    simp only [headerSize_eq, minBlockSize_eq, add32_eq]
    omega
  unfold splitBlock
  rw [if_neg (by rw [hsum]; omega)]

/-- The block behind `b`, when there is one. -/
theorem Tiles.next (hr : InRange lo hi) (ht : Tiles lo (pre ++ b :: post) hi) :
    (headOr 0 post = 0 ∨ b.stop ≤ headOr 0 post) ∧ headOr 0 post < 4294967296
      ∧ ∀ c ∈ post.tail, headOr 0 post + 24 ≤ c.addr := by
  have hpost := ht.around.2
  cases post with
  | nil => exact ⟨Or.inl rfl, by simp [headOr], by simp⟩
  | cons c post =>
      have hc := hr.addr ht (b := c) (by simp)
      obtain ⟨hca, htail⟩ := hpost
      refine ⟨Or.inr (Nat.le_of_eq hca.symm), by rw [headOr_cons]; omega, ?_⟩
      intro x hx
      have := (htail.bounds x hx).1
      rw [headOr_cons]
      unfold Block.stop at this
      omega

/-- Taking a free block: the header of the rest, if any, and the mark on the
block itself. -/
theorem splitBlock_reps (hr : InRange lo hi) (ht : Tiles lo (pre ++ b :: post) hi)
    (hrep : Reps m 0 0 (pre ++ b :: post)) {size : Nat} (hfit : size ≤ b.size) :
    Reps (setFree (splitBlock m b.addr size) b.addr 0#8) 0 0 (pre ++ carve size b ++ post)
      ∧ SameOffHeaders ((pre ++ b :: post) ++ (pre ++ carve size b ++ post)) m
        (setFree (splitBlock m b.addr size) b.addr 0#8) := by
  have hB := hrep.header
  have hb := hr.addr ht (b := b) (by simp)
  have hbstop : b.stop = b.addr + 24 + b.size := rfl
  obtain ⟨hnext, hnlt, htail⟩ := ht.next hr
  obtain ⟨hpre, -, hpost⟩ := reps_append.mp hrep
  by_cases hsplit : size + 40 ≤ b.size
  · have hcarve : carve size b
        = [⟨b.addr, size, false⟩, ⟨b.addr + 24 + size, b.size - size - 24, true⟩] :=
      if_pos hsplit
    obtain ⟨h1, h2, h3, h4, h5⟩ := splitBlock_headers hB hsplit hb.2
      (by simpa [headerOf, Block.stop] using hnext) hnlt
    simp only [headerOf] at h1 h2 h3 h4 h5
    constructor
    · rw [hcarve, List.append_assoc]
      refine reps_append.mpr ⟨hpre.congr ?_, ?_, ?_, ?_⟩
      · intro x hx
        have hx' := ht.before x hx
        unfold Block.stop at hx'
        simp (disch := omega) only [readHeader_setFree_apart, h4]
      · rw [readHeader_setFree, h1]
        rfl
      · rw [readHeader_setFree_apart (by dsimp only; omega), h2]
        rfl
      · refine hpost.reprev ?_ ?_
        · intro c hc
          obtain ⟨post', rfl⟩ : ∃ post', post = c :: post' := List.head?_eq_some_iff.mp hc
          have hc0 := hr.addr ht (b := c) (by simp)
          have hcb := ht.behind c (by simp)
          rw [readHeader_setFree_apart (by omega)]
          exact h3 (by rw [headOr_cons]; omega)
        · intro c hc
          have hc' := htail c hc
          have hcb := ht.behind c (List.mem_of_mem_tail hc)
          simp (disch := omega) only [readHeader_setFree_apart, h4]
    · intro x hx
      have hxb := hx b (by simp)
      have hxn := hx ⟨b.addr + 24 + size, b.size - size - 24, true⟩ (by simp [hcarve])
      have hxnext : headOr 0 post = 0 ∨ x < headOr 0 post ∨ headOr 0 post + 24 ≤ x := by
        cases post with
        | nil => exact Or.inl rfl
        | cons c post => exact Or.inr (hx c (by simp))
      rw [setFree_outside hxb, h5 x hxb hxn hxnext]
  · have hcarve : carve size b = [⟨b.addr, b.size, false⟩] := if_neg hsplit
    rw [splitBlock_small (by omega) (by rw [hB]; exact Nat.lt_of_not_le hsplit), hcarve]
    constructor
    · rw [List.append_assoc]
      refine reps_append.mpr ⟨hpre.congr ?_, ?_, hpost.congr ?_⟩
      · intro x hx
        have hx' := ht.before x hx
        unfold Block.stop at hx'
        simp (disch := omega) only [readHeader_setFree_apart]
      · rw [readHeader_setFree, hB]
        rfl
      · intro x hx
        have hx' := ht.behind x hx
        simp (disch := omega) only [readHeader_setFree_apart]
    · intro x hx
      exact setFree_outside (hx b (by simp))

/-! ## Merging -/

/-- The writes of either half of `coalesce_blocks`: `addr` grows to `size`
and is linked with `next`. -/
def grow (m : Mem) (addr size next : Nat) : Mem :=
  relink (setNext (setSize m addr size) addr next) next addr

/-- The block behind `b`, marked free, is absorbed. -/
theorem coalesceNext_grow {c : Block} (hr : InRange lo hi)
    (ht : Tiles lo (pre ++ b :: c :: post) hi) (hrep : Reps m 0 0 (pre ++ b :: c :: post))
    (hfree : c.free = true) :
    coalesceNext m b.addr = grow m b.addr (b.size + 24 + c.size) (headOr 0 post) := by
  have hB := hrep.header
  have hb := hr.addr ht (b := b) (by simp)
  have hC : readHeader m c.addr = headerOf c (headOr 0 post) b.addr :=
    (reps_append.mp hrep).2.2.1
  have hc := hr.addr ht (b := c) (by simp)
  have hca : c.addr = b.addr + 24 + b.size := ht.around.2.1
  have hnlt : headOr 0 post < 4294967296 := by
    have ht' : Tiles lo ((pre ++ [b]) ++ c :: post) hi := by simpa using ht
    exact (ht'.next hr).2.1
  have hsize : add32 b.size (add32 headerSize c.size) = b.size + 24 + c.size := by
    simp only [headerSize_eq, add32_eq]
    omega
  have hcond : c.addr ≠ 0 ∧ (readHeader m c.addr).free ≠ 0#8 := by
    rw [hC]
    simp only [headerOf, hfree]
    exact ⟨by omega, by decide⟩
  unfold coalesceNext grow
  simp only [hB, headerOf, headOr_cons]
  rw [if_pos hcond]
  simp (disch := omega) only [hC, headerOf, hsize, readHeader_setSize_apart,
    readHeader_setNext]

theorem coalesceNext_same (hrep : Reps m 0 0 (pre ++ b :: post))
    (h : ∀ c ∈ post.head?, ¬c.free = true) : coalesceNext m b.addr = m := by
  have hB := hrep.header
  unfold coalesceNext
  cases post with
  | nil =>
      simp only [hB, headerOf, headOr_nil]
      rfl
  | cons c post =>
      have hC : readHeader m c.addr = headerOf c (headOr 0 post) b.addr :=
        (reps_append.mp hrep).2.2.1
      simp only [hB, hC, headerOf, headOr_cons]
      rw [if_neg (by simp [h c rfl])]

/-- Absorbing the next block. -/
theorem coalesceNext_reps (hr : InRange lo hi) (ht : Tiles lo (pre ++ b :: post) hi)
    (hrep : Reps m 0 0 (pre ++ b :: post)) :
    Reps (coalesceNext m b.addr) 0 0 (pre ++ (mergeNext b post).1 :: (mergeNext b post).2)
      ∧ SameOffHeaders (pre ++ b :: post) m (coalesceNext m b.addr) := by
  have hB := hrep.header
  have hb := hr.addr ht (b := b) (by simp)
  obtain ⟨hpre, -, hpost⟩ := reps_append.mp hrep
  cases post with
  | nil =>
      rw [coalesceNext_same hrep (by simp)]
      exact ⟨hrep, .refl _ _⟩
  | cons c post =>
      have hC : readHeader m c.addr = headerOf c (headOr 0 post) b.addr := hpost.1
      have hc := hr.addr ht (b := c) (by simp)
      have hca : c.addr = b.addr + 24 + b.size := ht.around.2.1
      have ht' : Tiles lo ((pre ++ [b]) ++ c :: post) hi := by simpa using ht
      obtain ⟨hnext, hnlt, htail⟩ := ht'.next hr
      have hcstop : c.stop = c.addr + 24 + c.size := rfl
      by_cases hfree : c.free = true
      · rw [mergeNext_of_free post hfree]
        rw [coalesceNext_grow hr ht hrep hfree]
        unfold grow
        constructor
        · refine reps_append.mpr ⟨hpre.congr ?_, ?_, ?_⟩
          · intro x hx
            have hx' := ht.before x hx
            unfold Block.stop at hx'
            simp (disch := omega)
          · simp (disch := omega) [hB, headerOf, absorb]
          · refine hpost.2.reprev ?_ ?_
            · intro d hd
              obtain ⟨post', rfl⟩ : ∃ post', post = d :: post' := List.head?_eq_some_iff.mp hd
              have hd0 := hr.addr ht (b := d) (by simp)
              have hdc := ht'.behind d (by simp)
              simp (disch := omega) [readHeader_relink (show d.addr ≠ 0 by omega), absorb]
            · intro d hd
              have hd' := htail d hd
              have hdc := ht'.behind d (List.mem_of_mem_tail hd)
              simp (disch := omega)
        · intro x hx
          have hxb := hx b (by simp)
          have hxnext : headOr 0 post = 0 ∨ x < headOr 0 post ∨ headOr 0 post + 24 ≤ x := by
            cases post with
            | nil => exact Or.inl rfl
            | cons d post => exact Or.inr (hx d (by simp))
          simp (disch := omega)
      · rw [mergeNext_of_used post hfree]
        rw [coalesceNext_same hrep (by simpa using hfree)]
        exact ⟨hrep, .refl _ _⟩

/-- The block before `b` is free and absorbs it. -/
theorem coalescePrev_grow {a : Block} (hr : InRange lo hi)
    (ht : Tiles lo (pre ++ a :: b :: post) hi) (hrep : Reps m 0 0 (pre ++ a :: b :: post))
    (hfree : a.free = true) :
    coalescePrev m b.addr = grow m a.addr (a.size + 24 + b.size) (headOr 0 post) := by
  have hA := hrep.header
  have ha := hr.addr ht (b := a) (by simp)
  have hB : readHeader m b.addr = headerOf b (headOr 0 post) a.addr :=
    (reps_append.mp hrep).2.2.1
  have hb := hr.addr ht (b := b) (by simp)
  have hba : b.addr = a.addr + 24 + a.size := ht.around.2.1
  have hsize : add32 a.size (add32 headerSize b.size) = a.size + 24 + b.size := by
    simp only [headerSize_eq, add32_eq]
    omega
  have hcond : a.addr ≠ 0 ∧ (readHeader m a.addr).free ≠ 0#8 := by
    rw [hA]
    simp only [headerOf, hfree]
    exact ⟨by omega, by decide⟩
  unfold coalescePrev grow
  simp only [hB, headerOf]
  rw [if_pos hcond]
  simp (disch := omega) only [hA, hB, headerOf, hsize, readHeader_setSize_apart,
    readHeader_setNext_apart]

theorem coalescePrev_same (hrep : Reps m 0 0 (pre ++ b :: post))
    (h : ∀ a ∈ pre.getLast?, ¬a.free = true) : coalescePrev m b.addr = m := by
  have hB := hrep.header
  unfold coalescePrev
  rcases List.eq_nil_or_concat pre with rfl | ⟨pre, a, rfl⟩
  · simp only [hB, headerOf, lastOr]
    rfl
  · rw [List.concat_eq_append] at *
    have hrep' : Reps m 0 0 (pre ++ a :: b :: post) := by simpa using hrep
    rw [lastOr_concat] at hB
    simp only [hB, hrep'.header, headerOf]
    rw [if_neg (by simp [h a (by simp)])]

/-- Being absorbed by the previous block. -/
theorem coalescePrev_reps (hr : InRange lo hi) (ht : Tiles lo (pre ++ b :: post) hi)
    (hrep : Reps m 0 0 (pre ++ b :: post)) :
    Reps (coalescePrev m b.addr) 0 0 (mergePrev pre b post)
      ∧ SameOffHeaders (pre ++ b :: post) m (coalescePrev m b.addr) := by
  have hB := hrep.header
  have hb := hr.addr ht (b := b) (by simp)
  have hbstop : b.stop = b.addr + 24 + b.size := rfl
  unfold mergePrev
  split
  · rename_i a ha
    obtain ⟨pre, rfl⟩ : ∃ pre', _ = pre' ++ [a] := List.getLast?_eq_some_iff.mp ha
    rw [List.dropLast_concat]
    rw [lastOr_concat] at hB
    have ht' : Tiles lo (pre ++ a :: b :: post) hi := by simpa using ht
    have hrep' : Reps m 0 0 (pre ++ a :: b :: post) := by simpa using hrep
    have hA : readHeader m a.addr = headerOf a b.addr (lastOr 0 pre) := hrep'.header
    have haddr := hr.addr ht' (b := a) (by simp)
    have hba : b.addr = a.addr + 24 + a.size := ht'.around.2.1
    obtain ⟨hnext, hnlt, htail⟩ := ht.next hr
    obtain ⟨hpre, -, -, hpost⟩ := reps_append.mp hrep'
    split
    · rename_i hfree
      rw [coalescePrev_grow hr ht' hrep' hfree]
      unfold grow
      constructor
      · refine reps_append.mpr ⟨hpre.congr ?_, ?_, ?_⟩
        · intro x hx
          have hx' := ht'.before x hx
          unfold Block.stop at hx'
          simp (disch := omega)
        · simp (disch := omega) [hA, headerOf, absorb]
        · refine hpost.reprev ?_ ?_
          · intro d hd
            obtain ⟨post', rfl⟩ : ∃ post', post = d :: post' := List.head?_eq_some_iff.mp hd
            have hd0 := hr.addr ht (b := d) (by simp)
            have hdb := ht.behind d (by simp)
            simp (disch := omega) [readHeader_relink (show d.addr ≠ 0 by omega), absorb]
          · intro d hd
            have hd' := htail d hd
            have hdb := ht.behind d (List.mem_of_mem_tail hd)
            simp (disch := omega)
      · intro x hx
        have hxa := hx a (by simp)
        have hxnext : headOr 0 post = 0 ∨ x < headOr 0 post ∨ headOr 0 post + 24 ≤ x := by
          cases post with
          | nil => exact Or.inl rfl
          | cons d post => exact Or.inr (hx d (by simp))
        simp (disch := omega)
    · rename_i hfree
      rw [coalescePrev_same hrep (by simpa using hfree)]
      exact ⟨hrep, .refl _ _⟩
  · rename_i ha
    obtain rfl := List.getLast?_eq_none_iff.mp ha
    rw [coalescePrev_same hrep (by simp)]
    exact ⟨hrep, .refl _ _⟩

end Kfs
