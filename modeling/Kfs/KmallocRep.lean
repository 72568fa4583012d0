import Kfs.Kmalloc
import Kfs.KmallocBlocks

/-!
# The block list in memory

`Reps m pv nx bs` says that the headers of the blocks `bs` stand in the
memory `m`, doubly linked, with `pv` before the first and `nx` behind the
last; `reps_append` cuts such a segment anywhere. Everything the allocator
does to memory is seen through `readHeader`: a setter changes one field of
one header and no header that stands 24 bytes away. These facts are `simp`
lemmas whose side conditions `omega` discharges.

The main results say that each piece of the code, run on a represented list,
represents the list the corresponding operation of `KmallocBlocks` gives
(`splitBlock_reps`, `appendBlock_reps`, `coalesceNext_reps`,
`coalescePrev_reps`), and that it writes only inside block headers
(`SameOffHeaders`).
-/

namespace Kfs

@[simp] theorem headerSize_eq : headerSize = 24 := by
  simp [headerSize, align, add32_eq]

@[simp] theorem minBlockSize_eq : minBlockSize = 16 := rfl

/-! ## One header -/

section Header

variable {m m' : Mem} {b c v x : Nat} {f : Byte}

theorem readHeader_congr (h : ∀ x, c ≤ x → x < c + 24 → m' x = m x) :
    readHeader m' c = readHeader m c := by
  unfold readHeader
  rw [load32_congr (fun x h1 h2 => h x (by omega) (by omega)), h (c + 4) (by omega) (by omega),
    load32_congr (a := c + 8) (fun x h1 h2 => h x (by omega) (by omega)),
    load32_congr (a := c + 12) (fun x h1 h2 => h x (by omega) (by omega)),
    load32_congr (a := c + 16) (fun x h1 h2 => h x (by omega) (by omega))]

@[simp] theorem setSize_outside (h : x < b ∨ b + 24 ≤ x) : setSize m b v x = m x :=
  store32_outside (by omega)

@[simp] theorem setFree_outside (h : x < b ∨ b + 24 ≤ x) : setFree m b f x = m x :=
  store8_outside (by omega)

@[simp] theorem setNext_outside (h : x < b ∨ b + 24 ≤ x) : setNext m b v x = m x :=
  store32_outside (by omega)

@[simp] theorem setPrev_outside (h : x < b ∨ b + 24 ≤ x) : setPrev m b v x = m x :=
  store32_outside (by omega)

@[simp] theorem setMagic_outside (h : x < b ∨ b + 24 ≤ x) : setMagic m b x = m x :=
  store32_outside (by omega)

@[simp] theorem readHeader_setSize_apart (h : c + 24 ≤ b ∨ b + 24 ≤ c) :
    readHeader (setSize m b v) c = readHeader m c :=
  readHeader_congr fun _ _ _ => setSize_outside (by omega)

@[simp] theorem readHeader_setFree_apart (h : c + 24 ≤ b ∨ b + 24 ≤ c) :
    readHeader (setFree m b f) c = readHeader m c :=
  readHeader_congr fun _ _ _ => setFree_outside (by omega)

@[simp] theorem readHeader_setNext_apart (h : c + 24 ≤ b ∨ b + 24 ≤ c) :
    readHeader (setNext m b v) c = readHeader m c :=
  readHeader_congr fun _ _ _ => setNext_outside (by omega)

@[simp] theorem readHeader_setPrev_apart (h : c + 24 ≤ b ∨ b + 24 ≤ c) :
    readHeader (setPrev m b v) c = readHeader m c :=
  readHeader_congr fun _ _ _ => setPrev_outside (by omega)

@[simp] theorem readHeader_setMagic_apart (h : c + 24 ≤ b ∨ b + 24 ≤ c) :
    readHeader (setMagic m b) c = readHeader m c :=
  readHeader_congr fun _ _ _ => setMagic_outside (by omega)

@[simp] theorem readHeader_setSize (hv : v < 4294967296) :
    readHeader (setSize m b v) b = { readHeader m b with size := v } := by
  unfold readHeader setSize
  rw [load32_store32 hv, store32_outside (by omega), load32_store32_apart (by omega),
    load32_store32_apart (by omega), load32_store32_apart (by omega)]

@[simp] theorem readHeader_setFree :
    readHeader (setFree m b f) b = { readHeader m b with free := f } := by
  unfold readHeader setFree
  rw [store8_same, load32_store8_apart (by omega), load32_store8_apart (by omega),
    load32_store8_apart (by omega), load32_store8_apart (by omega)]

@[simp] theorem readHeader_setNext (hv : v < 4294967296) :
    readHeader (setNext m b v) b = { readHeader m b with next := v } := by
  unfold readHeader setNext
  rw [load32_store32_apart (by omega), store32_outside (by omega), load32_store32 hv,
    load32_store32_apart (by omega), load32_store32_apart (by omega)]

@[simp] theorem readHeader_setPrev (hv : v < 4294967296) :
    readHeader (setPrev m b v) b = { readHeader m b with prev := v } := by
  unfold readHeader setPrev
  rw [load32_store32_apart (by omega), store32_outside (by omega),
    load32_store32_apart (by omega), load32_store32 hv, load32_store32_apart (by omega)]

@[simp] theorem readHeader_setMagic :
    readHeader (setMagic m b) b = { readHeader m b with magic := blockMagic } := by
  unfold readHeader setMagic
  rw [load32_store32_apart (by omega), store32_outside (by omega),
    load32_store32_apart (by omega), load32_store32_apart (by omega),
    load32_store32 (by decide)]

@[simp] theorem relink_outside (h : b = 0 ∨ x < b ∨ b + 24 ≤ x) : relink m b v x = m x := by
  unfold relink
  split
  · exact setPrev_outside (by omega)
  · rfl

@[simp] theorem readHeader_relink_apart (h : b = 0 ∨ c + 24 ≤ b ∨ b + 24 ≤ c) :
    readHeader (relink m b v) c = readHeader m c := by
  unfold relink
  split
  · exact readHeader_setPrev_apart (by omega)
  · rfl

theorem readHeader_relink (hb : b ≠ 0) (hv : v < 4294967296) :
    readHeader (relink m b v) b = { readHeader m b with prev := v } := by
  rw [relink, if_pos hb, readHeader_setPrev hv]

end Header

/-! ## Segments of the block list -/

/-- Where a list starts, or `nx` if it is empty. -/
def headOr (nx : Nat) : List Block → Nat
  | [] => nx
  | b :: _ => b.addr

/-- Where the last block of a list is, or `pv` if it is empty. -/
def lastOr (pv : Nat) : List Block → Nat
  | [] => pv
  | b :: bs => lastOr b.addr bs

/-- The header of `b` between its neighbours. -/
def headerOf (b : Block) (next prev : Nat) : BlockHeader where
  size := b.size
  free := bif b.free then 1#8 else 0#8
  next := next
  prev := prev
  magic := blockMagic

def Reps (m : Mem) : (pv nx : Nat) → List Block → Prop
  | _, _, [] => True
  | pv, nx, b :: bs =>
      readHeader m b.addr = headerOf b (headOr nx bs) pv ∧ Reps m b.addr nx bs

@[simp] theorem headOr_nil (nx : Nat) : headOr nx [] = nx := rfl

@[simp] theorem headOr_cons (nx : Nat) (b : Block) (bs : List Block) :
    headOr nx (b :: bs) = b.addr := rfl

theorem headOr_append (nx : Nat) (xs ys : List Block) :
    headOr nx (xs ++ ys) = headOr (headOr nx ys) xs := by
  cases xs <;> rfl

theorem lastOr_append : ∀ (pv : Nat) (xs ys : List Block),
    lastOr pv (xs ++ ys) = lastOr (lastOr pv xs) ys
  | _, [], _ => rfl
  | _, x :: xs, ys => lastOr_append x.addr xs ys

theorem lastOr_concat (pv : Nat) (xs : List Block) (b : Block) :
    lastOr pv (xs ++ [b]) = b.addr := by
  rw [lastOr_append]; rfl

theorem reps_append {m : Mem} {nx pv : Nat} {xs ys : List Block} :
    Reps m pv nx (xs ++ ys) ↔ Reps m pv (headOr nx ys) xs ∧ Reps m (lastOr pv xs) nx ys := by
  induction xs generalizing pv with
  | nil => simp [Reps, lastOr]
  | cons x xs ih =>
      simp only [List.cons_append, Reps, lastOr, headOr_append, ih]
      tauto

theorem Reps.congr {m m' : Mem} {nx : Nat} : ∀ {bs : List Block} {pv : Nat},
    Reps m pv nx bs → (∀ b ∈ bs, readHeader m' b.addr = readHeader m b.addr) →
    Reps m' pv nx bs
  | [], _, _, _ => trivial
  | b :: _, _, ⟨hb, hbs⟩, hsame =>
      ⟨(hsame b List.mem_cons_self).trans hb,
        hbs.congr fun c hc => hsame c (List.mem_cons_of_mem _ hc)⟩

/-- A segment whose first block gets a new predecessor. -/
theorem Reps.reprev {m m' : Mem} {pv pv' nx : Nat} : ∀ {bs : List Block},
    Reps m pv nx bs →
    (∀ b ∈ bs.head?, readHeader m' b.addr = { readHeader m b.addr with prev := pv' }) →
    (∀ b ∈ bs.tail, readHeader m' b.addr = readHeader m b.addr) → Reps m' pv' nx bs
  | [], _, _, _ => trivial
  | b :: _, ⟨hb, hbs⟩, hhead, htail => by
      refine ⟨?_, hbs.congr htail⟩
      rw [hhead b rfl, hb]
      rfl

theorem Reps.header {m : Mem} {pv nx : Nat} {pre post : List Block} {b : Block}
    (h : Reps m pv nx (pre ++ b :: post)) :
    readHeader m b.addr = headerOf b (headOr nx post) (lastOr pv pre) :=
  (reps_append.mp h).2.1

/-- Walking `next` from the first block visits the blocks in order. -/
theorem Reps.linked {m : Mem} : ∀ {bs : List Block} {pv : Nat}, Reps m pv 0 bs →
    (∀ b ∈ bs, b.addr ≠ 0) →
    Linked (nextBlock m) (ptr (headOr 0 bs)) (bs.map Block.addr) none
  | [], _, _, _ => rfl
  | b :: _, _, ⟨hb, hbs⟩, hne => by
      refine ⟨if_neg (hne b List.mem_cons_self), ?_⟩
      rw [nextBlock, hb]
      exact hbs.linked fun c hc => hne c (List.mem_cons_of_mem _ hc)

/-! ## Where the heap lies -/

/-- A tiling the 32-bit arithmetic of the code never wraps on. -/
structure InRange (lo hi : Nat) : Prop where
  pos : 0 < lo
  lt : hi < 2147483648

theorem InRange.addr {lo hi : Nat} (hr : InRange lo hi) {bs : List Block}
    (ht : Tiles lo bs hi) {b : Block} (hb : b ∈ bs) :
    0 < b.addr ∧ b.addr + 24 + b.size < 2147483648 := by
  have hbound := ht.bounds b hb
  have hpos := hr.pos
  have hlt := hr.lt
  have hstop : b.stop = b.addr + 24 + b.size := rfl
  omega

theorem headOr_zero_ne {lo hi : Nat} (hr : InRange lo hi) {bs : List Block}
    (ht : Tiles lo bs hi) : headOr 0 bs ≠ 0 ↔ bs ≠ [] := by
  cases bs with
  | nil => simp [headOr]
  | cons b bs =>
      have := hr.addr ht (b := b) List.mem_cons_self
      simp only [headOr, ne_eq, reduceCtorEq, not_false_eq_true, iff_true]
      omega

/-- `m'` differs from `m` only inside headers of the blocks `bs`. -/
def SameOffHeaders (bs : List Block) (m m' : Mem) : Prop :=
  ∀ x, (∀ b ∈ bs, x < b.addr ∨ b.addr + 24 ≤ x) → m' x = m x

theorem SameOffHeaders.refl (bs : List Block) (m : Mem) : SameOffHeaders bs m m :=
  fun _ _ => rfl

theorem SameOffHeaders.trans {bs : List Block} {m m' m'' : Mem}
    (h : SameOffHeaders bs m m') (h' : SameOffHeaders bs m' m'') :
    SameOffHeaders bs m m'' := fun x hx => (h' x hx).trans (h x hx)

theorem SameOffHeaders.mono {bs cs : List Block} {m m' : Mem} (h : SameOffHeaders bs m m')
    (hsub : ∀ b ∈ bs, ∃ c ∈ cs, c.addr = b.addr) : SameOffHeaders cs m m' := by
  intro x hx
  refine h x ?_
  intro b hb
  obtain ⟨c, hc, hcb⟩ := hsub b hb
  have := hx c hc
  omega

/-! ## Searching the list -/

/-- A free block that is large enough. -/
def Block.fits (size : Nat) (b : Block) : Bool := b.free && decide (size ≤ b.size)

theorem Reps.find? {m : Mem} {size nx : Nat} : ∀ {bs : List Block} {pv : Nat},
    Reps m pv nx bs →
    (bs.map Block.addr).find?
        (fun b => decide ((readHeader m b).free ≠ 0#8 ∧ (readHeader m b).size ≥ size))
      = (bs.find? (Block.fits size)).map Block.addr
  | [], _, _ => rfl
  | b :: bs, _, ⟨hb, hbs⟩ => by
      have htest : decide ((readHeader m b.addr).free ≠ 0#8
          ∧ (readHeader m b.addr).size ≥ size) = b.fits size := by
        rw [hb]
        cases hf : b.free <;> simp [headerOf, Block.fits, hf]
      rw [List.map_cons, List.find?_cons, List.find?_cons, htest]
      cases b.fits size with
      | true => rfl
      | false => exact hbs.find?

end Kfs
