import Kfs.KmallocMapped

/-!
# Double frees

`kfree` recognises a pointer that was freed before by the header in front of
it: the magic word is gone, or the block is marked free. After a merge that
header is no block of the list any more, and later headers may be written
over it. Headers stand at multiples of 8 and have 20 bytes, so there are few
ways for two of them to overlap. A header written

* 8 or 16 bytes above puts a link or a size where the magic word was;
* 16 bytes below leaves the magic word and the mark alone;
* 8 bytes below puts the low byte of its `prev` where the mark was.

The last one is the only way for a freed header to look like a used block:
the mark is lost when `prev` is a multiple of 256 (`Shadowed`). The second
`kfree` counts it and follows its links, of which `next` is the magic word of
the header below: an address nothing is mapped at (`kfreeMapped_shadowed`).
As long as it does not happen, every freed header stays `Spent`.
-/

namespace Kfs

/-! ## Spent headers -/

/-- A header `kfree` does not take for a used block. -/
def Spent (m : Mem) (g : Nat) : Prop :=
  (readHeader m g).magic ≠ blockMagic ∨ (readHeader m g).free ≠ 0#8

section Spent

variable {m : Mem} {g c v : Nat} {f : Byte}

theorem readHeader_magic_congr {m' : Mem} (h : ∀ x, g + 16 ≤ x → x < g + 20 → m' x = m x) :
    (readHeader m' g).magic = (readHeader m g).magic :=
  load32_congr h

theorem spent_congr {m' : Mem} (hs : Spent m g) (hfree : m' (g + 4) = m (g + 4))
    (hmagic : ∀ x, g + 16 ≤ x → x < g + 20 → m' x = m x) : Spent m' g := by
  unfold Spent
  rw [readHeader_magic_congr hmagic, show (readHeader m' g).free = (readHeader m g).free from hfree]
  exact hs

/-- A size in place of the magic word. -/
theorem Spent.setSize (hs : Spent m g) (hc : c % 8 = g % 8) (hv : v < 2147483648) :
    Spent (Kfs.setSize m c v) g := by
  by_cases heq : c = g + 16
  · refine Or.inl ?_
    subst heq
    show load32 (store32 m (g + 16) v) (g + 16) ≠ blockMagic
    rw [load32_store32 (by omega)]
    unfold blockMagic
    omega
  · refine spent_congr hs (store32_outside (by omega)) ?_
    intro x h1 h2
    exact store32_outside (by omega)

/-- A link in place of the magic word. -/
theorem Spent.setNext (hs : Spent m g) (hc : c % 8 = g % 8) (hv : v < 2147483648) :
    Spent (Kfs.setNext m c v) g := by
  by_cases heq : c = g + 8
  · refine Or.inl ?_
    subst heq
    show load32 (store32 m (g + 8 + 8) v) (g + 16) ≠ blockMagic
    rw [load32_store32 (by omega)]
    unfold blockMagic
    omega
  · refine spent_congr hs (store32_outside (by omega)) ?_
    intro x h1 h2
    exact store32_outside (by omega)

/-- `prev` only meets the mark of the header 8 bytes above. -/
theorem Spent.setPrev (hs : Spent m g) (hc : c % 8 = g % 8) (hne : c + 8 ≠ g) :
    Spent (Kfs.setPrev m c v) g := by
  refine spent_congr hs (store32_outside (by omega)) ?_
  intro x h1 h2
  exact store32_outside (by omega)

theorem Spent.relink (hs : Spent m g) (hc : c = 0 ∨ c % 8 = g % 8 ∧ c + 8 ≠ g) :
    Spent (Kfs.relink m c v) g := by
  unfold Kfs.relink
  split
  · next hne => exact hs.setPrev (hc.resolve_left hne).1 (hc.resolve_left hne).2
  · exact hs

/-- Another header's mark. -/
theorem Spent.setFree (hs : Spent m g) (hc : c % 8 = g % 8) (hne : c ≠ g) :
    Spent (Kfs.setFree m c f) g := by
  refine spent_congr hs (store8_outside (by omega)) ?_
  intro x h1 h2
  exact store8_outside (by omega)

/-- A header that is marked free. -/
theorem Spent.mark (hs : c ≠ g → Spent m g) (hc : c % 8 = g % 8) :
    Spent (Kfs.setFree m c 1#8) g := by
  by_cases heq : c = g
  · subst heq
    refine Or.inr ?_
    rw [readHeader_setFree]
    show (1#8 : Byte) ≠ 0#8
    decide
  · exact (hs heq).setFree hc heq

/-- The magic word of a new free block. -/
theorem Spent.setMagic (hs : Spent m g) (hc : c % 8 = g % 8)
    (hfree : c = g → (readHeader m g).free ≠ 0#8) : Spent (Kfs.setMagic m c) g := by
  by_cases heq : c = g
  · subst heq
    refine Or.inr ?_
    rw [readHeader_setMagic]
    exact hfree rfl
  · refine spent_congr hs (store32_outside (by omega)) ?_
    intro x h1 h2
    exact store32_outside (by omega)

end Spent

/-! ## What the allocator does to them -/

/-- No block of the list stands 8 bytes below. -/
def Uncovered (bs : List Block) (g : Nat) : Prop := ∀ d ∈ bs, d.addr + 8 ≠ g

section Operations

variable {m : Mem} {g lo hi : Nat} {pre post : List Block} {b : Block}

/-- The block behind, if there is one, is a target of `relink` that keeps a
spent header. -/
theorem Uncovered.next (h : Uncovered post g) (hg : g % 8 = 0)
    (haligned : ∀ c ∈ post, c.addr % 8 = 0) :
    headOr 0 post = 0 ∨ headOr 0 post % 8 = g % 8 ∧ headOr 0 post + 8 ≠ g := by
  cases post with
  | nil => exact Or.inl rfl
  | cons c post =>
      have hc := haligned c List.mem_cons_self
      exact Or.inr ⟨by rw [headOr_cons]; omega, h c List.mem_cons_self⟩

theorem headOr_lt (pre : List Block) (hr : InRange lo hi) (ht : Tiles lo (pre ++ post) hi) :
    headOr 0 post < 2147483648 := by
  cases post with
  | nil => exact by decide
  | cons c post =>
      have := hr.addr ht (b := c) (by simp)
      rw [headOr_cons]
      omega

theorem Spent.grow {addr size next : Nat} (hs : Spent m g) (haddr : addr % 8 = g % 8)
    (hsize : size < 2147483648) (hlt : next < 2147483648)
    (hnext : next = 0 ∨ next % 8 = g % 8 ∧ next + 8 ≠ g) : Spent (Kfs.grow m addr size next) g :=
  ((hs.setSize haddr hsize).setNext haddr hlt).relink hnext

/-- Taking a block: a split, and the mark of the block that is handed out. -/
theorem Spent.take {size : Nat} (hs : Spent m g) (hr : InRange lo hi)
    (hok : BlocksOk lo hi (pre ++ b :: post)) (haligned : ∀ c ∈ pre ++ b :: post, c.addr % 8 = 0)
    (hrep : Reps m 0 0 (pre ++ b :: post)) (hmod : size % 8 = 0) (hfit : size ≤ b.size)
    (hg : g % 8 = 0) (hne : b.addr ≠ g) (hcover : Uncovered (pre ++ carve size b ++ post) g) :
    Spent (Kfs.setFree (splitBlock m b.addr size) b.addr 0#8) g := by
  have hb := hr.addr hok.tiles (b := b) (by simp)
  have hba := haligned b (by simp)
  have hB := hrep.header
  refine Spent.setFree ?_ (by omega) hne
  by_cases hsplit : size + 40 ≤ b.size
  · have hnew : b.addr + 24 + size + 8 ≠ g := by
      have hmem : (⟨b.addr + 24 + size, b.size - size - 24, true⟩ : Block) ∈ carve size b := by
        unfold carve
        rw [if_pos hsplit]
        simp
      exact hcover _ (List.mem_append_left _ (List.mem_append_right _ hmem))
    have hlt : headOr 0 post < 2147483648 :=
      headOr_lt (pre ++ [b]) hr (by simpa using hok.tiles)
    have hnext : headOr 0 post = 0 ∨ headOr 0 post % 8 = g % 8 ∧ headOr 0 post + 8 ≠ g :=
      Uncovered.next (fun c hc => hcover c (List.mem_append_right _ hc)) hg
        fun c hc => haligned c (by simp [hc])
    rw [splitBlock_eq hB hsplit hb.2]
    dsimp only [headerOf]
    have hmark : Spent (Kfs.setFree (Kfs.setSize m (b.addr + 24 + size) (b.size - size - 24))
        (b.addr + 24 + size) 1#8) g :=
      Spent.mark (fun _ => hs.setSize (by omega) (by omega)) (by omega)
    have hmagic := hmark.setMagic (c := b.addr + 24 + size) (by omega) (by
      rintro rfl
      rw [readHeader_setFree]
      show (1#8 : Byte) ≠ 0#8
      decide)
    have hlinked := (hmagic.setNext (c := b.addr + 24 + size) (v := headOr 0 post) (by omega)
      hlt).setPrev (v := b.addr) (c := b.addr + 24 + size) (by omega) hnew
    exact ((hlinked.relink hnext).setNext (by omega) (by omega)).setSize (by omega) (by omega)
  · rw [splitBlock_small (by omega) (by rw [hB]; exact Nat.lt_of_not_le hsplit)]
    exact hs

/-- Merging the marked block with its neighbours. -/
theorem Spent.coalesce (hs : Spent m g) (hr : InRange lo hi)
    (hok : SeamOk lo hi pre b post) (haligned : ∀ c ∈ pre ++ b :: post, c.addr % 8 = 0)
    (hrep : Reps m 0 0 (pre ++ b :: post)) (hg : g % 8 = 0)
    (hcover : Uncovered (mergePrev pre (mergeNext b post).1 (mergeNext b post).2) g) :
    Spent (coalesceBlocks m b.addr) g := by
  have hba := haligned b (by simp)
  have hmerged := hok.mergeNext.1
  have hrep' := (coalesceNext_reps hr hok.tiles hrep).1
  have haddr := mergeNext_addr b post
  -- whatever is relinked stays a block of the list
  have hnext : headOr 0 (mergeNext b post).2 = 0
      ∨ headOr 0 (mergeNext b post).2 % 8 = g % 8 ∧ headOr 0 (mergeNext b post).2 + 8 ≠ g := by
    refine Uncovered.next (fun c hc => hcover c ?_) hg fun c hc =>
      haligned c (by simp [mergeNext_subset b post c hc])
    unfold mergePrev
    split
    · split <;> simp [hc]
    · simp [hc]
  have hlt : headOr 0 (mergeNext b post).2 < 2147483648 :=
    headOr_lt (pre ++ [(mergeNext b post).1]) hr (by simpa using hmerged.tiles)
  have hfirst : Spent (coalesceNext m b.addr) g := by
    cases post with
    | nil =>
        rw [coalesceNext_same hrep (by simp)]
        exact hs
    | cons c post =>
        by_cases hfree : c.free = true
        · have hbound := hr.addr hok.tiles (b := b) (by simp)
          have hcbound := hr.addr hok.tiles (b := c) (by simp)
          have hcb : c.addr = b.addr + 24 + b.size := hok.tiles.around.2.1
          rw [coalesceNext_grow hr hok.tiles hrep hfree]
          rw [mergeNext_of_free post hfree] at hlt hnext
          exact hs.grow (by omega) (by omega) hlt hnext
        · rw [coalesceNext_same hrep (by simpa using hfree)]
          exact hs
  have hsecond : Spent (coalescePrev (coalesceNext m b.addr) (mergeNext b post).1.addr) g := by
    rcases List.eq_nil_or_concat pre with rfl | ⟨pre, a, rfl⟩
    · rw [coalescePrev_same hrep' (by simp)]
      exact hfirst
    · rw [List.concat_eq_append] at *
      by_cases hfree : a.free = true
      · have ht' : Tiles lo (pre ++ a :: (mergeNext b post).1 :: (mergeNext b post).2) hi := by
          simpa using hmerged.tiles
        have hrep'' : Reps (coalesceNext m b.addr) 0 0
            (pre ++ a :: (mergeNext b post).1 :: (mergeNext b post).2) := by simpa using hrep'
        have hbound := hr.addr ht' (b := (mergeNext b post).1) (by simp)
        have hab : (mergeNext b post).1.addr = a.addr + 24 + a.size := ht'.around.2.1
        have haa := haligned a (by simp)
        rw [coalescePrev_grow hr ht' hrep'' hfree]
        exact hfirst.grow (by omega) (by omega) hlt hnext
      · rw [coalescePrev_same hrep' (by simpa using hfree)]
        exact hfirst
  rw [haddr] at hsecond
  exact hsecond

/-- A new block at the end of the heap, linked behind the last one. -/
theorem Spent.append {h h' : Heap} {bs : List Block} {size : Nat} (hs : Spent h.mem g)
    (hpos : 0 < h.heapStart) (hend : lo < 2147483648) (ht : Tiles h.heapStart bs lo)
    (haligned : ∀ c ∈ bs, c.addr % 8 = 0) (hrep : Reps h.mem 0 0 bs)
    (hlist : h.blockList = headOr 0 bs) (hg : g % 8 = 0) (hbelow : g + 24 ≤ lo)
    (hcall : appendBlock h lo size = .ok h') : Spent h'.mem g := by
  have hr : InRange h.heapStart lo := ⟨hpos, hend⟩
  have hnew : Spent (newHeader h.mem lo size) g := by
    refine spent_congr hs ?_ ?_
    · simp (disch := omega) [newHeader]
    · intro x h1 h2
      simp (disch := omega) [newHeader]
  unfold appendBlock at hcall
  rcases List.eq_nil_or_concat bs with rfl | ⟨pre, a, rfl⟩
  · simp only [if_pos (show h.blockList = 0 from hlist)] at hcall
    obtain rfl := Except.ok.inj hcall
    exact hnew
  · rw [List.concat_eq_append] at *
    have hne : headOr 0 (pre ++ [a]) ≠ 0 := (headOr_zero_ne hr ht).mpr (by simp)
    simp only [hlist, if_neg hne, findLastBlock_eq hr ht (reps_newHeader size ht hrep)] at hcall
    obtain rfl := Except.ok.inj hcall
    have ha := haligned a (by simp)
    refine spent_congr (hnew.setNext (by omega) hend) (setPrev_outside (by omega)) ?_
    intro x h1 h2
    exact setPrev_outside (by omega)

end Operations

/-! ## Calls -/

section Calls

variable {h h' : Heap} {bs bs' : List Block} {g : Nat}

theorem HeapRep.aligned_addr (hrep : HeapRep h bs) : ∀ c ∈ bs, c.addr % 8 = 0 :=
  hrep.ok.tiles.aligned hrep.ok.sized hrep.aligned

/-- `kmalloc` keeps a spent header, unless it hands it out. -/
theorem Spent.kmalloc {n p : Nat} (hs : Spent h.mem g) (hrep : HeapRep h bs) (h1 : 1 ≤ n)
    (hn : n ≤ 0x7FFFFFE0) (hcall : Kfs.kmalloc h n = .ok (p, h'))
    (hout : KmallocOutcome h bs (blockSizeFor n) p h' bs') (hg : g % 8 = 0)
    (hbelow : g + 24 ≤ h.heapEnd) (hp : g + 24 ≠ p) (hcover : Uncovered bs' g) :
    Spent h'.mem g := by
  obtain ⟨hmod, -, -, hmax⟩ := blockSizeFor_spec h1 hn
  have hend := hrep.inRange.lt
  unfold Kfs.kmalloc at hcall
  simp only [if_neg (show n ≠ 0 by omega), hrep.findFreeBlock] at hcall
  generalize blockSizeFor n = size at *
  cases hout with
  | @reuse pre post b m' hsplit hfits hfirst hsame =>
      have hfind : bs.find? (Block.fits size) = some b :=
        List.find?_eq_some_iff_append.mpr ⟨hfits, pre, post, hsplit, by simpa using hfirst⟩
      have hfit : b.free = true ∧ size ≤ b.size := by simpa [Block.fits] using hfits
      rw [hfind] at hcall
      obtain ⟨-, heq⟩ := Prod.mk.inj (Except.ok.inj hcall)
      subst hsplit
      rw [← heq]
      exact hs.take hrep.inRange hrep.ok hrep.aligned_addr hrep.reps hmod hfit.2 hg
        (by omega) hcover
  | extend hfull hroom hsame =>
      rw [List.find?_eq_none.mpr fun x hx => by rw [hfull x hx]; exact Bool.false_ne_true] at hcall
      have hk := kbrk_block hmax hend
      rw [if_neg (by omega)] at hk
      replace hcall : kmallocExtend h size = .ok _ := hcall
      unfold kmallocExtend at hcall
      simp only [hk, if_neg (show h.heapEnd ≠ 0xFFFFFFFF by omega)] at hcall
      obtain ⟨h'', happend, heq⟩ := bind_eq_ok.mp hcall
      obtain ⟨-, heq⟩ := Prod.mk.inj (Except.ok.inj heq)
      have hspent : Spent h''.mem g :=
        hs.append (h := { h with heapEnd := h.heapEnd + 24 + size }) hrep.pos hend hrep.ok.tiles
          hrep.aligned_addr hrep.reps hrep.list hg hbelow happend
      rw [← heq]
      exact hspent
  | fail hfull hroom => exact hs

/-- `kfree` of a live pointer keeps a spent header, and its own is one. -/
theorem Spent.kfree {pre post : List Block} {b : Block} {warned : Bool}
    (hrep : HeapRep h (pre ++ b :: post)) (hused : b.free = false)
    (hcall : Kfs.kfree h (b.addr + 24) = .ok (h', warned)) (hs : b.addr ≠ g → Spent h.mem g)
    (hg : g % 8 = 0) (hcover : Uncovered (releaseAt pre b post) g) : Spent h'.mem g := by
  have hr := hrep.inRange
  have hb := hrep.addr (b := b) (by simp)
  have hB := hrep.reps.header
  have haligned := hrep.aligned_addr
  have hba := haligned b (by simp)
  have hblock : sub32 (b.addr + 24) headerSize = b.addr := by
    rw [headerSize_eq, sub32_of_le (by omega) (by omega)]
    omega
  have hmem : h'.mem = coalesceBlocks (Kfs.setFree h.mem b.addr 1#8) b.addr := by
    unfold Kfs.kfree at hcall
    simp only [hblock, hB, headerOf, hused] at hcall
    rw [if_neg (by omega)] at hcall
    obtain ⟨heq, -⟩ := Prod.mk.inj (Except.ok.inj hcall)
    rw [← heq]
  have hmark : Spent (Kfs.setFree h.mem b.addr 1#8) g := Spent.mark hs (by omega)
  rw [hmem]
  refine hmark.coalesce (b := ⟨b.addr, b.size, true⟩) hr hrep.ok.seam ?_ (hrep.marked) hg hcover
  intro c hc
  rcases List.mem_append.mp hc with hc | hc
  · exact haligned c (by simp [hc])
  · rcases List.mem_cons.mp hc with rfl | hc
    · exact hba
    · exact haligned c (by simp [hc])

end Calls

/-! ## Runs -/

/-- The heap, its clients, and the pointers that were freed and not returned
again since. -/
structure FreedClient where
  heap : Heap
  live : List (Nat × Nat)
  freed : List Nat

/-- Clients write nothing here, but they may free a pointer again. -/
inductive FreedStep (mapped : Nat → Bool) : FreedClient → HeapEvent × Nat → FreedClient → Prop where
  | kmalloc {s : FreedClient} {n p : Nat} {h' : Heap} (hn : n ≤ 0x7FFFFFE0)
      (hcall : kmalloc s.heap n = .ok (p, h')) :
      FreedStep mapped s (.kmalloc n, p)
        ⟨h', if p = 0 then s.live else (p, n) :: s.live, s.freed.filter fun q => q ≠ p⟩
  | kfree {s : FreedClient} {p n : Nat} {h' : Heap} {warned : Bool}
      (hlive : (p, n) ∈ s.live) (hcall : kfreeMapped mapped s.heap p = .ok (h', warned)) :
      FreedStep mapped s (.kfree p, 0) ⟨h', s.live.filter fun e => e.1 ≠ p, p :: s.freed⟩
  | again {s : FreedClient} {p : Nat} {h' : Heap} {warned : Bool}
      (hfreed : p ∈ s.freed) (hcall : kfreeMapped mapped s.heap p = .ok (h', warned)) :
      FreedStep mapped s (.kfree p, 0) ⟨h', s.live, s.freed⟩

/-- `kfree` ends in its panic, or it warns and leaves the heap alone. -/
def Caught (mapped : Nat → Bool) (h : Heap) (p : Nat) : Prop :=
  kfreeMapped mapped h p = .error (.panic "kfree: Invalid block (corrupted or double-free)")
    ∨ kfreeMapped mapped h p = .ok (h, true)

/-- The walk from `block_list` meets `block`. -/
def InBlockList (h : Heap) (block : Nat) : Prop :=
  ∃ l, Linked (nextBlock h.mem) (ptr h.blockList) l none ∧ block ∈ l

/-- A block stands 8 bytes below the header of `p`, whose magic word is
intact, and the address of the block before it is a multiple of 256. -/
def Shadowed (h : Heap) (p : Nat) : Prop :=
  ∃ d, InBlockList h d ∧ d + 32 = p ∧ (readHeader h.mem d).prev % 256 = 0
    ∧ (readHeader h.mem (p - 24)).magic = blockMagic

def Clear (s : FreedClient) : Prop := ∀ p ∈ s.freed, ¬Shadowed s.heap p

/-- A step from a state in which no freed pointer is shadowed. -/
def ClearStep (mapped : Nat → Bool) (s : FreedClient) (label : HeapEvent × Nat)
    (s' : FreedClient) : Prop :=
  FreedStep mapped s label s' ∧ Clear s

/-- What is left of a freed block. -/
structure Remains (h : Heap) (bs : List Block) (p g : Nat) : Prop where
  pointer : p = g + 24
  aligned : g % 8 = 0
  above : h.heapStart ≤ g
  below : g + 24 ≤ h.heapEnd
  spent : Spent h.mem g ∨ ¬Uncovered bs g

structure FreedInv (mapped : Nat → Bool) (s : FreedClient) (bs : List Block) : Prop where
  rep : HeapRep s.heap bs
  mapped : ∀ a, s.heap.heapStart ≤ a → a < s.heap.heapMax → mapped a = true
  live : LiveOk bs s.live
  freed : ∀ p ∈ s.freed, ∃ g, Remains s.heap bs p g

section Runs

variable {mapped : Nat → Bool} {h : Heap} {bs : List Block} {p g : Nat}

theorem HeapRep.inBlockList (hrep : HeapRep h bs) {d : Nat} :
    InBlockList h d ↔ ∃ b ∈ bs, b.addr = d := by
  constructor
  · rintro ⟨l, hl, hd⟩
    rw [hl.unique hrep.linked] at hd
    exact List.mem_map.mp hd
  · intro hd
    exact ⟨_, hrep.linked, List.mem_map.mpr hd⟩

/-- The mark of a header is the low byte of `prev` 8 bytes below. -/
theorem free_eq_zero_iff (m : Mem) (d : Nat) :
    (readHeader m (d + 8)).free = 0#8 ↔ (readHeader m d).prev % 256 = 0 := by
  have hlow : (readHeader m d).prev % 256 = (m (d + 12)).toNat := by
    have := (m (d + 12)).isLt
    show load32 m (d + 12) % 256 = _
    unfold load32
    omega
  rw [hlow]
  show m (d + 12) = 0#8 ↔ _
  rw [← BitVec.toNat_inj]
  rfl

theorem caught_iff_spent (hg : g + 24 < 4294967296) (hheader : HeaderMapped mapped g) :
    Caught mapped h (g + 24) ↔ Spent h.mem g := by
  unfold Caught
  rw [kfreeMapped_header hg hheader]
  constructor
  · intro hcaught
    by_contra hspent
    unfold Spent at hspent
    rw [not_or] at hspent
    rw [if_neg hspent.1, if_neg hspent.2] at hcaught
    rcases hcaught with hpanic | hwarned
    · cases hcall : coalesceBlocksMapped mapped (setFree h.mem g 1#8) g with
      | ok m =>
          rw [hcall] at hpanic
          cases hpanic
      | error fault =>
          rw [hcall, coalesceBlocksMapped_faults fault hcall] at hpanic
          exact absurd (Except.error.inj hpanic) (by decide)
    · obtain ⟨m, -, heq⟩ := map_eq_ok.mp hwarned
      cases (Prod.mk.inj heq).2
  · rintro (hmagic | hfree)
    · rw [if_pos hmagic]
      exact Or.inl rfl
    · by_cases hmagic : (readHeader h.mem g).magic ≠ blockMagic
      · rw [if_pos hmagic]
        exact Or.inl rfl
      · rw [if_neg hmagic, if_pos hfree]
        exact Or.inr rfl

/-- A freed header that is no longer spent is shadowed, and the other way
round. -/
theorem Remains.spent_iff (hrep : HeapRep h bs) (hrem : Remains h bs p g) :
    Spent h.mem g ↔ ¬Shadowed h p := by
  obtain ⟨rfl, haligned, -, hbelow, hspent⟩ := hrem
  constructor
  · rintro hs ⟨d, -, hd, hprev, hmagic⟩
    obtain rfl : d + 8 = g := by omega
    rcases hs with hs | hs
    · exact hs hmagic
    · exact hs ((free_eq_zero_iff _ _).mpr hprev)
  · intro hclear
    rcases hspent with hs | hcover
    · exact hs
    · unfold Uncovered at hcover
      push Not at hcover
      obtain ⟨d, hd, rfl⟩ := hcover
      by_contra hs
      unfold Spent at hs
      rw [not_or, not_not, not_not] at hs
      exact hclear ⟨d.addr, hrep.inBlockList.mpr ⟨d, hd, rfl⟩, rfl,
        (free_eq_zero_iff _ _).mp hs.2, hs.1⟩

/-- Every freed header is spent in a clear state. -/
theorem FreedInv.all_spent {s : FreedClient} (hinv : FreedInv mapped s bs) (hclear : Clear s) :
    ∀ p ∈ s.freed, ∃ g, Remains s.heap bs p g ∧ Spent s.heap.mem g := by
  intro p hp
  obtain ⟨g, hg⟩ := hinv.freed p hp
  exact ⟨g, hg, (hg.spent_iff hinv.rep).mpr (hclear p hp)⟩

/-- The headers of freed blocks are mapped. -/
theorem FreedInv.header {s : FreedClient} (hinv : FreedInv mapped s bs)
    (hrem : Remains s.heap bs p g) : HeaderMapped mapped g := by
  have habove := hrem.above
  have hbelow := hrem.below
  have htop := hinv.rep.top
  intro i hi
  exact hinv.mapped _ (by omega) (by omega)

/-- A request may hand out a freed pointer again, or put a header over one. -/
theorem FreedInv.kmalloc {s : FreedClient} {n : Nat} {h' : Heap} (hinv : FreedInv mapped s bs)
    (hclear : Clear s) (hn : n ≤ 0x7FFFFFE0) (hcall : Kfs.kmalloc s.heap n = .ok (p, h')) :
    ∃ bs', FreedInv mapped ⟨h', if p = 0 then s.live else (p, n) :: s.live,
      s.freed.filter fun q => q ≠ p⟩ bs' := by
  have hrep := hinv.rep
  by_cases h1 : 1 ≤ n
  · obtain ⟨p', h'', bs', hcall', hrep', hout⟩ := kmalloc_outcome hrep h1 hn
    obtain ⟨rfl, rfl⟩ := Prod.mk.inj (Except.ok.inj (hcall.symm.trans hcall'))
    obtain ⟨hstart, hmax⟩ := hout.range
    refine ⟨bs', hrep', ?_, hinv.live.kmalloc hrep h1 hn hout, ?_⟩
    · show ∀ a, h'.heapStart ≤ a → a < h'.heapMax → mapped a = true
      rw [hstart, hmax]
      exact hinv.mapped
    intro q hq
    obtain ⟨hq, hne⟩ := List.mem_filter.mp hq
    have hne : q ≠ p := of_decide_eq_true hne
    obtain ⟨g, hrem, hs⟩ := hinv.all_spent hclear q hq
    have hbelow := hrem.below
    refine ⟨g, hrem.pointer, hrem.aligned, hstart ▸ hrem.above,
      Nat.le_trans hbelow hout.heapEnd_le, ?_⟩
    by_cases hcover : Uncovered bs' g
    · exact Or.inl (hs.kmalloc hrep h1 hn hcall hout hrem.aligned hbelow
        (hrem.pointer ▸ hne) hcover)
    · exact Or.inr hcover
  · obtain rfl : n = 0 := by omega
    rw [kmalloc_zero] at hcall
    obtain ⟨rfl, rfl⟩ := Prod.mk.inj (Except.ok.inj hcall)
    refine ⟨bs, hrep, hinv.mapped, hinv.live, ?_⟩
    intro q hq
    exact hinv.freed q (List.mem_filter.mp hq).1

/-- A release leaves one freed pointer more. -/
theorem FreedInv.kfree {s : FreedClient} {n : Nat} {h' : Heap} {warned : Bool}
    (hinv : FreedInv mapped s bs) (hclear : Clear s) (hmem : (p, n) ∈ s.live)
    (hcall : kfreeMapped mapped s.heap p = .ok (h', warned)) :
    ∃ bs', FreedInv mapped ⟨h', s.live.filter fun e => e.1 ≠ p, p :: s.freed⟩ bs' := by
  have hrep := hinv.rep
  obtain ⟨b, hb, hbf, hp, -⟩ := hinv.live.block _ hmem
  have hbaligned := hrep.aligned_addr b hb
  obtain ⟨hbstart, hbstop⟩ := hrep.ok.tiles.bounds b hb
  obtain ⟨pre, post, rfl⟩ := List.append_of_mem hb
  obtain ⟨m', hcall', hrep', -⟩ := kfree_live hrep hbf
  obtain rfl : p = b.addr + 24 := hp
  rw [hrep.kfreeMapped_eq fun a hlo hhi =>
    hinv.mapped a hlo (Nat.lt_of_lt_of_le hhi hrep.top)] at hcall
  have heq := (Prod.mk.inj (Except.ok.inj (hcall.symm.trans hcall'))).1
  have hkeep : ∀ g, g % 8 = 0 → (b.addr ≠ g → Spent s.heap.mem g) →
      Spent h'.mem g ∨ ¬Uncovered (releaseAt pre b post) g := by
    intro g hg hs
    by_cases hcover : Uncovered (releaseAt pre b post) g
    · exact Or.inl (Spent.kfree hrep hbf hcall hs hg hcover)
    · exact Or.inr hcover
  refine ⟨releaseAt pre b post, heq ▸ hrep', ?_, hinv.live.kfree hrep, ?_⟩
  · show ∀ a, h'.heapStart ≤ a → a < h'.heapMax → mapped a = true
    rw [heq]
    exact hinv.mapped
  intro q hq
  show ∃ g, Remains h' (releaseAt pre b post) q g
  rcases List.mem_cons.mp hq with rfl | hq
  · refine ⟨b.addr, rfl, hbaligned, ?_, ?_, hkeep _ hbaligned fun hne => absurd rfl hne⟩
    · rw [heq]
      exact hbstart
    · rw [heq]
      exact Nat.le_trans (Nat.le_add_right _ _) hbstop
  · obtain ⟨g, hrem, hs⟩ := hinv.all_spent hclear q hq
    refine ⟨g, hrem.pointer, hrem.aligned, ?_, ?_, hkeep g hrem.aligned fun _ => hs⟩
    · rw [heq]
      exact hrem.above
    · rw [heq]
      exact hrem.below

/-- A double free is caught, so nothing happens. -/
theorem FreedInv.again {s : FreedClient} {h' : Heap} {warned : Bool} (hinv : FreedInv mapped s bs)
    (hclear : Clear s) (hfreed : p ∈ s.freed)
    (hcall : kfreeMapped mapped s.heap p = .ok (h', warned)) : h' = s.heap := by
  obtain ⟨g, hrem, hs⟩ := hinv.all_spent hclear p hfreed
  have hlt := hinv.rep.inRange.lt
  have hbelow := hrem.below
  have hheader := hinv.header hrem
  obtain rfl := hrem.pointer
  rcases (caught_iff_spent (by omega) hheader).mpr hs with hcall' | hcall'
  · rw [hcall] at hcall'
    cases hcall'
  · exact (Prod.mk.inj (Except.ok.inj (hcall.symm.trans hcall'))).1

theorem FreedInv.step {s s' : FreedClient} {label : HeapEvent × Nat} (hinv : FreedInv mapped s bs)
    (hstep : ClearStep mapped s label s') : ∃ bs', FreedInv mapped s' bs' := by
  obtain ⟨hstep, hclear⟩ := hstep
  cases hstep with
  | kmalloc hn hcall => exact hinv.kmalloc hclear hn hcall
  | kfree hmem hcall => exact hinv.kfree hclear hmem hcall
  | again hfreed hcall =>
      obtain rfl := hinv.again hclear hfreed hcall
      exact ⟨bs, hinv⟩

theorem freedInv_init {kernelEnd : Nat} {m : Mem} (p : Pmm)
    (hlim : heapLimit kernelEnd < 2147483648)
    (hmapped : ∀ a, (heapInit kernelEnd m).heapStart ≤ a → a < heapLimit kernelEnd →
      mapped a = true) :
    ∃ bs, FreedInv mapped ⟨(kmallocInit kernelEnd m p).1, [], []⟩ bs := by
  obtain ⟨bs, hrep, hlive⟩ := heapInv_init m hlim
  refine ⟨bs, hrep, fun a hlo hhi => hmapped a hlo ?_, hlive,
    fun _ hq => (List.not_mem_nil hq).elim⟩
  rw [← heapInit_heapMax m (by omega)]
  exact hhi

/-- A double free of a shadowed pointer is counted and then follows the magic
word. -/
theorem kfreeMapped_shadowed (hg : g + 24 < 4294967296) (hheader : HeaderMapped mapped g)
    (hmagic : (readHeader h.mem g).magic = blockMagic) (hfree : (readHeader h.mem g).free = 0#8)
    (hnext : (readHeader h.mem g).next = blockMagic) (hwild : mapped 0xDEADBEF3 = false) :
    kfreeMapped mapped h (g + 24) = .error pageFault := by
  rw [kfreeMapped_header hg hheader, if_neg (not_not.mpr hmagic), if_neg (not_not.mpr hfree)]
  have hlink : (readHeader (setFree h.mem g 1#8) g).next = 0xDEADBEEF := by
    rw [readHeader_setFree]
    exact hnext
  refine map_of_error (coalesceBlocksMapped_wild ?_ ?_ ?_)
  · intro i hi
    rw [Nat.add_assoc]
    exact hheader (8 + i) (by omega)
  · rw [hlink]
    decide
  · rw [hlink]
    exact hwild

end Runs

/-- Along every run from states in which no freed pointer is shadowed, the
double frees are caught exactly if none is shadowed now. -/
theorem freedRun_caught {mapped : Nat → Bool} {kernelEnd : Nat} {m : Mem} {p : Pmm}
    (hlim : heapLimit kernelEnd < 2147483648)
    (hmapped : ∀ a, (heapInit kernelEnd m).heapStart ≤ a → a < heapLimit kernelEnd →
      mapped a = true) {labels : List (HeapEvent × Nat)} {s : FreedClient}
    (hrun : Run (ClearStep mapped) ⟨(kmallocInit kernelEnd m p).1, [], []⟩ labels s) :
    (∀ q ∈ s.freed, Caught mapped s.heap q) ↔ Clear s := by
  obtain ⟨bs, hinv⟩ := hrun.invariant (I := fun s => ∃ bs, FreedInv mapped s bs)
    (freedInv_init p hlim hmapped)
    fun ⟨_, hinv⟩ hstep => hinv.step hstep
  have hlt := hinv.rep.inRange.lt
  refine forall₂_congr ?_
  intro q hq
  obtain ⟨g, hrem⟩ := hinv.freed q hq
  have hbelow := hrem.below
  have hheader := hinv.header hrem
  rw [← hrem.spent_iff hinv.rep]
  obtain rfl := hrem.pointer
  exact caught_iff_spent (by omega) hheader

/-- `FreedStep` as a function. -/
def freedExec (mapped : Nat → Bool) (s : FreedClient) : HeapEvent → Option (Nat × FreedClient)
  | .kmalloc n =>
      if n ≤ 0x7FFFFFE0 then
        (kmalloc s.heap n).toOption.map fun r =>
          (r.1, ⟨r.2, if r.1 = 0 then s.live else (r.1, n) :: s.live,
            s.freed.filter fun q => q ≠ r.1⟩)
      else none
  | .kfree p =>
      if p ∈ s.live.map Prod.fst then
        (kfreeMapped mapped s.heap p).toOption.map fun r =>
          (0, ⟨r.1, s.live.filter fun e => e.1 ≠ p, p :: s.freed⟩)
      else none
  | .write _ _ => none

theorem freedExec_step (mapped : Nat → Bool) ⦃s : FreedClient⦄ ⦃e : HeapEvent⦄ ⦃r : Nat⦄
    ⦃s' : FreedClient⦄ (h : freedExec mapped s e = some (r, s')) :
    FreedStep mapped s (e, r) s' := by
  cases e with
  | kmalloc n =>
      simp only [freedExec] at h
      split at h
      · next hn =>
          obtain ⟨⟨p, h'⟩, hcall, heq⟩ := Option.map_eq_some_iff.mp h
          obtain ⟨rfl, rfl⟩ := Prod.mk.inj heq
          exact .kmalloc hn (eq_ok_of_toOption hcall)
      · cases h
  | kfree p =>
      simp only [freedExec] at h
      split at h
      · next hlive =>
          obtain ⟨⟨h', warned⟩, hcall, heq⟩ := Option.map_eq_some_iff.mp h
          obtain ⟨rfl, rfl⟩ := Prod.mk.inj heq
          obtain ⟨⟨p, n⟩, hmem, rfl⟩ := List.mem_map.mp hlive
          exact .kfree hmem (eq_ok_of_toOption hcall)
      · cases h
  | write a v => cases h

instance (m : Mem) (g : Nat) : Decidable (Spent m g) := inferInstanceAs (Decidable (_ ∨ _))

/-- A step from a state in which all freed headers are spent. -/
def SpentStep (mapped : Nat → Bool) (s : FreedClient) (label : HeapEvent × Nat)
    (s' : FreedClient) : Prop :=
  FreedStep mapped s label s' ∧ ∀ q ∈ s.freed, Spent s.heap.mem (q - 24)

/-- The headers are easier to look at than the block list. -/
theorem FreedInv.clear {mapped : Nat → Bool} {s : FreedClient} {bs : List Block}
    (hinv : FreedInv mapped s bs) (hspent : ∀ q ∈ s.freed, Spent s.heap.mem (q - 24)) :
    Clear s := by
  intro q hq
  obtain ⟨g, hrem⟩ := hinv.freed q hq
  refine (hrem.spent_iff hinv.rep).mp ?_
  have hs := hspent q hq
  rwa [hrem.pointer, Nat.add_sub_cancel] at hs

theorem spentRun_clear {mapped : Nat → Bool} {s s' : FreedClient} {bs : List Block}
    {labels : List (HeapEvent × Nat)} (hinv : FreedInv mapped s bs)
    (hrun : Run (SpentStep mapped) s labels s') :
    Run (ClearStep mapped) s labels s' ∧ ∃ bs, FreedInv mapped s' bs := by
  refine hrun.invariant_trace (I := fun labels s' => Run (ClearStep mapped) s labels s'
    ∧ ∃ bs, FreedInv mapped s' bs) ⟨.nil, bs, hinv⟩ ?_
  rintro labels t label u ⟨hclear, bs, hinv⟩ ⟨hstep, hspent⟩
  have hstep' : ClearStep mapped t label u := ⟨hstep, hinv.clear hspent⟩
  exact ⟨hclear.snoc hstep', hinv.step hstep'⟩

/-- `SpentStep` as a function. -/
def spentExec (mapped : Nat → Bool) (s : FreedClient) (e : HeapEvent) :
    Option (Nat × FreedClient) :=
  if ∀ q ∈ s.freed, Spent s.heap.mem (q - 24) then freedExec mapped s e else none

theorem spentExec_step (mapped : Nat → Bool) ⦃s : FreedClient⦄ ⦃e : HeapEvent⦄ ⦃r : Nat⦄
    ⦃s' : FreedClient⦄ (h : spentExec mapped s e = some (r, s')) :
    SpentStep mapped s (e, r) s' := by
  unfold spentExec at h
  split at h
  · next hspent => exact ⟨freedExec_step mapped h, hspent⟩
  · cases h

theorem lowMapped_heap {kernelEnd : Nat} {m : Mem} (h : heapLimit kernelEnd ≤ 0x1000000) :
    ∀ a, (heapInit kernelEnd m).heapStart ≤ a → a < heapLimit kernelEnd → lowMapped a = true :=
  fun _ _ ha => decide_eq_true (Nat.lt_of_lt_of_le ha h)

/-- Two blocks are merged, split again behind the first header, and the rest
merged with a third block: of the two freed pointers one has lost its magic
word, the other is still marked. -/
theorem freedRun_caught_merged : ∃ s, Run (ClearStep lowMapped)
      ⟨(kmallocInit 0x200000 (fun _ => 0#8) (allUsed 0)).1, [], []⟩
      [(.kmalloc 24, 0x210018), (.kmalloc 24, 0x210048), (.kmalloc 16, 0x210078),
        (.kmalloc 16, 0x2100A0), (.kfree 0x210018, 0), (.kfree 0x210048, 0),
        (.kmalloc 32, 0x210018), (.kfree 0x210078, 0)] s
    ∧ s.freed = [0x210078, 0x210048] ∧ (readHeader s.heap.mem 0x210030).magic ≠ blockMagic
    ∧ (readHeader s.heap.mem 0x210060).free ≠ 0#8
    ∧ ∀ q ∈ s.freed, Caught lowMapped s.heap q := by
  obtain ⟨s, hrun, hfreed, hmagic, hfree, hheaders⟩ := execRun_observe
    (spentExec_step lowMapped)
    ⟨(kmallocInit 0x200000 (fun _ => 0#8) (allUsed 0)).1, [], []⟩
    [.kmalloc 24, .kmalloc 24, .kmalloc 16, .kmalloc 16, .kfree 0x210018, .kfree 0x210048,
      .kmalloc 32, .kfree 0x210078]
    [0x210018, 0x210048, 0x210078, 0x2100A0, 0, 0, 0x210018, 0]
    (fun s => s.freed = [0x210078, 0x210048] ∧ (readHeader s.heap.mem 0x210030).magic ≠ blockMagic
      ∧ (readHeader s.heap.mem 0x210060).free ≠ 0#8
      ∧ ∀ q ∈ s.freed, Spent s.heap.mem (q - 24))
    (by decide +kernel)
  obtain ⟨bs, hinit⟩ : ∃ bs, FreedInv lowMapped
      ⟨(kmallocInit 0x200000 (fun _ => 0#8) (allUsed 0)).1, [], []⟩ bs :=
    freedInv_init (allUsed 0) (by decide) (lowMapped_heap (by decide))
  obtain ⟨hclear, bs', hinv⟩ := spentRun_clear hinit hrun
  refine ⟨s, hclear, hfreed, hmagic, hfree, ?_⟩
  exact (freedRun_caught (p := allUsed 0) (by decide) (lowMapped_heap (by decide)) hclear).mpr
    (hinv.clear hheaders)

/-- Two blocks are freed and merged, and a smaller request puts the header of
the rest 8 bytes below the header of the second one: freeing that again is
taken for a free, and the magic word below for a link. -/
theorem freedRun_missed : ∃ s, Run (FreedStep lowMapped)
      ⟨(kmallocInit 0x200000 (fun _ => 0#8) (allUsed 0)).1, [], []⟩
      [(.kmalloc 24, 0x210018), (.kmalloc 16, 0x210048), (.kfree 0x210048, 0),
        (.kfree 0x210018, 0), (.kmalloc 16, 0x210018)] s
    ∧ 0x210048 ∈ s.freed ∧ kfreeMapped lowMapped s.heap 0x210048 = .error (.panic "Page fault")
    ∧ ¬Caught lowMapped s.heap 0x210048 := by
  obtain ⟨s, hrun, hfreed, hmagic, hmark, hnext⟩ := execRun_observe
    (freedExec_step lowMapped)
    ⟨(kmallocInit 0x200000 (fun _ => 0#8) (allUsed 0)).1, [], []⟩
    [.kmalloc 24, .kmalloc 16, .kfree 0x210048, .kfree 0x210018, .kmalloc 16]
    [0x210018, 0x210048, 0, 0, 0x210018]
    (fun s => s.freed = [0x210048] ∧ (readHeader s.heap.mem 0x210030).magic = blockMagic
      ∧ (readHeader s.heap.mem 0x210030).free = 0#8
      ∧ (readHeader s.heap.mem 0x210030).next = blockMagic)
    (by decide +kernel)
  have hheader : HeaderMapped lowMapped 0x210030 :=
    fun i hi => decide_eq_true (Nat.lt_trans (Nat.add_lt_add_left hi _) (by decide))
  have hcall : kfreeMapped lowMapped s.heap 0x210048 = .error pageFault :=
    kfreeMapped_shadowed (g := 0x210030) (by decide) hheader hmagic hmark hnext (by decide)
  refine ⟨s, hrun, by simp [hfreed], hcall, ?_⟩
  intro hcaught
  rcases (caught_iff_spent (g := 0x210030) (by decide) hheader).mp hcaught with hs | hs
  · exact hs hmagic
  · exact hs hmark

end Kfs
