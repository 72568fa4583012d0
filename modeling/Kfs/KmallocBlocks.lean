import Mathlib.Data.List.Chain
import Mathlib.Tactic.Common

/-!
# The heap as a list of blocks

The allocator without its memory: a heap is a list of blocks in address
order. `Tiles lo bs hi` says that the blocks cover `[lo, hi)` without gaps,
each one a 24-byte header and its payload. The three ways the allocator
changes the list are `carve` (take a free block, splitting off what is left
over), appending a block at the end, and `releaseAt` (free a block and merge
it with its neighbours). Each keeps `BlocksOk`: the tiling, sizes that are
multiples of 8 and at least 16, and no two free neighbours.

`KmallocRep` shows that the code in memory does exactly this.
-/

namespace Kfs

structure Block where
  addr : Nat
  size : Nat
  free : Bool
  deriving DecidableEq, Repr

namespace Block

/-- The first address behind the block. -/
def stop (b : Block) : Nat := b.addr + 24 + b.size

/-- Not both free. -/
def Apart (b c : Block) : Prop := ¬(b.free = true ∧ c.free = true)

end Block

def Tiles : Nat → List Block → Nat → Prop
  | lo, [], hi => lo = hi
  | lo, b :: bs, hi => b.addr = lo ∧ Tiles b.stop bs hi

/-! ## Tilings -/

theorem tiles_append {xs ys : List Block} {lo hi : Nat} :
    Tiles lo (xs ++ ys) hi ↔ ∃ mid, Tiles lo xs mid ∧ Tiles mid ys hi := by
  induction xs generalizing lo with
  | nil => simp [Tiles]
  | cons x xs ih =>
      simp only [List.cons_append, Tiles, ih]
      constructor
      · rintro ⟨ha, mid, hxs, hys⟩
        exact ⟨mid, ⟨ha, hxs⟩, hys⟩
      · rintro ⟨mid, ⟨ha, hxs⟩, hys⟩
        exact ⟨ha, mid, hxs, hys⟩

theorem Tiles.le : ∀ {bs : List Block} {lo hi : Nat}, Tiles lo bs hi → lo ≤ hi
  | [], _, _, h => Nat.le_of_eq h
  | b :: bs, lo, hi, ⟨ha, hbs⟩ => by
      have := hbs.le
      unfold Block.stop at this
      omega

theorem Tiles.bounds : ∀ {bs : List Block} {lo hi : Nat}, Tiles lo bs hi →
    ∀ b ∈ bs, lo ≤ b.addr ∧ b.stop ≤ hi
  | c :: bs, lo, hi, ⟨ha, hbs⟩, b, hb => by
      have hle := hbs.le
      rcases List.mem_cons.mp hb with rfl | hb
      · exact ⟨by omega, hle⟩
      · have := hbs.bounds b hb
        have hc : c.stop = c.addr + 24 + c.size := rfl
        omega

/-- In a tiling split around a block, everything before it ends where it
starts and everything behind it starts where it ends. -/
theorem Tiles.around {pre post : List Block} {b : Block} {lo hi : Nat}
    (h : Tiles lo (pre ++ b :: post) hi) :
    Tiles lo pre b.addr ∧ Tiles b.stop post hi := by
  obtain ⟨mid, hpre, ha, hpost⟩ := tiles_append.mp h
  exact ⟨ha ▸ hpre, hpost⟩

theorem Tiles.before {pre post : List Block} {b : Block} {lo hi : Nat}
    (h : Tiles lo (pre ++ b :: post) hi) : ∀ x ∈ pre, x.stop ≤ b.addr :=
  fun x hx => (h.around.1.bounds x hx).2

theorem Tiles.behind {pre post : List Block} {b : Block} {lo hi : Nat}
    (h : Tiles lo (pre ++ b :: post) hi) : ∀ x ∈ post, b.stop ≤ x.addr :=
  fun x hx => (h.around.2.bounds x hx).1

/-- Two blocks of a tiling are the same or do not overlap. -/
theorem Tiles.disjoint : ∀ {bs : List Block} {lo hi : Nat}, Tiles lo bs hi →
    ∀ b ∈ bs, ∀ c ∈ bs, b = c ∨ b.stop ≤ c.addr ∨ c.stop ≤ b.addr
  | x :: bs, lo, hi, ⟨_, hbs⟩, b, hb, c, hc => by
      rcases List.mem_cons.mp hb with rfl | hb'
      · rcases List.mem_cons.mp hc with rfl | hc'
        · exact Or.inl rfl
        · exact Or.inr (Or.inl (hbs.bounds c hc').1)
      · rcases List.mem_cons.mp hc with rfl | hc'
        · exact Or.inr (Or.inr (hbs.bounds b hb').1)
        · exact hbs.disjoint b hb' c hc'

theorem Tiles.length_le : ∀ {bs : List Block} {lo hi : Nat}, Tiles lo bs hi →
    bs.length * 24 + lo ≤ hi
  | [], lo, hi, h => by
      have : lo = hi := h
      simp [this]
  | b :: bs, lo, hi, ⟨ha, hbs⟩ => by
      have := hbs.length_le
      have hb : b.stop = b.addr + 24 + b.size := rfl
      simp only [List.length_cons]
      omega

/-! ## The list invariant -/

structure BlocksOk (lo hi : Nat) (bs : List Block) : Prop where
  tiles : Tiles lo bs hi
  sized : ∀ b ∈ bs, b.size % 8 = 0 ∧ 16 ≤ b.size
  apart : bs.IsChain Block.Apart

theorem blocksOk_nil (lo : Nat) : BlocksOk lo lo [] :=
  ⟨rfl, fun _ h => (List.not_mem_nil h).elim, .nil⟩

/-- Payloads start on multiples of 8 when the heap does. -/
theorem Tiles.aligned : ∀ {bs : List Block} {lo hi : Nat}, Tiles lo bs hi →
    (∀ b ∈ bs, b.size % 8 = 0 ∧ 16 ≤ b.size) → lo % 8 = 0 → ∀ b ∈ bs, b.addr % 8 = 0
  | x :: bs, lo, hi, ⟨ha, hbs⟩, hsz, hlo, b, hb => by
      have hx := hsz x List.mem_cons_self
      have hstop : x.stop = x.addr + 24 + x.size := rfl
      rcases List.mem_cons.mp hb with rfl | hb
      · omega
      · exact hbs.aligned (fun c hc => hsz c (List.mem_cons_of_mem _ hc)) (by omega) b hb

/-! ## Neighbours

`IsChain` over a list with a marked position: the part before, the part
behind, and the two seams. -/

theorem apart_of_used_left {b c : Block} (h : b.free = false) : b.Apart c := by
  simp [Block.Apart, h]

theorem apart_of_used_right {b c : Block} (h : c.free = false) : b.Apart c := by
  simp [Block.Apart, h]

theorem isChain_around {R : Block → Block → Prop} {pre post : List Block} {b : Block} :
    (pre ++ b :: post).IsChain R ↔
      pre.IsChain R ∧ post.IsChain R ∧ (∀ a ∈ pre.getLast?, R a b) ∧ ∀ c ∈ post.head?, R b c := by
  rw [List.isChain_append, List.isChain_cons]
  simp only [List.head?_cons, Option.mem_def, Option.some.injEq, forall_eq']
  tauto

/-! ## Taking a block -/

/-- A free block that serves a request of `size` bytes: the block itself, and
a free rest when there is room for a header and 16 bytes. -/
def carve (size : Nat) (b : Block) : List Block :=
  if size + 40 ≤ b.size then
    [⟨b.addr, size, false⟩, ⟨b.addr + 24 + size, b.size - size - 24, true⟩]
  else [⟨b.addr, b.size, false⟩]

theorem tiles_carve {size : Nat} {b : Block} : Tiles b.addr (carve size b) b.stop := by
  unfold carve
  split
  · refine ⟨rfl, rfl, ?_⟩
    dsimp only [Block.stop, Tiles]
    omega
  · exact ⟨rfl, rfl⟩

theorem BlocksOk.carve {lo hi size : Nat} {pre post : List Block} {b : Block}
    (h : BlocksOk lo hi (pre ++ b :: post)) (hfree : b.free = true)
    (hmod : size % 8 = 0) (hmin : 16 ≤ size) :
    BlocksOk lo hi (pre ++ carve size b ++ post) := by
  obtain ⟨hpre, hpost⟩ := h.tiles.around
  have hsz := h.sized b (by simp)
  refine ⟨?_, ?_, ?_⟩
  · exact tiles_append.mpr ⟨_, tiles_append.mpr ⟨_, hpre, tiles_carve⟩, hpost⟩
  · intro c hc
    rcases List.mem_append.mp hc with hc | hc
    · rcases List.mem_append.mp hc with hc | hc
      · exact h.sized c (by simp [hc])
      · unfold Kfs.carve at hc
        split at hc
        · rcases List.mem_cons.mp hc with rfl | hc
          · exact ⟨hmod, hmin⟩
          · obtain rfl := List.mem_singleton.mp hc
            dsimp only
            omega
        · obtain rfl := List.mem_singleton.mp hc
          exact hsz
    · exact h.sized c (by simp [hc])
  · -- the block behind was used, so the free rest does not meet a free block
    obtain ⟨hcpre, hcpost, -, hnext⟩ := isChain_around.mp h.apart
    have hused : ∀ c ∈ post.head?, c.free = false := by
      intro c hc
      have := hnext c hc
      simp only [Block.Apart, hfree, true_and, Bool.not_eq_true] at this
      exact this
    rw [List.append_assoc]
    unfold Kfs.carve
    split
    · refine isChain_around.mpr ⟨hcpre, (@isChain_around _ [] _ _).mpr
        ⟨.nil, hcpost, by simp, fun c hc => apart_of_used_right (hused c hc)⟩,
        fun a _ => apart_of_used_right rfl, fun c _ => apart_of_used_left rfl⟩
    · exact isChain_around.mpr ⟨hcpre, hcpost, fun a _ => apart_of_used_right rfl,
        fun c _ => apart_of_used_left rfl⟩

/-! ## Adding a block at the end -/

theorem BlocksOk.append {lo hi size : Nat} {bs : List Block} (h : BlocksOk lo hi bs)
    (hmod : size % 8 = 0) (hmin : 16 ≤ size) :
    BlocksOk lo (hi + 24 + size) (bs ++ [⟨hi, size, false⟩]) := by
  refine ⟨tiles_append.mpr ⟨hi, h.tiles, rfl, rfl⟩, ?_, ?_⟩
  · intro c hc
    rcases List.mem_append.mp hc with hc | hc
    · exact h.sized c hc
    · obtain rfl := List.mem_singleton.mp hc
      exact ⟨hmod, hmin⟩
  · exact isChain_around.mpr ⟨h.apart, .nil, fun a _ => apart_of_used_right rfl, by simp⟩

/-! ## Releasing a block -/

/-- `b` grown over its right neighbour `c`. -/
def absorb (b c : Block) : Block := ⟨b.addr, b.size + 24 + c.size, b.free⟩

theorem absorb_stop {b c : Block} (h : c.addr = b.stop) : (absorb b c).stop = c.stop := by
  simp only [absorb, Block.stop] at *
  omega

/-- Merge a free block with the one behind it, if that is free too. -/
def mergeNext (b : Block) : List Block → Block × List Block
  | [] => (b, [])
  | c :: post => if c.free then (absorb b c, post) else (b, c :: post)

theorem mergeNext_of_free {b c : Block} (post : List Block) (h : c.free = true) :
    mergeNext b (c :: post) = (absorb b c, post) := if_pos h

theorem mergeNext_of_used {b c : Block} (post : List Block) (h : ¬c.free = true) :
    mergeNext b (c :: post) = (b, c :: post) := if_neg h

theorem mergeNext_addr (b : Block) (post : List Block) : (mergeNext b post).1.addr = b.addr := by
  cases post with
  | nil => rfl
  | cons c post =>
      by_cases hc : c.free = true
      · rw [mergeNext_of_free post hc]
        rfl
      · rw [mergeNext_of_used post hc]

theorem mergeNext_subset (b : Block) (post : List Block) :
    ∀ c ∈ (mergeNext b post).2, c ∈ post := by
  cases post with
  | nil => exact fun _ hc => hc
  | cons c post =>
      by_cases hc : c.free = true
      · rw [mergeNext_of_free post hc]
        exact fun _ hd => List.mem_cons_of_mem _ hd
      · rw [mergeNext_of_used post hc]
        exact fun _ hd => hd

/-- Merge a free block with the one before it, if that is free too. -/
def mergePrev (pre : List Block) (b : Block) (post : List Block) : List Block :=
  match pre.getLast? with
  | some a => if a.free then pre.dropLast ++ absorb a b :: post else pre ++ b :: post
  | none => pre ++ b :: post

/-- Free the marked block and merge it with its free neighbours. -/
def releaseAt (pre : List Block) (b : Block) (post : List Block) : List Block :=
  let merged := mergeNext ⟨b.addr, b.size, true⟩ post
  mergePrev pre merged.1 merged.2

/-- The list invariant except at the seams of a marked free block. -/
structure SeamOk (lo hi : Nat) (pre : List Block) (b : Block) (post : List Block) : Prop where
  tiles : Tiles lo (pre ++ b :: post) hi
  sized : ∀ c ∈ pre ++ b :: post, c.size % 8 = 0 ∧ 16 ≤ c.size
  before : pre.IsChain Block.Apart
  behind : post.IsChain Block.Apart

theorem BlocksOk.seam {lo hi : Nat} {pre post : List Block} {b : Block}
    (h : BlocksOk lo hi (pre ++ b :: post)) : SeamOk lo hi pre ⟨b.addr, b.size, true⟩ post := by
  obtain ⟨hpre, hpost, -, -⟩ := isChain_around.mp h.apart
  obtain ⟨hpre', hpost'⟩ := h.tiles.around
  refine ⟨tiles_append.mpr ⟨b.addr, hpre', rfl, hpost'⟩, ?_, hpre, hpost⟩
  intro c hc
  rcases List.mem_append.mp hc with hc | hc
  · exact h.sized c (by simp [hc])
  · rcases List.mem_cons.mp hc with rfl | hc
    · exact h.sized b (by simp)
    · exact h.sized c (by simp [hc])

/-- After merging with the next block the right seam is sound as well. -/
theorem SeamOk.mergeNext {lo hi : Nat} {pre post : List Block} {b : Block}
    (h : SeamOk lo hi pre b post) :
    SeamOk lo hi pre (mergeNext b post).1 (mergeNext b post).2
      ∧ ∀ c ∈ (mergeNext b post).2.head?, c.free = false := by
  cases post with
  | nil => exact ⟨h, by simp [Kfs.mergeNext]⟩
  | cons c post =>
      by_cases hc : c.free = true
      · rw [mergeNext_of_free post hc]
        obtain ⟨hpre, hc', hpost⟩ := h.tiles.around
        have hb := h.sized b (by simp)
        have hcs := h.sized c (by simp)
        obtain ⟨hhead, hbehind⟩ := List.isChain_cons.mp h.behind
        refine ⟨⟨tiles_append.mpr ⟨b.addr, hpre, rfl, ?_⟩, ?_, h.before, hbehind⟩, ?_⟩
        · rw [absorb_stop hc']
          exact hpost
        · intro x hx
          rcases List.mem_append.mp hx with hx | hx
          · exact h.sized x (by simp [hx])
          · rcases List.mem_cons.mp hx with rfl | hx
            · simp only [absorb]
              omega
            · exact h.sized x (by simp [hx])
        · intro x hx
          -- the block behind a free block is used
          have := hhead x hx
          simp only [Block.Apart, hc, true_and, Bool.not_eq_true] at this
          exact this
      · rw [mergeNext_of_used post hc]
        exact ⟨h, by simpa using hc⟩

theorem SeamOk.mergePrev {lo hi : Nat} {pre post : List Block} {b : Block}
    (h : SeamOk lo hi pre b post) (hnext : ∀ c ∈ post.head?, c.free = false) :
    BlocksOk lo hi (mergePrev pre b post) := by
  have hright : ∀ x : Block, ∀ c ∈ post.head?, x.Apart c :=
    fun x c hc => apart_of_used_right (hnext c hc)
  unfold Kfs.mergePrev
  split
  · rename_i a ha
    obtain ⟨pre', rfl⟩ : ∃ pre', pre = pre' ++ [a] := List.getLast?_eq_some_iff.mp ha
    rw [List.dropLast_concat]
    obtain ⟨hchain, -, hleft, -⟩ := isChain_around.mp h.before
    split
    · rename_i hfree
      have htiles := h.tiles
      rw [List.append_assoc] at htiles
      obtain ⟨hpre, hb, hpost⟩ := htiles.around
      refine ⟨tiles_append.mpr ⟨a.addr, hpre, rfl, ?_⟩, ?_,
        isChain_around.mpr ⟨hchain, h.behind, hleft, hright _⟩⟩
      · rw [absorb_stop hb]
        exact hpost
      · intro x hx
        have has := h.sized a (by simp)
        have hbs := h.sized b (by simp)
        rcases List.mem_append.mp hx with hx | hx
        · exact h.sized x (by simp [hx])
        · rcases List.mem_cons.mp hx with rfl | hx
          · simp only [absorb]
            omega
          · exact h.sized x (by simp [hx])
    · rename_i hfree
      have hused : a.free = false := by simpa using hfree
      refine ⟨h.tiles, h.sized, isChain_around.mpr ⟨h.before, h.behind, ?_, hright _⟩⟩
      intro x hx
      rw [ha] at hx
      obtain rfl := Option.mem_some.mp hx
      exact apart_of_used_left hused
  · rename_i ha
    refine ⟨h.tiles, h.sized, isChain_around.mpr ⟨h.before, h.behind, ?_, hright _⟩⟩
    intro x hx
    rw [ha] at hx
    cases hx

theorem BlocksOk.releaseAt {lo hi : Nat} {pre post : List Block} {b : Block}
    (h : BlocksOk lo hi (pre ++ b :: post)) : BlocksOk lo hi (releaseAt pre b post) :=
  h.seam.mergeNext.1.mergePrev h.seam.mergeNext.2

end Kfs
