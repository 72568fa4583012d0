import Mathlib.Data.Finset.Card
import Mathlib.Tactic.Common
import Kfs.Pmm

/-!
# Frames as a set

What each operation of the physical memory manager does to the set of used
frames, as membership equations for `bitmapTest`, and the invariant they all
keep (`PmmOk`): `used_frames` is the number of used frames below
`total_frames`, and every bit beyond them stays set.

The two searches are only used through their soundness: `bitmapFindFree_some`
for a single frame and `bitmapFindFreeRegion_some` for a run of frames.
-/

namespace Kfs

/-! ## Page arithmetic -/

theorem addrToPfn_eq (addr : Nat) : addrToPfn addr = addr / 4096 := by
  rw [addrToPfn, Nat.shiftRight_eq_div_pow]

theorem pfnToAddr_eq {pfn : Nat} (h : pfn < 1048576) : pfnToAddr pfn = pfn * 4096 := by
  rw [pfnToAddr, Nat.shiftLeft_eq]
  omega

theorem pageAlignUp_eq {addr : Nat} (h : addr + 4095 < 4294967296) :
    pageAlignUp addr = (addr + 4095) / 4096 * 4096 := by
  rw [pageAlignUp, add32_of_lt h, and_mask4096 h]

/-- The frames `pmm_mark_region_used` visits: those that meet the region. -/
theorem addrToPfn_pageAlignUp {addr : Nat} (h : addr + 4095 < 4294967296) :
    addrToPfn (pageAlignUp addr) = (addr + 4095) / 4096 := by
  rw [pageAlignUp_eq h, addrToPfn_eq]
  omega

theorem addrToPfn_pfnToAddr {pfn : Nat} (h : pfn < 1048576) :
    addrToPfn (pfnToAddr pfn) = pfn := by
  rw [pfnToAddr_eq h, addrToPfn_eq]
  omega

/-! ## Single frames -/

@[simp] theorem bitmapTest_bitmapSet (p : Pmm) (f g : Nat) :
    bitmapTest (bitmapSet p f) g = (decide (g = f) || bitmapTest p g) :=
  testBit_setBit _ _ _

@[simp] theorem bitmapTest_takeFrame (p : Pmm) (f g : Nat) :
    bitmapTest (takeFrame f p) g = (decide (g = f) || bitmapTest p g) :=
  testBit_setBit _ _ _

@[simp] theorem bitmapTest_giveFrame (p : Pmm) (f g : Nat) :
    bitmapTest (giveFrame f p) g = (!decide (g = f) && bitmapTest p g) :=
  testBit_clearBit _ _ _

@[simp] theorem takeFrame_totalFrames (f : Nat) (p : Pmm) :
    (takeFrame f p).totalFrames = p.totalFrames := rfl

@[simp] theorem giveFrame_totalFrames (f : Nat) (p : Pmm) :
    (giveFrame f p).totalFrames = p.totalFrames := rfl

@[simp] theorem takeFrame_usedFrames (f : Nat) (p : Pmm) :
    (takeFrame f p).usedFrames = add32 p.usedFrames 1 := rfl

@[simp] theorem giveFrame_usedFrames (f : Nat) (p : Pmm) :
    (giveFrame f p).usedFrames = sub32 p.usedFrames 1 := rfl

theorem bitmapTest_useFrame (p : Pmm) (f g : Nat) :
    bitmapTest (useFrame f p) g = (decide (g = f) || bitmapTest p g) := by
  unfold useFrame
  split
  · by_cases hg : g = f
    · subst hg; simp [*]
    · simp [hg]
  · simp

theorem bitmapTest_unuseFrame (p : Pmm) (f g : Nat) :
    bitmapTest (unuseFrame f p) g = (!decide (g = f) && bitmapTest p g) := by
  unfold unuseFrame
  split
  · simp
  · by_cases hg : g = f
    · subst hg; simp [*]
    · simp [hg]

@[simp] theorem useFrame_totalFrames (f : Nat) (p : Pmm) :
    (useFrame f p).totalFrames = p.totalFrames := by
  unfold useFrame; split <;> rfl

@[simp] theorem unuseFrame_totalFrames (f : Nat) (p : Pmm) :
    (unuseFrame f p).totalFrames = p.totalFrames := by
  unfold unuseFrame; split <;> rfl

/-! ## The accounting invariant -/

/-- The used frames of the machine. -/
def usedSet (p : Pmm) : Finset Nat :=
  (Finset.range p.totalFrames).filter fun f => bitmapTest p f = true

structure PmmOk (p : Pmm) : Prop where
  bound : p.totalFrames ≤ 32768
  exact : p.usedFrames = (usedSet p).card
  high : ∀ f, p.totalFrames ≤ f → bitmapTest p f = true

theorem mem_usedSet {p : Pmm} {f : Nat} :
    f ∈ usedSet p ↔ f < p.totalFrames ∧ bitmapTest p f = true := by
  simp [usedSet]

theorem usedSet_card_le (p : Pmm) : (usedSet p).card ≤ p.totalFrames := by
  have h := Finset.card_filter_le (Finset.range p.totalFrames) fun f => bitmapTest p f = true
  rwa [Finset.card_range] at h

theorem usedSet_takeFrame {p : Pmm} {f : Nat} (hf : f < p.totalFrames) :
    usedSet (takeFrame f p) = insert f (usedSet p) := by
  ext g
  simp only [mem_usedSet, Finset.mem_insert, bitmapTest_takeFrame, takeFrame_totalFrames,
    Bool.or_eq_true, decide_eq_true_eq]
  constructor
  · rintro ⟨hg, rfl | ht⟩
    · exact Or.inl rfl
    · exact Or.inr ⟨hg, ht⟩
  · rintro (rfl | ⟨hg, ht⟩)
    · exact ⟨hf, Or.inl rfl⟩
    · exact ⟨hg, Or.inr ht⟩

theorem usedSet_giveFrame (p : Pmm) (f : Nat) :
    usedSet (giveFrame f p) = (usedSet p).erase f := by
  ext g
  simp only [mem_usedSet, Finset.mem_erase, bitmapTest_giveFrame, giveFrame_totalFrames,
    Bool.and_eq_true, Bool.not_eq_true', decide_eq_false_iff_not]
  constructor
  · rintro ⟨hg, hne, ht⟩
    exact ⟨hne, hg, ht⟩
  · rintro ⟨hne, hg, ht⟩
    exact ⟨hg, hne, ht⟩

/-- Marking a free frame adds one to the count. -/
theorem PmmOk.takeFrame {p : Pmm} (h : PmmOk p) {f : Nat} (hf : f < p.totalFrames)
    (hfree : bitmapTest p f = false) : PmmOk (takeFrame f p) := by
  refine ⟨h.bound, ?_, fun g hg => by simp [h.high g hg]⟩
  have hnot : f ∉ usedSet p := by simp [mem_usedSet, hfree]
  have hle := usedSet_card_le p
  have hb := h.bound
  rw [usedSet_takeFrame hf, Finset.card_insert_of_notMem hnot, takeFrame_usedFrames, h.exact]
  exact add32_of_lt (by omega)

/-- Clearing a used frame takes one off the count. -/
theorem PmmOk.giveFrame {p : Pmm} (h : PmmOk p) {f : Nat} (hf : f < p.totalFrames)
    (hused : bitmapTest p f = true) : PmmOk (giveFrame f p) := by
  have hmem : f ∈ usedSet p := mem_usedSet.mpr ⟨hf, hused⟩
  have hpos := Finset.card_pos.mpr ⟨f, hmem⟩
  have hle := usedSet_card_le p
  have hb := h.bound
  refine ⟨h.bound, ?_, ?_⟩
  · rw [usedSet_giveFrame, Finset.card_erase_of_mem hmem, giveFrame_usedFrames, h.exact]
    exact sub32_of_le (by omega) (by omega)
  · intro g hg
    have hg' : p.totalFrames ≤ g := hg
    have hne : g ≠ f := by omega
    simp [h.high g hg, hne]

theorem PmmOk.useFrame {p : Pmm} (h : PmmOk p) {f : Nat} (hf : f < p.totalFrames) :
    PmmOk (useFrame f p) := by
  unfold Kfs.useFrame
  split
  · exact h
  · exact h.takeFrame hf (by simpa using ‹¬bitmapTest p f = true›)

theorem PmmOk.unuseFrame {p : Pmm} (h : PmmOk p) {f : Nat} (hf : f < p.totalFrames) :
    PmmOk (unuseFrame f p) := by
  unfold Kfs.unuseFrame
  split
  · exact h.giveFrame hf ‹_›
  · exact h

/-! ## Regions -/

/-- Marking a region sets exactly the frames of the machine in its range. -/
theorem pmmMarkRegionUsed_spec (p : Pmm) (base length : Nat) :
    (pmmMarkRegionUsed p base length).totalFrames = p.totalFrames
      ∧ (PmmOk p → PmmOk (pmmMarkRegionUsed p base length))
      ∧ ∀ g, bitmapTest (pmmMarkRegionUsed p base length) g = true ↔
          (addrToPfn base ≤ g ∧ g < addrToPfn (pageAlignUp (add32 base length))
            ∧ g < p.totalFrames) ∨ bitmapTest p g = true := by
  unfold pmmMarkRegionUsed
  simp only
  generalize addrToPfn base = lo
  generalize addrToPfn (pageAlignUp (add32 base length)) = hi
  by_cases hle : lo ≤ min hi p.totalFrames
  · have hinv := forRange_invariant
      (I := fun i q => q.totalFrames = p.totalFrames ∧ (PmmOk p → PmmOk q)
        ∧ ∀ g, bitmapTest q g = true ↔ (lo ≤ g ∧ g < i) ∨ bitmapTest p g = true)
      (f := useFrame) (s := p) hle
      ⟨rfl, id, fun g => ⟨Or.inr, fun h => h.elim (fun ⟨h1, h2⟩ => by omega) id⟩⟩
      (fun i q hlo hhi ⟨htot, hok, hmem⟩ => by
        refine ⟨by simp [htot], fun hp => (hok hp).useFrame (by omega), ?_⟩
        intro g
        rw [bitmapTest_useFrame, Bool.or_eq_true, decide_eq_true_eq, hmem]
        constructor
        · rintro (rfl | ⟨h1, h2⟩ | h)
          · exact Or.inl ⟨hlo, by omega⟩
          · exact Or.inl ⟨h1, by omega⟩
          · exact Or.inr h
        · rintro (⟨h1, h2⟩ | h)
          · rcases Nat.lt_or_eq_of_le (Nat.le_of_lt_succ h2) with h | rfl
            · exact Or.inr (Or.inl ⟨h1, h⟩)
            · exact Or.inl rfl
          · exact Or.inr (Or.inr h))
    obtain ⟨htot, hok, hmem⟩ := hinv
    refine ⟨htot, hok, ?_⟩
    intro g
    rw [hmem g, Nat.lt_min]
  · rw [forRange_of_le (by omega)]
    refine ⟨rfl, id, fun g => ⟨Or.inr, fun h => h.elim ?_ id⟩⟩
    rintro ⟨h1, h2, h3⟩
    omega

/-- Freeing a region clears exactly the frames of the machine in its range. -/
theorem pmmMarkRegionFree_spec (p : Pmm) (base length : Nat) :
    (pmmMarkRegionFree p base length).totalFrames = p.totalFrames
      ∧ (PmmOk p → PmmOk (pmmMarkRegionFree p base length))
      ∧ ∀ g, bitmapTest (pmmMarkRegionFree p base length) g = true ↔
          ¬(addrToPfn (pageAlignUp base) ≤ g ∧ g < addrToPfn (add32 base length)
            ∧ g < p.totalFrames) ∧ bitmapTest p g = true := by
  unfold pmmMarkRegionFree
  simp only
  generalize addrToPfn (pageAlignUp base) = lo
  generalize addrToPfn (add32 base length) = hi
  by_cases hle : lo ≤ min hi p.totalFrames
  · have hinv := forRange_invariant
      (I := fun i q => q.totalFrames = p.totalFrames ∧ (PmmOk p → PmmOk q)
        ∧ ∀ g, bitmapTest q g = true ↔ ¬(lo ≤ g ∧ g < i) ∧ bitmapTest p g = true)
      (f := unuseFrame) (s := p) hle
      ⟨rfl, id, fun g => ⟨fun h => ⟨by omega, h⟩, And.right⟩⟩
      (fun i q hlo hhi ⟨htot, hok, hmem⟩ => by
        refine ⟨by simp [htot], fun hp => (hok hp).unuseFrame (by omega), ?_⟩
        intro g
        rw [bitmapTest_unuseFrame, Bool.and_eq_true, Bool.not_eq_true',
          decide_eq_false_iff_not, hmem]
        constructor
        · rintro ⟨hne, hout, h⟩
          exact ⟨by omega, h⟩
        · rintro ⟨hout, h⟩
          exact ⟨by omega, by omega, h⟩)
    obtain ⟨htot, hok, hmem⟩ := hinv
    refine ⟨htot, hok, ?_⟩
    intro g
    rw [hmem g, Nat.lt_min]
  · rw [forRange_of_le (by omega)]
    exact ⟨rfl, id, fun g => ⟨fun h => ⟨by omega, h⟩, And.right⟩⟩

/-! ## The two searches -/

theorem bitmapFindFree_some {p : Pmm} {f : Nat} (h : bitmapFindFree p = some f) :
    f < p.totalFrames ∧ bitmapTest p f = false := by
  unfold bitmapFindFree at h
  obtain ⟨i, -, hi⟩ := List.exists_of_findSome?_eq_some h
  split at hi
  · have := List.find?_some hi
    simpa using this
  · cases hi

/-- The region search: while `consecutive` frames before `frame` are free,
with `startFrame` the first of them, whatever it returns is `count` free
frames among those it may still visit. -/
theorem findFreeRegionFrom_some {p : Pmm} {count s : Nat} :
    ∀ {n frame consecutive startFrame : Nat},
      (consecutive ≠ 0 → startFrame + consecutive = frame) → consecutive < count →
      (∀ g, g < frame → frame ≤ g + consecutive → bitmapTest p g = false) →
      findFreeRegionFrom p count n frame consecutive startFrame = some s →
      s + count ≤ frame + n ∧ ∀ g, s ≤ g → g < s + count → bitmapTest p g = false
  | 0, _, _, _, _, _, _, h => by cases h
  | n + 1, frame, consecutive, startFrame, hstart, hlt, hfree, h => by
      rw [findFreeRegionFrom] at h
      split at h
      · have hnow : bitmapTest p frame = false := by simpa using ‹(!bitmapTest p frame) = true›
        have hfree' : ∀ g, g < frame + 1 → frame + 1 ≤ g + (consecutive + 1) →
            bitmapTest p g = false := by
          intro g hg hback
          rcases Nat.lt_or_eq_of_le (Nat.le_of_lt_succ hg) with hlt | rfl
          · exact hfree g hlt (by omega)
          · exact hnow
        have hstart' : (if consecutive = 0 then frame else startFrame) + (consecutive + 1)
            = frame + 1 := by
          split
          · omega
          · have := hstart ‹_›
            omega
        simp only at h
        split at h
        · obtain rfl := Option.some.inj h
          refine ⟨by omega, fun g hg1 hg2 => hfree' g (by omega) (by omega)⟩
        · obtain ⟨hb, hall⟩ :=
            findFreeRegionFrom_some (fun _ => hstart') (by omega) hfree' h
          exact ⟨by omega, hall⟩
      · obtain ⟨hb, hall⟩ := findFreeRegionFrom_some (by omega) (by omega) (by omega) h
        exact ⟨by omega, hall⟩

theorem bitmapFindFreeRegion_some {p : Pmm} {count s : Nat} (hcount : count ≠ 0)
    (h : bitmapFindFreeRegion p count = some s) :
    s + count ≤ p.totalFrames ∧ ∀ g, s ≤ g → g < s + count → bitmapTest p g = false := by
  have := findFreeRegionFrom_some (by omega) (by omega) (by omega) h
  simpa using this

/-! ## Allocation and release -/

/-- What `pmm_alloc_frame` can do: find nothing, or take one free frame. -/
theorem pmmAllocFrame_cases (p : Pmm) :
    pmmAllocFrame p = (0, p)
      ∨ ∃ f, f < p.totalFrames ∧ bitmapTest p f = false
        ∧ pmmAllocFrame p = (pfnToAddr f, takeFrame f p) := by
  unfold pmmAllocFrame
  split
  · exact Or.inl rfl
  · rename_i f hf
    obtain ⟨hlt, hfree⟩ := bitmapFindFree_some hf
    exact Or.inr ⟨f, hlt, hfree, rfl⟩

theorem PmmOk.allocFrame {p : Pmm} (h : PmmOk p) : PmmOk (pmmAllocFrame p).2 := by
  rcases pmmAllocFrame_cases p with he | ⟨f, hlt, hfree, he⟩
  · rw [he]; exact h
  · rw [he]; exact h.takeFrame hlt hfree

theorem pmmFreeFrame_totalFrames (p : Pmm) (addr : Nat) :
    (pmmFreeFrame p addr).totalFrames = p.totalFrames := by
  unfold pmmFreeFrame
  simp only
  split <;> simp

theorem PmmOk.freeFrame {p : Pmm} (h : PmmOk p) (addr : Nat) : PmmOk (pmmFreeFrame p addr) := by
  unfold pmmFreeFrame
  simp only
  split
  · exact h
  · exact h.unuseFrame (by omega)

theorem bitmapTest_pmmFreeFrame {p : Pmm} {addr : Nat} (hlt : addrToPfn addr < p.totalFrames)
    (g : Nat) :
    bitmapTest (pmmFreeFrame p addr) g = (!decide (g = addrToPfn addr) && bitmapTest p g) := by
  unfold pmmFreeFrame
  simp only
  rw [if_neg (by omega), bitmapTest_unuseFrame]

end Kfs
