import Kfs.Kmalloc
import Kfs.PmmFrames

/-!
# Who owns which frame

Runs of the physical memory manager from boot: `pmm_init`, the heap
reservation of `kmalloc_init`, and then any allocations and releases by
clients that free only what they hold. `held` lists the frames in their
hands.

Both allocators hand out a stretch of frames that were free
(`FrameInv.grant`) and both releases take a stretch back
(`FrameInv.release`), so the invariant has two step lemmas for four
operations. It also keeps every frame of the reserved regions marked: a
frame that is free is not reserved.
-/

namespace Kfs

/-! ## Stretches of frames -/

/-- `f` is one of the `n` frames from `start`. -/
def InStretch (start n f : Nat) : Prop := start ≤ f ∧ f < start + n

instance (start n f : Nat) : Decidable (InStretch start n f) :=
  inferInstanceAs (Decidable (_ ∧ _))

theorem usedSet_bitmapSet {p : Pmm} {f : Nat} (hf : f < p.totalFrames) :
    usedSet (bitmapSet p f) = insert f (usedSet p) :=
  usedSet_takeFrame hf

/-- The marking loop of `pmm_alloc_frames` on free frames. -/
theorem forRange_bitmapSet {p : Pmm} {start count : Nat} (hle : start + count ≤ p.totalFrames)
    (hfree : ∀ g, InStretch start count g → bitmapTest p g = false) :
    let q := forRange 0 count (fun i p => bitmapSet p (start + i)) p
    q.totalFrames = p.totalFrames ∧ q.usedFrames = p.usedFrames
      ∧ (usedSet q).card = (usedSet p).card + count
      ∧ ∀ g, bitmapTest q g = true ↔ InStretch start count g ∨ bitmapTest p g = true := by
  refine forRange_invariant
    (I := fun i q => q.totalFrames = p.totalFrames ∧ q.usedFrames = p.usedFrames
      ∧ (usedSet q).card = (usedSet p).card + i
      ∧ ∀ g, bitmapTest q g = true ↔ InStretch start i g ∨ bitmapTest p g = true)
    (Nat.zero_le count) ⟨rfl, rfl, rfl, ?_⟩ ?_
  · intro g
    unfold InStretch
    constructor
    · exact Or.inr
    · rintro (⟨h1, h2⟩ | h)
      · omega
      · exact h
  · rintro i q _ hi ⟨htot, hused, hcard, hmem⟩
    have hnot : start + i ∉ usedSet q := by
      rw [mem_usedSet, hmem]
      rintro ⟨-, ⟨-, h⟩ | h⟩
      · omega
      · rw [hfree (start + i) ⟨by omega, by omega⟩] at h
        cases h
    refine ⟨htot, hused, ?_, ?_⟩
    · rw [usedSet_bitmapSet (by omega), Finset.card_insert_of_notMem hnot, hcard]
      rfl
    · intro g
      rw [bitmapTest_bitmapSet, Bool.or_eq_true, decide_eq_true_eq, hmem]
      unfold InStretch
      constructor
      · rintro (rfl | ⟨h1, h2⟩ | h)
        · exact Or.inl ⟨by omega, by omega⟩
        · exact Or.inl ⟨h1, by omega⟩
        · exact Or.inr h
      · rintro (⟨h1, h2⟩ | h)
        · by_cases hg : g = start + i
          · exact Or.inl hg
          · exact Or.inr (Or.inl ⟨h1, by omega⟩)
        · exact Or.inr (Or.inr h)

/-- What `pmm_alloc_frames` can do: return `0` and change nothing, or take a
stretch of free frames. -/
theorem pmmAllocFrames_cases {p : Pmm} (hok : PmmOk p) (count : Nat) :
    pmmAllocFrames p count = (0, p)
      ∨ ∃ start p', pmmAllocFrames p count = (pfnToAddr start, p') ∧ 0 < count
        ∧ start + count ≤ p.totalFrames
        ∧ (∀ g, InStretch start count g → bitmapTest p g = false)
        ∧ p'.totalFrames = p.totalFrames ∧ PmmOk p'
        ∧ ∀ g, bitmapTest p' g = true ↔ InStretch start count g ∨ bitmapTest p g = true := by
  unfold pmmAllocFrames
  split
  · exact Or.inl rfl
  · rename_i hcount
    split
    · exact Or.inl rfl
    · rename_i start hstart
      obtain ⟨hle, hfree⟩ := bitmapFindFreeRegion_some hcount hstart
      have hfree' : ∀ g, InStretch start count g → bitmapTest p g = false :=
        fun g hg => hfree g hg.1 hg.2
      obtain ⟨htot, hused, hcard, hmem⟩ := forRange_bitmapSet hle hfree'
      refine Or.inr ⟨start, _, rfl, by omega, hle, hfree', htot, ⟨?_, ?_, ?_⟩, hmem⟩
      · exact htot ▸ hok.bound
      · have hcap := usedSet_card_le p
        have hbound := hok.bound
        refine Eq.trans ?_ hcard.symm
        show add32 _ count = _
        rw [hused, hok.exact]
        exact add32_of_lt (by omega)
      · intro g hg
        refine (hmem g).mpr (Or.inr (hok.high g ?_))
        exact htot ▸ hg

/-- `pmm_free_frames` on a stretch of frames of the machine clears exactly
these. -/
theorem pmmFreeFrames_spec {p : Pmm} (hok : PmmOk p) {addr count : Nat}
    (hle : addrToPfn addr + count ≤ p.totalFrames) :
    (pmmFreeFrames p addr count).totalFrames = p.totalFrames
      ∧ PmmOk (pmmFreeFrames p addr count)
      ∧ ∀ g, bitmapTest (pmmFreeFrames p addr count) g = true ↔
          ¬InStretch (addrToPfn addr) count g ∧ bitmapTest p g = true := by
  have hbound := hok.bound
  refine forRange_invariant
    (I := fun i q => q.totalFrames = p.totalFrames ∧ PmmOk q
      ∧ ∀ g, bitmapTest q g = true ↔ ¬InStretch (addrToPfn addr) i g ∧ bitmapTest p g = true)
    (Nat.zero_le count) ⟨rfl, hok, ?_⟩ ?_
  · intro g
    unfold InStretch
    constructor
    · intro h
      exact ⟨by omega, h⟩
    · exact And.right
  · rintro i q _ hi ⟨htot, hq, hmem⟩
    have hframe : add32 (addrToPfn addr) i = addrToPfn addr + i := add32_of_lt (by omega)
    rw [hframe, if_pos (by omega)]
    refine ⟨(unuseFrame_totalFrames _ _).trans htot, hq.unuseFrame (by omega), ?_⟩
    intro g
    rw [bitmapTest_unuseFrame, Bool.and_eq_true, Bool.not_eq_true', decide_eq_false_iff_not,
      hmem]
    unfold InStretch
    constructor
    · rintro ⟨hne, hout, h⟩
      exact ⟨by omega, h⟩
    · rintro ⟨hout, h⟩
      exact ⟨by omega, by omega, h⟩

/-! ## Boot -/

theorem allUsed_test (memory f : Nat) : bitmapTest (allUsed memory) f = true :=
  testBit_full f

theorem detectMemory_le (mbi : MultibootInfo) : detectMemory mbi ≤ 134217728 := by
  unfold detectMemory maxMemory
  split
  · simp only
    split <;> omega
  · omega

theorem pmmOk_allUsed {memory : Nat} (h : memory ≤ 134217728) : PmmOk (allUsed memory) := by
  have htot : (allUsed memory).totalFrames = memory / 4096 := rfl
  refine ⟨by omega, ?_, fun f _ => allUsed_test memory f⟩
  have hall : usedSet (allUsed memory) = Finset.range (memory / 4096) :=
    Finset.filter_true_of_mem fun f _ => allUsed_test memory f
  rw [hall, Finset.card_range]
  rfl

theorem mmapWalk_ok {m : Mem} {mmapEnd : Nat} : ∀ {fuel mmap : Nat} {p p' : Pmm},
    PmmOk p → mmapWalk m mmapEnd fuel mmap p = .ok p' → PmmOk p'
  | fuel + 1, mmap, p, p', hok, h => by
      rw [mmapWalk] at h
      split at h
      · refine mmapWalk_ok ?_ h
        split
        · exact (pmmMarkRegionFree_spec p _ _).2.1 hok
        · exact hok
      · obtain rfl := Except.ok.inj h
        exact hok

/-- Some byte of `[lo, hi)` lies in frame `f`. -/
def FrameMeets (lo hi f : Nat) : Prop := ∃ a, lo ≤ a ∧ a < hi ∧ addrToPfn a = f

/-- The regions `pmm_init` and `kmalloc_init` reserve. -/
def Reserved (kernelStart kernelEnd : Nat) (h : Heap) (f : Nat) : Prop :=
  FrameMeets 0 0x100000 f ∨ FrameMeets kernelStart kernelEnd f
    ∨ FrameMeets kernelEnd (kernelEnd + 0x10000) f ∨ FrameMeets h.heapStart h.heapMax f

/-- Marking a region that does not wrap marks every frame it meets. -/
theorem pmmMarkRegionUsed_meets {p : Pmm} {lo length f : Nat}
    (hlim : lo + length + 4095 < 4294967296) (hf : f < p.totalFrames)
    (hmeets : FrameMeets lo (lo + length) f) :
    bitmapTest (pmmMarkRegionUsed p lo length) f = true := by
  obtain ⟨a, hlo, hhi, rfl⟩ := hmeets
  refine ((pmmMarkRegionUsed_spec p lo length).2.2 _).mpr (Or.inl ⟨?_, ?_, hf⟩)
  · rw [addrToPfn_eq, addrToPfn_eq]
    exact Nat.div_le_div_right hlo
  · rw [add32_of_lt (by omega), addrToPfn_pageAlignUp (by omega), addrToPfn_eq]
    omega

theorem pmmMarkRegionUsed_mono {p : Pmm} {f : Nat} (base length : Nat)
    (h : bitmapTest p f = true) : bitmapTest (pmmMarkRegionUsed p base length) f = true :=
  ((pmmMarkRegionUsed_spec p base length).2.2 f).mpr (Or.inr h)

theorem pmmReserve_ok {kernelStart kernelEnd : Nat} {p : Pmm} (hok : PmmOk p) :
    PmmOk (pmmReserve kernelStart kernelEnd p)
      ∧ (pmmReserve kernelStart kernelEnd p).totalFrames = p.totalFrames := by
  dsimp only [pmmReserve]
  obtain ⟨ht1, hok1, -⟩ := pmmMarkRegionUsed_spec p 0 0x100000
  generalize pmmMarkRegionUsed p 0 0x100000 = p1 at *
  obtain ⟨ht2, hok2, -⟩ :=
    pmmMarkRegionUsed_spec p1 kernelStart (sub32 kernelEnd kernelStart)
  generalize pmmMarkRegionUsed p1 kernelStart (sub32 kernelEnd kernelStart) = p2 at *
  obtain ⟨ht3, hok3, -⟩ := pmmMarkRegionUsed_spec p2 kernelEnd (64 * 1024)
  exact ⟨hok3 (hok2 (hok1 hok)), ht3.trans (ht2.trans ht1)⟩

/-- After `pmm_init` the accounting holds. -/
theorem pmmInit_ok {kernelStart kernelEnd : Nat} {m : Mem} {mbi : MultibootInfo} {p : Pmm}
    (h : pmmInit kernelStart kernelEnd m mbi = .ok p) :
    ∃ q, PmmOk q ∧ p = pmmReserve kernelStart kernelEnd q := by
  unfold pmmInit at h
  have h0 := pmmOk_allUsed (detectMemory_le mbi)
  obtain ⟨q, hq, hp⟩ := bind_eq_ok.mp h
  refine ⟨q, ?_, (Except.ok.inj hp).symm⟩
  unfold pmmFreeAvailable at hq
  split at hq
  · exact mmapWalk_ok h0 hq
  · obtain rfl := Except.ok.inj hq
    exact (pmmMarkRegionFree_spec _ _ _).2.1 h0

/-- Every reserved frame is marked once `kmalloc_init` has run. -/
theorem boot_reserved {kernelStart kernelEnd : Nat} {m : Mem} {q : Pmm}
    (hks : kernelStart ≤ kernelEnd)
    (hlim : heapLimit kernelEnd < 4294967296) :
    let hp := kmallocInit kernelEnd m (pmmReserve kernelStart kernelEnd q)
    ∀ f, f < q.totalFrames → Reserved kernelStart kernelEnd hp.1 f →
      bitmapTest hp.2 f = true := by
  have hstart := heapInit_heapStart m hlim
  have hmax := heapInit_heapMax m hlim
  unfold heapLimit at hlim hmax
  have hlen : sub32 (heapInit kernelEnd m).heapMax (heapInit kernelEnd m).heapStart
      = 8 * 1024 * 1024 := by
    rw [sub32_of_le (by omega) (by omega)]
    omega
  intro hp f hf hres
  show bitmapTest (pmmMarkRegionUsed _ _ _) f = true
  dsimp only [pmmReserve]
  obtain ⟨ht1, -⟩ := pmmMarkRegionUsed_spec q 0 0x100000
  have hlow := @pmmMarkRegionUsed_meets q 0 0x100000 f (by omega) hf
  generalize pmmMarkRegionUsed q 0 0x100000 = q1 at *
  obtain ⟨ht2, -⟩ := pmmMarkRegionUsed_spec q1 kernelStart (sub32 kernelEnd kernelStart)
  have hsize : sub32 kernelEnd kernelStart = kernelEnd - kernelStart :=
    sub32_of_le hks (by omega)
  have himage := @pmmMarkRegionUsed_meets q1 kernelStart (kernelEnd - kernelStart) f
    (by omega) (by omega)
  rw [hsize] at ht2 ⊢
  have hmono2 := pmmMarkRegionUsed_mono (p := q1) (f := f) kernelStart (kernelEnd - kernelStart)
  generalize pmmMarkRegionUsed q1 kernelStart (kernelEnd - kernelStart) = q2 at *
  obtain ⟨ht3, -⟩ := pmmMarkRegionUsed_spec q2 kernelEnd (64 * 1024)
  have hafter := @pmmMarkRegionUsed_meets q2 kernelEnd (64 * 1024) f (by omega) (by omega)
  have hmono3 := pmmMarkRegionUsed_mono (p := q2) (f := f) kernelEnd (64 * 1024)
  generalize pmmMarkRegionUsed q2 kernelEnd (64 * 1024) = q3 at *
  rcases hres with h | h | h | h
  · exact pmmMarkRegionUsed_mono _ _ (hmono3 (hmono2 (hlow h)))
  · rw [show kernelStart + (kernelEnd - kernelStart) = kernelEnd by omega] at himage
    exact pmmMarkRegionUsed_mono _ _ (hmono3 (himage h))
  · exact pmmMarkRegionUsed_mono _ _ (hafter h)
  · rw [hlen]
    refine pmmMarkRegionUsed_meets (by omega) (by omega) ?_
    rwa [show (heapInit kernelEnd m).heapStart + 8 * 1024 * 1024
      = (heapInit kernelEnd m).heapMax by omega]

/-! ## Clients -/

structure FrameClient where
  pmm : Pmm
  held : List Nat

inductive FrameEvent where
  | allocFrame
  | allocFrames (count : Nat)
  | freeFrame (addr : Nat)
  | freeFrames (addr count : Nat)

/-- The frames a client got when an allocation of `count` frames returned
`addr`. -/
def granted (addr count : Nat) : List Nat :=
  if addr = 0 then [] else List.range' (addrToPfn addr) count

/-- What the clients still hold after they gave back a stretch. -/
def returned (held : List Nat) (addr count : Nat) : List Nat :=
  held.filter fun f => ¬InStretch (addrToPfn addr) count f

inductive FrameStep : FrameClient → FrameEvent → FrameClient → Prop where
  | allocFrame {s : FrameClient} :
      FrameStep s .allocFrame
        ⟨(pmmAllocFrame s.pmm).2, granted (pmmAllocFrame s.pmm).1 1 ++ s.held⟩
  | allocFrames {s : FrameClient} {count : Nat} :
      FrameStep s (.allocFrames count)
        ⟨(pmmAllocFrames s.pmm count).2, granted (pmmAllocFrames s.pmm count).1 count ++ s.held⟩
  | freeFrame {s : FrameClient} {addr : Nat} (hheld : addrToPfn addr ∈ s.held) :
      FrameStep s (.freeFrame addr) ⟨pmmFreeFrame s.pmm addr, returned s.held addr 1⟩
  | freeFrames {s : FrameClient} {addr count : Nat}
      (hheld : ∀ f, InStretch (addrToPfn addr) count f → f ∈ s.held) :
      FrameStep s (.freeFrames addr count)
        ⟨pmmFreeFrames s.pmm addr count, returned s.held addr count⟩

/-- The clients hold distinct marked frames, none of them in `R`, and the
frames in `R` stay marked. -/
structure FrameInv (R : Nat → Prop) (s : FrameClient) : Prop where
  ok : PmmOk s.pmm
  nodup : s.held.Nodup
  held : ∀ f ∈ s.held, f < s.pmm.totalFrames ∧ bitmapTest s.pmm f = true ∧ ¬R f
  reserved : ∀ f, f < s.pmm.totalFrames → R f → bitmapTest s.pmm f = true

section Steps

variable {R : Nat → Prop} {s : FrameClient} {p' : Pmm} {start count : Nat}

/-- A stretch of free frames goes to the clients. -/
theorem FrameInv.grant (hinv : FrameInv R s) (hzero : R 0) (hok' : PmmOk p')
    (htot : p'.totalFrames = s.pmm.totalFrames) (hpos : 0 < count)
    (hle : start + count ≤ s.pmm.totalFrames)
    (hfree : ∀ g, InStretch start count g → bitmapTest s.pmm g = false)
    (hmem : ∀ g, bitmapTest p' g = true ↔ InStretch start count g ∨ bitmapTest s.pmm g = true) :
    FrameInv R ⟨p', granted (pfnToAddr start) count ++ s.held⟩ := by
  have hbound := hinv.ok.bound
  have hnotR : ∀ g, InStretch start count g → ¬R g := by
    intro g hg hR
    have hg2 := hg.2
    have := hinv.reserved g (by omega) hR
    rw [hfree g hg] at this
    cases this
  -- frame 0 is reserved, so the address is not the failure value
  have hgrant : granted (pfnToAddr start) count = List.range' start count := by
    have hstart : start ≠ 0 := by
      rintro rfl
      exact hnotR 0 ⟨Nat.le_refl 0, by omega⟩ hzero
    rw [granted, if_neg (by rw [pfnToAddr_eq (by omega)]; omega),
      addrToPfn_pfnToAddr (by omega)]
  have hin : ∀ {g}, g ∈ List.range' start count ↔ InStretch start count g :=
    List.mem_range'_1
  rw [hgrant]
  refine ⟨hok', List.nodup_append.mpr ⟨List.nodup_range', hinv.nodup, ?_⟩, ?_, ?_⟩
  · rintro f hf g hg rfl
    have := (hinv.held f hg).2.1
    rw [hfree f (hin.mp hf)] at this
    cases this
  · intro f hf
    rcases List.mem_append.mp hf with hf | hf
    · have hf' := hin.mp hf
      have hlt := hf'.2
      exact ⟨by dsimp only; omega, (hmem f).mpr (Or.inl hf'), hnotR f hf'⟩
    · obtain ⟨hlt, htest, hR⟩ := hinv.held f hf
      exact ⟨by dsimp only; omega, (hmem f).mpr (Or.inr htest), hR⟩
  · intro f hf hR
    exact (hmem f).mpr (Or.inr (hinv.reserved f (htot ▸ hf) hR))

/-- The clients give back a stretch of what they hold. -/
theorem FrameInv.release {addr : Nat} (hinv : FrameInv R s) (hok' : PmmOk p')
    (htot : p'.totalFrames = s.pmm.totalFrames)
    (hheld : ∀ f, InStretch (addrToPfn addr) count f → f ∈ s.held)
    (hmem : ∀ g, bitmapTest p' g = true ↔
      ¬InStretch (addrToPfn addr) count g ∧ bitmapTest s.pmm g = true) :
    FrameInv R ⟨p', returned s.held addr count⟩ := by
  refine ⟨hok', hinv.nodup.filter _, ?_, ?_⟩
  · intro f hf
    obtain ⟨hf, hout⟩ := List.mem_filter.mp hf
    obtain ⟨hlt, htest, hR⟩ := hinv.held f hf
    exact ⟨htot.symm ▸ hlt, (hmem f).mpr ⟨of_decide_eq_true hout, htest⟩, hR⟩
  · intro f hf hR
    refine (hmem f).mpr ⟨?_, hinv.reserved f (htot ▸ hf) hR⟩
    intro hin
    exact (hinv.held f (hheld f hin)).2.2 hR

end Steps

theorem FrameInv.step {R : Nat → Prop} (hzero : R 0) {s t : FrameClient} {e : FrameEvent}
    (hinv : FrameInv R s) (hstep : FrameStep s e t) : FrameInv R t := by
  cases hstep with
  | allocFrame =>
      rcases pmmAllocFrame_cases s.pmm with he | ⟨f, hlt, hfree, he⟩
      · rw [he]
        exact hinv
      · rw [he]
        refine hinv.grant hzero (hinv.ok.takeFrame hlt hfree) rfl Nat.one_pos hlt ?_ ?_
        · intro g hg
          obtain rfl : g = f := by
            obtain ⟨h1, h2⟩ := hg
            omega
          exact hfree
        · intro g
          rw [bitmapTest_takeFrame, Bool.or_eq_true, decide_eq_true_eq]
          unfold InStretch
          constructor
          · rintro (rfl | h)
            · exact Or.inl ⟨by omega, by omega⟩
            · exact Or.inr h
          · rintro (⟨h1, h2⟩ | h)
            · exact Or.inl (by omega)
            · exact Or.inr h
  | @allocFrames count =>
      rcases pmmAllocFrames_cases hinv.ok count with
        he | ⟨start, p', he, hpos, hle, hfree, htot, hok', hmem⟩
      · rw [he]
        exact hinv
      · rw [he]
        exact hinv.grant hzero hok' htot hpos hle hfree hmem
  | @freeFrame addr hheld =>
      have hlt := (hinv.held _ hheld).1
      refine hinv.release (hinv.ok.freeFrame addr) (pmmFreeFrame_totalFrames _ _) ?_ ?_
      · intro f hf
        obtain rfl : f = addrToPfn addr := by
          obtain ⟨h1, h2⟩ := hf
          omega
        exact hheld
      · intro g
        rw [bitmapTest_pmmFreeFrame hlt, Bool.and_eq_true, Bool.not_eq_true',
          decide_eq_false_iff_not]
        unfold InStretch
        constructor
        · rintro ⟨hne, h⟩
          exact ⟨by omega, h⟩
        · rintro ⟨hout, h⟩
          exact ⟨by omega, h⟩
  | @freeFrames addr count hheld =>
      by_cases hpos : count = 0
      · subst hpos
        refine hinv.release hinv.ok rfl hheld ?_
        intro g
        unfold InStretch
        constructor
        · intro h
          exact ⟨by omega, h⟩
        · exact And.right
      · -- the last frame of the stretch is held, so the stretch is inside the machine
        have hlast := (hinv.held _ (hheld (addrToPfn addr + count - 1) ⟨by omega, by omega⟩)).1
        have hle : addrToPfn addr + count ≤ s.pmm.totalFrames := by omega
        obtain ⟨htot, hok', hmem⟩ := pmmFreeFrames_spec hinv.ok hle
        exact hinv.release hok' htot hheld hmem

theorem frameInv_boot {kernelStart kernelEnd : Nat} {m m' : Mem} {mbi : MultibootInfo} {p : Pmm}
    (hks : kernelStart ≤ kernelEnd) (hlim : heapLimit kernelEnd < 4294967296)
    (hinit : pmmInit kernelStart kernelEnd m mbi = .ok p) :
    FrameInv (Reserved kernelStart kernelEnd (kmallocInit kernelEnd m' p).1)
      ⟨(kmallocInit kernelEnd m' p).2, []⟩ := by
  obtain ⟨q, hok, rfl⟩ := pmmInit_ok hinit
  obtain ⟨hokr, htotr⟩ := @pmmReserve_ok kernelStart kernelEnd q hok
  obtain ⟨htot, hok', -⟩ := pmmMarkRegionUsed_spec (pmmReserve kernelStart kernelEnd q)
    (heapInit kernelEnd m').heapStart
    (sub32 (heapInit kernelEnd m').heapMax (heapInit kernelEnd m').heapStart)
  refine ⟨hok' hokr, List.nodup_nil, fun _ hf => (List.not_mem_nil hf).elim, ?_⟩
  intro f hf
  exact boot_reserved hks hlim f (by rw [← htotr, ← htot]; exact hf)

/-- Along every run from boot the clients hold distinct used frames of the
machine, outside every reserved region. -/
theorem frameRun_held {kernelStart kernelEnd : Nat} {m m' : Mem} {mbi : MultibootInfo}
    {p : Pmm} (hks : kernelStart ≤ kernelEnd) (hlim : heapLimit kernelEnd < 4294967296)
    (hinit : pmmInit kernelStart kernelEnd m mbi = .ok p) {es : List FrameEvent}
    {s : FrameClient} (hrun : Run FrameStep ⟨(kmallocInit kernelEnd m' p).2, []⟩ es s) :
    s.held.Nodup ∧ ∀ f ∈ s.held, f < s.pmm.totalFrames ∧ bitmapTest s.pmm f = true
      ∧ ¬Reserved kernelStart kernelEnd (kmallocInit kernelEnd m' p).1 f := by
  have hzero : Reserved kernelStart kernelEnd (kmallocInit kernelEnd m' p).1 0 :=
    Or.inl ⟨0, Nat.le_refl 0, by decide, rfl⟩
  have hinv := hrun.invariant (frameInv_boot hks hlim hinit) (FrameInv.step hzero)
  exact ⟨hinv.nodup, hinv.held⟩

theorem frameRun_held_noMap : ∃ p s,
    pmmInit 0x100000 0x200000 (fun _ => 0#8) ⟨0, 0, 0, 0⟩ = .ok p
      ∧ Run FrameStep ⟨(kmallocInit 0x200000 (fun _ => 0#8) p).2, []⟩
        [.allocFrame, .allocFrames 4] s
      ∧ s.held.Nodup ∧ ∀ f ∈ s.held, f < s.pmm.totalFrames ∧ bitmapTest s.pmm f = true
        ∧ ¬Reserved 0x100000 0x200000 (kmallocInit 0x200000 (fun _ => 0#8) p).1 f := by
  obtain ⟨p, hinit⟩ : ∃ p, pmmInit 0x100000 0x200000 (fun _ => 0#8) ⟨0, 0, 0, 0⟩ = .ok p :=
    ⟨_, rfl⟩
  have hrun := (Run.snoc (s := ⟨(kmallocInit 0x200000 (fun _ => 0#8) p).2, []⟩) .nil
    FrameStep.allocFrame).snoc (@FrameStep.allocFrames _ 4)
  exact ⟨p, _, hinit, hrun, frameRun_held (by decide) (by decide) hinit hrun⟩

end Kfs
