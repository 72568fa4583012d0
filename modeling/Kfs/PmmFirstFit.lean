import Kfs.PmmAccounting

/-!
# First fit

`pmm_alloc_frame` looks at the bitmap byte by byte, `pmm_alloc_frames` frame
by frame. The first search visits `total_frames / 8` bytes, so it never gets
to the frames of a last byte that the machine only has a part of: `spare` is
what it can find, and it finds the lowest of these. The second search visits
every frame.

The two are the same allocator (`FirstFit`) as long as the first one does not
need the last byte.
-/

namespace Kfs

/-! ## The search that skips bytes -/

/-- A byte in which the search finds nothing has no free frame. -/
theorem searchByte_none {p : Pmm} {g : Nat} (hg : g < p.totalFrames)
    (h : (if p.frameBitmap (g / 8) ≠ 0xFF#8 then
        ((List.range 8).map fun j => g / 8 * 8 + j).find? fun frame =>
          decide (frame < p.totalFrames) && !bitmapTest p frame
      else none) = none) : bitmapTest p g = true := by
  have hindex : g / 8 * 8 + g % 8 = g := by omega
  by_contra hfree
  split at h
  · have hnot := List.find?_eq_none.mp h g
      (List.mem_map.mpr ⟨g % 8, List.mem_range.mpr (by omega), hindex⟩)
    rw [Bool.eq_false_iff.mpr hfree, decide_eq_true hg] at hnot
    exact hnot rfl
  · next hones =>
      have hall := byte_eq_allOnes.mp (Decidable.not_not.mp hones) (g % 8) (by omega)
      rw [hindex] at hall
      exact hfree hall

/-- The search goes through the frames in order, up to the last whole byte of
the bitmap. -/
theorem bitmapFindFree_first {p : Pmm} {f : Nat} (h : bitmapFindFree p = some f) :
    f < p.totalFrames / 8 * 8 ∧ ∀ g, g < f → bitmapTest p g = true := by
  obtain ⟨before, i, after, hrange, hi, hbefore⟩ := List.findSome?_eq_some_iff.mp h
  have hmem : ∀ j, j ∈ List.range (p.totalFrames / 8) ↔ j ∈ before ∨ j = i ∨ j ∈ after := by
    intro j
    rw [hrange, List.mem_append, List.mem_cons]
  have hsorted : (before ++ i :: after).Pairwise (· < ·) := by
    rw [← hrange]
    exact List.pairwise_lt_range
  have hlast : i < p.totalFrames / 8 := List.mem_range.mp ((hmem i).mpr (Or.inr (Or.inl rfl)))
  split at hi
  swap
  · cases hi
  obtain ⟨-, j, hj, hf, hfirst⟩ := List.find?_eq_some_iff_getElem.mp hi
  have hj8 : j < 8 := by simpa using hj
  have hf' : i * 8 + j = f := by simpa using hf
  refine ⟨by omega, ?_⟩
  intro g hg
  by_cases hbyte : g / 8 = i
  · -- an earlier bit of the same byte
    have hskip := hfirst (g % 8) (by omega)
    have hg' : i * 8 + g % 8 = g := by omega
    simp only [List.getElem_map, List.getElem_range, hg', Bool.not_and, Bool.not_not,
      Bool.or_eq_true, Bool.not_eq_true', decide_eq_false_iff_not] at hskip
    exact hskip.resolve_left (by omega)
  · -- a byte that was skipped, or in which nothing was found
    have hin : g / 8 ∈ before := by
      have hall := (hmem (g / 8)).mp (List.mem_range.mpr (by omega))
      rcases hall with hin | heq | hin
      · exact hin
      · exact absurd heq hbyte
      · have := (List.pairwise_cons.mp (List.pairwise_append.mp hsorted).2.1).1 _ hin
        omega
    exact searchByte_none (by omega) (hbefore _ hin)

theorem bitmapFindFree_none {p : Pmm} (h : bitmapFindFree p = none) {g : Nat}
    (hg : g < p.totalFrames / 8 * 8) : bitmapTest p g = true :=
  searchByte_none (by omega)
    (List.findSome?_eq_none_iff.mp h (g / 8) (List.mem_range.mpr (by omega)))

/-- The frames `pmm_alloc_frame` can hand out. -/
def spare (p : Pmm) : Finset Nat :=
  (Finset.range (p.totalFrames / 8 * 8)).filter fun f => bitmapTest p f = false

section Spare

variable {p : Pmm}

theorem mem_spare {f : Nat} :
    f ∈ spare p ↔ f < p.totalFrames / 8 * 8 ∧ bitmapTest p f = false := by
  simp [spare]

theorem spare_takeFrame {f : Nat} : spare (takeFrame f p) = (spare p).erase f := by
  ext g
  simp only [mem_spare, Finset.mem_erase, bitmapTest_takeFrame, takeFrame_totalFrames,
    Bool.or_eq_false_iff, decide_eq_false_iff_not]
  constructor
  · rintro ⟨hg, hne, hfree⟩
    exact ⟨hne, hg, hfree⟩
  · rintro ⟨hne, hg, hfree⟩
    exact ⟨hg, hne, hfree⟩

/-- `pmm_alloc_frame` finds nothing, or the lowest spare frame. -/
theorem pmmAllocFrame_first (p : Pmm) :
    (pmmAllocFrame p = (0, p) ∧ spare p = ∅)
      ∨ ∃ f, f ∈ spare p ∧ (∀ g ∈ spare p, f ≤ g)
        ∧ pmmAllocFrame p = (pfnToAddr f, takeFrame f p) := by
  unfold pmmAllocFrame
  cases hfind : bitmapFindFree p with
  | none =>
      refine Or.inl ⟨rfl, Finset.eq_empty_of_forall_notMem ?_⟩
      intro f hf
      obtain ⟨hlt, hfree⟩ := mem_spare.mp hf
      rw [bitmapFindFree_none hfind hlt] at hfree
      cases hfree
  | some f =>
      obtain ⟨hlt, hfirst⟩ := bitmapFindFree_first hfind
      refine Or.inr ⟨f, mem_spare.mpr ⟨hlt, (bitmapFindFree_some hfind).2⟩, ?_, rfl⟩
      intro g hg
      by_contra hgf
      have hfree := (mem_spare.mp hg).2
      rw [hfirst g (by omega)] at hfree
      cases hfree

end Spare

/-! ## The search frame by frame -/

theorem findFreeRegionFrom_one (p : Pmm) : ∀ n frame startFrame,
    findFreeRegionFrom p 1 n frame 0 startFrame
      = (List.range' frame n).find? fun f => !bitmapTest p f
  | 0, _, _ => rfl
  | n + 1, frame, startFrame => by
      rw [findFreeRegionFrom, List.range'_succ, List.find?_cons]
      cases hbit : bitmapTest p frame with
      | false => rfl
      | true => exact findFreeRegionFrom_one p n (frame + 1) startFrame

/-- A region of one frame is the lowest free frame of the machine. -/
theorem pmmAllocFrames_one (p : Pmm) :
    (pmmAllocFrames p 1 = (0, p) ∧ ∀ f, f < p.totalFrames → bitmapTest p f = true)
      ∨ ∃ f, f < p.totalFrames ∧ bitmapTest p f = false
        ∧ (∀ g, g < f → bitmapTest p g = true)
        ∧ pmmAllocFrames p 1 = (pfnToAddr f, takeFrame f p) := by
  unfold pmmAllocFrames bitmapFindFreeRegion
  rw [if_neg (by decide), findFreeRegionFrom_one, ← List.range_eq_range']
  cases hfind : (List.range p.totalFrames).find? fun f => !bitmapTest p f with
  | none =>
      refine Or.inl ⟨rfl, ?_⟩
      intro f hf
      simpa using List.find?_eq_none.mp hfind f (List.mem_range.mpr hf)
  | some f =>
      obtain ⟨hfree, i, hi, rfl, hbefore⟩ := List.find?_eq_some_iff_getElem.mp hfind
      simp only [List.getElem_range, Bool.not_eq_true', Bool.not_not] at hfree hbefore ⊢
      refine Or.inr ⟨i, by simpa using hi, hfree, hbefore, ?_⟩
      show (_, takeFrame (i + 0) p) = _
      rfl

/-! ## One allocator -/

/-- What `pmm_alloc_frame` promises: the lowest free frame of the machine,
`0` only when there is none, and the same as a region of one frame. -/
structure FirstFit (p : Pmm) : Prop where
  lowest : ∀ f, f < p.totalFrames → bitmapTest p f = false →
    (∀ g, g < f → bitmapTest p g = true) → pmmAllocFrame p = (f * 4096, takeFrame f p)
  marks : ∀ f g, (pmmAllocFrame p).1 = f * 4096 → 0 < f →
    bitmapTest (pmmAllocFrame p).2 g = (decide (g = f) || bitmapTest p g)
  zero : (pmmAllocFrame p).1 = 0 ↔ ∀ f, f < p.totalFrames → bitmapTest p f = true
  unchanged : (pmmAllocFrame p).1 = 0 → (pmmAllocFrame p).2 = p
  region : pmmAllocFrame p = pmmAllocFrames p 1

/-- A frame of the bytes the search visits is free, or no frame of the last,
partial byte is. -/
def WholeBytes (p : Pmm) : Prop :=
  (∃ f, f < p.totalFrames / 8 * 8 ∧ bitmapTest p f = false)
    ∨ ∀ f, p.totalFrames / 8 * 8 ≤ f → f < p.totalFrames → bitmapTest p f = true

section FirstFit

variable {p : Pmm}

/-- The lowest free frame is among those the search finds. -/
theorem WholeBytes.spare (h : WholeBytes p) {f : Nat} (hlt : f < p.totalFrames)
    (hfree : bitmapTest p f = false) (hfirst : ∀ g, g < f → bitmapTest p g = true) :
    f ∈ Kfs.spare p := by
  refine mem_spare.mpr ⟨?_, hfree⟩
  by_contra hout
  rcases h with ⟨g, hg, hgfree⟩ | hlast
  · rw [hfirst g (by omega)] at hgfree
    cases hgfree
  · rw [hlast f (by omega) hlt] at hfree
    cases hfree

theorem WholeBytes.alloc_eq (h : WholeBytes p) : pmmAllocFrame p = pmmAllocFrames p 1 := by
  rcases pmmAllocFrames_one p with ⟨heq, hall⟩ | ⟨f, hlt, hfree, hfirst, heq⟩
  · rw [heq]
    rcases pmmAllocFrame_cases p with heq' | ⟨g, hg, hgfree, -⟩
    · exact heq'
    · rw [hall g hg] at hgfree
      cases hgfree
  · have hf := h.spare hlt hfree hfirst
    rw [heq]
    rcases pmmAllocFrame_first p with ⟨-, hnone⟩ | ⟨g, hg, hlow, heq'⟩
    · rw [hnone] at hf
      cases hf
    · have hle := hlow f hf
      obtain rfl : g = f := by
        by_contra hne
        have hgfree := (mem_spare.mp hg).2
        rw [hfirst g (by omega)] at hgfree
        cases hgfree
      exact heq'

theorem WholeBytes.firstFit (hok : PmmOk p)
    (hzero : 0 < p.totalFrames → bitmapTest p 0 = true) (h : WholeBytes p) : FirstFit p := by
  have hbound := hok.bound
  have hregion := h.alloc_eq
  rcases pmmAllocFrames_one p with ⟨heq, hall⟩ | ⟨f, hlt, hfree, hfirst, heq⟩
  · refine ⟨?_, ?_, ?_, ?_, hregion⟩
    · intro f hlt hfree _
      rw [hall f hlt] at hfree
      cases hfree
    · intro f g haddr hpos
      rw [hregion, heq] at haddr
      dsimp only at haddr
      omega
    · rw [hregion, heq]
      exact ⟨fun _ => hall, fun _ => rfl⟩
    · intro _
      rw [hregion, heq]
  · have haddr : pfnToAddr f = f * 4096 := pfnToAddr_eq (by omega)
    have hpos : 0 < f := by
      by_contra h0
      obtain rfl : f = 0 := by omega
      rw [hzero hlt] at hfree
      cases hfree
    rw [heq, haddr] at hregion
    refine ⟨?_, ?_, ?_, ?_, ?_⟩
    · intro g _ hgfree hgfirst
      obtain rfl : g = f := by
        rcases Nat.lt_trichotomy g f with hgf | rfl | hgf
        · rw [hfirst g hgf] at hgfree
          cases hgfree
        · rfl
        · rw [hgfirst f hgf] at hfree
          cases hfree
      exact hregion
    · intro f' g haddr' _
      rw [hregion] at haddr' ⊢
      obtain rfl : f = f' := by
        dsimp only at haddr'
        omega
      exact bitmapTest_takeFrame p f g
    · rw [hregion]
      constructor
      · intro h0
        dsimp only at h0
        omega
      · intro hall
        rw [hall f hlt] at hfree
        cases hfree
    · intro h0
      rw [hregion] at h0
      dsimp only at h0
      omega
    · rw [hregion, heq, haddr]

/-- The search misses a free frame of the last byte. -/
theorem FirstFit.wholeBytes (h : FirstFit p) : WholeBytes p := by
  by_contra hnot
  unfold WholeBytes at hnot
  push Not at hnot
  obtain ⟨hbytes, f, hle, hlt, hfree⟩ := hnot
  have hnone : pmmAllocFrame p = (0, p) := by
    rcases pmmAllocFrame_first p with ⟨heq, -⟩ | ⟨g, hg, -, -⟩
    · exact heq
    · obtain ⟨hg, hgfree⟩ := mem_spare.mp hg
      exact absurd hgfree (hbytes g hg)
  exact hfree (h.zero.mp (by rw [hnone]) f hlt)

end FirstFit

/-- In every state the memory manager can get into in which frame 0 is still
reserved, `pmm_alloc_frame` is first fit exactly as long as it does not need
the last byte. -/
theorem pmmRun_firstFit {kernelStart kernelEnd : Nat} {m : Mem} {mbi : MultibootInfo}
    {p p' : Pmm} {es : List PmmEvent} (hinit : pmmInit kernelStart kernelEnd m mbi = .ok p)
    (hrun : Run PmmStep p es p') (hzero : 0 < p'.totalFrames → bitmapTest p' 0 = true) :
    FirstFit p' ↔ WholeBytes p' := by
  exact ⟨FirstFit.wholeBytes, WholeBytes.firstFit (pmmRun_ok hinit hrun) hzero⟩

/-- A megabyte and 132 KB, without a memory map: 289 frames. -/
def partialByte : MultibootInfo where
  flags := 1
  memUpper := 132
  mmapLength := 0
  mmapAddr := 0

/-- The last frame is allocated as a region, and then nothing is free. -/
theorem pmmRun_firstFit_full : ∃ p p',
    pmmInit 0x100000 0x110000 (fun _ => 0#8) partialByte = .ok p
      ∧ Run PmmStep p [.allocFrames 1] p' ∧ FirstFit p' ∧ WholeBytes p' := by
  obtain ⟨p, hinit, htotal, hlast, hzero⟩ : ∃ p,
      pmmInit 0x100000 0x110000 (fun _ => 0#8) partialByte = .ok p
        ∧ (pmmAllocFrames p 1).2.totalFrames = 289
        ∧ bitmapTest (pmmAllocFrames p 1).2 288 = true
        ∧ bitmapTest (pmmAllocFrames p 1).2 0 = true :=
    ⟨_, rfl, by decide +kernel, by decide +kernel, by decide +kernel⟩
  have hrun : Run PmmStep p [.allocFrames 1] (pmmAllocFrames p 1).2 := Run.one rfl
  have hwhole : WholeBytes (pmmAllocFrames p 1).2 := by
    refine Or.inr ?_
    intro f hle hlt
    obtain rfl : f = 288 := by omega
    exact hlast
  exact ⟨p, _, hinit, hrun, (pmmRun_firstFit hinit hrun fun _ => hzero).mpr hwhole, hwhole⟩

/-- Right after `pmm_init` the last frame is free, and `pmm_alloc_frame`
reports that memory is exhausted. -/
theorem pmmRun_firstFit_fails : ∃ p,
    pmmInit 0x100000 0x110000 (fun _ => 0#8) partialByte = .ok p
      ∧ p.totalFrames = 289 ∧ bitmapTest p 0 = true ∧ bitmapTest p 288 = false
      ∧ (pmmAllocFrame p).1 = 0 ∧ (pmmAllocFrames p 1).1 = 288 * 4096 ∧ ¬FirstFit p := by
  obtain ⟨p, hinit, htotal, hzero, hfree, hframe, hregion⟩ : ∃ p,
      pmmInit 0x100000 0x110000 (fun _ => 0#8) partialByte = .ok p
        ∧ p.totalFrames = 289 ∧ bitmapTest p 0 = true ∧ bitmapTest p 288 = false
        ∧ (pmmAllocFrame p).1 = 0 ∧ (pmmAllocFrames p 1).1 = 288 * 4096 :=
    ⟨_, rfl, by decide +kernel, by decide +kernel, by decide +kernel, by decide +kernel,
      by decide +kernel⟩
  refine ⟨p, hinit, htotal, hzero, hfree, hframe, hregion, ?_⟩
  intro hfit
  rw [hfit.zero.mp hframe 288 (by omega)] at hfree
  cases hfree

end Kfs
