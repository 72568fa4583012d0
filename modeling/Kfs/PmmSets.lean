import Kfs.PmmFrames

/-!
# Frames taken and given back

What an allocation or a release does, as a set of frames: `Takes frames p p'`
when the frames were free and are used, `Gives frames p p'` when they are
free now. Both compose (`Takes.trans`, `Gives.trans`), and the set of used
frames determines the bitmap (`frameBitmap_eq`).
-/

namespace Kfs

/-! ## Used frames -/

theorem usedSet_freeFrame (p : Pmm) (f : Nat) :
    usedSet (pmmFreeFrame p (f * 4096)) = (usedSet p).erase f := by
  have hpfn : addrToPfn (f * 4096) = f := by
    rw [addrToPfn_eq, Nat.mul_div_cancel f (by omega)]
  ext g
  rw [Finset.mem_erase, mem_usedSet, mem_usedSet, pmmFreeFrame_totalFrames]
  by_cases hf : f < p.totalFrames
  · rw [bitmapTest_pmmFreeFrame (by rwa [hpfn]), hpfn]
    simp only [Bool.and_eq_true, Bool.not_eq_true', decide_eq_false_iff_not]
    exact ⟨fun ⟨hg, hne, ht⟩ => ⟨hne, hg, ht⟩, fun ⟨hne, hg, ht⟩ => ⟨hg, hne, ht⟩⟩
  · have hkeep : pmmFreeFrame p (f * 4096) = p := by
      unfold pmmFreeFrame
      simp only
      rw [if_pos (by omega)]
    rw [hkeep]
    exact ⟨fun ⟨hg, ht⟩ => ⟨by omega, hg, ht⟩, fun ⟨_, hg, ht⟩ => ⟨hg, ht⟩⟩

/-- The same frames are used, and the accounting holds on both sides: the
bitmaps are equal. -/
theorem frameBitmap_eq {p q : Pmm} (hp : PmmOk p) (hq : PmmOk q)
    (htotal : p.totalFrames = q.totalFrames) (hused : usedSet p = usedSet q) :
    p.frameBitmap = q.frameBitmap := by
  refine bitmap_ext ?_
  intro f
  by_cases hf : f < p.totalFrames
  · have hmem := Finset.ext_iff.mp hused f
    rw [mem_usedSet, mem_usedSet, and_iff_right hf, and_iff_right (htotal ▸ hf)] at hmem
    exact Bool.eq_iff_iff.mpr hmem
  · exact (hp.high f (by omega)).trans (hq.high f (by omega)).symm

/-! ## Taking frames -/

/-- The frames in `frames` were free and are used, and no other frame
changed. -/
structure Takes (frames : Finset Nat) (p p' : Pmm) : Prop where
  ok : PmmOk p'
  total : p'.totalFrames = p.totalFrames
  used : usedSet p' = usedSet p ∪ frames
  fresh : Disjoint (usedSet p) frames

theorem Takes.refl {p : Pmm} (hok : PmmOk p) : Takes ∅ p p :=
  ⟨hok, rfl, (Finset.union_empty _).symm, Finset.disjoint_empty_right _⟩

theorem Takes.trans {frames frames' : Finset Nat} {p p' p'' : Pmm} (h : Takes frames p p')
    (h' : Takes frames' p' p'') : Takes (frames ∪ frames') p p'' where
  ok := h'.ok
  total := h'.total.trans h.total
  used := by rw [h'.used, h.used, Finset.union_assoc]
  fresh := by
    refine Finset.disjoint_union_right.mpr ⟨h.fresh, ?_⟩
    refine Finset.disjoint_of_subset_left ?_ h'.fresh
    rw [h.used]
    exact Finset.subset_union_left

theorem Takes.lt_total {frames : Finset Nat} {p p' : Pmm} (h : Takes frames p p') {f : Nat}
    (hf : f ∈ frames) : f < p.totalFrames := by
  have hmem : f ∈ usedSet p' := h.used ▸ Finset.mem_union_right _ hf
  exact h.total ▸ (mem_usedSet.mp hmem).1

theorem Takes.lt {frames : Finset Nat} {p p' : Pmm} (h : Takes frames p p') {f : Nat}
    (hf : f ∈ frames) : f < 32768 := by
  have hlt := h.lt_total hf
  have htotal := h.total
  have hbound := h.ok.bound
  omega

/-- Frame 0 is used, if there is one. -/
def LowUsed (p : Pmm) : Prop := 0 < p.totalFrames → 0 ∈ usedSet p

/-- A frame that was free is not frame 0. -/
theorem Takes.ne_zero {frames : Finset Nat} {p p' : Pmm} (h : Takes frames p p') (hlow : LowUsed p)
    {f : Nat} (hf : f ∈ frames) : f ≠ 0 := by
  rintro rfl
  have hmem : 0 ∈ usedSet p' := h.used ▸ Finset.mem_union_right _ hf
  have hpos := (mem_usedSet.mp hmem).1
  rw [h.total] at hpos
  exact Finset.disjoint_left.mp h.fresh (hlow hpos) hf

theorem Takes.lowUsed {frames : Finset Nat} {p p' : Pmm} (h : Takes frames p p')
    (hlow : LowUsed p) : LowUsed p' := by
  intro hpos
  rw [h.total] at hpos
  rw [h.used]
  exact Finset.mem_union_left _ (hlow hpos)

theorem Takes.test_mono {frames : Finset Nat} {p p' : Pmm} (h : Takes frames p p') {f : Nat}
    (hf : bitmapTest p f = true) : bitmapTest p' f = true := by
  by_cases hlt : f < p.totalFrames
  · have hmem : f ∈ usedSet p' := h.used ▸ Finset.mem_union_left _ (mem_usedSet.mpr ⟨hlt, hf⟩)
    exact (mem_usedSet.mp hmem).2
  · exact h.ok.high f (by rw [h.total]; omega)

theorem Takes.test {frames : Finset Nat} {p p' : Pmm} (h : Takes frames p p') {f : Nat}
    (hf : f ∈ frames) : bitmapTest p f = false ∧ bitmapTest p' f = true := by
  have hmem := mem_usedSet.mp (h.used ▸ Finset.mem_union_right _ hf : f ∈ usedSet p')
  have hnot : f ∉ usedSet p := fun hin => Finset.disjoint_left.mp h.fresh hin hf
  rw [mem_usedSet, not_and, ← h.total] at hnot
  exact ⟨Bool.eq_false_iff.mpr (hnot hmem.1), hmem.2⟩

theorem takes_takeFrame {p : Pmm} {f : Nat} (hok : PmmOk p) (hlt : f < p.totalFrames)
    (hfree : bitmapTest p f = false) : Takes {f} p (takeFrame f p) := by
  refine ⟨hok.takeFrame hlt hfree, rfl, ?_, ?_⟩
  · rw [usedSet_takeFrame hlt, Finset.union_comm]
    rfl
  · rw [Finset.disjoint_singleton_right, mem_usedSet, hfree]
    rintro ⟨-, h⟩
    cases h

/-! ## Giving frames back -/

/-- The frames in `frames` are free now, and no other frame changed. -/
structure Gives (frames : Finset Nat) (p p' : Pmm) : Prop where
  ok : PmmOk p'
  total : p'.totalFrames = p.totalFrames
  used : usedSet p' = usedSet p \ frames

theorem Gives.trans {frames frames' : Finset Nat} {p p' p'' : Pmm} (h : Gives frames p p')
    (h' : Gives frames' p' p'') : Gives (frames ∪ frames') p p'' where
  ok := h'.ok
  total := h'.total.trans h.total
  used := by rw [h'.used, h.used, sdiff_sdiff_left, Finset.sup_eq_union]

end Kfs
