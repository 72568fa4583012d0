import Mathlib.Order.Interval.Finset.Nat
import Kfs.PmmAccounting
import Kfs.PmmSets

/-!
# Frames given back in any order

A client allocates single frames and stretches of frames, and keeps for each
what it got (`Grant`). All of them succeed (`AllocStep`; frame 0 need not be
reserved, but an allocation that returns it counts as failed). Together they
take the frames of the grants, which were free before.

What a list of releases clears depends on the set of their frames only, so
giving the grants back restores the bitmap in every order, and a second
release finds its frames clear.
-/

namespace Kfs

/-- What a successful allocation handed out. -/
inductive Grant where
  | frame (addr : Nat)
  | frames (addr count : Nat)
  deriving DecidableEq

/-- The frames of a grant. -/
def Grant.frameSet : Grant → Finset Nat
  | .frame addr => {addrToPfn addr}
  | .frames addr count => Finset.Ico (addrToPfn addr) (addrToPfn addr + count)

/-- The allocation that returned the grant. -/
def AllocStep (p : Pmm) (g : Grant) (p' : Pmm) : Prop :=
  match g with
  | .frame addr => pmmAllocFrame p = (addr, p') ∧ addr ≠ 0
  | .frames addr count => pmmAllocFrames p count = (addr, p') ∧ addr ≠ 0

/-- The release that gives it back. -/
def Grant.free (p : Pmm) : Grant → Pmm
  | .frame addr => pmmFreeFrame p addr
  | .frames addr count => pmmFreeFrames p addr count

/-- The releases, one after the other. -/
def freeAll (gs : List Grant) (p : Pmm) : Pmm := gs.foldl Grant.free p

/-- The frames of a list of grants. -/
def framesOf : List Grant → Finset Nat
  | [] => ∅
  | g :: gs => g.frameSet ∪ framesOf gs

theorem mem_framesOf {gs : List Grant} {f : Nat} :
    f ∈ framesOf gs ↔ ∃ g ∈ gs, f ∈ g.frameSet := by
  induction gs with
  | nil => simp [framesOf]
  | cons g gs ih => rw [framesOf, Finset.mem_union, ih, List.exists_mem_cons_iff]

theorem framesOf_snoc (gs : List Grant) (g : Grant) :
    framesOf (gs ++ [g]) = framesOf gs ∪ g.frameSet := by
  ext f
  simp only [mem_framesOf, Finset.mem_union, List.mem_append, or_and_right, exists_or,
    List.mem_singleton, exists_eq_left]

theorem framesOf_subset {fs gs : List Grant} (h : fs ⊆ gs) : framesOf fs ⊆ framesOf gs := by
  intro f hf
  obtain ⟨g, hg, hin⟩ := mem_framesOf.mp hf
  exact mem_framesOf.mpr ⟨g, h hg, hin⟩

/-! ## Allocations -/

theorem AllocStep.takes {p p' : Pmm} {g : Grant} (hok : PmmOk p) (h : AllocStep p g p') :
    Takes g.frameSet p p' := by
  have hbound := hok.bound
  match g, h with
  | .frame addr, h =>
      obtain ⟨hcall, hne⟩ := h
      rcases pmmAllocFrame_cases p with he | ⟨f, hlt, hfree, he⟩
      · exact absurd (Prod.mk.inj (hcall.symm.trans he)).1 hne
      · obtain ⟨rfl, rfl⟩ := Prod.mk.inj (hcall.symm.trans he)
        rw [Grant.frameSet, addrToPfn_pfnToAddr (by omega)]
        exact takes_takeFrame hok hlt hfree
  | .frames addr count, h =>
      obtain ⟨hcall, hne⟩ := h
      rcases pmmAllocFrames_cases hok count with he | ⟨start, q, he, hpos, hle, hfree, htotal, hq,
        htest⟩
      · exact absurd (Prod.mk.inj (hcall.symm.trans he)).1 hne
      · obtain ⟨rfl, rfl⟩ := Prod.mk.inj (hcall.symm.trans he)
        have hpfn : addrToPfn (pfnToAddr start) = start := addrToPfn_pfnToAddr (by omega)
        rw [Grant.frameSet, hpfn]
        refine ⟨hq, htotal, ?_, ?_⟩
        · ext f
          rw [Finset.mem_union, mem_usedSet, mem_usedSet, htotal, htest, Finset.mem_Ico]
          unfold InStretch
          constructor
          · rintro ⟨hlt, hin | hused⟩
            · exact Or.inr hin
            · exact Or.inl ⟨hlt, hused⟩
          · rintro (⟨hlt, hused⟩ | hin)
            · exact ⟨hlt, Or.inr hused⟩
            · exact ⟨by omega, Or.inl hin⟩
        · refine Finset.disjoint_right.mpr ?_
          intro f hf hused
          have hclear := hfree f (Finset.mem_Ico.mp hf)
          rw [(mem_usedSet.mp hused).2] at hclear
          cases hclear

theorem allocRun_takes {p p' : Pmm} {gs : List Grant} (hok : PmmOk p)
    (h : Run AllocStep p gs p') : Takes (framesOf gs) p p' := by
  refine h.invariant_trace (I := fun gs q => Takes (framesOf gs) p q) (Takes.refl hok) ?_
  intro gs q g q' hq hstep
  rw [framesOf_snoc]
  exact hq.trans (hstep.takes hq.ok)

/-! ## Releases -/

/-- A grant of frames of the machine, given back. -/
theorem Grant.gives {p : Pmm} (hok : PmmOk p) {g : Grant}
    (hin : ∀ f ∈ g.frameSet, f < p.totalFrames) : Gives g.frameSet p (g.free p) := by
  match g, hin with
  | .frame addr, hin =>
      have hlt := hin _ (Finset.mem_singleton_self _)
      refine ⟨hok.freeFrame addr, pmmFreeFrame_totalFrames p addr, ?_⟩
      ext f
      show f ∈ usedSet (pmmFreeFrame p addr) ↔ f ∈ usedSet p \ {addrToPfn addr}
      rw [Finset.mem_sdiff, Finset.mem_singleton, mem_usedSet, mem_usedSet,
        pmmFreeFrame_totalFrames, bitmapTest_pmmFreeFrame hlt, Bool.and_eq_true,
        Bool.not_eq_true', decide_eq_false_iff_not]
      constructor
      · rintro ⟨h1, hne, h2⟩
        exact ⟨⟨h1, h2⟩, hne⟩
      · rintro ⟨⟨h1, h2⟩, hne⟩
        exact ⟨h1, hne, h2⟩
  | .frames addr count, hin =>
      by_cases hcount : count = 0
      · subst hcount
        refine ⟨hok, rfl, ?_⟩
        show usedSet p = usedSet p \ Finset.Ico _ (_ + 0)
        simp
      · have hlast := hin (addrToPfn addr + count - 1) (Finset.mem_Ico.mpr ⟨by omega, by omega⟩)
        have hle : addrToPfn addr + count ≤ p.totalFrames := by omega
        obtain ⟨htotal, hok', htest⟩ := pmmFreeFrames_spec hok hle
        refine ⟨hok', htotal, ?_⟩
        ext f
        show f ∈ usedSet (pmmFreeFrames p addr count) ↔ f ∈ usedSet p \ Finset.Ico _ _
        rw [Finset.mem_sdiff, Finset.mem_Ico, mem_usedSet, mem_usedSet, htotal, htest]
        unfold InStretch
        constructor
        · rintro ⟨h1, hout, h2⟩
          exact ⟨⟨h1, h2⟩, hout⟩
        · rintro ⟨⟨h1, h2⟩, hout⟩
          exact ⟨h1, hout, h2⟩

theorem freeAll_gives {gs : List Grant} : ∀ {p : Pmm}, PmmOk p →
    (∀ f ∈ framesOf gs, f < p.totalFrames) → Gives (framesOf gs) p (freeAll gs p) := by
  induction gs with
  | nil =>
      intro p hok _
      exact ⟨hok, rfl, Finset.sdiff_empty.symm⟩
  | cons g gs ih =>
      intro p hok hin
      have hgive : Gives g.frameSet p (g.free p) :=
        Grant.gives hok fun f hf => hin f (Finset.mem_union_left _ hf)
      refine hgive.trans (ih hgive.ok ?_)
      intro f hf
      rw [hgive.total]
      exact hin f (Finset.mem_union_right _ hf)

theorem unuseFrame_clear {p : Pmm} {f : Nat} (h : bitmapTest p f = false) :
    unuseFrame f p = p := by
  rw [unuseFrame, if_neg (by simp [h])]

/-- A release that finds its frames clear changes nothing. -/
theorem Grant.free_clear {p : Pmm} (hbound : p.totalFrames ≤ 32768) {g : Grant}
    (hclear : ∀ f ∈ g.frameSet, f < p.totalFrames ∧ bitmapTest p f = false) : g.free p = p := by
  match g, hclear with
  | .frame addr, hclear =>
      show pmmFreeFrame p addr = p
      unfold pmmFreeFrame
      dsimp only
      split
      · rfl
      · exact unuseFrame_clear (hclear _ (Finset.mem_singleton_self _)).2
  | .frames addr count, hclear =>
      refine forRange_invariant (I := fun _ q => q = p) (Nat.zero_le count) rfl ?_
      rintro i q - hi rfl
      obtain ⟨hlt, hfree⟩ := hclear (addrToPfn addr + i) (Finset.mem_Ico.mpr ⟨by omega, by omega⟩)
      rw [add32_of_lt (by omega), if_pos hlt]
      exact unuseFrame_clear hfree

/-! ## Undoing -/

/-- The bitmap and the counter are as they were. -/
def SameFrames (p p' : Pmm) : Prop :=
  p'.frameBitmap = p.frameBitmap ∧ p'.usedFrames = p.usedFrames

theorem Takes.undone {frames : Finset Nat} {p p' p'' : Pmm} (hok : PmmOk p)
    (htake : Takes frames p p') (hgive : Gives frames p' p'') : SameFrames p p'' := by
  have htotal := hgive.total.trans htake.total
  have hused : usedSet p'' = usedSet p := by
    rw [hgive.used, htake.used, Finset.union_sdiff_cancel_right htake.fresh]
  refine ⟨frameBitmap_eq hgive.ok hok htotal hused, ?_⟩
  rw [hgive.ok.exact, hok.exact, hused]

/-- Whatever was allocated is given back in any order, and giving frames back
twice changes nothing. -/
theorem pmmRun_undone {kernelStart kernelEnd : Nat} {m : Mem} {mbi : MultibootInfo}
    {p0 p p' : Pmm} {es : List PmmEvent} {gs : List Grant}
    (hinit : pmmInit kernelStart kernelEnd m mbi = .ok p0) (hrun : Run PmmStep p0 es p)
    (hallocs : Run AllocStep p gs p') :
    (∀ gs', gs'.Perm gs → SameFrames p (freeAll gs' p'))
      ∧ ∀ (fs : List Grant) (again : Grant), fs ⊆ gs → again.frameSet ⊆ framesOf fs →
        again.free (freeAll fs p') = freeAll fs p' := by
  have hok := pmmRun_ok hinit hrun
  have htake := allocRun_takes hok hallocs
  have hgive : ∀ {fs}, fs ⊆ gs → Gives (framesOf fs) p' (freeAll fs p') := by
    intro fs hfs
    refine freeAll_gives htake.ok ?_
    intro f hf
    rw [htake.total]
    exact htake.lt_total (framesOf_subset hfs hf)
  constructor
  · intro gs' hperm
    have hframes : framesOf gs' = framesOf gs :=
      Finset.Subset.antisymm (framesOf_subset hperm.subset) (framesOf_subset hperm.symm.subset)
    exact htake.undone hok (hframes ▸ hgive hperm.subset)
  · intro fs again hfs hagain
    have hfreed := hgive hfs
    refine Grant.free_clear hfreed.ok.bound ?_
    intro f hf
    have hlt : f < (freeAll fs p').totalFrames := by
      rw [hfreed.total, htake.total]
      exact htake.lt_total (framesOf_subset hfs (hagain hf))
    refine ⟨hlt, ?_⟩
    have hnot : f ∉ usedSet (freeAll fs p') := by
      rw [hfreed.used, Finset.mem_sdiff]
      exact fun h => h.2 (hagain hf)
    rw [mem_usedSet, not_and] at hnot
    exact Bool.eq_false_iff.mpr (hnot hlt)

/-- A machine with 16 frames above the kernel. -/
def sixteenFree : MultibootInfo where
  flags := 1
  memUpper := 192
  mmapLength := 0
  mmapAddr := 0

/-- A frame, four frames and a frame, given back in another order. -/
theorem pmmRun_undone_three : ∃ p p',
    pmmInit 0x100000 0x110000 (fun _ => 0#8) sixteenFree = .ok p
      ∧ Run AllocStep p [.frame 0x120000, .frames 0x121000 4, .frame 0x125000] p'
      ∧ SameFrames p (freeAll [.frames 0x121000 4, .frame 0x125000, .frame 0x120000] p') := by
  obtain ⟨p, hinit, h1, h2, h3⟩ : ∃ p,
      pmmInit 0x100000 0x110000 (fun _ => 0#8) sixteenFree = .ok p
        ∧ (pmmAllocFrame p).1 = 0x120000
        ∧ (pmmAllocFrames (pmmAllocFrame p).2 4).1 = 0x121000
        ∧ (pmmAllocFrame (pmmAllocFrames (pmmAllocFrame p).2 4).2).1 = 0x125000 :=
    ⟨_, rfl, by decide +kernel, by decide +kernel, by decide +kernel⟩
  have hallocs : Run AllocStep p [.frame 0x120000, .frames 0x121000 4, .frame 0x125000] _ :=
    ((Run.one ⟨Prod.ext h1 rfl, by decide⟩).snoc ⟨Prod.ext h2 rfl, by decide⟩).snoc
      ⟨Prod.ext h3 rfl, by decide⟩
  refine ⟨p, _, hinit, hallocs, (pmmRun_undone hinit .nil hallocs).1 _ ?_⟩
  decide

end Kfs
