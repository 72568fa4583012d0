import Kfs.PmmRuns

/-!
# Counting frames

Any order of the seven operations that write the bitmap, with any arguments:
frames that are freed twice or never were allocated, regions that wrap
around or overlap, marks on frames that are marked already. Every one of
them goes through `takeFrame` and `giveFrame` on a frame of the machine that
was in the other state (`pmmAllocFrames` marks a whole stretch before it
counts), so the counter never drifts from the bitmap and the statistics are
exact.
-/

namespace Kfs

inductive PmmEvent where
  | allocFrame
  | allocFrames (count : Nat)
  | freeFrame (addr : Nat)
  | freeFrames (addr count : Nat)
  | markFrameUsed (addr : Nat)
  | markRegionUsed (base length : Nat)
  | markRegionFree (base length : Nat)

def PmmEvent.exec (p : Pmm) : PmmEvent → Pmm
  | .allocFrame => (pmmAllocFrame p).2
  | .allocFrames count => (pmmAllocFrames p count).2
  | .freeFrame addr => pmmFreeFrame p addr
  | .freeFrames addr count => pmmFreeFrames p addr count
  | .markFrameUsed addr => pmmMarkFrameUsed p addr
  | .markRegionUsed base length => pmmMarkRegionUsed p base length
  | .markRegionFree base length => pmmMarkRegionFree p base length

def PmmStep (p : Pmm) (e : PmmEvent) (p' : Pmm) : Prop := p' = e.exec p

theorem PmmOk.freeFrames {p : Pmm} (h : PmmOk p) (addr count : Nat) :
    PmmOk (pmmFreeFrames p addr count) := by
  refine forRange_invariant (I := fun _ q => PmmOk q) (Nat.zero_le count) h ?_
  intro i q _ _ hq
  split
  · next hlt => exact hq.unuseFrame hlt
  · exact hq

theorem PmmOk.markFrameUsed {p : Pmm} (h : PmmOk p) (addr : Nat) :
    PmmOk (pmmMarkFrameUsed p addr) := by
  unfold pmmMarkFrameUsed
  dsimp only
  split
  · next hlt => exact h.useFrame hlt
  · exact h

theorem PmmOk.exec {p : Pmm} (h : PmmOk p) (e : PmmEvent) : PmmOk (e.exec p) := by
  cases e with
  | allocFrame => exact h.allocFrame
  | allocFrames count =>
      show PmmOk (pmmAllocFrames p count).2
      rcases pmmAllocFrames_cases h count with he | ⟨start, p', he, -, -, -, -, hok, -⟩
      · rw [he]
        exact h
      · rw [he]
        exact hok
  | freeFrame addr => exact h.freeFrame addr
  | freeFrames addr count => exact h.freeFrames addr count
  | markFrameUsed addr => exact h.markFrameUsed addr
  | markRegionUsed base length => exact (pmmMarkRegionUsed_spec p base length).2.1 h
  | markRegionFree base length => exact (pmmMarkRegionFree_spec p base length).2.1 h

/-- The free frames of the machine. -/
def freeSet (p : Pmm) : Finset Nat :=
  (Finset.range p.totalFrames).filter fun f => bitmapTest p f = false

theorem freeSet_card (p : Pmm) : (freeSet p).card + (usedSet p).card = p.totalFrames := by
  have hsplit := Finset.card_filter_add_card_filter_not
    (s := Finset.range p.totalFrames) fun f => bitmapTest p f = true
  rw [Finset.card_range] at hsplit
  have hfree : freeSet p
      = (Finset.range p.totalFrames).filter fun f => ¬bitmapTest p f = true :=
    Finset.filter_congr fun f _ => by rw [Bool.not_eq_true]
  rw [hfree, Nat.add_comm]
  exact hsplit

/-- What the statistics report is what the bitmap says. -/
structure Accounted (p : Pmm) : Prop where
  used : p.usedFrames = (usedSet p).card
  bound : p.usedFrames ≤ p.totalFrames ∧ p.totalFrames ≤ 32768
  high : ∀ f, p.totalFrames ≤ f → bitmapTest p f = true
  stats : pmmGetStats p
    = { totalFrames := p.totalFrames
        usedFrames := (usedSet p).card
        freeFrames := (freeSet p).card
        totalMemory := p.totalMemory
        freeMemory := (freeSet p).card * 4096 }
  freeMemory : pmmGetFreeMemory p = (freeSet p).card * 4096

theorem PmmOk.accounted {p : Pmm} (h : PmmOk p) : Accounted p := by
  have hused := h.exact
  have hbound := h.bound
  have hsum := freeSet_card p
  have hfree : sub32 p.totalFrames p.usedFrames = (freeSet p).card := by
    rw [sub32_of_le (by omega) (by omega)]
    omega
  have hmemory : pmmGetFreeMemory p = (freeSet p).card * 4096 := by
    rw [pmmGetFreeMemory, hfree, mul32_eq, Nat.mod_eq_of_lt (by omega)]
  refine ⟨hused, ⟨by omega, hbound⟩, h.high, ?_, hmemory⟩
  unfold pmmGetStats
  rw [← pmmGetFreeMemory, hmemory, hfree, hused]

theorem pmmRun_ok {kernelStart kernelEnd : Nat} {m : Mem} {mbi : MultibootInfo}
    {p p' : Pmm} {es : List PmmEvent} (hinit : pmmInit kernelStart kernelEnd m mbi = .ok p)
    (hrun : Run PmmStep p es p') : PmmOk p' := by
  obtain ⟨q, hq, rfl⟩ := pmmInit_ok hinit
  refine hrun.invariant (pmmReserve_ok hq).1 ?_
  rintro p1 e p2 hok rfl
  exact hok.exec e

/-- The counter is exact in every state the memory manager can get into. -/
theorem pmmRun_accounted {kernelStart kernelEnd : Nat} {m : Mem} {mbi : MultibootInfo}
    {p p' : Pmm} {es : List PmmEvent} (hinit : pmmInit kernelStart kernelEnd m mbi = .ok p)
    (hrun : Run PmmStep p es p') : Accounted p' :=
  (pmmRun_ok hinit hrun).accounted

/-- A frame is freed that never was allocated, and then a region. -/
theorem pmmRun_accounted_noMap : ∃ p p',
    pmmInit 0x100000 0x200000 (fun _ => 0#8) ⟨0, 0, 0, 0⟩ = .ok p
      ∧ Run PmmStep p [.freeFrame 0x100000, .allocFrames 3, .markRegionFree 0xFFFFF800 0x2000] p'
      ∧ Accounted p' := by
  obtain ⟨p, hinit⟩ : ∃ p, pmmInit 0x100000 0x200000 (fun _ => 0#8) ⟨0, 0, 0, 0⟩ = .ok p :=
    ⟨_, rfl⟩
  have hrun : Run PmmStep p
      [.freeFrame 0x100000, .allocFrames 3, .markRegionFree 0xFFFFF800 0x2000] _ :=
    ((Run.one rfl).snoc rfl).snoc rfl
  exact ⟨p, _, hinit, hrun, pmmRun_accounted hinit hrun⟩

end Kfs
