import Kfs.VmallocBreak

/-!
# Bounds of the two breaks

`kbrk` and `vbrk` add a signed increment to an unsigned break and clamp the
sum, from above when they grow and from below when they shrink. Growing is
safe: the breaks are far below `2 ^ 31`. A shrink by more than the break
itself wraps around to a sum above `2 ^ 31`, which the clamp from below lets
through. These are the only calls that break the bounds.
-/

namespace Kfs

/-- The increments of the breaks. -/
def IsInt (k : Int) : Prop := -2147483648 ≤ k ∧ k < 2147483648

instance (k : Int) : Decidable (IsInt k) := inferInstanceAs (Decidable (_ ∧ _))

/-! ## The heap -/

/-- `heap_start <= heap_end <= heap_max`. -/
def HeapBounds (h : Heap) : Prop := h.heapStart ≤ h.heapEnd ∧ h.heapEnd ≤ h.heapMax

def KbrkStep (h : Heap) (label : Int × Nat) (h' : Heap) : Prop :=
  IsInt label.1 ∧ kbrk h label.1 = (label.2, h')

/-- A shrink by no more than the end of the heap. -/
def KbrkStepAbove (h : Heap) (label : Int × Nat) (h' : Heap) : Prop :=
  KbrkStep h label h' ∧ 0 ≤ h.heapEnd + label.1

/-- `KbrkStepAbove` as a function. -/
def kbrkExec (h : Heap) (k : Int) : Option (Nat × Heap) :=
  if IsInt k ∧ 0 ≤ h.heapEnd + k then some (kbrk h k) else none

theorem kbrkExec_step ⦃h : Heap⦄ ⦃k : Int⦄ ⦃r : Nat⦄ ⦃h' : Heap⦄
    (hexec : kbrkExec h k = some (r, h')) : KbrkStepAbove h (k, r) h' := by
  unfold kbrkExec at hexec
  split at hexec
  · next hcallable => exact ⟨⟨hcallable.1, Option.some.inj hexec⟩, hcallable.2⟩
  · cases hexec

theorem kbrk_bounds {h : Heap} {k : Int} (hbounds : HeapBounds h) (hmax : h.heapMax < 2147483648)
    (hk : IsInt k) :
    (kbrk h k).2.heapMax = h.heapMax ∧ (HeapBounds (kbrk h k).2 ↔ 0 ≤ h.heapEnd + k) := by
  obtain ⟨hstart, hend⟩ := hbounds
  obtain ⟨hlo, hhi⟩ := hk
  have hsum := add32_toUInt32 (a := h.heapEnd) (by omega) hlo hhi
  unfold kbrk
  generalize add32 h.heapEnd (toUInt32 k) = e at hsum ⊢
  by_cases hzero : k = 0
  · rw [if_pos hzero]
    exact ⟨rfl, iff_of_true ⟨hstart, hend⟩ (by omega)⟩
  rw [if_neg hzero]
  dsimp only
  by_cases hpos : k > 0
  · rw [if_pos hpos]
    by_cases hroom : e > h.heapMax
    · rw [if_pos hroom]
      exact ⟨rfl, iff_of_true ⟨hstart, hend⟩ (by omega)⟩
    · rw [if_pos (by omega)] at hsum
      rw [if_neg hroom]
      refine ⟨rfl, iff_of_true ⟨?_, Nat.not_lt.mp hroom⟩ (by omega)⟩
      show h.heapStart ≤ e
      omega
  · rw [if_neg hpos]
    refine ⟨rfl, ?_⟩
    show h.heapStart ≤ (if e < h.heapStart then h.heapStart else e)
      ∧ (if e < h.heapStart then h.heapStart else e) ≤ h.heapMax ↔ _
    by_cases habove : 0 ≤ h.heapEnd + k
    · rw [if_pos habove] at hsum
      refine iff_of_true ?_ habove
      split <;> omega
    · rw [if_neg habove] at hsum
      refine iff_of_false ?_ habove
      rw [if_neg (by omega)]
      omega

/-! ## The range of `vmalloc` -/

/-- `vmalloc_highest_end() <= vmalloc_current <= VMALLOC_END`. -/
def BreakBounds (a : Vmalloc) : Prop :=
  vmallocHighestEnd a.regionList ≤ a.vmallocCurrent ∧ a.vmallocCurrent ≤ vmallocEnd

/-- As `Allowed`, with any increment. -/
def VmallocEvent.Callable (s : Vm × Vmalloc) : VmallocEvent → Prop
  | .vmalloc size => size ≤ 0x0F000000
  | .vfree p => ∃ r ∈ s.2.regionList, r.virtAddr = p
  | .vbrk k => IsInt k

/-- A shrink by no more than the break. -/
def VmallocEvent.StaysAbove (s : Vm × Vmalloc) : VmallocEvent → Prop
  | .vmalloc _ => True
  | .vfree _ => True
  | .vbrk k => 0 ≤ s.2.vmallocCurrent + k

def CallStep (s : Vm × Vmalloc) (label : VmallocEvent × Nat) (s' : Vm × Vmalloc) : Prop :=
  label.1.Callable s ∧ label.1.exec s = .ok (label.2, s')

def CallStepAbove (s : Vm × Vmalloc) (label : VmallocEvent × Nat) (s' : Vm × Vmalloc) : Prop :=
  CallStep s label s' ∧ label.1.StaysAbove s

instance (s : Vm × Vmalloc) : (e : VmallocEvent) → Decidable (e.Callable s ∧ e.StaysAbove s)
  | .vmalloc _ => inferInstanceAs (Decidable (_ ≤ _ ∧ True))
  | .vfree _ => inferInstanceAs (Decidable ((∃ r ∈ _, _) ∧ True))
  | .vbrk _ => inferInstanceAs (Decidable (IsInt _ ∧ _ ≤ _))

/-- `CallStepAbove` as a function. -/
def callExec (s : Vm × Vmalloc) (e : VmallocEvent) : Option (Nat × Vm × Vmalloc) :=
  if e.Callable s ∧ e.StaysAbove s then (e.exec s).toOption else none

theorem callExec_step ⦃s : Vm × Vmalloc⦄ ⦃e : VmallocEvent⦄ ⦃r : Nat⦄ ⦃s' : Vm × Vmalloc⦄
    (h : callExec s e = some (r, s')) : CallStepAbove s (e, r) s' := by
  unfold callExec at h
  split at h
  · next hcallable => exact ⟨⟨hcallable.1, eq_ok_of_toOption h⟩, hcallable.2⟩
  · cases h

section Range

variable {base : Finset Nat} {vm : Vm} {a : Vmalloc}

theorem VmallocInv.vbrk_bounds (h : VmallocInv base vm a) {k : Int} (hk : IsInt k) :
    BreakBounds (vbrk a k).2 ↔ 0 ≤ a.vmallocCurrent + k := by
  have hhighest := h.highest
  have htop := h.top
  by_cases habove : 0 ≤ a.vmallocCurrent + k
  · refine iff_of_true ?_ habove
    rcases h.vbrk_cases habove hk.2 with ⟨hcall, -⟩ | ⟨current, hcall, hge, hle, -⟩
    · rw [hcall]
      exact ⟨hhighest, htop⟩
    · rw [hcall]
      exact ⟨hge, hle⟩
  · refine iff_of_false ?_ habove
    -- the sum wraps around, and the clamp from below does not see it
    obtain ⟨hlo, hhi⟩ := hk
    have hsum := add32_toUInt32 (a := a.vmallocCurrent) (by omega) hlo hhi
    rw [if_neg habove] at hsum
    have hcall : (vbrk a k).2
        = { a with vmallocCurrent := add32 a.vmallocCurrent (toUInt32 k) } := by
      unfold vbrk
      dsimp only
      rw [if_neg (by omega), if_neg (by omega), if_neg (by omega)]
    rw [hcall]
    rintro ⟨-, hle⟩
    unfold vmallocEnd at hle
    dsimp only at hle
    omega

theorem VmallocInv.callStep {s s' : Vm × Vmalloc} {label : VmallocEvent × Nat}
    (h : VmallocInv base s.1 s.2) (hstep : CallStepAbove s label s') :
    VmallocInv base s'.1 s'.2 := by
  obtain ⟨e, r⟩ := label
  obtain ⟨⟨hcallable, hexec⟩, habove⟩ := hstep
  cases e with
  | vmalloc n =>
      by_cases haligned : s.2.vmallocCurrent % 4096 = 0
      · rcases (h.vmalloc_cases haligned hcallable hexec).1 with hr | hg
        · exact h.refused hr
        · exact (h.granted haligned hg).1
      · exact h.refused (h.vmalloc_crossing haligned hcallable hexec)
  | vfree p =>
      obtain ⟨region, hregion, rfl⟩ := hcallable
      obtain ⟨vm', a', hcall, hinv, -⟩ := h.vfree hregion
      have hcall' : (Kfs.vfree s.1 s.2 region.virtAddr).map (fun s => (0, s)) = .ok (r, s') := hexec
      rw [hcall] at hcall'
      obtain ⟨-, rfl⟩ := Prod.mk.inj (Except.ok.inj hcall')
      exact hinv
  | vbrk k =>
      obtain ⟨-, rfl⟩ := Prod.mk.inj (Except.ok.inj hexec)
      obtain ⟨hge, hle⟩ := (h.vbrk_bounds hcallable).mpr habove
      rcases h.vbrk_cases habove hcallable.2 with ⟨hcall, -⟩ | ⟨current, hcall, -⟩
      · rw [hcall]
        exact h
      · rw [hcall] at hge hle ⊢
        exact h.moveBreak hge hle

end Range

/-! ## Runs -/

/-- Both breaks stay in their bounds along runs in which no increment takes
them below zero, and any other increment breaks them. -/
theorem breakRun_bounds {vm : Vm} {heap : Heap} (hboot : Booted vm heap) :
    (∀ labels h, Run KbrkStepAbove heap labels h → HeapBounds h
        ∧ ∀ k, IsInt k → (HeapBounds (kbrk h k).2 ↔ 0 ≤ h.heapEnd + k))
      ∧ ∀ labels s, Run CallStepAbove (vm, vmallocInit heap) labels s → BreakBounds s.2
        ∧ ∀ k, IsInt k → (BreakBounds (vbrk s.2 k).2 ↔ 0 ≤ s.2.vmallocCurrent + k) := by
  constructor
  · intro labels h hrun
    obtain ⟨bs, hrep, -⟩ := hboot.ready.heap
    have hinv : HeapBounds h ∧ h.heapMax < 2147483648 := by
      refine hrun.invariant (I := fun h => HeapBounds h ∧ h.heapMax < 2147483648)
        ⟨⟨hrep.ok.tiles.le, hrep.top⟩, hrep.max⟩ ?_
      rintro h label h' ⟨hbounds, hmax⟩ ⟨⟨hk, hcall⟩, habove⟩
      obtain ⟨hsame, hiff⟩ := kbrk_bounds hbounds hmax hk
      rw [hcall] at hsame hiff
      exact ⟨hiff.mpr habove, hsame ▸ hmax⟩
    exact ⟨hinv.1, fun k hk => (kbrk_bounds hinv.1 hinv.2 hk).2⟩
  · intro labels s hrun
    have hinv : VmallocInv (usedSet vm.pmm) s.1 s.2 :=
      hrun.invariant (I := fun s => VmallocInv (usedSet vm.pmm) s.1 s.2)
        hboot.ready.vmallocInv fun h hstep => h.callStep hstep
    exact ⟨⟨hinv.highest, hinv.top⟩, fun k hk => hinv.vbrk_bounds hk⟩

/-- A heap that grew, shrank and was refused more than `heap_max`, and a range
with two regions and a reservation between them. -/
theorem breakRun_bounds_calls :
    (∃ h, Run KbrkStepAbove machineHeap
        [(4096, 0x210000), (-1000, 0x211000), (0x01000000, 0xFFFFFFFF)] h
      ∧ h.heapEnd = 0x210C18 ∧ HeapBounds h ∧ HeapBounds (kbrk h (-0x210C18)).2)
      ∧ ∃ s, Run CallStepAbove (machine 4096 2576, vmallocInit machineHeap)
          [(.vmalloc 1, 0x1000000), (.vbrk 4096, 0x1001000), (.vmalloc 5000, 0x1002000),
            (.vfree 0x1000000, 0), (.vbrk 0x7FFFFFFF, 0xFFFFFFFF)] s
        ∧ s.2.vmallocCurrent = 0x1004000 ∧ BreakBounds s.2
        ∧ BreakBounds (vbrk s.2 (-0x1004000)).2 := by
  have hboot : Booted (machine 4096 2576) machineHeap :=
    rangeMachine_booted (by decide) (by decide) (by decide)
  obtain ⟨hheap, hbreak⟩ := breakRun_bounds hboot
  obtain ⟨h, hrun, hend⟩ := execRun_observe kbrkExec_step machineHeap
    [4096, -1000, 0x01000000] [0x210000, 0x211000, 0xFFFFFFFF]
    (fun h => h.heapEnd = 0x210C18) (by decide +kernel)
  obtain ⟨s, hcalls, hcurrent⟩ := execRun_observe callExec_step
    (machine 4096 2576, vmallocInit machineHeap)
    [.vmalloc 1, .vbrk 4096, .vmalloc 5000, .vfree 0x1000000, .vbrk 0x7FFFFFFF]
    [0x1000000, 0x1001000, 0x1002000, 0, 0xFFFFFFFF]
    (fun s => s.2.vmallocCurrent = 0x1004000) (by decide +kernel)
  obtain ⟨hbounds, hiff⟩ := hheap _ h hrun
  obtain ⟨hbounds', hiff'⟩ := hbreak _ s hcalls
  refine ⟨⟨h, hrun, hend, hbounds, (hiff _ (by decide)).mpr ?_⟩,
    s, hcalls, hcurrent, hbounds', (hiff' _ (by decide)).mpr ?_⟩
  · omega
  · omega

/-- Right after boot, a shrink of either break by `2 ^ 31` wraps around. -/
theorem breakRun_bounds_fails :
    ∃ vm heap, Booted vm heap ∧ ¬HeapBounds (kbrk heap (-2147483648)).2
      ∧ ¬BreakBounds (vbrk (vmallocInit heap) (-2147483648)).2 := by
  have hboot : Booted (machine 4096 2576) machineHeap :=
    rangeMachine_booted (by decide) (by decide) (by decide)
  refine ⟨_, _, hboot, ?_, ?_⟩
  · have hend : (kbrk machineHeap (-2147483648)).2.heapMax
        < (kbrk machineHeap (-2147483648)).2.heapEnd := by decide +kernel
    exact fun hbounds => Nat.not_lt.mpr hbounds.2 hend
  · have hend : vmallocEnd
        < (vbrk (vmallocInit machineHeap) (-2147483648)).2.vmallocCurrent := by decide +kernel
    exact fun hbounds => Nat.not_lt.mpr hbounds.2 hend

end Kfs
