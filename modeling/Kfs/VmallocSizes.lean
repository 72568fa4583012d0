import Kfs.VmallocRuns

/-!
# Sizes of regions

`vmalloc` rounds the size up to pages and adds it to the break, both in 32
bits, and checks only the sum. If neither wraps around, a region holds what
was asked for and lies in the range, and what does not fit is refused at
once. A size above `0xFFFFF000` rounds up to no pages at all, and a large one
takes the end of the region below the break; both pass the check.
-/

namespace Kfs

/-- Any size for `vmalloc`, any address for `vfree`. -/
def VmallocEvent.Sized : VmallocEvent → Prop
  | .vmalloc n => n < 4294967296
  | .vfree _ => True
  | .vbrk _ => False

instance : (e : VmallocEvent) → Decidable e.Sized
  | .vmalloc _ => inferInstanceAs (Decidable (_ < _))
  | .vfree _ => inferInstanceAs (Decidable True)
  | .vbrk _ => inferInstanceAs (Decidable False)

def SizedStep (s : Vm × Vmalloc) (label : VmallocEvent × Nat) (s' : Vm × Vmalloc) : Prop :=
  label.1.Sized ∧ label.1.exec s = .ok (label.2, s')

/-- The region ends below `2 ^ 32`. -/
def FitsWord (a : Vmalloc) (n : Nat) : Prop :=
  a.vmallocCurrent + (n + 4095) / 4096 * 4096 < 4294967296

def VmallocEvent.FitsWord (s : Vm × Vmalloc) : VmallocEvent → Prop
  | .vmalloc n => Kfs.FitsWord s.2 n
  | .vfree _ => True
  | .vbrk _ => True

def SizedStepFits (s : Vm × Vmalloc) (label : VmallocEvent × Nat) (s' : Vm × Vmalloc) : Prop :=
  SizedStep s label s' ∧ label.1.FitsWord s

instance (s : Vm × Vmalloc) : (e : VmallocEvent) → Decidable (e.FitsWord s)
  | .vmalloc _ => inferInstanceAs (Decidable (_ < _))
  | .vfree _ => inferInstanceAs (Decidable True)
  | .vbrk _ => inferInstanceAs (Decidable True)

/-- `SizedStepFits` as a function. -/
def sizedExec (s : Vm × Vmalloc) (e : VmallocEvent) : Option (Nat × Vm × Vmalloc) :=
  if e.Sized ∧ e.FitsWord s then (e.exec s).toOption else none

theorem sizedExec_step ⦃s : Vm × Vmalloc⦄ ⦃e : VmallocEvent⦄ ⦃r : Nat⦄ ⦃s' : Vm × Vmalloc⦄
    (h : sizedExec s e = some (r, s')) : SizedStepFits s (e, r) s' := by
  unfold sizedExec at h
  split at h
  · next hcond => exact ⟨⟨hcond.1, eq_ok_of_toOption h⟩, hcond.2⟩
  · cases h

/-- The region at `p` is new, as large as asked for, in the range and mapped. -/
structure RegionHonours (vm' : Vm) (a a' : Vmalloc) (n p : Nat) (r : VmRegion) : Prop where
  list : a'.regionList = r :: a.regionList
  address : r.virtAddr = p
  size : n ≤ r.mappedSize
  inside : p + r.mappedSize ≤ vmallocEnd
  mapped : ∀ v, r.Has v → pagingIsMapped vm' v = true
  single : ∀ r' ∈ a.regionList, r'.virtAddr ≠ p

section Sizes

variable {base : Finset Nat} {s s' : Vm × Vmalloc} {n p : Nat} {vm' : Vm} {a' : Vmalloc}

/-- What fits in a word but not in the range is refused at once. -/
theorem Steady.refuses (h : Steady base s) (hfits : FitsWord s.2 n)
    (hlarge : vmallocEnd < s.2.vmallocCurrent + n) : vmalloc s.1 s.2 n = .ok (0, s.1, s.2) := by
  have htop := h.inv.top
  have haligned := h.aligned
  unfold FitsWord at hfits
  have hpages : add32 n 4095 = n + 4095 := add32_of_lt (by omega)
  have hsize : mul32 ((n + 4095) / 4096) 4096 = (n + 4095) / 4096 * 4096 := by
    rw [mul32_eq, Nat.mod_eq_of_lt (by omega)]
  unfold vmalloc
  by_cases hzero : n = 0
  · rw [if_pos hzero]
  rw [if_neg hzero]
  dsimp only
  rw [hpages, hsize, add32_of_lt hfits, if_pos (by omega)]

theorem Steady.small (h : Steady base s) (hsmall : ¬vmallocEnd < s.2.vmallocCurrent + n) :
    n ≤ 0x0F000000 := by
  have hstart := h.inv.regions.highestEnd.1
  have hcurrent := h.current
  unfold vmallocEnd at hsmall
  omega

theorem Steady.sizedStep {label : VmallocEvent × Nat} (h : Steady base s)
    (hstep : SizedStepFits s label s') : Steady base s' := by
  obtain ⟨e, r⟩ := label
  obtain ⟨⟨hsized, hexec⟩, hfits⟩ := hstep
  cases e with
  | vmalloc n =>
      by_cases hlarge : vmallocEnd < s.2.vmallocCurrent + n
      · have hsame : (0, s.1, s.2) = (r, s') :=
          Except.ok.inj ((h.refuses hfits hlarge).symm.trans hexec)
        obtain ⟨-, rfl⟩ := Prod.mk.inj hsame
        exact h
      · have hallowed : n ≤ 0x0F000000 := h.small hlarge
        have hstep : VmallocStep s (.vmalloc n, r) s' := ⟨hallowed, hexec⟩
        exact h.step hstep rfl
  | vfree p =>
      by_cases hlive : ∃ r ∈ s.2.regionList, r.virtAddr = p
      · have hstep : VmallocStep s (.vfree p, r) s' := ⟨hlive, hexec⟩
        exact h.step hstep rfl
      · -- the null pointer, or a panic
        have hexec' : (Kfs.vfree s.1 s.2 p).map (fun s => (0, s)) = .ok (r, s') := hexec
        have hnone : vmallocFindRegion s.2.regionList p = none := by
          refine List.find?_eq_none.mpr ?_
          intro r hr hat
          exact hlive ⟨r, hr, (of_decide_eq_true hat).2⟩
        unfold vfree at hexec'
        split at hexec'
        · obtain ⟨-, rfl⟩ := Prod.mk.inj (Except.ok.inj hexec')
          exact h
        · rw [hnone] at hexec'
          cases hexec'
  | vbrk k => exact hsized.elim

theorem Steady.honours (h : Steady base s) (hsmall : n ≤ 0x0F000000) (hp : p ≠ 0)
    (hcall : vmalloc s.1 s.2 n = .ok (p, vm', a')) : ∃ r, RegionHonours vm' s.2 a' n p r := by
  have hstep : VmallocStep s (.vmalloc n, p) (vm', a') := ⟨hsmall, hcall⟩
  have hnext : Steady base (vm', a') := h.step hstep rfl
  rcases (h.inv.vmalloc_cases h.aligned hsmall hcall).1 with hr | hg
  · exact absurd hr.null hp
  obtain ⟨r, hrok, hvirt, hpages, hlist, -⟩ := hg.region h.inv h.aligned
  have hr : r ∈ a'.regionList := hlist ▸ List.mem_cons_self
  have haddress : r.virtAddr = p := hvirt.trans hg.address.symm
  have hsize := hrok.mapped
  refine ⟨r, hlist, haddress, by omega, haddress ▸ hrok.top,
    fun v hv => (hnext.layout.mapped r hr v hv).1, ?_⟩
  -- the regions of before end at the break or below it
  intro r' hr'
  have hstop := h.inv.regions.highestEnd.2.1 r' hr'
  rw [← h.current] at hstop
  have hpages' := (h.inv.regions.each r' hr').pages
  omega

/-- The record of a call that returns an address. -/
theorem vmalloc_record {vm : Vm} {a : Vmalloc} (hcall : vmalloc vm a n = .ok (p, vm', a'))
    (hp : p ≠ 0) : p = a.vmallocCurrent ∧ ∃ r, a'.regionList = r :: a.regionList
      ∧ r.mappedSize = mul32 (add32 n 4095 / 4096) 4096 := by
  have hnull : ∀ x : Vm × Vmalloc, Except.ok (0, x) = (.ok (p, vm', a') : Except Fault _) →
      False := fun x heq => hp (congrArg Prod.fst (Except.ok.inj heq)).symm
  unfold vmalloc at hcall
  split at hcall
  · exact (hnull _ hcall).elim
  dsimp only at hcall
  split at hcall
  · exact (hnull _ hcall).elim
  obtain ⟨⟨node, heap⟩, -, hcall⟩ := bind_eq_ok.mp hcall
  dsimp only at hcall
  split at hcall
  · exact (hnull _ hcall).elim
  obtain ⟨⟨ok, vm1⟩, -, hcall⟩ := bind_eq_ok.mp hcall
  cases ok with
  | true =>
      obtain ⟨rfl, heq⟩ := Prod.mk.inj (Except.ok.inj hcall)
      obtain ⟨-, rfl⟩ := Prod.mk.inj heq
      exact ⟨rfl, _, rfl, rfl⟩
  | false =>
      obtain ⟨⟨heap', warned⟩, -, hcall⟩ := bind_eq_ok.mp hcall
      exact (hnull _ hcall).elim

/-- A region whose size or end wraps around is too small or not in the range. -/
theorem RegionHonours.fitsWord {r : VmRegion} (hr : RegionHonours vm' s.2 a' n p r) (hp : p ≠ 0)
    (hcall : vmalloc s.1 s.2 n = .ok (p, vm', a')) : FitsWord s.2 n := by
  obtain ⟨rfl, r', hlist, hmapped⟩ := vmalloc_record hcall hp
  obtain ⟨rfl, -⟩ := List.cons.inj (hlist.symm.trans hr.list)
  have hsize := hr.size
  have hinside := hr.inside
  unfold FitsWord
  unfold vmallocEnd at hinside
  rw [mul32_eq, add32_eq] at hmapped
  omega

end Sizes

/-- Along runs in which no region ends above `2 ^ 32`, what fits is honoured and
what does not is refused; a region that ends above is never honoured. -/
theorem sizedRun_honours {vm : Vm} {heap : Heap} (hboot : Booted vm heap)
    {labels : List (VmallocEvent × Nat)} {s : Vm × Vmalloc}
    (hrun : Run SizedStepFits (vm, vmallocInit heap) labels s) (n : Nat) :
    (∀ p vm' a', vmalloc s.1 s.2 n = .ok (p, vm', a') → p ≠ 0 →
        ((∃ r, RegionHonours vm' s.2 a' n p r) ↔ FitsWord s.2 n))
      ∧ (FitsWord s.2 n → vmallocEnd < s.2.vmallocCurrent + n →
        vmalloc s.1 s.2 n = .ok (0, s.1, s.2)) := by
  have h : Steady (usedSet vm.pmm) s :=
    hrun.invariant (I := Steady (usedSet vm.pmm)) ⟨hboot.ready.vmallocInv, rfl⟩
      fun h hstep => h.sizedStep hstep
  refine ⟨?_, h.refuses⟩
  intro p vm' a' hcall hp
  constructor
  · rintro ⟨r, hr⟩
    exact hr.fitsWord hp hcall
  · intro hfits
    refine h.honours (h.small ?_) hp hcall
    intro hlarge
    rw [h.refuses hfits hlarge] at hcall
    exact hp (congrArg Prod.fst (Except.ok.inj hcall)).symm

/-- A region that takes the place of a freed one. -/
theorem sizedRun_honours_again :
    ∃ s vm' a' r, Run SizedStepFits (machine 4096 2576, vmallocInit machineHeap)
        [(.vmalloc 5000, 0x1000000), (.vmalloc 1, 0x1002000), (.vfree 0x1002000, 0),
          (.vmalloc 0xFE000000, 0)] s
      ∧ vmalloc s.1 s.2 4097 = .ok (0x1002000, vm', a')
      ∧ RegionHonours vm' s.2 a' 4097 0x1002000 r := by
  obtain ⟨s, hrun, hcall, hfits⟩ := execRun_observe sizedExec_step
    (machine 4096 2576, vmallocInit machineHeap)
    [.vmalloc 5000, .vmalloc 1, .vfree 0x1002000, .vmalloc 0xFE000000]
    [0x1000000, 0x1002000, 0, 0]
    (fun s => (vmalloc s.1 s.2 4097).toOption.map Prod.fst = some 0x1002000
      ∧ s.2.vmallocCurrent = 0x1002000) (by decide +kernel)
  obtain ⟨⟨vm', a'⟩, hcall⟩ := eq_ok_of_fst hcall
  have hboot : Booted (machine 4096 2576) machineHeap :=
    rangeMachine_booted (by decide) (by decide) (by decide)
  obtain ⟨r, hr⟩ := ((sizedRun_honours hboot hrun 4097).1 _ vm' a' hcall (by decide)).mpr (by
    unfold FitsWord
    rw [hfits]
    decide)
  exact ⟨s, vm', a', r, hrun, hcall, hr⟩

/-- `vmalloc(0xFFFFFFFF)` returns a region of no pages, and the next region is
at the same address. -/
theorem sizedRun_honours_fails :
    ∃ vm heap, Booted vm heap ∧ ∃ s, Run SizedStep (vm, vmallocInit heap)
        [(.vmalloc 0xFFFFFFFF, 0x1000000)] s
      ∧ (∀ r, ¬RegionHonours s.1 (vmallocInit heap) s.2 0xFFFFFFFF 0x1000000 r)
      ∧ ∃ s', Run SizedStep s [(.vmalloc 4096, 0x1000000)] s'
        ∧ s'.2.regionList.map VmRegion.virtAddr = [0x1000000, 0x1000000] := by
  have hboot : Booted (machine 4096 2576) machineHeap :=
    rangeMachine_booted (by decide) (by decide) (by decide)
  have hcalls : ((vmalloc (machine 4096 2576) (vmallocInit machineHeap) 0xFFFFFFFF).toOption.bind
      fun x => (vmalloc x.2.1 x.2.2 4096).toOption.map fun y =>
        (x.1, x.2.2.regionList.map VmRegion.mappedSize, y.1,
          y.2.2.regionList.map VmRegion.virtAddr))
      = some (0x1000000, [0], 0x1000000, [0x1000000, 0x1000000]) := by decide +kernel
  obtain ⟨⟨p, s⟩, hfirst, hcalls⟩ := Option.bind_eq_some_iff.mp hcalls
  obtain ⟨⟨q, s'⟩, hsecond, heq⟩ := Option.map_eq_some_iff.mp hcalls
  simp only [Prod.mk.injEq] at heq
  obtain ⟨rfl, hsizes, rfl, hstarts⟩ := heq
  refine ⟨_, _, hboot, s, .one ⟨by decide, eq_ok_of_toOption hfirst⟩, ?_, s',
    .one ⟨by decide, eq_ok_of_toOption hsecond⟩, hstarts⟩
  intro r hr
  rw [hr.list] at hsizes
  have hsize := hr.size
  have hzero : r.mappedSize = 0 := (List.cons.inj hsizes).1
  omega

end Kfs
