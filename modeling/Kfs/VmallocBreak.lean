import Kfs.VmallocRuns

/-!
# Reservations by the break

`vbrk` hands out addresses and records nothing: the kernel keeps in mind which
it got, here as a list beside the state (`BreakState`). `vmalloc` starts at
the break and so above every reservation; `vfree` puts the break back to the
end of the highest region, whatever was reserved above it. In runs where
`vfree` never does that, reservations and regions coexist (`breakRun_coexists`);
`breakRun_overlaps` is a run where it does.
-/

namespace Kfs

/-- The allocator and the reserved ranges, from the first address to the one
past the last. -/
abbrev BreakState := (Vm × Vmalloc) × List (Nat × Nat)

/-- What is left of the reservations below a lowered break. -/
def giveBack (current : Nat) (reserved : List (Nat × Nat)) : List (Nat × Nat) :=
  (reserved.map fun e => (e.1, min e.2 current)).filter fun e => e.1 < e.2

/-- The reservations after a call with result `r` that leaves the break at
`current`. -/
def reservedAfter (current r : Nat) (reserved : List (Nat × Nat)) :
    VmallocEvent → List (Nat × Nat)
  | .vbrk increment =>
      if increment > 0 then
        if r = 0xFFFFFFFF then reserved else (r, r + increment.toNat) :: reserved
      else if increment < 0 then giveBack current reserved
      else reserved
  | .vmalloc _ => reserved
  | .vfree _ => reserved

def BreakStep (s : BreakState) (label : VmallocEvent × Nat) (s' : BreakState) : Prop :=
  VmallocStep s.1 label s'.1
    ∧ s'.2 = reservedAfter s'.1.2.vmallocCurrent label.2 s.2 label.1

/-- Every reservation ends below the end of a region that the call leaves. -/
def VmallocEvent.KeepsBreak (s : BreakState) : VmallocEvent → Prop
  | .vfree p => ∀ e ∈ s.2, ∃ r ∈ s.1.2.regionList, r.virtAddr ≠ p ∧ e.2 ≤ r.virtAddr + r.mappedSize
  | .vmalloc _ => True
  | .vbrk _ => True

instance (s : BreakState) : (e : VmallocEvent) → Decidable (e.KeepsBreak s)
  | .vfree _ => inferInstanceAs (Decidable (∀ e ∈ _, ∃ r ∈ _, _ ∧ _))
  | .vmalloc _ => inferInstanceAs (Decidable True)
  | .vbrk _ => inferInstanceAs (Decidable True)

/-- A step that frees a region only while the reservations are safe. -/
def KeepingStep (s : BreakState) (label : VmallocEvent × Nat) (s' : BreakState) : Prop :=
  BreakStep s label s' ∧ label.1.KeepsBreak s

/-- `BreakStep` as a function. -/
def breakExec (s : BreakState) (e : VmallocEvent) : Option (Nat × BreakState) :=
  (vmallocExec s.1 e).map fun x => (x.1, x.2, reservedAfter x.2.2.vmallocCurrent x.1 s.2 e)

theorem breakExec_step ⦃s : BreakState⦄ ⦃e : VmallocEvent⦄ ⦃r : Nat⦄ ⦃s' : BreakState⦄
    (h : breakExec s e = some (r, s')) : BreakStep s (e, r) s' := by
  obtain ⟨⟨r1, s1⟩, hexec, heq⟩ := Option.map_eq_some_iff.mp h
  obtain ⟨rfl, rfl⟩ := Prod.mk.inj heq
  exact ⟨vmallocExec_step hexec, rfl⟩

/-- `KeepingStep` as a function. -/
def keepingExec (s : BreakState) (e : VmallocEvent) : Option (Nat × BreakState) :=
  if e.KeepsBreak s then breakExec s e else none

theorem keepingExec_step ⦃s : BreakState⦄ ⦃e : VmallocEvent⦄ ⦃r : Nat⦄ ⦃s' : BreakState⦄
    (h : keepingExec s e = some (r, s')) : KeepingStep s (e, r) s' := by
  unfold keepingExec at h
  split at h
  · next hkeeps => exact ⟨breakExec_step h, hkeeps⟩
  · cases h

/-! ## The invariant -/

/-- Reservations are below the break and apart from the regions. -/
structure BreakInv (base : Finset Nat) (s : BreakState) : Prop where
  inv : VmallocInv base s.1.1 s.1.2
  below : ∀ e ∈ s.2, e.2 ≤ s.1.2.vmallocCurrent
  apart : ∀ e ∈ s.2, ∀ r ∈ s.1.2.regionList, e.2 ≤ r.virtAddr ∨ r.stop ≤ e.1

section Steps

variable {base : Finset Nat} {vm : Vm} {a : Vmalloc} {s s' : BreakState}

/-- `vbrk` moves the break, between the highest region and the end of the
range, if the sum does not fall below zero. -/
theorem VmallocInv.vbrk_cases (h : VmallocInv base vm a) {k : Int}
    (hlo : 0 ≤ a.vmallocCurrent + k) (hhi : k < 2147483648) :
    (vbrk a k = (0xFFFFFFFF, a) ∧ 0 < k)
      ∨ ∃ current, vbrk a k = (a.vmallocCurrent, { a with vmallocCurrent := current })
        ∧ vmallocHighestEnd a.regionList ≤ current ∧ current ≤ 0x10000000
        ∧ (0 < k → current = a.vmallocCurrent + k.toNat) := by
  have hhighest := h.highest
  have htop := h.top
  have hsum := add32_toUInt32 (a := a.vmallocCurrent) (i := k) (by omega) (by omega) hhi
  rw [if_pos hlo] at hsum
  unfold vbrk
  by_cases hzero : k = 0
  · rw [if_pos hzero]
    exact Or.inr ⟨a.vmallocCurrent, rfl, hhighest, htop, fun hpos => absurd hzero (by omega)⟩
  rw [if_neg hzero]
  dsimp only
  by_cases hpos : k > 0
  · rw [if_pos hpos]
    by_cases hroom : add32 a.vmallocCurrent (toUInt32 k) > vmallocEnd
    · rw [if_pos hroom]
      exact Or.inl ⟨rfl, hpos⟩
    · rw [if_neg hroom]
      exact Or.inr ⟨_, rfl, by omega, Nat.not_lt.mp hroom, fun _ => by omega⟩
  · rw [if_neg hpos]
    split
    · exact Or.inr ⟨_, rfl, Nat.le_refl _, by omega, fun hp => absurd hp hpos⟩
    · next hge => exact Or.inr ⟨_, rfl, Nat.not_lt.mp hge, by omega, fun hp => absurd hp hpos⟩

theorem VmallocInv.moveBreak (h : VmallocInv base vm a) {current : Nat}
    (hlo : vmallocHighestEnd a.regionList ≤ current) (hhi : current ≤ 0x10000000) :
    VmallocInv base vm { a with vmallocCurrent := current } :=
  ⟨h.backed, h.regions, h.mapped, hlo, hhi, h.count, h.pages, h.heap⟩

theorem mem_giveBack {current : Nat} {reserved : List (Nat × Nat)} {e : Nat × Nat}
    (h : e ∈ giveBack current reserved) :
    e.2 ≤ current ∧ ∃ e' ∈ reserved, e.1 = e'.1 ∧ e.2 ≤ e'.2 := by
  unfold giveBack at h
  obtain ⟨e', he', rfl⟩ := List.mem_map.mp (List.mem_filter.mp h).1
  exact ⟨Nat.min_le_right _ _, e', he', rfl, Nat.min_le_left _ _⟩

theorem BreakInv.vmallocStep (h : BreakInv base s) {n p : Nat}
    (hstep : VmallocStep s.1 (.vmalloc n, p) s'.1) (hres : s'.2 = s.2) : BreakInv base s' := by
  obtain ⟨hn, hcall⟩ := hstep
  have hrefused : Refused base s.1.1 s'.1.1 s.1.2 s'.1.2 p → BreakInv base s' := by
    intro hr
    refine ⟨h.inv.refused hr, ?_, ?_⟩
    · rw [hres, hr.same]
      exact h.below
    · rw [hres, hr.same]
      exact h.apart
  by_cases haligned : s.1.2.vmallocCurrent % 4096 = 0
  · rcases (h.inv.vmalloc_cases haligned hn hcall).1 with hr | hg
    · exact hrefused hr
    · -- the new region starts at the break
      obtain ⟨r, hr, hvirt, -, hlist, hbreak, -⟩ := hg.region h.inv haligned
      have hp := hr.pages
      refine ⟨(h.inv.granted haligned hg).1, ?_, ?_⟩
      · intro e he
        have hle := h.below e (hres ▸ he)
        rw [hbreak]
        omega
      · intro e he r' hr'
        rw [hlist] at hr'
        rcases List.mem_cons.mp hr' with rfl | hr'
        · have hle := h.below e (hres ▸ he)
          exact Or.inl (by omega)
        · exact h.apart e (hres ▸ he) r' hr'
  · exact hrefused (h.inv.vmalloc_crossing haligned hn hcall)

theorem BreakInv.vfreeStep (h : BreakInv base s) {p r : Nat}
    (hstep : VmallocStep s.1 (.vfree p, r) s'.1) (hres : s'.2 = s.2)
    (hkeeps : VmallocEvent.KeepsBreak s (.vfree p)) : BreakInv base s' := by
  obtain ⟨⟨region, hregion, rfl⟩, hexec⟩ := hstep
  obtain ⟨vm', a', hcall, hinv, hfreed⟩ := h.inv.vfree hregion
  have hcall' : (Kfs.vfree s.1.1 s.1.2 region.virtAddr).map (fun s => (0, s)) = .ok (r, s'.1) :=
    hexec
  rw [hcall] at hcall'
  obtain ⟨-, heq⟩ := Prod.mk.inj (Except.ok.inj hcall')
  refine ⟨heq ▸ hinv, ?_, ?_⟩
  · intro e he
    obtain ⟨r', hr', hne, hle⟩ := hkeeps e (hres ▸ he)
    have hin : r' ∈ a'.regionList := (hfreed.regions r').mpr ⟨hr', fun heq => hne (heq ▸ rfl)⟩
    have hstop := hinv.regions.highestEnd.2.1 r' hin
    rw [← heq]
    show e.2 ≤ a'.vmallocCurrent
    rw [hfreed.current]
    exact Nat.le_trans hle hstop
  · intro e he r' hr'
    rw [← heq] at hr'
    exact h.apart e (hres ▸ he) r' ((hfreed.regions r').mp hr').1

theorem BreakInv.vbrkStep (h : BreakInv base s) {k : Int} {r : Nat}
    (hstep : VmallocStep s.1 (.vbrk k, r) s'.1)
    (hres : s'.2 = reservedAfter s'.1.2.vmallocCurrent r s.2 (.vbrk k)) : BreakInv base s' := by
  obtain ⟨⟨hlo, hhi⟩, hexec⟩ := hstep
  obtain ⟨hr, heq⟩ := Prod.mk.inj (Except.ok.inj hexec)
  obtain ⟨⟨vm, a⟩, reserved⟩ := s
  obtain ⟨s1, reserved'⟩ := s'
  dsimp only at hr heq hres
  subst heq
  unfold reservedAfter at hres
  dsimp only at hres
  have hlow := h.inv.regions.highestEnd.1
  have hbreak := h.inv.highest
  have hstart : vmallocStart = 0x01000000 := rfl
  dsimp only at hlow hbreak
  rcases h.inv.vbrk_cases (k := k) (by dsimp only; omega) (by omega) with
    ⟨hcall, hpos⟩ | ⟨current, hcall, hge, htop, hcurrent⟩
  · dsimp only at hcall
    rw [hcall] at hr
    rw [if_pos hpos, if_pos hr.symm] at hres
    rw [hcall, hres]
    exact h
  dsimp only at hcall hge hcurrent
  rw [hcall] at hr hres ⊢
  have hinv := h.inv.moveBreak hge htop
  have htop0 := h.inv.top
  dsimp only at hr htop0
  by_cases hpos : k > 0
  · -- above the highest region
    have hadd := hcurrent hpos
    rw [if_pos hpos, if_neg (by omega)] at hres
    have hhighest := h.inv.highest
    rw [hres]
    refine ⟨hinv, List.forall_mem_cons.mpr ⟨?_, ?_⟩,
      List.forall_mem_cons.mpr ⟨?_, h.apart⟩⟩
    · show r + k.toNat ≤ current
      omega
    · intro e he
      have hle := h.below e he
      dsimp only at hle ⊢
      omega
    · intro r' hr'
      have hstop := h.inv.regions.highestEnd.2.1 r' hr'
      dsimp only at hstop hhighest ⊢
      exact Or.inr (by omega)
  rw [if_neg hpos] at hres
  by_cases hneg : k < 0
  · rw [if_pos hneg] at hres
    rw [hres]
    refine ⟨hinv, fun e he => (mem_giveBack he).1, ?_⟩
    intro e he r' hr'
    obtain ⟨-, e', he', hstart, hle⟩ := mem_giveBack he
    have hapart := h.apart e' he' r' hr'
    omega
  · -- `vbrk(0)` only asks
    have hsame : vbrk a k = (a.vmallocCurrent, a) := by
      unfold vbrk
      rw [if_pos (by omega)]
    have ha : a = { a with vmallocCurrent := current } :=
      (Prod.mk.inj (hsame.symm.trans hcall)).2
    rw [if_neg hneg] at hres
    rw [hres, ← ha]
    exact h

theorem BreakInv.step (h : BreakInv base s) {label : VmallocEvent × Nat}
    (hstep : KeepingStep s label s') : BreakInv base s' := by
  obtain ⟨e, r⟩ := label
  obtain ⟨⟨hstep, hres⟩, hkeeps⟩ := hstep
  cases e with
  | vmalloc n => exact h.vmallocStep hstep hres
  | vfree p => exact h.vfreeStep hstep hres hkeeps
  | vbrk k => exact h.vbrkStep hstep hres

end Steps

/-! ## Coexistence -/

/-- Reservations and regions keep out of each other's way. -/
structure Coexist (s : BreakState) : Prop where
  mapped : ∀ r ∈ s.1.2.regionList, ∀ v, r.Has v → pagingIsMapped s.1.1 v = true
  disjoint : s.1.2.regionList.Pairwise fun r r' => ∀ v, ¬(r.Has v ∧ r'.Has v)
  apart : ∀ e ∈ s.2, ∀ r ∈ s.1.2.regionList, ∀ v, r.Has v → ¬(e.1 ≤ v ∧ v < e.2)

theorem BreakInv.coexist {base : Finset Nat} {s : BreakState} (h : BreakInv base s) :
    Coexist s := by
  have hback := h.inv.backed
  refine ⟨?_, h.inv.regions.sorted.imp ?_, ?_⟩
  · intro r hr v hv
    obtain ⟨hlo, hhi, addr, haddr⟩ := h.inv.page hr hv
    rw [hback.tables.isMapped hback.current (by omega), haddr]
    rfl
  · intro r r' hle v hv
    unfold VmRegion.Has at hv
    unfold VmRegion.stop at hle
    omega
  · intro e he r hr v hv hin
    have hapart := h.apart e he r hr
    unfold VmRegion.Has at hv
    unfold VmRegion.stop at hapart
    omega

/-- In runs from boot that free no region from above a reservation, regions
stay mapped and disjoint and no region overlaps a reservation. -/
theorem breakRun_coexists {vm : Vm} {heap : Heap} (hboot : Booted vm heap)
    {labels : List (VmallocEvent × Nat)} {s : BreakState}
    (hrun : Run KeepingStep ((vm, vmallocInit heap), []) labels s) : Coexist s := by
  have hinit : BreakInv (usedSet vm.pmm) ((vm, vmallocInit heap), []) :=
    ⟨hboot.ready.vmallocInv, fun _ he => (List.not_mem_nil he).elim,
      fun _ he => (List.not_mem_nil he).elim⟩
  have hinv : BreakInv (usedSet vm.pmm) s := by
    refine hrun.invariant hinit ?_
    intro s label s' h hstep
    exact h.step hstep
  exact hinv.coexist

/-- A reservation between two regions, part of another given back, and the
lower region freed. -/
theorem breakRun_coexists_between :
    ∃ s, Run KeepingStep ((machine 4096 2576, vmallocInit machineHeap), [])
        [(.vmalloc 1, 0x1000000), (.vbrk 4096, 0x1001000), (.vmalloc 5000, 0x1002000),
          (.vfree 0x1000000, 0), (.vbrk 100, 0x1004000), (.vbrk (-60), 0x1004064)] s
      ∧ s.2 = [(0x1004000, 0x1004028), (0x1001000, 0x1002000)] ∧ Coexist s := by
  obtain ⟨s, hrun, hreserved⟩ := execRun_observe keepingExec_step
    ((machine 4096 2576, vmallocInit machineHeap), [])
    [.vmalloc 1, .vbrk 4096, .vmalloc 5000, .vfree 0x1000000, .vbrk 100, .vbrk (-60)]
    [0x1000000, 0x1001000, 0x1002000, 0, 0x1004000, 0x1004064]
    (fun s => s.2 = [(0x1004000, 0x1004028), (0x1001000, 0x1002000)]) (by decide +kernel)
  have hboot : Booted (machine 4096 2576) machineHeap :=
    rangeMachine_booted (by decide) (by decide) (by decide)
  exact ⟨s, hrun, hreserved, breakRun_coexists hboot hrun⟩

/-- `vfree` of the region above the reservation takes the break back below
it, and the next region overlaps it. -/
theorem breakRun_overlaps :
    ∃ vm heap, Booted vm heap ∧ ∃ s, Run BreakStep ((vm, vmallocInit heap), [])
        [(.vbrk 4096, 0x1000000), (.vmalloc 1, 0x1001000), (.vfree 0x1001000, 0),
          (.vmalloc 1, 0x1000000)] s
      ∧ ¬Coexist s := by
  obtain ⟨s, hrun, hreserved, r, hr, hhas⟩ := execRun_observe breakExec_step
    ((machine 4096 2576, vmallocInit machineHeap), [])
    [.vbrk 4096, .vmalloc 1, .vfree 0x1001000, .vmalloc 1] [0x1000000, 0x1001000, 0, 0x1000000]
    (fun s => (0x1000000, 0x1001000) ∈ s.2
      ∧ ∃ r ∈ s.1.2.regionList, r.virtAddr ≤ 0x1000000 ∧ 0x1000000 < r.virtAddr + r.mappedSize)
    (by decide +kernel)
  refine ⟨machine 4096 2576, machineHeap, rangeMachine_booted (by decide) (by decide) (by decide),
    s, hrun, ?_⟩
  intro hco
  exact hco.apart _ hreserved r hr 0x1000000 hhas (by decide)

end Kfs
