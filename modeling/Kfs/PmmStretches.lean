import Kfs.PmmRuns
import Mathlib.Order.Bounds.Basic

/-!
# The search for a run of free frames

`bitmap_find_free_region` keeps the start and the length of the free frames
behind it. The starts before these are blocked: each has a used frame in its
stretch (`Blocked`). A frame that is used blocks every start the loop was
still counting for, since it is less than `count` frames away.
-/

namespace Kfs

variable {p : Pmm} {count : Nat}

/-- The `count` frames from `s` are there and free. -/
structure FreeStretch (p : Pmm) (count s : Nat) : Prop where
  inside : s + count ≤ p.totalFrames
  free : ∀ f, InStretch s count f → bitmapTest p f = false

/-- A frame of the stretch is used. -/
def Blocked (p : Pmm) (count s : Nat) : Prop :=
  ∃ f, InStretch s count f ∧ bitmapTest p f = true

theorem FreeStretch.not_blocked {s : Nat} (h : FreeStretch p count s) : ¬Blocked p count s := by
  rintro ⟨f, hin, hused⟩
  rw [h.free f hin] at hused
  cases hused

/-- With every start before the current free frames blocked, so is every
start before the one the search returns, and every start if it returns none. -/
theorem findFreeRegionFrom_blocked :
    ∀ {n frame consecutive startFrame : Nat},
      (consecutive ≠ 0 → startFrame + consecutive = frame) → consecutive < count →
      (∀ s, s + consecutive < frame → Blocked p count s) →
      (∀ s, findFreeRegionFrom p count n frame consecutive startFrame = some s →
          ∀ s' < s, Blocked p count s')
        ∧ (findFreeRegionFrom p count n frame consecutive startFrame = none →
          ∀ s, s + count ≤ frame + n → Blocked p count s)
  | 0, frame, consecutive, startFrame, _, hlt, hblocked => by
      refine ⟨fun _ hnone => ?_, fun _ s hs => hblocked s (by omega)⟩
      cases hnone
  | n + 1, frame, consecutive, startFrame, hstart, hlt, hblocked => by
      rw [findFreeRegionFrom]
      have hend : frame + (n + 1) = frame + 1 + n := by omega
      rw [hend]
      cases hframe : bitmapTest p frame with
      | false =>
          have hstart' : (if consecutive = 0 then frame else startFrame) + (consecutive + 1)
              = frame + 1 := by
            split
            · omega
            · have := hstart ‹_›
              omega
          have hblocked' : ∀ s, s + (consecutive + 1) < frame + 1 → Blocked p count s :=
            fun s hs => hblocked s (by omega)
          rw [if_pos (show (!false) = true from rfl)]
          dsimp only
          generalize (if consecutive = 0 then frame else startFrame) = start at hstart' ⊢
          split
          · refine ⟨fun s hs s' hs' => hblocked' s' ?_, fun hnone => by cases hnone⟩
            obtain rfl := Option.some.inj hs
            omega
          · exact findFreeRegionFrom_blocked (fun _ => hstart') (by omega) hblocked'
      | true =>
          have hblocked' : ∀ s, s + 0 < frame + 1 → Blocked p count s := fun s hs => by
            by_cases hbefore : s + consecutive < frame
            · exact hblocked s hbefore
            · exact ⟨frame, ⟨by omega, by omega⟩, hframe⟩
          rw [if_neg (show ¬(!true) = true from Bool.false_ne_true)]
          exact findFreeRegionFrom_blocked (fun h => absurd rfl h) (by omega) hblocked'

theorem bitmapFindFreeRegion_blocked (hcount : 1 ≤ count) :
    (∀ s, bitmapFindFreeRegion p count = some s → ∀ s' < s, Blocked p count s')
      ∧ (bitmapFindFreeRegion p count = none →
        ∀ s, s + count ≤ p.totalFrames → Blocked p count s) := by
  obtain ⟨hsome, hnone⟩ := findFreeRegionFrom_blocked (p := p) (n := p.totalFrames)
    (fun h => absurd rfl h) hcount (fun s hs => absurd hs (Nat.not_lt_zero _))
  exact ⟨hsome, fun h s hs => hnone h s (by omega)⟩

theorem bitmapFindFreeRegion_least (hcount : 1 ≤ count) {s : Nat}
    (h : bitmapFindFreeRegion p count = some s) :
    IsLeast (FreeStretch p count) s := by
  obtain ⟨hinside, hfree⟩ := bitmapFindFreeRegion_some (by omega) h
  refine ⟨⟨hinside, fun f hf => hfree f hf.1 hf.2⟩, fun s' hs' => Nat.le_of_not_lt fun hlt => ?_⟩
  exact hs'.not_blocked ((bitmapFindFreeRegion_blocked hcount).1 s h s' hlt)

theorem bitmapFindFreeRegion_none (hcount : 1 ≤ count) :
    bitmapFindFreeRegion p count = none ↔ ¬∃ s, FreeStretch p count s := by
  constructor
  · rintro h ⟨s, hs⟩
    exact hs.not_blocked ((bitmapFindFreeRegion_blocked hcount).2 h s hs.inside)
  · intro h
    cases hfind : bitmapFindFreeRegion p count with
    | none => rfl
    | some s => exact absurd ⟨s, (bitmapFindFreeRegion_least hcount hfind).1⟩ h

theorem bitmapFindFreeRegion_iff (hcount : 1 ≤ count) (s : Nat) :
    bitmapFindFreeRegion p count = some s ↔ IsLeast (FreeStretch p count) s := by
  refine ⟨bitmapFindFreeRegion_least hcount, fun h => ?_⟩
  cases hfind : bitmapFindFreeRegion p count with
  | none => exact absurd ⟨s, h.1⟩ ((bitmapFindFreeRegion_none hcount).mp hfind)
  | some s' => rw [(bitmapFindFreeRegion_least hcount hfind).unique h]

/-- `count` frames that were free are used now, and nothing else changed but
their number. -/
structure Marks (p : Pmm) (count s : Nat) (p' : Pmm) : Prop where
  free : FreeStretch p count s
  marked : ∀ f, bitmapTest p' f = true ↔ InStretch s count f ∨ bitmapTest p f = true
  number : (usedSet p').card = (usedSet p).card + count
  total : p'.totalFrames = p.totalFrames
  used : p'.usedFrames = add32 p.usedFrames count

theorem pmmAllocFrames_marks (hcount : 1 ≤ count) {s : Nat}
    (h : bitmapFindFreeRegion p count = some s) :
    (pmmAllocFrames p count).1 = pfnToAddr s ∧ Marks p count s (pmmAllocFrames p count).2 := by
  have hstretch := (bitmapFindFreeRegion_least hcount h).1
  obtain ⟨htotal, hused, hnumber, hmarked⟩ := forRange_bitmapSet hstretch.inside hstretch.free
  unfold pmmAllocFrames
  rw [if_neg (by omega), h]
  refine ⟨rfl, hstretch, hmarked, hnumber, htotal, ?_⟩
  show add32 _ count = _
  rw [hused]

/-- The search finds the least start of `count` free frames, or there is
none; and `pmm_alloc_frames` marks these frames, or changes nothing. -/
theorem bitmapFindFreeRegion_exact (p : Pmm) (hcount : 1 ≤ count) :
    (∀ s, bitmapFindFreeRegion p count = some s ↔ IsLeast (FreeStretch p count) s)
      ∧ (bitmapFindFreeRegion p count = none ↔ ¬∃ s, FreeStretch p count s)
      ∧ (pmmAllocFrames p count = (0, p) ∧ (¬∃ s, FreeStretch p count s)
        ∨ ∃ s, (pmmAllocFrames p count).1 = pfnToAddr s
          ∧ Marks p count s (pmmAllocFrames p count).2) := by
  refine ⟨bitmapFindFreeRegion_iff hcount, bitmapFindFreeRegion_none hcount, ?_⟩
  cases hfind : bitmapFindFreeRegion p count with
  | none =>
      refine Or.inl ⟨?_, (bitmapFindFreeRegion_none hcount).mp hfind⟩
      unfold pmmAllocFrames
      rw [if_neg (by omega), hfind]
  | some s => exact Or.inr ⟨s, pmmAllocFrames_marks hcount hfind⟩

/-- Frames 1 and 3 of eight are used. -/
theorem bitmapFindFreeRegion_exact_gap :
    ∃ p : Pmm, p.totalFrames = 8 ∧ bitmapFindFreeRegion p 2 = some 4
      ∧ IsLeast (FreeStretch p 2) 4 := by
  let p : Pmm := {
    frameBitmap := fun i => if i = 0 then 0b00001010#8 else 0xFF#8
    totalMemory := 32768
    totalFrames := 8
    usedFrames := 2 }
  have hfind : bitmapFindFreeRegion p 2 = some 4 := by decide
  exact ⟨p, rfl, hfind, ((bitmapFindFreeRegion_exact p (by decide)).1 4).mp hfind⟩

end Kfs
