import Kfs.KmallocRuns
import Kfs.PagingRuns
import Kfs.PmmDeclared

/-!
# Boot

The machine as `pmm_init`, `paging_init` and `kmalloc_init` leave it
(`Booted`). The page directories and `kernel_page_tables` are static arrays
of the kernel image, so the former start zeroed and the latter lie between
`kernel_start` and `kernel_end`, each on a page of its own. The image itself
is inside the 16 MB that `paging_init` maps, or the kernel would not come
back from it.

`BootReady` is what the rest of the development uses of it. `machine` is the
shape of a machine with 1 MB of kernel image whose free memory is one range,
as far as its frame allocator goes; `booted_machine` finds it at the end of a
real boot.
-/

namespace Kfs

/-- `kernel_page_tables`, in the kernel image. -/
structure StaticTables (kernelStart kernelEnd : Nat) (tables : Fin 4 → Nat) : Prop where
  aligned : ∀ i, tables i % 4096 = 0
  inj : ∀ i j, tables i = tables j → i = j
  start : ∀ i, kernelStart ≤ tables i
  stop : ∀ i, tables i + 4096 ≤ kernelEnd

/-- The machine before `paging_init`, its static data zeroed. -/
def bareMachine (mem : Mem) (pmm : Pmm) : Vm where
  mem := mem
  pmm := pmm
  directories := fun _ _ => 0
  currentDirectory := none
  kernelDirectory := none

inductive Booted : Vm → Heap → Prop where
  | intro {kernelStart kernelEnd : Nat} {loader m m' : Mem} {mbi : MultibootInfo} {p : Pmm}
      {tables : Fin 4 → Nat} (image : kernelStart ≤ kernelEnd) (inside : kernelEnd ≤ 0x01000000)
      (init : pmmInit kernelStart kernelEnd loader mbi = .ok p)
      (static : StaticTables kernelStart kernelEnd tables) :
      Booted (pagingInit tables (bareMachine m (kmallocInit kernelEnd m' p).2))
        (kmallocInit kernelEnd m' p).1

structure BootReady (vm : Vm) (heap : Heap) : Prop where
  refines : Refines identityMap vm
  tables : ∀ i t, tableOf vm .kernel i = some t → i < 4 ∧ t < 4096
  kernelDirectory : vm.kernelDirectory = some .kernel
  processes : ∀ d, d ≠ .kernel → vm.directories d = fun _ => 0
  heap : HeapInv ⟨heap, []⟩

theorem Booted.ready {vm : Vm} {heap : Heap} (h : Booted vm heap) : BootReady vm heap := by
  cases h with
  | @intro kernelStart kernelEnd loader m m' mbi p tables image inside init static =>
      have hlim : heapLimit kernelEnd < 2147483648 := by
        unfold heapLimit
        omega
      have hinv := @frameInv_boot _ _ _ m' _ _ image (by omega) init
      have hk : KernelTables tables (bareMachine m (kmallocInit kernelEnd m' p).2).pmm := by
        refine ⟨static.aligned, ?_, static.inj, ?_⟩
        · intro i
          have := static.stop i
          omega
        · intro i
          -- the frame is in the image, which is reserved, or not in the machine
          have hstop := static.stop i
          by_cases hlt : tables i / 4096 < (kmallocInit kernelEnd m' p).2.totalFrames
          · refine hinv.reserved _ hlt (Or.inr (Or.inl ⟨tables i, static.start i, by omega, ?_⟩))
            exact addrToPfn_eq _
          · exact hinv.ok.high _ (Nat.not_lt.mp hlt)
      have hlow : LowUsed (kmallocInit kernelEnd m' p).2 := fun hpos =>
        mem_usedSet.mpr ⟨hpos, hinv.reserved 0 hpos (Or.inl ⟨0, Nat.le_refl 0, by decide, rfl⟩)⟩
      refine ⟨refines_pagingInit hk hinv.ok hlow, ?_, ?_, ?_, heapInv_init m' hlim⟩
      · intro i t ht
        rw [pagingInit_tableOf hk] at ht
        split at ht
        · next hi =>
            obtain rfl := Option.some.inj ht
            have hstop := static.stop ⟨i, hi⟩
            exact ⟨hi, by omega⟩
        · cases ht
      · exact (pagingInit_directories _ _).2.1
      · intro d hd
        exact (pagingInit_directories _ _).2.2 d hd

/-! ## Machines -/

theorem forRange_totalMemory {lo hi : Nat} {body : Nat → Pmm → Pmm} {p : Pmm}
    (h : ∀ i p, (body i p).totalMemory = p.totalMemory) :
    (forRange lo hi body p).totalMemory = p.totalMemory := by
  by_cases hle : lo ≤ hi
  · exact forRange_invariant (I := fun _ q => q.totalMemory = p.totalMemory) hle rfl
      fun i q _ _ hq => (h i q).trans hq
  · rw [forRange_of_le (by omega)]

theorem pmmMarkRegionUsed_totalMemory (p : Pmm) (base length : Nat) :
    (pmmMarkRegionUsed p base length).totalMemory = p.totalMemory :=
  forRange_totalMemory fun i p => by
    unfold useFrame
    split <;> rfl

theorem pmmMarkRegionFree_totalMemory (p : Pmm) (base length : Nat) :
    (pmmMarkRegionFree p base length).totalMemory = p.totalMemory :=
  forRange_totalMemory fun i p => by
    unfold unuseFrame
    split <;> rfl

theorem mmapWalk_totalMemory {m : Mem} {mmapEnd : Nat} : ∀ {fuel mmap : Nat} {p p' : Pmm},
    mmapWalk m mmapEnd fuel mmap p = .ok p' → p'.totalMemory = p.totalMemory := by
  intro fuel
  induction fuel with
  | zero =>
      intro mmap p p' h
      cases h
  | succ fuel ih =>
      intro mmap p p' h
      unfold mmapWalk at h
      split at h
      · rw [ih h]
        split
        · exact pmmMarkRegionFree_totalMemory _ _ _
        · rfl
      · obtain rfl := Except.ok.inj h
        rfl

theorem pmmFreeAvailable_totalMemory {m : Mem} {mbi : MultibootInfo} {p p' : Pmm}
    (h : pmmFreeAvailable m mbi p = .ok p') : p'.totalMemory = p.totalMemory := by
  unfold pmmFreeAvailable at h
  split at h
  · exact mmapWalk_totalMemory h
  · obtain rfl := Except.ok.inj h
    exact pmmMarkRegionFree_totalMemory _ _ _

theorem pmmReserve_totalMemory (kernelStart kernelEnd : Nat) (p : Pmm) :
    (pmmReserve kernelStart kernelEnd p).totalMemory = p.totalMemory := by
  dsimp only [pmmReserve]
  have h1 := pmmMarkRegionUsed_totalMemory p 0 0x100000
  generalize pmmMarkRegionUsed p 0 0x100000 = p1 at *
  have h2 := pmmMarkRegionUsed_totalMemory p1 kernelStart (sub32 kernelEnd kernelStart)
  generalize pmmMarkRegionUsed p1 kernelStart (sub32 kernelEnd kernelStart) = p2 at *
  exact (pmmMarkRegionUsed_totalMemory p2 kernelEnd (64 * 1024)).trans (h2.trans h1)

theorem pmmInit_totalMemory {kernelStart kernelEnd : Nat} {m : Mem} {mbi : MultibootInfo} {p : Pmm}
    (h : pmmInit kernelStart kernelEnd m mbi = .ok p) : p.totalMemory = detectMemory mbi := by
  unfold pmmInit at h
  obtain ⟨q, hq, hp⟩ := bind_eq_ok.mp h
  obtain rfl := Except.ok.inj hp
  rw [pmmReserve_totalMemory, pmmFreeAvailable_totalMemory hq]
  rfl

/-- `totalFrames` frames, free from `firstFree` on. -/
def rangePmm (totalFrames firstFree : Nat) : Pmm where
  frameBitmap := fun i => if firstFree / 8 ≤ i ∧ i < totalFrames / 8 then 0#8 else 0xFF#8
  totalMemory := totalFrames * 4096
  totalFrames := totalFrames
  usedFrames := firstFree

/-- The kernel image is the second megabyte. -/
def machine (totalFrames firstFree : Nat) : Vm :=
  pagingInit (fun i => 0x110000 + 4096 * i.val)
    (bareMachine (fun _ => 0#8) (rangePmm totalFrames firstFree))

/-- The kernel heap of `machine`. -/
def machineHeap : Heap := heapInit 0x200000 fun _ => 0#8

theorem rangePmm_test {totalFrames firstFree : Nat} (htotal : totalFrames % 8 = 0)
    (hfirst : firstFree % 8 = 0) (f : Nat) :
    bitmapTest (rangePmm totalFrames firstFree) f
      = decide (f < firstFree ∨ totalFrames ≤ f) := by
  have hones : ∀ j < 8, (0xFF#8).getLsbD j = true := by decide
  show testBit (fun i => if firstFree / 8 ≤ i ∧ i < totalFrames / 8 then 0#8 else 0xFF#8) f = _
  rw [testBit_eq_getLsbD]
  by_cases h : firstFree / 8 ≤ f / 8 ∧ f / 8 < totalFrames / 8
  · simp only [if_pos h, BitVec.getLsbD_zero]
    exact (decide_eq_false (by omega)).symm
  · simp only [if_neg h, hones (f % 8) (by omega)]
    exact (decide_eq_true (by omega)).symm

theorem kmallocInit_snd (kernelEnd : Nat) (m : Mem) (p : Pmm) :
    (kmallocInit kernelEnd m p).2 = pmmMarkRegionUsed p (heapInit kernelEnd m).heapStart
      (sub32 (heapInit kernelEnd m).heapMax (heapInit kernelEnd m).heapStart) := rfl

theorem kmallocInit_fst (kernelEnd : Nat) (m : Mem) (p : Pmm) :
    (kmallocInit kernelEnd m p).1 = heapInit kernelEnd m := rfl

/-- A boot after which the frames from `firstFree` on are free. -/
theorem booted_machine {totalFrames firstFree : Nat} {loader : Mem} {mbi : MultibootInfo}
    {p : Pmm} (htotal : totalFrames % 8 = 0) (hfirst : firstFree % 8 = 0)
    (hle : 2576 ≤ firstFree ∧ firstFree ≤ totalFrames)
    (hinit : pmmInit 0x100000 0x200000 loader mbi = .ok p)
    (hmemory : detectMemory mbi = totalFrames * 4096) (hframes : p.totalFrames = totalFrames)
    (hfree : ∀ f, 2576 ≤ f → f < totalFrames → (bitmapTest p f = false ↔ firstFree ≤ f)) :
    Booted (machine totalFrames firstFree) machineHeap := by
  have hstart := @heapInit_heapStart 0x200000 (fun _ => 0#8) (by decide)
  have hmax := @heapInit_heapMax 0x200000 (fun _ => 0#8) (by decide)
  have hlimit : heapLimit 0x200000 = 0xA10000 := by decide
  rw [hlimit] at hmax
  have hlength : sub32 (heapInit 0x200000 fun _ => 0#8).heapMax
      (heapInit 0x200000 fun _ => 0#8).heapStart = 0x800000 := by
    rw [hmax, hstart, sub32_of_le (by decide) (by decide)]
  have hpmm : (kmallocInit 0x200000 (fun _ => 0#8) p).2
      = pmmMarkRegionUsed p 0x210000 0x800000 := by
    rw [kmallocInit_snd, hlength, hstart]
  have hinv := @frameInv_boot _ _ _ (fun _ => 0#8) _ _ (by decide) (by decide) hinit
  obtain ⟨htot, -, htest⟩ := pmmMarkRegionUsed_spec p 0x210000 0x800000
  have hstop : addrToPfn (pageAlignUp (add32 0x210000 0x800000)) = 2576 := by
    rw [add32_of_lt (by decide), addrToPfn_pageAlignUp (by decide)]
  have hused : ∀ f, f < 2576 → f < totalFrames →
      bitmapTest (pmmMarkRegionUsed p 0x210000 0x800000) f = true := by
    intro f hf hlt
    rw [← hpmm]
    refine hinv.reserved f (by rw [hpmm, htot]; omega) ?_
    -- low memory, image, the 64 KB behind it and the heap leave no gap
    by_cases h1 : f < 256
    · exact Or.inl ⟨f * 4096, by omega, by omega, by rw [addrToPfn_eq]; omega⟩
    by_cases h2 : f < 512
    · exact Or.inr (Or.inl ⟨f * 4096, by omega, by omega, by rw [addrToPfn_eq]; omega⟩)
    by_cases h3 : f < 528
    · exact Or.inr (Or.inr (Or.inl ⟨f * 4096, by omega, by omega, by rw [addrToPfn_eq]; omega⟩))
    · refine Or.inr (Or.inr (Or.inr ⟨f * 4096, ?_, ?_, by rw [addrToPfn_eq]; omega⟩))
      · rw [kmallocInit_fst, hstart]
        omega
      · rw [kmallocInit_fst, hmax]
        omega
  have hok : PmmOk (pmmMarkRegionUsed p 0x210000 0x800000) := hpmm ▸ hinv.ok
  have hbit : ∀ f, bitmapTest (pmmMarkRegionUsed p 0x210000 0x800000) f
      = bitmapTest (rangePmm totalFrames firstFree) f := by
    intro f
    rw [rangePmm_test htotal hfirst]
    by_cases hlt : f < totalFrames
    · by_cases hlow : f < 2576
      · rw [hused f hlow hlt, decide_eq_true (by omega)]
      · have hkeep : bitmapTest (pmmMarkRegionUsed p 0x210000 0x800000) f = true
            ↔ bitmapTest p f = true := by
          rw [htest f, hstop]
          exact ⟨fun h => h.resolve_left (by omega), Or.inr⟩
        rw [Bool.eq_iff_iff, hkeep, ← Bool.not_eq_false, hfree f (by omega) hlt]
        simp only [decide_eq_true_eq]
        omega
    · rw [hok.high f (by rw [htot, hframes]; omega), decide_eq_true (by omega)]
  have hset : usedSet (pmmMarkRegionUsed p 0x210000 0x800000) = Finset.range firstFree := by
    ext f
    rw [mem_usedSet, htot, hframes, hbit, rangePmm_test htotal hfirst, Finset.mem_range,
      decide_eq_true_eq]
    omega
  have heq : pmmMarkRegionUsed p 0x210000 0x800000 = rangePmm totalFrames firstFree := by
    have hbitmap : (pmmMarkRegionUsed p 0x210000 0x800000).frameBitmap
        = (rangePmm totalFrames firstFree).frameBitmap := bitmap_ext hbit
    have hmem := (pmmMarkRegionUsed_totalMemory p 0x210000 0x800000).trans
      ((pmmInit_totalMemory hinit).trans hmemory)
    have hcount := hok.exact
    rw [hset, Finset.card_range] at hcount
    have hframes' := htot.trans hframes
    generalize pmmMarkRegionUsed p 0x210000 0x800000 = q at *
    obtain ⟨bitmap, memory, frames, used⟩ := q
    unfold rangePmm at *
    dsimp only at hbitmap hmem hcount hframes'
    rw [hbitmap, hmem, hcount, hframes']
  have hstatic : StaticTables 0x100000 0x200000 fun i => 0x110000 + 4096 * i.val :=
    ⟨fun i => by omega, fun i j h => Fin.ext (by omega), fun i => by omega, fun i => by omega⟩
  unfold machine machineHeap
  rw [← heq, ← hpmm, ← kmallocInit_fst 0x200000 (fun _ => 0#8) p]
  exact Booted.intro (by decide) (by decide) hinit hstatic

theorem not_initReserved {f : Nat} (hf : 528 ≤ f) : ¬InitReserved 0x100000 0x200000 f := by
  have h1 : addrToPfn (pageAlignUp (add32 0 0x100000)) = 256 := by decide +kernel
  have h2 : addrToPfn (pageAlignUp (add32 0x100000 (sub32 0x200000 0x100000))) = 512 := by
    decide +kernel
  have h3 : addrToPfn (pageAlignUp (add32 0x200000 (64 * 1024))) = 528 := by decide +kernel
  unfold InitReserved InRegion
  rw [h1, h2, h3]
  omega

/-- A memory map at `0x9000` with the memory of the kernel and its heap and
the memory from `firstFree` on. -/
def rangeMap (totalFrames firstFree : Nat) : Mem :=
  let m := store32 (fun _ => 0#8) 0x9000 20
  let m := store32 m 0x9004 0x100000
  let m := store32 m 0x900C 0x910000
  let m := store32 m 0x9014 1
  let m := store32 m 0x9018 20
  let m := store32 m 0x901C (firstFree * 4096)
  let m := store32 m 0x9024 ((totalFrames - firstFree) * 4096)
  store32 m 0x902C 1

def rangeInfo (totalFrames : Nat) : MultibootInfo where
  flags := 0x41
  memUpper := totalFrames * 4 - 1024
  mmapLength := 48
  mmapAddr := 0x9000

theorem load32_zero (a : Nat) : load32 (fun _ => 0#8) a = 0 := rfl

theorem rangeMap_entries {totalFrames firstFree : Nat} (htotal : totalFrames ≤ 32768)
    (hfirst : firstFree ≤ totalFrames) :
    readMmapEntry (rangeMap totalFrames firstFree) 0x9000 = ⟨20, 0x100000, 0, 0x910000, 0, 1⟩
      ∧ readMmapEntry (rangeMap totalFrames firstFree) 0x9018
        = ⟨20, firstFree * 4096, 0, (totalFrames - firstFree) * 4096, 0, 1⟩ := by
  unfold rangeMap readMmapEntry
  simp (disch := omega) only [load32_store32, load32_store32_apart, load32_zero, and_self]

/-- After the kernel and its heap the first free frame is `firstFree`. -/
theorem rangeMachine_booted {totalFrames firstFree : Nat} (htotal : totalFrames % 8 = 0)
    (hfirst : firstFree % 8 = 0)
    (hle : 2576 ≤ firstFree ∧ firstFree ≤ totalFrames ∧ totalFrames ≤ 32768) :
    Booted (machine totalFrames firstFree) machineHeap := by
  obtain ⟨hread, hread'⟩ := rangeMap_entries hle.2.2 hle.2.1
  generalize hmap : rangeMap totalFrames firstFree = m at hread hread'
  have hend : MmapTiles m 0x9030 0x9030 [] := .nil
  have hsecond : MmapTiles m 0x9030 0x9018 [readMmapEntry m 0x9018] :=
    .cons (by rw [hread']; exact Nat.le_refl _) (by rw [hread']; exact hend)
  have htiled : MmapTiled m (rangeInfo totalFrames)
      [readMmapEntry m 0x9000, readMmapEntry m 0x9018] := by
    refine ⟨by show 0x9000 + 48 < _; decide, ?_⟩
    show MmapTiles m 0x9030 0x9000 _
    exact .cons (by rw [hread]; decide) (by rw [hread]; exact hsecond)
  rw [hread, hread'] at htiled
  have hafter := @pmmInit_free 0x100000 0x200000 _ (rangeInfo totalFrames) _
    (by show 0x41 &&& 0x40 ≠ 0; decide) htiled
  have hmemory : detectMemory (rangeInfo totalFrames) = totalFrames * 4096 := by
    unfold detectMemory rangeInfo maxMemory
    dsimp only
    rw [if_pos (by decide), mul32_eq, add32_eq, Nat.mod_eq_of_lt (by omega),
      Nat.mod_eq_of_lt (by omega), if_neg (by omega)]
    omega
  obtain ⟨p, hinit⟩ := hafter.returns
  obtain ⟨hframes, hfree⟩ := hafter.free p hinit
  rw [hmemory, Nat.mul_div_cancel _ (by decide)] at hframes
  refine booted_machine htotal hfirst ⟨hle.1, hle.2.1⟩ hinit hmemory hframes ?_
  intro f hf hlt
  rw [hfree f (by omega)]
  unfold MmapEntry.Available MmapEntry.Shadow
  simp only [List.exists_mem_cons_iff, List.not_mem_nil, false_and, exists_false, or_false,
    true_and]
  rw [addrToPfn_pageAlignUp (by omega), addrToPfn_pageAlignUp (by omega), add32_of_lt (by omega),
    add32_of_lt (by omega), addrToPfn_eq, addrToPfn_eq]
  constructor
  · rintro ⟨-, h | h⟩
    · omega
    · omega
  · intro h
    exact ⟨not_initReserved (by omega), Or.inr (by omega)⟩

end Kfs
