import Kfs.PmmDeclared

/-!
# The frames boot makes available

What `pmm_init` computes, in terms of byte ranges: the size of the memory
from `mem_upper`, and the frames inside an available entry of the memory map
that meet none of the three reserved ranges (`InitExact`).

`pmmInit_free` has the same for the shadows of the entries and the frames the
code rounds to. An entry below 4 GB whose end can be rounded up is its own
shadow (`shadow_iff`), and rounding outwards reserves the frames that meet a
range (`initReserved_iff`).
-/

namespace Kfs

/-- Frame `f` and the bytes `[lo, hi)` have an address in common. -/
def Meets (lo hi f : Nat) : Prop := ∃ a, lo ≤ a ∧ a < hi ∧ f * 4096 ≤ a ∧ a < (f + 1) * 4096

theorem meets_iff {lo hi f : Nat} :
    Meets lo hi f ↔ lo < hi ∧ lo < (f + 1) * 4096 ∧ f * 4096 < hi := by
  constructor
  · rintro ⟨a, h1, h2, h3, h4⟩
    omega
  · intro h
    exact ⟨max lo (f * 4096), by omega, by omega, by omega, by omega⟩

/-- An entry below 4 GB that ends before the last page. -/
structure MmapEntry.Low (e : MmapEntry) : Prop where
  addrHigh : e.addrHigh = 0
  lenHigh : e.lenHigh = 0
  fits : e.addrLow + e.lenLow + 4095 < 4294967296

/-- What the linker script promises about `kernel_start` and `kernel_end`. -/
structure KernelImage (kernelStart kernelEnd : Nat) : Prop where
  le : kernelStart ≤ kernelEnd
  lt : kernelEnd < 4294967296
  aligned : kernelEnd % 4096 = 0

/-- The bytes of memory boot works with: what the boot loader reports above
1 MB, at most 128 MB, and 16 MB when it reports nothing. -/
def bootMemory (mbi : MultibootInfo) : Nat :=
  if mbi.flags &&& 0x1 ≠ 0 then min (128 * 1024 * 1024) ((mbi.memUpper + 1024) * 1024)
  else 16 * 1024 * 1024

/-- Frame `f` lies inside the memory that is there to be used. -/
def BootAvailable (mbi : MultibootInfo) (es : List MmapEntry) (f : Nat) : Prop :=
  if mbi.flags &&& 0x40 ≠ 0 then ∃ e ∈ es, e.Available ∧ e.Declares f
  else 0x100000 ≤ f * 4096 ∧ (f + 1) * 4096 ≤ bootMemory mbi

/-- The frames and the free frames that `pmm_init` is to arrive at. -/
structure InitExact (kernelStart kernelEnd : Nat) (mbi : MultibootInfo) (es : List MmapEntry)
    (p : Pmm) : Prop where
  total : p.totalFrames = bootMemory mbi / 4096
  free : ∀ f, f < p.totalFrames → (bitmapTest p f = false ↔
    BootAvailable mbi es f ∧ ¬Meets 0 0x100000 f ∧ ¬Meets kernelStart kernelEnd f
      ∧ ¬Meets kernelEnd (kernelEnd + 64 * 1024) f)

/-! ## Ranges and frames -/

theorem detectMemory_eq {mbi : MultibootInfo} (hmem : mbi.memUpper + 1024 < 4194304) :
    detectMemory mbi = bootMemory mbi := by
  unfold detectMemory bootMemory maxMemory
  split
  · have hlt : (mbi.memUpper + 1024) * 1024 < 4194304 * 1024 :=
      Nat.mul_lt_mul_of_pos_right hmem (by decide)
    rw [add32_of_lt (Nat.lt_trans hmem (by decide)), mul32_eq, Nat.mod_eq_of_lt hlt]
    dsimp only
    split <;> omega
  · rfl

theorem bootMemory_le (mbi : MultibootInfo) : bootMemory mbi ≤ 134217728 := by
  unfold bootMemory
  split <;> omega

theorem shadow_iff {e : MmapEntry} (hlow : e.Low) (f : Nat) : e.Shadow f ↔ e.Declares f := by
  have hfits := hlow.fits
  unfold MmapEntry.Shadow MmapEntry.Declares MmapEntry.base MmapEntry.length
  rw [hlow.addrHigh, hlow.lenHigh, addrToPfn_pageAlignUp (by omega), addrToPfn_eq,
    add32_of_lt (by omega)]
  omega

/-- A range that ends on a page is rounded to the frames that meet it. -/
theorem inRegion_iff {base length f : Nat} (h : base + length + 4095 < 4294967296)
    (haligned : (base + length) % 4096 = 0) :
    InRegion base length f ↔ Meets base (base + length) f := by
  unfold InRegion
  rw [meets_iff, add32_of_lt (by omega), addrToPfn_pageAlignUp h, addrToPfn_eq]
  omega

theorem initReserved_iff {kernelStart kernelEnd f : Nat}
    (himage : KernelImage kernelStart kernelEnd) (hf : f < 32768) :
    InitReserved kernelStart kernelEnd f ↔ Meets 0 0x100000 f ∨ Meets kernelStart kernelEnd f
      ∨ Meets kernelEnd (kernelEnd + 64 * 1024) f := by
  obtain ⟨hle, hlt, haligned⟩ := himage
  have hsize : sub32 kernelEnd kernelStart = kernelEnd - kernelStart := by
    rw [sub32_eq]
    omega
  have hkernel : InRegion kernelStart (sub32 kernelEnd kernelStart) f
      ↔ Meets kernelStart kernelEnd f := by
    rw [hsize, inRegion_iff (by omega) (by omega), Nat.add_sub_cancel' hle]
  have hafter : InRegion kernelEnd (64 * 1024) f
      ↔ Meets kernelEnd (kernelEnd + 64 * 1024) f := by
    by_cases hwrap : kernelEnd + 64 * 1024 + 4095 < 4294967296
    · exact inRegion_iff hwrap (by omega)
    · -- a kernel that ends up there: the range holds no frame of the machine either way
      unfold InRegion
      rw [meets_iff, addrToPfn_eq]
      omega
  unfold InitReserved
  rw [inRegion_iff (by decide) (by decide), hkernel, hafter]

/-! ## The outcome of boot -/

theorem FreeAfter.exact {kernelStart kernelEnd : Nat} {m : Mem} {mbi : MultibootInfo}
    {es : List MmapEntry} {source : Nat → Prop}
    (hafter : FreeAfter kernelStart kernelEnd m mbi source)
    (himage : KernelImage kernelStart kernelEnd) (hmem : mbi.memUpper + 1024 < 4194304)
    (hsource : ∀ f, source f ↔ BootAvailable mbi es f) :
    ∃ p, pmmInit kernelStart kernelEnd m mbi = .ok p
      ∧ InitExact kernelStart kernelEnd mbi es p := by
  obtain ⟨p, hinit⟩ := hafter.returns
  obtain ⟨htotal, hfree⟩ := hafter.free p hinit
  rw [detectMemory_eq hmem] at htotal
  refine ⟨p, hinit, htotal, ?_⟩
  intro f hf
  have hle := bootMemory_le mbi
  rw [hfree f hf, initReserved_iff himage (by omega), hsource f, not_or, not_or, and_comm]

/-- `pmm_init` visits every entry of the memory map once and frees exactly
the available frames that are not reserved. -/
theorem pmmInit_exact {kernelStart kernelEnd : Nat} {m : Mem} {mbi : MultibootInfo}
    {es : List MmapEntry} (himage : KernelImage kernelStart kernelEnd)
    (hmem : mbi.memUpper + 1024 < 4194304)
    (hmap : mbi.flags &&& 0x40 ≠ 0 → MmapTiled m mbi es ∧ ∀ e ∈ es, e.Low) :
    (mbi.flags &&& 0x40 ≠ 0 → pmmFreeAvailable m mbi (allUsed (detectMemory mbi))
        = .ok (es.foldl freeEntry (allUsed (detectMemory mbi))))
      ∧ ∃ p, pmmInit kernelStart kernelEnd m mbi = .ok p
        ∧ InitExact kernelStart kernelEnd mbi es p := by
  by_cases h : mbi.flags &&& 0x40 ≠ 0
  · obtain ⟨htiled, hlow⟩ := hmap h
    refine ⟨fun _ => pmmFreeAvailable_tiled h htiled, ?_⟩
    refine (pmmInit_free h htiled).exact himage hmem ?_
    intro f
    unfold BootAvailable
    rw [if_pos h]
    constructor
    · rintro ⟨e, he, havailable, hshadow⟩
      exact ⟨e, he, havailable, (shadow_iff (hlow e he) f).mp hshadow⟩
    · rintro ⟨e, he, havailable, hdeclares⟩
      exact ⟨e, he, havailable, (shadow_iff (hlow e he) f).mpr hdeclares⟩
  · refine ⟨fun hflag => absurd hflag h, ?_⟩
    refine (pmmInit_free_noMap (by simpa using h)).exact himage hmem ?_
    intro f
    unfold BootAvailable
    rw [if_neg h, detectMemory_eq hmem]

/-- A kernel of 1 MB, and a megabyte of memory at 4 MB. -/
theorem pmmInit_exact_low :
    ∃ p, pmmInit 0x100000 0x200000 (oneEntryMap 0x400000) oneEntryInfo = .ok p
      ∧ InitExact 0x100000 0x200000 oneEntryInfo
          [readMmapEntry (oneEntryMap 0x400000) 0x9000] p := by
  refine (pmmInit_exact ⟨by decide, by decide, by decide⟩ (by decide) ?_).2
  intro _
  refine ⟨oneEntryMap_tiled 0x400000 (by decide), ?_⟩
  intro e he
  rw [List.mem_singleton] at he
  rw [he]
  exact ⟨by decide, by decide, by decide⟩

end Kfs
