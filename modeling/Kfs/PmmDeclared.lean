import Kfs.PmmRuns

/-!
# Which frames boot declares free

`pmm_init` walks the memory map of the boot loader. When the entries tile
the buffer the walk is a fold over them (`mmapWalk_tiles`), and a frame is
free afterwards exactly when the *shadow* of an available entry covers it
and it is not reserved (`pmmInit_free`).

The shadow is what is left of an entry when base and length are cut to 32
bits. For an entry that starts no higher than the last page below 4 GB it
lies inside the entry (`shadow_declared`): the end may wrap, but then the
shadow is empty. An entry that starts higher throws its shadow on frames it
does not contain. `Harmless` asks that such a shadow falls on frames that
are declared by some other entry, or reserved.
-/

namespace Kfs

/-! ## The memory map -/

/-- The 64-bit base of an entry. -/
def MmapEntry.base (e : MmapEntry) : Nat := e.addrHigh * 4294967296 + e.addrLow

/-- The 64-bit length of an entry. -/
def MmapEntry.length (e : MmapEntry) : Nat := e.lenHigh * 4294967296 + e.lenLow

/-- `MULTIBOOT_MEMORY_AVAILABLE`. -/
def MmapEntry.Available (e : MmapEntry) : Prop := e.type = 1

instance (e : MmapEntry) : Decidable e.Available := inferInstanceAs (Decidable (_ = _))

/-- Frame `f` lies wholly inside the entry. -/
def MmapEntry.Declares (e : MmapEntry) (f : Nat) : Prop :=
  e.base ≤ f * 4096 ∧ (f + 1) * 4096 ≤ e.base + e.length

/-- Frame `f` is one of those `pmm_init` frees for the entry. -/
def MmapEntry.Shadow (e : MmapEntry) (f : Nat) : Prop :=
  addrToPfn (pageAlignUp e.addrLow) ≤ f ∧ f < addrToPfn (add32 e.addrLow e.lenLow)

/-- The entries from `a` on, each behind the one before, up to `stop`. -/
inductive MmapTiles (m : Mem) (stop : Nat) : Nat → List MmapEntry → Prop where
  | nil : MmapTiles m stop stop []
  | cons {a : Nat} {es : List MmapEntry} (fits : a + (readMmapEntry m a).size + 4 ≤ stop)
      (rest : MmapTiles m stop (a + (readMmapEntry m a).size + 4) es) :
      MmapTiles m stop a (readMmapEntry m a :: es)

/-- The entries of a memory map tile its buffer. -/
structure MmapTiled (m : Mem) (mbi : MultibootInfo) (es : List MmapEntry) : Prop where
  bound : mbi.mmapAddr + mbi.mmapLength < 4294967296
  tiles : MmapTiles m (mbi.mmapAddr + mbi.mmapLength) mbi.mmapAddr es

/-- What the walk does for one entry. -/
def freeEntry (p : Pmm) (e : MmapEntry) : Pmm :=
  if e.type = 1 then pmmMarkRegionFree p e.addrLow e.lenLow else p

theorem MmapTiles.le {m : Mem} {stop a : Nat} {es : List MmapEntry} (h : MmapTiles m stop a es) :
    a + 4 * es.length ≤ stop := by
  induction h with
  | nil => simp
  | cons fits _ ih =>
      rw [List.length_cons]
      omega

theorem mmapWalk_tiles {m : Mem} {stop : Nat} (hstop : stop < 4294967296) {a : Nat}
    {es : List MmapEntry} (h : MmapTiles m stop a es) :
    ∀ {fuel : Nat} (p : Pmm), es.length < fuel →
      mmapWalk m stop fuel a p = .ok (es.foldl freeEntry p) := by
  induction h with
  | nil =>
      intro fuel p hfuel
      obtain ⟨fuel, rfl⟩ : ∃ n, fuel = n + 1 := ⟨fuel - 1, by simp at hfuel; omega⟩
      rw [mmapWalk, if_neg (Nat.lt_irrefl stop)]
      rfl
  | @cons a es fits rest ih =>
      intro fuel p hfuel
      rw [List.length_cons] at hfuel
      obtain ⟨fuel, rfl⟩ : ∃ n, fuel = n + 1 := ⟨fuel - 1, by omega⟩
      have hnext : mmapEntryNext m a = a + (readMmapEntry m a).size + 4 := by
        unfold mmapEntryNext
        rw [add32_of_lt (a := (readMmapEntry m a).size) (by omega), add32_of_lt (by omega)]
        omega
      rw [mmapWalk, if_pos (by omega)]
      dsimp only
      rw [hnext]
      exact ih (freeEntry p (readMmapEntry m a)) (by omega)

/-! ## Free frames -/

theorem freeEntry_test (p : Pmm) (e : MmapEntry) :
    (freeEntry p e).totalFrames = p.totalFrames
      ∧ ∀ g, g < p.totalFrames → (bitmapTest (freeEntry p e) g = false ↔
          (e.Available ∧ e.Shadow g) ∨ bitmapTest p g = false) := by
  unfold freeEntry MmapEntry.Available MmapEntry.Shadow
  split
  · next htype =>
      obtain ⟨htotal, -, htest⟩ := pmmMarkRegionFree_spec p e.addrLow e.lenLow
      refine ⟨htotal, ?_⟩
      intro g hg
      have := htest g
      rw [← Bool.not_eq_true, this, ← Bool.not_eq_true]
      constructor
      · intro h
        by_cases hin : addrToPfn (pageAlignUp e.addrLow) ≤ g
            ∧ g < addrToPfn (add32 e.addrLow e.lenLow)
        · exact Or.inl ⟨htype, hin⟩
        · exact Or.inr fun hp => h ⟨fun hr => hin ⟨hr.1, hr.2.1⟩, hp⟩
      · rintro (⟨-, h1, h2⟩ | hp) ⟨hout, hused⟩
        · exact hout ⟨h1, h2, hg⟩
        · exact hp hused
  · next htype =>
      refine ⟨rfl, fun g _ => ⟨Or.inr, ?_⟩⟩
      rintro (⟨h, -⟩ | h)
      · exact absurd h htype
      · exact h

theorem freeEntries_test (es : List MmapEntry) : ∀ p : Pmm,
    (es.foldl freeEntry p).totalFrames = p.totalFrames
      ∧ ∀ g, g < p.totalFrames → (bitmapTest (es.foldl freeEntry p) g = false ↔
          (∃ e ∈ es, e.Available ∧ e.Shadow g) ∨ bitmapTest p g = false) := by
  induction es with
  | nil =>
      intro p
      exact ⟨rfl, fun g _ => by simp⟩
  | cons e es ih =>
      intro p
      obtain ⟨htotal, htest⟩ := freeEntry_test p e
      obtain ⟨htotal', htest'⟩ := ih (freeEntry p e)
      refine ⟨htotal'.trans htotal, ?_⟩
      intro g hg
      rw [List.foldl_cons, htest' g (htotal ▸ hg), htest g hg, List.exists_mem_cons_iff]
      constructor
      · rintro (h | h | h)
        · exact Or.inl (Or.inr h)
        · exact Or.inl (Or.inl h)
        · exact Or.inr h
      · rintro ((h | h) | h)
        · exact Or.inr (Or.inl h)
        · exact Or.inl h
        · exact Or.inr (Or.inr h)

/-- Frame `f` is one of those `pmm_mark_region_used` marks. -/
def InRegion (base length f : Nat) : Prop :=
  addrToPfn base ≤ f ∧ f < addrToPfn (pageAlignUp (add32 base length))

/-- The frames `pmm_init` reserves at its end. -/
def InitReserved (kernelStart kernelEnd f : Nat) : Prop :=
  InRegion 0 0x100000 f ∨ InRegion kernelStart (sub32 kernelEnd kernelStart) f
    ∨ InRegion kernelEnd (64 * 1024) f

theorem pmmReserve_test (kernelStart kernelEnd : Nat) (p : Pmm) :
    (pmmReserve kernelStart kernelEnd p).totalFrames = p.totalFrames
      ∧ ∀ g, g < p.totalFrames → (bitmapTest (pmmReserve kernelStart kernelEnd p) g = false ↔
          ¬InitReserved kernelStart kernelEnd g ∧ bitmapTest p g = false) := by
  have hmark : ∀ (q : Pmm) (base length : Nat),
      (pmmMarkRegionUsed q base length).totalFrames = q.totalFrames
      ∧ ∀ g, g < q.totalFrames → (bitmapTest (pmmMarkRegionUsed q base length) g = false ↔
        ¬InRegion base length g ∧ bitmapTest q g = false) := by
    intro q base length
    obtain ⟨htotal, -, htest⟩ := pmmMarkRegionUsed_spec q base length
    refine ⟨htotal, ?_⟩
    intro g hg
    rw [← Bool.not_eq_true, htest g, not_or, Bool.not_eq_true]
    refine and_congr_left fun _ => not_congr ?_
    exact ⟨fun h => ⟨h.1, h.2.1⟩, fun h => ⟨h.1, h.2, hg⟩⟩
  dsimp only [pmmReserve]
  obtain ⟨ht1, h1⟩ := hmark p 0 0x100000
  generalize pmmMarkRegionUsed p 0 0x100000 = p1 at *
  obtain ⟨ht2, h2⟩ := hmark p1 kernelStart (sub32 kernelEnd kernelStart)
  generalize pmmMarkRegionUsed p1 kernelStart (sub32 kernelEnd kernelStart) = p2 at *
  obtain ⟨ht3, h3⟩ := hmark p2 kernelEnd (64 * 1024)
  refine ⟨ht3.trans (ht2.trans ht1), ?_⟩
  intro g hg
  rw [h3 g (by omega), h2 g (by omega), h1 g hg]
  unfold InitReserved
  rw [not_or, not_or]
  constructor
  · rintro ⟨hc, hb, ha, h⟩
    exact ⟨⟨ha, hb, hc⟩, h⟩
  · rintro ⟨⟨ha, hb, hc⟩, h⟩
    exact ⟨hc, hb, ha, h⟩

/-- The frames that are free after `pmm_init`. -/
structure FreeAfter (kernelStart kernelEnd : Nat) (m : Mem) (mbi : MultibootInfo)
    (source : Nat → Prop) : Prop where
  returns : ∃ p, pmmInit kernelStart kernelEnd m mbi = .ok p
  free : ∀ p, pmmInit kernelStart kernelEnd m mbi = .ok p →
    p.totalFrames = detectMemory mbi / 4096
      ∧ ∀ f, f < p.totalFrames → (bitmapTest p f = false ↔
        ¬InitReserved kernelStart kernelEnd f ∧ source f)

theorem freeAfter_of {kernelStart kernelEnd : Nat} {m : Mem} {mbi : MultibootInfo} {q : Pmm}
    {source : Nat → Prop}
    (h : pmmFreeAvailable m mbi (allUsed (detectMemory mbi)) = .ok q)
    (htotal : q.totalFrames = detectMemory mbi / 4096)
    (hfree : ∀ f, f < q.totalFrames → (bitmapTest q f = false ↔ source f)) :
    FreeAfter kernelStart kernelEnd m mbi source := by
  have hinit : pmmInit kernelStart kernelEnd m mbi = .ok (pmmReserve kernelStart kernelEnd q) := by
    unfold pmmInit
    rw [h]
    rfl
  obtain ⟨ht, htest⟩ := pmmReserve_test kernelStart kernelEnd q
  refine ⟨⟨_, hinit⟩, ?_⟩
  intro p hp
  rw [hinit] at hp
  obtain rfl := Except.ok.inj hp
  refine ⟨ht.trans htotal, ?_⟩
  intro f hf
  rw [ht] at hf
  rw [htest f hf, hfree f hf]

/-- With a memory map, `pmm_init` visits the entries one after the other. -/
theorem pmmFreeAvailable_tiled {m : Mem} {mbi : MultibootInfo} {es : List MmapEntry} {p : Pmm}
    (hmap : mbi.flags &&& 0x40 ≠ 0) (htiled : MmapTiled m mbi es) :
    pmmFreeAvailable m mbi p = .ok (es.foldl freeEntry p) := by
  have hlen := htiled.tiles.le
  have hbound := htiled.bound
  unfold pmmFreeAvailable
  rw [if_pos hmap, add32_of_lt hbound]
  exact mmapWalk_tiles hbound htiled.tiles _ (by omega)

/-- With a memory map, what the shadows of the available entries cover. -/
theorem pmmInit_free {kernelStart kernelEnd : Nat} {m : Mem} {mbi : MultibootInfo}
    {es : List MmapEntry} (hmap : mbi.flags &&& 0x40 ≠ 0) (htiled : MmapTiled m mbi es) :
    FreeAfter kernelStart kernelEnd m mbi fun f => ∃ e ∈ es, e.Available ∧ e.Shadow f := by
  obtain ⟨htotal, htest⟩ := freeEntries_test es (allUsed (detectMemory mbi))
  refine freeAfter_of (q := es.foldl freeEntry (allUsed (detectMemory mbi)))
    (pmmFreeAvailable_tiled hmap htiled) htotal ?_
  intro f hf
  rw [htest f (htotal ▸ hf), allUsed_test]
  simp

/-- Without one, the memory from 1 MB on. -/
theorem pmmInit_free_noMap {kernelStart kernelEnd : Nat} {m : Mem} {mbi : MultibootInfo}
    (hmap : mbi.flags &&& 0x40 = 0) :
    FreeAfter kernelStart kernelEnd m mbi fun f =>
      0x100000 ≤ f * 4096 ∧ (f + 1) * 4096 ≤ detectMemory mbi := by
  have hle := detectMemory_le mbi
  obtain ⟨htotal, -, htest⟩ := pmmMarkRegionFree_spec (allUsed (detectMemory mbi)) 0x100000
    (sub32 (detectMemory mbi) 0x100000)
  refine freeAfter_of (q := pmmMarkRegionFree (allUsed (detectMemory mbi)) 0x100000
    (sub32 (detectMemory mbi) 0x100000)) ?_ htotal ?_
  · unfold pmmFreeAvailable
    rw [if_neg (by simpa using hmap)]
    rfl
  · intro f hf
    have hlt : f < detectMemory mbi / 4096 := by
      rw [htotal] at hf
      exact hf
    have hend : add32 0x100000 (sub32 (detectMemory mbi) 0x100000) = detectMemory mbi := by
      rw [sub32_eq, add32_eq]
      omega
    rw [← Bool.not_eq_true, htest f, hend, addrToPfn_pageAlignUp (by omega), addrToPfn_eq,
      allUsed_test, and_iff_left rfl, Decidable.not_not]
    constructor
    · rintro ⟨h1, h2, -⟩
      omega
    · rintro ⟨h1, h2⟩
      exact ⟨by omega, by omega, hlt⟩

/-! ## Shadows -/

theorem MmapTiles.entry_lt {m : Mem} {stop a : Nat} {es : List MmapEntry}
    (h : MmapTiles m stop a es) :
    ∀ e ∈ es, e.addrLow < 4294967296 ∧ e.lenLow < 4294967296 := by
  induction h with
  | nil => simp
  | cons _ _ ih =>
      rw [List.forall_mem_cons]
      exact ⟨⟨load32_lt _ _, load32_lt _ _⟩, ih⟩

/-- The shadow of an entry that starts on or below the last page under 4 GB
lies inside the entry. -/
theorem shadow_declared {e : MmapEntry} {f : Nat} (hlen : e.lenLow < 4294967296)
    (hbase : e.base ≤ 0xFFFFF000) (hshadow : e.Shadow f) : e.Declares f := by
  unfold MmapEntry.base at hbase
  have hhigh : e.addrHigh = 0 := by omega
  obtain ⟨hlo, hhi⟩ := hshadow
  rw [addrToPfn_pageAlignUp (by omega)] at hlo
  rw [addrToPfn_eq, add32_eq] at hhi
  unfold MmapEntry.Declares MmapEntry.base MmapEntry.length
  rw [hhigh]
  omega

/-- Every frame that is free after `pmm_init` was declared available. -/
def OnlyDeclared (mbi : MultibootInfo) (es : List MmapEntry) (p : Pmm) : Prop :=
  ∀ f, f < p.totalFrames → bitmapTest p f = false →
    if mbi.flags &&& 0x40 ≠ 0 then ∃ e ∈ es, e.Available ∧ e.Declares f
    else 0x100000 ≤ f * 4096 ∧ (f + 1) * 4096 ≤ detectMemory mbi

/-- The shadows of the available entries that start above the last page under
4 GB fall on frames that are declared or reserved, or beyond the memory. -/
def Harmless (kernelStart kernelEnd : Nat) (mbi : MultibootInfo) (es : List MmapEntry) : Prop :=
  mbi.flags &&& 0x40 ≠ 0 → ∀ e ∈ es, e.Available → 0xFFFFF000 < e.base →
    ∀ f, f < detectMemory mbi / 4096 → e.Shadow f →
      InitReserved kernelStart kernelEnd f ∨ ∃ e' ∈ es, e'.Available ∧ e'.Declares f

/-- `pmm_init` frees only declared memory exactly when no high entry throws a
harmful shadow. -/
theorem pmmInit_onlyDeclared {kernelStart kernelEnd : Nat} {m : Mem} {mbi : MultibootInfo}
    {es : List MmapEntry} (htiled : mbi.flags &&& 0x40 ≠ 0 → MmapTiled m mbi es) :
    (∃ p, pmmInit kernelStart kernelEnd m mbi = .ok p ∧ OnlyDeclared mbi es p)
      ↔ Harmless kernelStart kernelEnd mbi es := by
  unfold Harmless OnlyDeclared
  by_cases hmap : mbi.flags &&& 0x40 ≠ 0
  · have hafter := @pmmInit_free kernelStart kernelEnd _ _ _ hmap (htiled hmap)
    have hlt := (htiled hmap).tiles.entry_lt
    simp only [if_pos hmap]
    constructor
    · rintro ⟨p, hinit, honly⟩ - e he havailable hbase f hf hshadow
      obtain ⟨htotal, hfree⟩ := hafter.free p hinit
      by_cases hreserved : InitReserved kernelStart kernelEnd f
      · exact Or.inl hreserved
      · have hfree' := (hfree f (htotal ▸ hf)).mpr ⟨hreserved, e, he, havailable, hshadow⟩
        exact Or.inr (honly f (htotal ▸ hf) hfree')
    · intro hharmless
      obtain ⟨p, hinit⟩ := hafter.returns
      obtain ⟨htotal, hfree⟩ := hafter.free p hinit
      refine ⟨p, hinit, ?_⟩
      intro f hf hclear
      obtain ⟨hreserved, e, he, havailable, hshadow⟩ := (hfree f hf).mp hclear
      by_cases hbase : e.base ≤ 0xFFFFF000
      · exact ⟨e, he, havailable, shadow_declared (hlt e he).2 hbase hshadow⟩
      · exact (hharmless hmap e he havailable (by omega) f (htotal ▸ hf) hshadow).resolve_left
          hreserved
  · have hafter := @pmmInit_free_noMap kernelStart kernelEnd m _ (by simpa using hmap)
    simp only [if_neg hmap]
    refine ⟨fun _ h => absurd h hmap, ?_⟩
    intro _
    obtain ⟨p, hinit⟩ := hafter.returns
    exact ⟨p, hinit, fun f hf hclear => ((hafter.free p hinit).2 f hf |>.mp hclear).2⟩

/-- A memory map of one entry at `0x9000`: a megabyte of memory at `base`. -/
def oneEntryMap (base : Nat) : Mem :=
  let m := store32 (fun _ => 0#8) 0x9000 20
  let m := store32 m 0x9004 (base % 4294967296)
  let m := store32 m 0x9008 (base / 4294967296)
  let m := store32 m 0x900C 0x100000
  let m := store32 m 0x9010 0
  store32 m 0x9014 1

/-- 16 MB and the memory map at `0x9000`. -/
def oneEntryInfo : MultibootInfo where
  flags := 0x41
  memUpper := 15360
  mmapLength := 24
  mmapAddr := 0x9000

theorem oneEntryMap_tiled (base : Nat)
    (hsize : (readMmapEntry (oneEntryMap base) 0x9000).size = 20) :
    MmapTiled (oneEntryMap base) oneEntryInfo [readMmapEntry (oneEntryMap base) 0x9000] := by
  have hnil : MmapTiles (oneEntryMap base) 0x9018 0x9018 [] := .nil
  refine ⟨by decide, .cons (a := 0x9000) (by rw [hsize]; decide) ?_⟩
  rw [hsize]
  exact hnil

/-- A megabyte at 4 MB. -/
theorem pmmInit_onlyDeclared_low :
    Harmless 0x100000 0x200000 oneEntryInfo [readMmapEntry (oneEntryMap 0x400000) 0x9000]
      ∧ ∃ p, pmmInit 0x100000 0x200000 (oneEntryMap 0x400000) oneEntryInfo = .ok p
        ∧ OnlyDeclared oneEntryInfo [readMmapEntry (oneEntryMap 0x400000) 0x9000] p := by
  have hharmless :
      Harmless 0x100000 0x200000 oneEntryInfo [readMmapEntry (oneEntryMap 0x400000) 0x9000] := by
    intro _ e he _ hbase
    rw [List.mem_singleton] at he
    rw [he] at hbase
    exact absurd hbase (by decide)
  exact ⟨hharmless, (pmmInit_onlyDeclared fun _ => oneEntryMap_tiled 0x400000 (by decide)).mpr
    hharmless⟩

/-- A megabyte at 4 GB + 4 MB: the megabyte at 4 MB is free after
`pmm_init`. -/
theorem pmmInit_onlyDeclared_fails :
    MmapTiled (oneEntryMap 0x100400000) oneEntryInfo
        [readMmapEntry (oneEntryMap 0x100400000) 0x9000]
      ∧ ¬∃ p, pmmInit 0x100000 0x200000 (oneEntryMap 0x100400000) oneEntryInfo = .ok p
        ∧ OnlyDeclared oneEntryInfo [readMmapEntry (oneEntryMap 0x100400000) 0x9000] p := by
  have htiled := oneEntryMap_tiled 0x100400000 (by decide)
  refine ⟨htiled, ?_⟩
  rintro ⟨p, hinit, honly⟩
  have hafter := @pmmInit_free 0x100000 0x200000 _ _ _ (by decide) htiled
  obtain ⟨htotal, hfree⟩ := hafter.free p hinit
  have hlt : 1024 < p.totalFrames := by
    rw [htotal]
    decide +kernel
  have hclear : bitmapTest p 1024 = false := by
    refine (hfree 1024 hlt).mpr ⟨?_, _, List.mem_singleton_self _, by decide, ?_, ?_⟩
    · unfold InitReserved InRegion
      decide +kernel
    · decide +kernel
    · decide +kernel
  have hdeclared := honly 1024 hlt hclear
  rw [if_pos (by decide)] at hdeclared
  obtain ⟨e, he, -, hbase, -⟩ := hdeclared
  rw [List.mem_singleton] at he
  rw [he] at hbase
  exact absurd hbase (by decide)

end Kfs
