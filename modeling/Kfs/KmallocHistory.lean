import Kfs.KmallocAligned
import Kfs.KmallocStats

/-!
# The heap does not remember

Two free blocks never stand side by side, so the free blocks are the gaps
that the used ones leave, and there is one list of blocks for them
(`BlocksOk.unique`). Whatever was requested and released before, two heaps
with the same allocations that end at the same address are the same heap, and
all requests to come are answered the same way (`heapRun_historyless`).
-/

namespace Kfs

/-! ## The blocks are determined by those in use -/

theorem Tiles.apart_head {bs : List Block} {b c : Block} {lo hi : Nat} (h : Tiles lo (b :: bs) hi)
    (hc : c ∈ b :: bs) (hlt : c.addr < b.stop) : c = b := by
  obtain ⟨-, hbs⟩ := h
  rcases List.mem_cons.mp hc with rfl | hc
  · rfl
  · have hbound := (hbs.bounds c hc).1
    omega

/-- A free block goes up to a used one, or to the end. -/
theorem BlocksOk.free_stop {lo hi : Nat} {b c : Block} {bs cs : List Block}
    (hb : BlocksOk lo hi (b :: bs)) (hc : BlocksOk lo hi (c :: cs)) (hfree : b.free = true)
    (hsame : ∀ d, d.free = false → d ∈ b :: bs → d ∈ c :: cs) : c.stop ≤ b.stop := by
  obtain ⟨haddr, hrest⟩ := hb.tiles
  obtain ⟨haddr', hrest'⟩ := hc.tiles
  by_contra hlt
  cases bs with
  | nil =>
      have hend : b.stop = hi := hrest
      have hle := hrest'.le
      omega
  | cons d bs =>
      have hapart : b.Apart d := (List.isChain_cons_cons.mp hb.apart).1
      have hused : d.free = false := by
        cases hd : d.free with
        | false => rfl
        | true => exact absurd ⟨hfree, hd⟩ hapart
      have hd : d.addr = b.stop := hrest.1
      -- the used block would start inside the other free one
      obtain rfl := hc.tiles.apart_head (hsame d hused (by simp)) (by omega)
      have hstop : b.stop = b.addr + 24 + b.size := rfl
      omega

theorem BlocksOk.tail {lo hi : Nat} {b : Block} {bs : List Block} (h : BlocksOk lo hi (b :: bs)) :
    BlocksOk b.stop hi bs :=
  ⟨h.tiles.2, fun c hc => h.sized c (List.mem_cons_of_mem _ hc), h.apart.tail⟩

/-- There is one list of blocks with these blocks in use. -/
theorem BlocksOk.unique {lo hi : Nat} {bs cs : List Block} (hb : BlocksOk lo hi bs)
    (hc : BlocksOk lo hi cs) (hsame : ∀ d, d.free = false → (d ∈ bs ↔ d ∈ cs)) : bs = cs := by
  induction bs generalizing lo cs with
  | nil =>
      cases cs with
      | nil => rfl
      | cons c cs =>
          have hempty : lo = hi := hb.tiles
          have hle := hc.tiles.2.le
          have haddr := hc.tiles.1
          unfold Block.stop at hle
          omega
  | cons b bs ih =>
      cases cs with
      | nil =>
          have hempty : lo = hi := hc.tiles
          have hle := hb.tiles.2.le
          have haddr := hb.tiles.1
          unfold Block.stop at hle
          omega
      | cons c cs =>
          have haddr : b.addr = c.addr := hb.tiles.1.trans hc.tiles.1.symm
          have hbc : b = c := by
            cases hbf : b.free with
            | false =>
                have hmem : b ∈ c :: cs := (hsame b hbf).mp List.mem_cons_self
                exact hc.tiles.eq_of_addr hmem List.mem_cons_self haddr
            | true =>
                cases hcf : c.free with
                | false =>
                    have hmem : c ∈ b :: bs := (hsame c hcf).mpr List.mem_cons_self
                    exact hb.tiles.eq_of_addr List.mem_cons_self hmem haddr
                | true =>
                    have hle := hb.free_stop hc hbf fun d hd => (hsame d hd).mp
                    have hge := hc.free_stop hb hcf fun d hd => (hsame d hd).mpr
                    obtain ⟨baddr, bsize, bfree⟩ := b
                    obtain ⟨caddr, csize, cfree⟩ := c
                    simp only [Block.stop] at haddr hbf hcf hle hge
                    simp only [Block.mk.injEq]
                    exact ⟨haddr, by omega, hbf.trans hcf.symm⟩
          subst hbc
          refine congrArg (b :: ·) (ih hb.tail hc.tail fun d hd => ?_)
          have hne : ∀ {ds : List Block}, Tiles b.stop ds hi → d ∈ ds → d ≠ b := by
            rintro ds hds hmem rfl
            have hbound := (hds.bounds d hmem).1
            unfold Block.stop at hbound
            omega
          have hcons := hsame d hd
          rw [List.mem_cons, List.mem_cons] at hcons
          exact ⟨fun hmem => (hcons.mp (Or.inr hmem)).resolve_left (hne hb.tiles.2 hmem),
            fun hmem => (hcons.mpr (Or.inr hmem)).resolve_left (hne hc.tiles.2 hmem)⟩

/-! ## Requests are answered from the blocks -/

/-- The first block that fits is at one place. -/
theorem first_unique {size : Nat} {pre post pre' post' : List Block} {b b' : Block}
    (hsplit : pre ++ b :: post = pre' ++ b' :: post') (hb : b.fits size = true)
    (hb' : b'.fits size = true) (hpre : ∀ x ∈ pre, x.fits size = false)
    (hpre' : ∀ x ∈ pre', x.fits size = false) : pre = pre' ∧ b = b' ∧ post = post' := by
  induction pre generalizing pre' with
  | nil =>
      cases pre' with
      | nil =>
          obtain ⟨rfl, rfl⟩ := List.cons.inj hsplit
          exact ⟨rfl, rfl, rfl⟩
      | cons x pre' =>
          obtain ⟨rfl, -⟩ := List.cons.inj hsplit
          rw [hpre' b List.mem_cons_self] at hb
          cases hb
  | cons x pre ih =>
      cases pre' with
      | nil =>
          obtain ⟨rfl, -⟩ := List.cons.inj hsplit
          rw [hpre x List.mem_cons_self] at hb'
          cases hb'
      | cons y pre' =>
          obtain ⟨rfl, hrest⟩ := List.cons.inj hsplit
          obtain ⟨rfl, rfl, rfl⟩ := ih hrest (fun z hz => hpre z (List.mem_cons_of_mem _ hz))
            fun z hz => hpre' z (List.mem_cons_of_mem _ hz)
          exact ⟨rfl, rfl, rfl⟩

section Answers

variable {h g h' g' : Heap} {bs bs' cs' : List Block} {size p q : Nat}

/-- The answer to a request, and the blocks behind it, depend on the blocks
and on the ends of the heap alone. -/
theorem KmallocOutcome.same (hh : KmallocOutcome h bs size p h' bs')
    (hg : KmallocOutcome g bs size q g' cs') (hend : h.heapEnd = g.heapEnd)
    (hmax : h.heapMax = g.heapMax) :
    p = q ∧ bs' = cs' ∧ h'.heapEnd = g'.heapEnd ∧ h'.heapMax = g'.heapMax := by
  have hnever : ∀ {pre post : List Block} {b : Block}, bs = pre ++ b :: post →
      b.fits size = true → (∀ x ∈ bs, x.fits size = false) → False := fun hsplit hfits hfull => by
    rw [hfull _ (hsplit ▸ by simp)] at hfits
    cases hfits
  cases hh with
  | reuse split fits first =>
      cases hg with
      | reuse split' fits' first' =>
          obtain ⟨rfl, rfl, rfl⟩ := first_unique (split.symm.trans split') fits fits' first first'
          exact ⟨rfl, rfl, hend, hmax⟩
      | extend full => exact (hnever split fits full).elim
      | fail full => exact (hnever split fits full).elim
  | extend full room =>
      cases hg with
      | reuse split fits => exact (hnever split fits full).elim
      | extend =>
          dsimp only
          rw [hend]
          exact ⟨rfl, rfl, rfl, hmax⟩
      | fail _ full' => omega
  | fail full room =>
      cases hg with
      | reuse split fits => exact (hnever split fits full).elim
      | extend _ room' => omega
      | fail => exact ⟨rfl, rfl, hend, hmax⟩

end Answers

/-! ## Two heaps -/

/-- The same blocks, for the same allocations. -/
structure Alike (s t : HeapClient) : Prop where
  blocks : ∃ bs, HeapRep s.heap bs ∧ HeapRep t.heap bs ∧ LiveOk bs s.live ∧ LiveOk bs t.live
  live : s.live.Perm t.live
  heapEnd : s.heap.heapEnd = t.heap.heapEnd
  heapMax : s.heap.heapMax = t.heap.heapMax

/-- What the clients of two heaps can compare: their allocations with
`ksize`, and `kbrk(0)`. -/
structure SameUse (s t : HeapClient) : Prop where
  live : s.live.Perm t.live
  sizes : ∀ e ∈ s.live, ksize s.heap e.1 = ksize t.heap e.1
  heapEnd : s.heap.heapEnd = t.heap.heapEnd

section Alike

variable {s s' t : HeapClient} {e : HeapEvent}

theorem Alike.sameUse (h : Alike s t) : SameUse s t := by
  obtain ⟨bs, hs, ht, hlive, -⟩ := h.blocks
  refine ⟨h.live, fun e he => ?_, h.heapEnd⟩
  obtain ⟨b, hb, -, hp, -⟩ := hlive.block e he
  rw [hp, (hs.ksize_eq hb).1, (ht.ksize_eq hb).1]

/-- The blocks of two heaps in the same use. -/
theorem SameUse.alike (h : SameUse s t) (hs : HeapInv s) (ht : HeapInv t)
    (hstart : s.heap.heapStart = t.heap.heapStart) (hmax : s.heap.heapMax = t.heap.heapMax) :
    Alike s t := by
  obtain ⟨bs, hreps, hlives⟩ := hs
  obtain ⟨cs, hrept, hlivet⟩ := ht
  have hsame : bs = cs := by
    have hok := hrept.ok
    rw [← hstart, ← h.heapEnd] at hok
    refine hreps.ok.unique hok fun d hd => ⟨fun hmem => ?_, fun hmem => ?_⟩
    · obtain ⟨e, he, hp⟩ := hlives.owned d hmem hd
      obtain ⟨c, hc, hcf, hpc, -⟩ := hlivet.block e (h.live.subset he)
      have hsize := h.sizes e he
      rw [hp, (hreps.ksize_eq hmem).1, ← hp, hpc, (hrept.ksize_eq hc).1] at hsize
      have haddr : d.addr = c.addr := by omega
      obtain ⟨daddr, dsize, dfree⟩ := d
      obtain ⟨caddr, csize, cfree⟩ := c
      obtain rfl : daddr = caddr := haddr
      obtain rfl : dsize = csize := hsize
      obtain rfl : dfree = cfree := hd.trans hcf.symm
      exact hc
    · obtain ⟨e, he, hp⟩ := hlivet.owned d hmem hd
      have he' := h.live.symm.subset he
      obtain ⟨c, hc, hcf, hpc, -⟩ := hlives.block e he'
      have hsize := h.sizes e he'
      rw [hpc, (hreps.ksize_eq hc).1, ← hpc, hp, (hrept.ksize_eq hmem).1] at hsize
      have haddr : d.addr = c.addr := by omega
      obtain ⟨daddr, dsize, dfree⟩ := d
      obtain ⟨caddr, csize, cfree⟩ := c
      obtain rfl : daddr = caddr := haddr
      obtain rfl : dsize = csize := hsize.symm
      obtain rfl : dfree = cfree := hd.trans hcf.symm
      exact hc
  subst hsame
  exact ⟨⟨bs, hreps, hrept, hlives, hlivet⟩, h.live, h.heapEnd, hmax⟩

/-- What one heap does the other does too. -/
theorem Alike.step (hstep : HeapStep s e s') (h : Alike s t) :
    ∃ t', HeapStep t e t' ∧ Alike s' t' := by
  obtain ⟨bs, hs, ht, hlives, hlivet⟩ := h.blocks
  cases hstep with
  | @kmalloc n p h' hn hcall =>
      by_cases h1 : 1 ≤ n
      · obtain ⟨p', h'', bs', hcall', hreps', hout⟩ := kmalloc_outcome hs h1 hn
        obtain ⟨rfl, rfl⟩ := Prod.mk.inj (Except.ok.inj (hcall.symm.trans hcall'))
        obtain ⟨q, g', cs', hcallt, hrept', houtt⟩ := kmalloc_outcome ht h1 hn
        obtain ⟨rfl, rfl, hend, hmax⟩ := hout.same houtt h.heapEnd h.heapMax
        refine ⟨_, .kmalloc hn hcallt, ⟨bs', hreps', hrept', hlives.kmalloc hs h1 hn hout,
          hlivet.kmalloc ht h1 hn houtt⟩, ?_, hend, hmax⟩
        dsimp only
        split
        · exact h.live
        · exact h.live.cons _
      · obtain rfl : n = 0 := by omega
        rw [kmalloc_zero] at hcall
        obtain ⟨rfl, rfl⟩ := Prod.mk.inj (Except.ok.inj hcall)
        exact ⟨t, .kmalloc hn (kmalloc_zero t.heap), h⟩
  | @kfree p n h' warned hmem hcall =>
      obtain ⟨b, hb, hbf, hp, -⟩ := hlives.block _ hmem
      obtain ⟨pre, post, rfl⟩ := List.append_of_mem hb
      obtain ⟨m', hcalls, hreps', -⟩ := kfree_live hs hbf
      obtain ⟨mt, hcallt, hrept', -⟩ := kfree_live ht hbf
      obtain rfl : p = b.addr + 24 := hp
      obtain ⟨rfl, -⟩ := Prod.mk.inj (Except.ok.inj (hcall.symm.trans hcalls))
      exact ⟨_, .kfree (h.live.subset hmem) hcallt, ⟨releaseAt pre b post, hreps', hrept',
        hlives.kfree hs, hlivet.kfree ht⟩, h.live.filter _, h.heapEnd, h.heapMax⟩
  | @write a p n v hmem hlo hhi =>
      have hmem' := h.live.subset hmem
      exact ⟨_, .write hmem' hlo hhi, ⟨bs, hs.write hlives hmem hlo hhi v,
        ht.write hlivet hmem' hlo hhi v, hlives, hlivet⟩, h.live, h.heapEnd, h.heapMax⟩

theorem HeapInv.step_bounds (hinv : HeapInv s) (hstep : HeapStep s e s') :
    s'.heap.heapStart = s.heap.heapStart ∧ s'.heap.heapMax = s.heap.heapMax := by
  obtain ⟨bs, hrep, hlive⟩ := hinv
  cases hstep with
  | @kmalloc n p h' hn hcall =>
      by_cases h1 : 1 ≤ n
      · obtain ⟨p', h'', bs', hcall', -, hout⟩ := kmalloc_outcome hrep h1 hn
        obtain ⟨rfl, rfl⟩ := Prod.mk.inj (Except.ok.inj (hcall.symm.trans hcall'))
        exact hout.range
      · obtain rfl : n = 0 := by omega
        rw [kmalloc_zero] at hcall
        obtain ⟨-, rfl⟩ := Prod.mk.inj (Except.ok.inj hcall)
        exact ⟨rfl, rfl⟩
  | @kfree p n h' warned hmem hcall =>
      obtain ⟨b, hb, hbf, hp, -⟩ := hlive.block _ hmem
      obtain ⟨pre, post, rfl⟩ := List.append_of_mem hb
      obtain ⟨m', hcall', -⟩ := kfree_live hrep hbf
      obtain rfl : p = b.addr + 24 := hp
      obtain ⟨rfl, -⟩ := Prod.mk.inj (Except.ok.inj (hcall.symm.trans hcall'))
      exact ⟨rfl, rfl⟩
  | write => exact ⟨rfl, rfl⟩

end Alike

/-! ## Runs -/

/-- The ends of the memory for the heap stay those of `kmalloc_init`. -/
theorem heapRun_bounds {kernelEnd : Nat} {m : Mem} {q : Pmm}
    (hlim : heapLimit kernelEnd < 2147483648) {es : List HeapEvent} {s : HeapClient}
    (hrun : Run HeapStep ⟨(kmallocInit kernelEnd m q).1, []⟩ es s) :
    s.heap.heapStart = (kmallocInit kernelEnd m q).1.heapStart
      ∧ s.heap.heapMax = (kmallocInit kernelEnd m q).1.heapMax := by
  obtain ⟨-, hbounds⟩ := hrun.invariant (I := fun s => HeapInv s
    ∧ s.heap.heapStart = (kmallocInit kernelEnd m q).1.heapStart
    ∧ s.heap.heapMax = (kmallocInit kernelEnd m q).1.heapMax)
    ⟨heapInv_init m hlim, rfl, rfl⟩ (by
      rintro s e s' ⟨hinv, hstart, hmax⟩ hstep
      obtain ⟨hstart', hmax'⟩ := hinv.step_bounds hstep
      exact ⟨hinv.step hstep, hstart'.trans hstart, hmax'.trans hmax⟩)
  exact hbounds

/-- Whatever the clients did before, and whatever the memory held: two heaps
with the same allocations and the same end have the same blocks, and the same
calls from here on have the same results. -/
theorem heapRun_historyless {kernelEnd : Nat} {m m' : Mem} {q q' : Pmm}
    (hlim : heapLimit kernelEnd < 2147483648) {es es' later : List HeapEvent}
    {s t s' : HeapClient} (hs : Run HeapStep ⟨(kmallocInit kernelEnd m q).1, []⟩ es s)
    (ht : Run HeapStep ⟨(kmallocInit kernelEnd m' q').1, []⟩ es' t) (hsame : SameUse s t)
    (hlater : Run HeapStep s later s') :
    (∃ bs, Reads s.heap bs ∧ Reads t.heap bs)
      ∧ ∃ t', Run HeapStep t later t' ∧ SameUse s' t' := by
  obtain ⟨hstart, hmax⟩ := heapRun_bounds hlim hs
  obtain ⟨hstart', hmax'⟩ := heapRun_bounds hlim ht
  have halike := hsame.alike (HeapInv.of_run hlim hs) (HeapInv.of_run hlim ht)
    (hstart.trans hstart'.symm) (hmax.trans hmax'.symm)
  obtain ⟨bs, hreps, hrept, -⟩ := halike.blocks
  refine ⟨⟨bs, hreps.reads, hrept.reads⟩, ?_⟩
  obtain ⟨t', hrun, halike'⟩ := hlater.simulates (f := id) Alike.step halike
  rw [List.map_id] at hrun
  exact ⟨t', hrun, halike'.sameUse⟩

/-- The gap between two allocations was one request in a memory of zeros, and
two requests in a memory of ones. -/
theorem heapRun_historyless_gap : ∃ s s' t t',
    Run HeapStep ⟨(kmallocInit 0x200000 (fun _ => 0#8) (allUsed 0)).1, []⟩
        [.kmalloc 24, .kmalloc 100, .kmalloc 10, .kfree 0x210048] s
      ∧ Run HeapStep s [.kmalloc 40, .kfree 0x210018, .kmalloc 8] s'
      ∧ Run HeapStep ⟨(kmallocInit 0x200000 (fun _ => 0xFF#8) (allUsed 0)).1, []⟩
        [.kmalloc 24, .kmalloc 16, .kmalloc 64, .kmalloc 10, .kfree 0x210048,
          .write 0x210070 7#8, .kfree 0x210070] t
      ∧ Run HeapStep t [.kmalloc 40, .kfree 0x210018, .kmalloc 8] t'
      ∧ s'.live = [(0x210018, 8), (0x210048, 40), (0x2100C8, 10)] ∧ SameUse s' t' := by
  obtain ⟨s, s', hs, hlater, ⟨hlive, hsize, hsize', hend⟩, hlive'⟩ :=
    execSteps_observe_two heapExec_step ⟨(kmallocInit 0x200000 (fun _ => 0#8) (allUsed 0)).1, []⟩
      [.kmalloc 24, .kmalloc 100, .kmalloc 10, .kfree 0x210048]
      [.kmalloc 40, .kfree 0x210018, .kmalloc 8]
      (fun s s' => (s.live = [(0x2100C8, 10), (0x210018, 24)] ∧ ksize s.heap 0x2100C8 = 16
          ∧ ksize s.heap 0x210018 = 24 ∧ s.heap.heapEnd = 0x2100D8)
        ∧ s'.live = [(0x210018, 8), (0x210048, 40), (0x2100C8, 10)]) (by decide +kernel)
  obtain ⟨t, ht, htlive, htsize, htsize', htend⟩ :=
    execSteps_observe heapExec_step ⟨(kmallocInit 0x200000 (fun _ => 0xFF#8) (allUsed 0)).1, []⟩
      [.kmalloc 24, .kmalloc 16, .kmalloc 64, .kmalloc 10, .kfree 0x210048, .write 0x210070 7#8,
        .kfree 0x210070]
      (fun t => t.live = [(0x2100C8, 10), (0x210018, 24)] ∧ ksize t.heap 0x2100C8 = 16
        ∧ ksize t.heap 0x210018 = 24 ∧ t.heap.heapEnd = 0x2100D8) (by decide +kernel)
  have hsame : SameUse s t := by
    refine ⟨by rw [hlive, htlive], fun e he => ?_, hend.trans htend.symm⟩
    rw [hlive] at he
    rcases List.mem_cons.mp he with rfl | he
    · exact hsize.trans htsize.symm
    · obtain rfl := List.mem_singleton.mp he
      exact hsize'.trans htsize'.symm
  obtain ⟨-, t', hlater', hsame'⟩ := heapRun_historyless (by decide) hs ht hsame hlater
  exact ⟨s, s', t, t', hs, hlater, ht, hlater', hlive', hsame'⟩

end Kfs
