import Kfs.KmallocFirstFit

/-!
# Requests that are taken back

`kfree` right after `kmalloc`. A block that was carved comes together again,
because its neighbours were used (`release_carve`); a block that was appended
stays as one more free block, or grows the free block before it
(`mergePrev`). Either way a block that fits is there now.

When everything is released no used block is left, two free blocks never
stand side by side, and the heap is one block (`BlocksOk.all_free`).
-/

namespace Kfs

/-- The releases, one after the other. -/
def kfreeAll : List Nat → Heap → Except Fault Heap
  | [], h => .ok h
  | p :: ps, h => do
      let (h, _) ← kfree h p
      kfreeAll ps h

/-- Releasing the live allocations in any order returns, and leaves one free
block that covers the heap. -/
def AllFreed (h : Heap) (live : List (Nat × Nat)) : Prop :=
  ∀ order, order.Perm (live.map Prod.fst) → ∃ h', kfreeAll order h = .ok h'
    ∧ Reads h' [⟨h.heapStart, h.heapEnd - h.heapStart - headerSize, true⟩]

/-- What a release right after the request that returned `p` comes to. -/
structure Undone (h : Heap) (bs : List Block) (n : Nat) (h'' : Heap) : Prop where
  reused : (∃ b, Lowest (roundedSize n) bs b) → Reads h'' bs ∧ h''.heapEnd = h.heapEnd
  extended : (∀ b, ¬Lowest (roundedSize n) bs b) →
    Reads h'' (mergePrev bs ⟨h.heapEnd, roundedSize n, true⟩ [])
      ∧ h''.heapEnd = h.heapEnd + headerSize + roundedSize n
  again : ∃ p h3, kmalloc h'' n = .ok (p, h3) ∧ p ≠ 0 ∧ h3.heapEnd = h''.heapEnd

/-! ## A carved block -/

theorem mergePrev_used {pre post : List Block} {b : Block}
    (h : ∀ a ∈ pre.getLast?, a.free = false) : mergePrev pre b post = pre ++ b :: post := by
  unfold mergePrev
  split
  · next a ha => rw [if_neg (by simp [h a ha])]
  · rfl

/-- The blocks around a free block are used. -/
theorem BlocksOk.around_free {lo hi : Nat} {pre post : List Block} {b : Block}
    (h : BlocksOk lo hi (pre ++ b :: post)) (hfree : b.free = true) :
    (∀ a ∈ pre.getLast?, a.free = false) ∧ ∀ c ∈ post.head?, c.free = false := by
  obtain ⟨-, -, hleft, hright⟩ := isChain_around.mp h.apart
  constructor
  · intro a ha
    have := hleft a ha
    simp only [Block.Apart, hfree, and_true, Bool.not_eq_true] at this
    exact this
  · intro c hc
    have := hright c hc
    simp only [Block.Apart, hfree, true_and, Bool.not_eq_true] at this
    exact this

/-- A block that was carved and is released is whole again. -/
theorem release_carve {lo hi : Nat} (size : Nat) {pre post : List Block} {b : Block}
    (h : BlocksOk lo hi (pre ++ b :: post)) (hfree : b.free = true) :
    ∃ c rest, carve size b = c :: rest ∧ c.addr = b.addr ∧ c.free = false
      ∧ releaseAt pre c (rest ++ post) = pre ++ b :: post := by
  obtain ⟨hleft, hright⟩ := h.around_free hfree
  have hb : b = ⟨b.addr, b.size, true⟩ := by rw [← hfree]
  unfold carve
  split
  · next hroom =>
      refine ⟨_, _, rfl, rfl, rfl, ?_⟩
      have hwhole : absorb ⟨b.addr, size, true⟩ ⟨b.addr + 24 + size, b.size - size - 24, true⟩
          = b := by
        rw [hb]
        simp only [absorb, Block.mk.injEq, and_true, true_and]
        omega
      dsimp only [releaseAt]
      rw [List.singleton_append, mergeNext_of_free post rfl, hwhole]
      exact mergePrev_used hleft
  · refine ⟨_, _, rfl, rfl, rfl, ?_⟩
    have hsame : mergeNext ⟨b.addr, b.size, true⟩ ([] ++ post) = (b, post) := by
      rw [List.nil_append, ← hb]
      cases post with
      | nil => rfl
      | cons c post => exact mergeNext_of_used post (by simp [hright c rfl])
    dsimp only [releaseAt]
    rw [hsame]
    exact mergePrev_used hleft

/-- The block at the end that a release leaves. -/
theorem fits_mergePrev {size a : Nat} (bs : List Block) :
    ∃ b ∈ mergePrev bs ⟨a, size, true⟩ [], b.fits size = true := by
  have hlast : ∀ cs : List Block, ⟨a, size, true⟩ ∈ cs → ∃ b ∈ cs, b.fits size = true :=
    fun cs hc => ⟨_, hc, fits_iff.mpr ⟨rfl, Nat.le_refl _⟩⟩
  unfold mergePrev
  split
  · next c hc =>
      split
      · next hfree =>
          refine ⟨absorb c ⟨a, size, true⟩, by simp, fits_iff.mpr ⟨hfree, ?_⟩⟩
          dsimp only [absorb]
          omega
      · exact hlast _ (by simp)
  · exact hlast _ (by simp)

/-- With a block that fits the heap does not grow. -/
theorem HeapRep.served {h : Heap} {bs : List Block} {n : Nat} (hrep : HeapRep h bs) (h1 : 1 ≤ n)
    (hn : n ≤ 0x7FFFFFE0) (hfits : ∃ b ∈ bs, b.fits (roundedSize n) = true) :
    ∃ p h', kmalloc h n = .ok (p, h') ∧ p ≠ 0 ∧ h'.heapEnd = h.heapEnd := by
  obtain ⟨p, h', bs', hcall, -, hout⟩ := kmalloc_outcome hrep h1 hn
  obtain ⟨b, hb, hbf⟩ := hfits
  rw [blockSizeFor_rounded hn] at hout
  refine ⟨p, h', hcall, ?_⟩
  clear hcall
  cases hout with
  | reuse => exact ⟨by omega, rfl⟩
  | extend hfull =>
      rw [hfull b hb] at hbf
      cases hbf
  | fail hfull =>
      rw [hfull b hb] at hbf
      cases hbf

theorem HeapRep.undone {h h' : Heap} {bs : List Block} {n p : Nat} (hrep : HeapRep h bs)
    (h1 : 1 ≤ n) (hn : n ≤ 0x7FFFFFE0) (hcall : kmalloc h n = .ok (p, h')) (hp : p ≠ 0) :
    ∃ h'', kfree h' p = .ok (h'', false) ∧ Undone h bs n h'' := by
  obtain ⟨p', h'', bs', hcall', hrep', hout⟩ := kmalloc_outcome hrep h1 hn
  obtain ⟨rfl, rfl⟩ := Prod.mk.inj (Except.ok.inj (hcall.symm.trans hcall'))
  rw [blockSizeFor_rounded hn] at hout
  clear hcall hcall'
  cases hout with
  | @reuse pre post b m' hsplit hfits hfirst hsame =>
      subst hsplit
      have hlow := lowest_first hrep.ok.tiles hfits hfirst
      obtain ⟨c, rest, hcarve, haddr, hused, hwhole⟩ :=
        release_carve (roundedSize n) hrep.ok hlow.free
      rw [hcarve, List.append_assoc, List.cons_append] at hrep'
      obtain ⟨m'', hfree, hrep'', -⟩ := kfree_live hrep' hused
      rw [haddr] at hfree
      rw [hwhole] at hrep''
      refine ⟨_, hfree, fun _ => ⟨hrep''.reads, rfl⟩, fun hnone => absurd hlow (hnone b), ?_⟩
      exact hrep''.served h1 hn ⟨b, hlow.mem, hfits⟩
  | extend hfull hroom hsame =>
      obtain ⟨m'', hfree, hrep'', -⟩ :=
        kfree_live (b := ⟨h.heapEnd, roundedSize n, false⟩) hrep' rfl
      refine ⟨_, hfree, ?_, fun _ => ⟨hrep''.reads, ?_⟩, ?_⟩
      · rintro ⟨b, hb⟩
        exact absurd hb (not_lowest hfull b)
      · rw [headerSize_eq]
      · exact hrep''.served h1 hn (fits_mergePrev bs)
  | fail => exact absurd rfl hp

/-! ## Everything released -/

/-- When no block is used there is at most one. -/
theorem BlocksOk.all_free {lo hi : Nat} {bs : List Block} (h : BlocksOk lo hi bs) (hlt : lo < hi)
    (hfree : ∀ b ∈ bs, b.free = true) : bs = [⟨lo, hi - lo - 24, true⟩] := by
  match bs, h, hfree with
  | [], h, _ =>
      have : lo = hi := h.tiles
      omega
  | [b], h, hfree =>
      obtain ⟨haddr, hstop⟩ := h.tiles
      have hbf := hfree b List.mem_cons_self
      have hend : b.addr + 24 + b.size = hi := hstop
      obtain ⟨addr, size, free⟩ := b
      dsimp only at haddr hbf hend
      simp only [List.cons.injEq, Block.mk.injEq, and_true]
      exact ⟨haddr, by omega, hbf⟩
  | b :: c :: bs, h, hfree =>
      have hapart : b.Apart c := (List.isChain_cons_cons.mp h.apart).1
      exact absurd ⟨hfree b (by simp), hfree c (by simp)⟩ hapart

theorem filter_map_fst {live : List (Nat × Nat)} {p : Nat} {ps : List Nat}
    (hnodup : (live.map Prod.fst).Nodup) (hperm : (p :: ps).Perm (live.map Prod.fst)) :
    ps.Perm ((live.filter fun e => e.1 ≠ p).map Prod.fst) := by
  have hmap : (live.filter fun e => e.1 ≠ p).map Prod.fst
      = (live.map Prod.fst).filter fun q => q ≠ p := by
    rw [List.filter_map]
    rfl
  have hps : p ∉ ps := (List.nodup_cons.mp (hperm.nodup_iff.mpr hnodup)).1
  have hfilter := hperm.filter fun q => decide (q ≠ p)
  rw [List.filter_cons_of_neg (by simp), List.filter_eq_self.mpr] at hfilter
  · rw [hmap]
    exact hfilter
  · intro q hq
    simp only [ne_eq, decide_not, Bool.not_eq_true', decide_eq_false_iff_not]
    rintro rfl
    exact hps hq

/-- Releases in any order. -/
theorem HeapInv.kfreeAll : ∀ {order : List Nat} {s : HeapClient}, HeapInv s →
    order.Perm (s.live.map Prod.fst) →
    ∃ h', Kfs.kfreeAll order s.heap = .ok h' ∧ HeapInv ⟨h', []⟩
      ∧ h'.heapStart = s.heap.heapStart ∧ h'.heapEnd = s.heap.heapEnd
  | [], s, hinv, hperm => by
      have hlive : s.live = [] := List.map_eq_nil_iff.mp hperm.symm.eq_nil
      refine ⟨s.heap, rfl, ?_, rfl, rfl⟩
      rw [← hlive]
      exact hinv
  | p :: ps, s, hinv, hperm => by
      obtain ⟨⟨q, n⟩, he, hq⟩ := List.mem_map.mp (hperm.subset List.mem_cons_self)
      obtain rfl : q = p := hq
      obtain ⟨bs, hrep, hlive⟩ := id hinv
      obtain ⟨b, hb, hbf, hp, -⟩ := hlive.block _ he
      obtain ⟨pre, post, rfl⟩ := List.append_of_mem hb
      obtain ⟨m', hfree, -⟩ := kfree_live hrep hbf
      rw [← show q = b.addr + 24 from hp] at hfree
      have hinv' := hinv.step (HeapStep.kfree he hfree)
      obtain ⟨h', hrest, hinv'', hstart, hend⟩ :=
        HeapInv.kfreeAll hinv' (filter_map_fst hlive.nodup hperm)
      refine ⟨h', ?_, hinv'', hstart, hend⟩
      rw [Kfs.kfreeAll, bind_of_ok hfree]
      exact hrest

theorem HeapInv.allFreed {s : HeapClient} (hinv : HeapInv s)
    (hlt : s.heap.heapStart < s.heap.heapEnd) : AllFreed s.heap s.live := by
  intro order hperm
  obtain ⟨h', hfree, ⟨bs, hrep, hlive⟩, hstart, hend⟩ := hinv.kfreeAll hperm
  refine ⟨h', hfree, ?_⟩
  have hall : ∀ b ∈ bs, b.free = true := by
    intro b hb
    cases hbf : b.free with
    | true => rfl
    | false =>
        obtain ⟨e, he, -⟩ := hlive.owned b hb hbf
        exact absurd he List.not_mem_nil
  have hone := hrep.ok.all_free (by rw [hstart, hend]; exact hlt) hall
  rw [hstart, hend] at hone
  rw [headerSize_eq, ← hone]
  exact hrep.reads

/-- A heap with an allocation is not empty. -/
theorem HeapInv.nonempty {s : HeapClient} (hinv : HeapInv s) {e : Nat × Nat} (he : e ∈ s.live) :
    s.heap.heapStart < s.heap.heapEnd := by
  obtain ⟨bs, hrep, hlive⟩ := hinv
  obtain ⟨b, hb, -⟩ := hlive.block e he
  have hbound := hrep.ok.tiles.bounds b hb
  unfold Block.stop at hbound
  omega

/-! ## Runs -/

/-- A release right after the request leaves what was live before. -/
theorem HeapInv.kmalloc_kfree {s : HeapClient} (hinv : HeapInv s) {n p : Nat} {h' h'' : Heap}
    {warned : Bool} (hn : n ≤ 0x7FFFFFE0) (hcall : kmalloc s.heap n = .ok (p, h')) (hp : p ≠ 0)
    (hfree : kfree h' p = .ok (h'', warned)) : HeapInv ⟨h'', s.live⟩ := by
  have hinv' := hinv.step (HeapStep.kmalloc hn hcall)
  rw [if_neg hp] at hinv'
  have hinv'' := hinv'.step (HeapStep.kfree List.mem_cons_self hfree)
  -- the new pointer is none of the old ones
  have hfresh : p ∉ s.live.map Prod.fst := by
    obtain ⟨_, -, hlive'⟩ := hinv'
    exact (List.nodup_cons.mp hlive'.nodup).1
  have hrest : ((p, n) :: s.live).filter (fun e => decide (e.1 ≠ p)) = s.live := by
    rw [List.filter_cons_of_neg (by simp), List.filter_eq_self]
    intro e he
    simp only [ne_eq, decide_not, Bool.not_eq_true', decide_eq_false_iff_not]
    exact fun heq => hfresh (heq ▸ List.mem_map_of_mem he)
  rw [hrest] at hinv''
  exact hinv''

/-- A release takes the request back, and with everything released the heap
is one free block. -/
theorem heapRun_undone {kernelEnd : Nat} {m : Mem} {q : Pmm}
    (hlim : heapLimit kernelEnd < 2147483648) {es : List HeapEvent} {s : HeapClient}
    (hrun : Run HeapStep ⟨(kmallocInit kernelEnd m q).1, []⟩ es s) {n p : Nat} {h' : Heap}
    (hn : n ≤ 0x7FFFFFE0) (hcall : kmalloc s.heap n = .ok (p, h')) (hp : p ≠ 0) :
    ∃ bs h'', Reads s.heap bs ∧ kfree h' p = .ok (h'', false) ∧ Undone s.heap bs n h''
      ∧ AllFreed h' ((p, n) :: s.live) ∧ AllFreed h'' s.live
      ∧ (s.heap.heapStart < s.heap.heapEnd → AllFreed s.heap s.live) := by
  have hinv := HeapInv.of_run hlim hrun
  have h1 : 1 ≤ n := by
    by_contra hzero
    obtain rfl : n = 0 := by omega
    exact hp (Prod.mk.inj (Except.ok.inj ((kmalloc_zero s.heap).symm.trans hcall))).1.symm
  have hinv' := hinv.step (HeapStep.kmalloc hn hcall)
  rw [if_neg hp] at hinv'
  obtain ⟨bs, hrep, hlive⟩ := id hinv
  obtain ⟨h'', hfree, hundone⟩ := hrep.undone h1 hn hcall hp
  have hinv'' := hinv.kmalloc_kfree hn hcall hp hfree
  have hlt : h'.heapStart < h'.heapEnd := hinv'.nonempty List.mem_cons_self
  have hlt'' : h''.heapStart < h''.heapEnd := by
    obtain ⟨_, hrep', hlive'⟩ := hinv'
    obtain ⟨b, hb, hbf, hpb, -⟩ := hlive'.block _ List.mem_cons_self
    obtain ⟨pre, post, rfl⟩ := List.append_of_mem hb
    obtain ⟨m', hfree', -⟩ := kfree_live hrep' hbf
    rw [← show p = b.addr + 24 from hpb] at hfree'
    obtain ⟨rfl, -⟩ := Prod.mk.inj (Except.ok.inj (hfree.symm.trans hfree'))
    exact hlt
  exact ⟨bs, h'', hrep.reads, hfree, hundone, hinv'.allFreed hlt, hinv''.allFreed hlt'',
    hinv.allFreed⟩

/-- A request that a free block between two live allocations serves. -/
theorem heapRun_undone_reused : ∃ s, Run HeapStep
      ⟨(kmallocInit 0x200000 (fun _ => 0#8) (allUsed 0)).1, []⟩
      [.kmalloc 24, .kmalloc 100, .kmalloc 10, .kfree 0x210048] s
    ∧ s.live = [(0x2100C8, 10), (0x210018, 24)]
    ∧ ∃ h', kmalloc s.heap 16 = .ok (0x210048, h')
      ∧ ∃ bs h'', Reads s.heap bs ∧ kfree h' 0x210048 = .ok (h'', false)
        ∧ Undone s.heap bs 16 h'' ∧ AllFreed h' ((0x210048, 16) :: s.live)
        ∧ AllFreed h'' s.live ∧ AllFreed s.heap s.live := by
  obtain ⟨s, hrun, hlive, hlt, hfirst⟩ := execSteps_observe heapExec_step
    ⟨(kmallocInit 0x200000 (fun _ => 0#8) (allUsed 0)).1, []⟩
    [.kmalloc 24, .kmalloc 100, .kmalloc 10, .kfree 0x210048]
    (fun s => s.live = [(0x2100C8, 10), (0x210018, 24)] ∧ s.heap.heapStart < s.heap.heapEnd
      ∧ (kmalloc s.heap 16).toOption.map Prod.fst = some 0x210048) (by decide +kernel)
  obtain ⟨h', hcall⟩ := eq_ok_of_fst hfirst
  obtain ⟨bs, h'', hreads, hfree, hundone, hall, hall', hbefore⟩ :=
    heapRun_undone (q := allUsed 0) (by decide) hrun (by decide) hcall (by decide)
  exact ⟨s, hrun, hlive, h', hcall, bs, h'', hreads, hfree, hundone, hall, hall', hbefore hlt⟩

end Kfs
