import Kfs.KmallocHeap

/-!
# Runs of the kernel heap

The heap together with its clients: a client may request memory, free a
pointer it holds, and write any byte of a range it was given. `live` lists
the allocations in force as pairs of the pointer and the requested size.

`HeapInv` is the invariant of all such runs: the heap represents a list of
blocks and the live allocations are exactly its used blocks. From it follow
the shape of the block list in memory (`BlockListOk`) and the separation of
the allocations from each other and from the headers that stand between
them.
-/

namespace Kfs

structure HeapClient where
  heap : Heap
  live : List (Nat × Nat)

inductive HeapEvent where
  | kmalloc (size : Nat)
  | kfree (p : Nat)
  | write (a : Nat) (v : Byte)

inductive HeapStep : HeapClient → HeapEvent → HeapClient → Prop where
  | kmalloc {s : HeapClient} {n p : Nat} {h' : Heap} (hn : n ≤ 0x7FFFFFE0)
      (hcall : kmalloc s.heap n = .ok (p, h')) :
      HeapStep s (.kmalloc n) ⟨h', if p = 0 then s.live else (p, n) :: s.live⟩
  | kfree {s : HeapClient} {p n : Nat} {h' : Heap} {warned : Bool}
      (hlive : (p, n) ∈ s.live) (hcall : kfree s.heap p = .ok (h', warned)) :
      HeapStep s (.kfree p) ⟨h', s.live.filter fun e => e.1 ≠ p⟩
  | write {s : HeapClient} {a p n : Nat} {v : Byte} (hlive : (p, n) ∈ s.live)
      (hlo : p ≤ a) (hhi : a < p + n) :
      HeapStep s (.write a v) ⟨{ s.heap with mem := store8 s.heap.mem a v }, s.live⟩

/-- `HeapStep` as a function. -/
def heapExec (s : HeapClient) : HeapEvent → Option HeapClient
  | .kmalloc n =>
      if n ≤ 0x7FFFFFE0 then
        (kmalloc s.heap n).toOption.map fun r =>
          ⟨r.2, if r.1 = 0 then s.live else (r.1, n) :: s.live⟩
      else none
  | .kfree p =>
      if p ∈ s.live.map Prod.fst then
        (kfree s.heap p).toOption.map fun r => ⟨r.1, s.live.filter fun e => e.1 ≠ p⟩
      else none
  | .write a v =>
      if ∃ e ∈ s.live, e.1 ≤ a ∧ a < e.1 + e.2 then
        some ⟨{ s.heap with mem := store8 s.heap.mem a v }, s.live⟩
      else none

theorem heapExec_step ⦃s : HeapClient⦄ ⦃e : HeapEvent⦄ ⦃s' : HeapClient⦄
    (h : heapExec s e = some s') : HeapStep s e s' := by
  cases e with
  | kmalloc n =>
      simp only [heapExec] at h
      split at h
      · next hn =>
          obtain ⟨⟨p, h'⟩, hcall, rfl⟩ := Option.map_eq_some_iff.mp h
          exact .kmalloc hn (eq_ok_of_toOption hcall)
      · cases h
  | kfree p =>
      simp only [heapExec] at h
      split at h
      · next hlive =>
          obtain ⟨⟨h', warned⟩, hcall, rfl⟩ := Option.map_eq_some_iff.mp h
          obtain ⟨⟨p, n⟩, hmem, rfl⟩ := List.mem_map.mp hlive
          exact .kfree hmem (eq_ok_of_toOption hcall)
      · cases h
  | write a v =>
      simp only [heapExec] at h
      split at h
      · next hlive =>
          obtain ⟨⟨p, n⟩, hmem, hlo, hhi⟩ := hlive
          obtain rfl := Option.some.inj h
          exact .write hmem hlo hhi
      · cases h

/-! ## The invariant -/

/-- The live allocations are the used blocks. -/
structure LiveOk (bs : List Block) (live : List (Nat × Nat)) : Prop where
  block : ∀ e ∈ live, ∃ b ∈ bs, b.free = false ∧ e.1 = b.addr + 24 ∧ 1 ≤ e.2 ∧ e.2 ≤ b.size
  owned : ∀ b ∈ bs, b.free = false → ∃ e ∈ live, e.1 = b.addr + 24
  nodup : (live.map Prod.fst).Nodup

def HeapInv (s : HeapClient) : Prop := ∃ bs, HeapRep s.heap bs ∧ LiveOk bs s.live

/-- Blocks of a tiling are told apart by their address. -/
theorem Tiles.eq_of_addr {bs : List Block} {lo hi : Nat} (ht : Tiles lo bs hi) {b c : Block}
    (hb : b ∈ bs) (hc : c ∈ bs) (h : b.addr = c.addr) : b = c := by
  rcases ht.disjoint b hb c hc with heq | hle | hle
  · exact heq
  · unfold Block.stop at hle
    omega
  · unfold Block.stop at hle
    omega

theorem heapInit_rep {kernelEnd : Nat} (m : Mem) (h : heapLimit kernelEnd < 2147483648) :
    HeapRep (heapInit kernelEnd m) [] := by
  have hstart := heapInit_heapStart m (show heapLimit kernelEnd < 4294967296 by omega)
  have hmax := heapInit_heapMax m (show heapLimit kernelEnd < 4294967296 by omega)
  have hend : (heapInit kernelEnd m).heapEnd = (heapInit kernelEnd m).heapStart := rfl
  refine ⟨blocksOk_nil _, rfl, trivial, by omega, by omega, ?_, by omega⟩
  unfold heapLimit at hmax
  omega

theorem heapInv_init {kernelEnd : Nat} (m : Mem) (h : heapLimit kernelEnd < 2147483648) :
    HeapInv ⟨heapInit kernelEnd m, []⟩ :=
  ⟨[], heapInit_rep m h,
    ⟨fun _ he => (List.not_mem_nil he).elim, fun _ hb => (List.not_mem_nil hb).elim,
      List.nodup_nil⟩⟩

/-! ### Allocation -/

/-- A new used block for a new allocation, while the used blocks of before
stay. -/
theorem LiveOk.add {bs bs' : List Block} {live : List (Nat × Nat)} {c : Block} {n : Nat}
    (h : LiveOk bs live) (hc : c ∈ bs') (hcf : c.free = false) (h1 : 1 ≤ n) (hn : n ≤ c.size)
    (hkeep : ∀ b ∈ bs, b.free = false → b ∈ bs')
    (honly : ∀ b ∈ bs', b.free = false → b = c ∨ b ∈ bs)
    (hnew : ∀ b ∈ bs, b.free = false → b.addr ≠ c.addr) :
    LiveOk bs' ((c.addr + 24, n) :: live) := by
  refine ⟨?_, ?_, ?_⟩
  · intro e he
    rcases List.mem_cons.mp he with rfl | he
    · exact ⟨c, hc, hcf, rfl, h1, hn⟩
    · obtain ⟨b, hb, hbf, hrest⟩ := h.block e he
      exact ⟨b, hkeep b hb hbf, hbf, hrest⟩
  · intro b hb hbf
    rcases honly b hb hbf with rfl | hb'
    · exact ⟨_, List.mem_cons_self, rfl⟩
    · obtain ⟨e, he, heq⟩ := h.owned b hb' hbf
      exact ⟨e, List.mem_cons_of_mem _ he, heq⟩
  · rw [List.map_cons, List.nodup_cons]
    refine ⟨?_, h.nodup⟩
    intro hmem
    obtain ⟨e, he, heq⟩ := List.mem_map.mp hmem
    obtain ⟨b, hb, hbf, hp, -⟩ := h.block e he
    exact hnew b hb hbf (by omega)

theorem mem_carve_used {size : Nat} {b : Block} (hfit : size ≤ b.size) :
    ∃ c ∈ carve size b, c.free = false ∧ c.addr = b.addr ∧ size ≤ c.size
      ∧ ∀ d ∈ carve size b, d.free = false → d = c := by
  unfold carve
  split
  · refine ⟨⟨b.addr, size, false⟩, by simp, rfl, rfl, Nat.le_refl _, ?_⟩
    intro d hd hf
    rcases List.mem_cons.mp hd with rfl | hd
    · rfl
    · obtain rfl := List.mem_singleton.mp hd
      cases hf
  · exact ⟨⟨b.addr, b.size, false⟩, by simp, rfl, rfl, hfit,
      fun d hd _ => List.mem_singleton.mp hd⟩

theorem LiveOk.kmalloc {h h' : Heap} {bs bs' : List Block} {live : List (Nat × Nat)}
    {n p : Nat} (hrep : HeapRep h bs) (hlive : LiveOk bs live) (h1 : 1 ≤ n)
    (hn : n ≤ 0x7FFFFFE0) (hout : KmallocOutcome h bs (blockSizeFor n) p h' bs') :
    LiveOk bs' (if p = 0 then live else (p, n) :: live) := by
  have hsize := (blockSizeFor_spec h1 hn).2.2.1
  cases hout with
  | @reuse pre post b m' hsplit hfits hfirst hsame =>
      subst hsplit
      have hfit : b.free = true ∧ blockSizeFor n ≤ b.size := by simpa [Block.fits] using hfits
      obtain ⟨c, hc, hcf, hca, hcs, honly⟩ := mem_carve_used hfit.2
      rw [if_neg (by omega), ← hca]
      refine hlive.add (List.mem_append_left _ (List.mem_append_right _ hc)) hcf h1
        (by omega) ?_ ?_ ?_
      · intro d hd hdf
        rcases List.mem_append.mp hd with hd | hd
        · simp [hd]
        · rcases List.mem_cons.mp hd with rfl | hd
          · rw [hfit.1] at hdf
            cases hdf
          · simp [hd]
      · intro d hd hdf
        rcases List.mem_append.mp hd with hd | hd
        · rcases List.mem_append.mp hd with hd | hd
          · exact Or.inr (by simp [hd])
          · exact Or.inl (honly d hd hdf)
        · exact Or.inr (by simp [hd])
      · intro d hd hdf heq
        have : d = b := hrep.ok.tiles.eq_of_addr hd (by simp) (heq.trans hca)
        rw [this, hfit.1] at hdf
        cases hdf
  | extend hfull hroom hsame =>
      rw [if_neg (by omega)]
      refine hlive.add (c := ⟨h.heapEnd, blockSizeFor n, false⟩) (by simp) rfl h1 hsize
        (fun d hd _ => by simp [hd]) ?_ ?_
      · intro d hd _
        rcases List.mem_append.mp hd with hd | hd
        · exact Or.inr hd
        · exact Or.inl (List.mem_singleton.mp hd)
      · intro d hd _ heq
        have := (hrep.ok.tiles.bounds d hd).2
        unfold Block.stop at this
        dsimp only at heq
        omega
  | fail hfull hroom =>
      rw [if_pos rfl]
      exact hlive

/-! ### Release -/

theorem mem_mergeNext_of_used {b c : Block} : ∀ {post : List Block}, c ∈ post →
    c.free = false → c ∈ (mergeNext b post).2
  | d :: post, hc, hf => by
      by_cases hd : d.free = true
      · rw [mergeNext_of_free post hd]
        rcases List.mem_cons.mp hc with rfl | hc
        · rw [hd] at hf
          cases hf
        · exact hc
      · rw [mergeNext_of_used post hd]
        exact hc

/-- The used blocks of a released list are those of before other than the
released one. -/
theorem mem_releaseAt_used {pre post : List Block} {b c : Block} (hf : c.free = false) :
    c ∈ releaseAt pre b post ↔ c ∈ pre ∨ c ∈ post := by
  have hmid : (mergeNext ⟨b.addr, b.size, true⟩ post).1.free = true := by
    cases post with
    | nil => rfl
    | cons d post =>
        by_cases hd : d.free = true
        · rw [mergeNext_of_free post hd]
          rfl
        · rw [mergeNext_of_used post hd]
  have hpost : c ∈ (mergeNext ⟨b.addr, b.size, true⟩ post).2 ↔ c ∈ post :=
    ⟨mergeNext_subset _ _ c, fun h => mem_mergeNext_of_used h hf⟩
  have hne : ∀ d : Block, d.free = true → c ≠ d := fun d hd h => by
    rw [h, hd] at hf
    cases hf
  unfold releaseAt mergePrev
  simp only
  split
  · rename_i a ha
    obtain ⟨pre', rfl⟩ : ∃ pre', pre = pre' ++ [a] := List.getLast?_eq_some_iff.mp ha
    split
    · rename_i hafree
      simp [hpost, hne a hafree, hne (absorb a _) hafree]
    · simp only [List.mem_append, List.mem_cons, hpost, hne _ hmid, false_or]
  · simp only [List.mem_append, List.mem_cons, hpost, hne _ hmid, false_or]

theorem LiveOk.kfree {h : Heap} {pre post : List Block} {b : Block} {live : List (Nat × Nat)}
    (hrep : HeapRep h (pre ++ b :: post)) (hlive : LiveOk (pre ++ b :: post) live) :
    LiveOk (releaseAt pre b post) (live.filter fun e => e.1 ≠ b.addr + 24) := by
  have hapart : ∀ c, c ∈ pre ∨ c ∈ post → c.addr ≠ b.addr := by
    rintro c (hc | hc) heq
    · have := hrep.ok.tiles.before c hc
      unfold Block.stop at this
      omega
    · have := hrep.ok.tiles.behind c hc
      unfold Block.stop at this
      omega
  refine ⟨?_, ?_, ?_⟩
  · intro e he
    obtain ⟨he, hne⟩ := List.mem_filter.mp he
    simp only [ne_eq, decide_not, Bool.not_eq_true', decide_eq_false_iff_not] at hne
    obtain ⟨c, hc, hcf, hp, hrest⟩ := hlive.block e he
    refine ⟨c, (mem_releaseAt_used hcf).mpr ?_, hcf, hp, hrest⟩
    rcases List.mem_append.mp hc with hc | hc
    · exact Or.inl hc
    · rcases List.mem_cons.mp hc with rfl | hc
      · exact absurd hp hne
      · exact Or.inr hc
  · intro c hc hcf
    have hc' := (mem_releaseAt_used hcf).mp hc
    obtain ⟨e, he, hp⟩ := hlive.owned c (by rcases hc' with h | h <;> simp [h]) hcf
    refine ⟨e, List.mem_filter.mpr ⟨he, ?_⟩, hp⟩
    have := hapart c hc'
    simp only [ne_eq, decide_not, Bool.not_eq_true', decide_eq_false_iff_not]
    omega
  · exact hlive.nodup.sublist (List.filter_sublist.map _)

/-! ### Separation -/

/-- The range of a live allocation meets no block header. -/
theorem LiveOk.off_headers {h : Heap} {bs : List Block} {live : List (Nat × Nat)}
    (hrep : HeapRep h bs) (hlive : LiveOk bs live) {e : Nat × Nat} (he : e ∈ live) {x : Nat}
    (hlo : e.1 ≤ x) (hhi : x < e.1 + e.2) : ∀ c ∈ bs, x < c.addr ∨ c.addr + 24 ≤ x := by
  intro c hc
  obtain ⟨b, hb, -, hp, -, hsize⟩ := hlive.block e he
  rcases hrep.ok.tiles.disjoint b hb c hc with rfl | hle | hle
  · omega
  · unfold Block.stop at hle
    omega
  · unfold Block.stop at hle
    omega

/-- A client's write inside its range leaves every header alone. -/
theorem HeapRep.write {h : Heap} {bs : List Block} {live : List (Nat × Nat)}
    (hrep : HeapRep h bs) (hlive : LiveOk bs live) {e : Nat × Nat} (he : e ∈ live) {a : Nat}
    (hlo : e.1 ≤ a) (hhi : a < e.1 + e.2) (v : Byte) :
    HeapRep { h with mem := store8 h.mem a v } bs := by
  refine ⟨hrep.ok, hrep.list, hrep.reps.congr ?_, hrep.pos, hrep.aligned, hrep.top,
    hrep.max⟩
  intro c hc
  have hout := hlive.off_headers hrep he hlo hhi c hc
  exact readHeader_congr fun x h1 h2 => store8_outside (by omega)

/-! ### Steps -/

theorem HeapInv.step {s t : HeapClient} {e : HeapEvent} (hinv : HeapInv s)
    (hstep : HeapStep s e t) : HeapInv t := by
  obtain ⟨bs, hrep, hlive⟩ := hinv
  cases hstep with
  | @kmalloc n p h' hn hcall =>
      by_cases h1 : 1 ≤ n
      · obtain ⟨p', h'', bs', hcall', hrep', hout⟩ := kmalloc_outcome hrep h1 hn
        obtain ⟨rfl, rfl⟩ := Prod.mk.inj (Except.ok.inj (hcall.symm.trans hcall'))
        exact ⟨bs', hrep', hlive.kmalloc hrep h1 hn hout⟩
      · obtain rfl : n = 0 := by omega
        rw [kmalloc_zero] at hcall
        obtain ⟨rfl, rfl⟩ := Prod.mk.inj (Except.ok.inj hcall)
        exact ⟨bs, hrep, hlive⟩
  | @kfree p n h' warned hmem hcall =>
      obtain ⟨b, hb, hbf, hp, -⟩ := hlive.block _ hmem
      obtain ⟨pre, post, rfl⟩ := List.append_of_mem hb
      obtain ⟨m', hcall', hrep', -⟩ := kfree_live hrep hbf
      have hp' : p = b.addr + 24 := hp
      subst hp'
      obtain ⟨rfl, -⟩ := Prod.mk.inj (Except.ok.inj (hcall.symm.trans hcall'))
      exact ⟨releaseAt pre b post, hrep', hlive.kfree hrep⟩
  | @write a p n v hmem hlo hhi =>
      exact ⟨bs, hrep.write hlive hmem hlo hhi v, hlive⟩

theorem HeapInv.of_run {kernelEnd : Nat} {m : Mem} {p : Pmm}
    (hlim : heapLimit kernelEnd < 2147483648) {es : List HeapEvent} {s : HeapClient}
    (hrun : Run HeapStep ⟨(kmallocInit kernelEnd m p).1, []⟩ es s) : HeapInv s :=
  hrun.invariant (heapInv_init m hlim) HeapInv.step

/-- The calls a client may make return. -/
theorem HeapInv.progress {s : HeapClient} (hinv : HeapInv s) :
    (∀ n ≤ 0x7FFFFFE0, ∃ p h', kmalloc s.heap n = .ok (p, h'))
      ∧ ∀ e ∈ s.live, ∃ h', kfree s.heap e.1 = .ok (h', false) := by
  obtain ⟨bs, hrep, hlive⟩ := hinv
  refine ⟨?_, ?_⟩
  · intro n hn
    by_cases h1 : 1 ≤ n
    · obtain ⟨p, h', -, hcall, -⟩ := kmalloc_outcome hrep h1 hn
      exact ⟨p, h', hcall⟩
    · obtain rfl : n = 0 := by omega
      exact ⟨0, s.heap, kmalloc_zero s.heap⟩
  · intro e he
    obtain ⟨b, hb, hbf, hp, -⟩ := hlive.block e he
    obtain ⟨pre, post, rfl⟩ := List.append_of_mem hb
    obtain ⟨m', hcall, -⟩ := kfree_live hrep hbf
    rw [hp]
    exact ⟨_, hcall⟩

/-! ## The block list -/

/-- The list of blocks from `block_list`, read in memory: `l` are the
addresses the walk through `next` visits. -/
structure BlockListOk (h : Heap) (l : List Nat) : Prop where
  linked : Linked (nextBlock h.mem) (ptr h.blockList) l none
  nodup : l.Nodup
  empty : l = [] → h.heapStart = h.heapEnd
  first : ∀ b ∈ l.head?, b = h.heapStart ∧ (readHeader h.mem b).prev = 0
  adjacent : ∀ {pre post : List Nat} {b c : Nat}, l = pre ++ b :: c :: post →
    c = b + headerSize + (readHeader h.mem b).size
      ∧ (readHeader h.mem b).next = c ∧ (readHeader h.mem c).prev = b
      ∧ ¬((readHeader h.mem b).free ≠ 0#8 ∧ (readHeader h.mem c).free ≠ 0#8)
  last : ∀ b ∈ l.getLast?, b + headerSize + (readHeader h.mem b).size = h.heapEnd
    ∧ (readHeader h.mem b).next = 0
  block : ∀ b ∈ l, (readHeader h.mem b).magic = blockMagic
    ∧ (readHeader h.mem b).size % 8 = 0 ∧ 16 ≤ (readHeader h.mem b).size

theorem Tiles.nodup_addr : ∀ {bs : List Block} {lo hi : Nat}, Tiles lo bs hi →
    (bs.map Block.addr).Nodup
  | [], _, _, _ => List.nodup_nil
  | b :: bs, lo, hi, ⟨_, hbs⟩ => by
      rw [List.map_cons, List.nodup_cons]
      refine ⟨?_, hbs.nodup_addr⟩
      intro hmem
      obtain ⟨c, hc, heq⟩ := List.mem_map.mp hmem
      have := (hbs.bounds c hc).1
      unfold Block.stop at this
      omega

theorem headerOf_free_ne_zero (b : Block) (next prev : Nat) :
    (headerOf b next prev).free ≠ 0#8 ↔ b.free = true := by
  cases hf : b.free <;> simp [headerOf, hf]

theorem HeapRep.blockListOk {h : Heap} {bs : List Block} (hrep : HeapRep h bs) :
    BlockListOk h (bs.map Block.addr) := by
  refine ⟨hrep.linked, hrep.ok.tiles.nodup_addr, ?_, ?_, ?_, ?_, ?_⟩
  · intro hnil
    obtain rfl := List.map_eq_nil_iff.mp hnil
    exact hrep.ok.tiles
  · cases bs with
    | nil => simp
    | cons b bs =>
        rintro _ ⟨⟩
        refine ⟨hrep.ok.tiles.1, ?_⟩
        rw [hrep.reps.1]
        rfl
  · intro pre post b c hsplit
    obtain ⟨xs, ys, rfl, -, hys⟩ := List.map_eq_append_iff.mp hsplit
    obtain ⟨x, zs, rfl, rfl, hzs⟩ := List.map_eq_cons_iff.mp hys
    obtain ⟨y, ys, rfl, rfl, -⟩ := List.map_eq_cons_iff.mp hzs
    have hx := hrep.reps.header
    have hy : readHeader h.mem y.addr = headerOf y (headOr 0 ys) (lastOr 0 (xs ++ [x])) :=
      Reps.header (by simpa using hrep.reps)
    have hnext : y.addr = x.stop := hrep.ok.tiles.around.2.1
    have hapart : x.Apart y := (isChain_around.mp hrep.ok.apart).2.2.2 y rfl
    refine ⟨?_, ?_, ?_, ?_⟩
    · rw [hx, hnext, headerSize_eq]
      rfl
    · rw [hx]
      rfl
    · rw [hy, lastOr_concat]
      rfl
    · rw [hx, hy, headerOf_free_ne_zero, headerOf_free_ne_zero]
      exact hapart
  · rcases List.eq_nil_or_concat bs with rfl | ⟨xs, x, rfl⟩
    · simp
    · rw [List.concat_eq_append] at *
      intro b hb
      obtain rfl : x.addr = b := by simpa using hb
      have hx := hrep.reps.header
      have hend : x.stop = h.heapEnd := hrep.ok.tiles.around.2
      rw [hx, headerSize_eq]
      exact ⟨hend, rfl⟩
  · intro b hb
    obtain ⟨x, hx, rfl⟩ := List.mem_map.mp hb
    have hsized := hrep.ok.sized x hx
    obtain ⟨pre, post, rfl⟩ := List.append_of_mem hx
    rw [hrep.reps.header]
    exact ⟨rfl, hsized⟩

/-- Along every run from `kmalloc_init` the block list tiles the heap, and
the allocator keeps returning. -/
theorem heapRun_blockListOk {kernelEnd : Nat} {m : Mem} {p : Pmm}
    (hlim : heapLimit kernelEnd < 2147483648) {es : List HeapEvent} {s : HeapClient}
    (hrun : Run HeapStep ⟨(kmallocInit kernelEnd m p).1, []⟩ es s) :
    (∃ l, BlockListOk s.heap l)
      ∧ (∀ n ≤ 0x7FFFFFE0, ∃ p h', kmalloc s.heap n = .ok (p, h'))
      ∧ ∀ e ∈ s.live, ∃ h', kfree s.heap e.1 = .ok (h', false) := by
  have hinv := HeapInv.of_run hlim hrun
  obtain ⟨bs, hrep, -⟩ := id hinv
  exact ⟨⟨_, hrep.blockListOk⟩, hinv.progress⟩

theorem heapRun_blockListOk_reuse : ∃ s, Run HeapStep
      ⟨(kmallocInit 0x200000 (fun _ => 0#8) (allUsed 0)).1, []⟩
      [.kmalloc 10, .kfree 0x210018] s ∧ ∃ l, BlockListOk s.heap l := by
  obtain ⟨h, hcall⟩ : ∃ h, kmalloc (kmallocInit 0x200000 (fun _ => 0#8) (allUsed 0)).1 10
      = .ok (0x210018, h) := eq_ok_of_fst (by decide +kernel)
  have hrun := Run.snoc .nil (HeapStep.kmalloc (s := ⟨_, []⟩) (n := 10) (by decide) hcall)
  obtain ⟨h', hfree⟩ := (heapRun_blockListOk (p := allUsed 0) (by decide) hrun).2.2
    (0x210018, 10) List.mem_cons_self
  have hrun' := hrun.snoc (HeapStep.kfree List.mem_cons_self hfree)
  exact ⟨_, hrun', (heapRun_blockListOk (p := allUsed 0) (by decide) hrun').1⟩

/-! ## Separation of the allocations -/

/-- Two ranges, given by their start and length, do not meet. -/
def RangesApart (e f : Nat × Nat) : Prop := e.1 + e.2 ≤ f.1 ∨ f.1 + f.2 ≤ e.1

/-- `m'` and `m` agree on the range `e`. -/
def SameOn (e : Nat × Nat) (m m' : Mem) : Prop := ∀ x, e.1 ≤ x → x < e.1 + e.2 → m' x = m x

structure LiveSeparate (s : HeapClient) : Prop where
  aligned : ∀ e ∈ s.live, e.1 % 8 = 0
  inside : ∀ e ∈ s.live, s.heap.heapStart ≤ e.1 ∧ e.1 + e.2 ≤ s.heap.heapEnd
  apart : s.live.Pairwise RangesApart
  headers : ∃ l, Linked (nextBlock s.heap.mem) (ptr s.heap.blockList) l none
    ∧ ∀ e ∈ s.live, ∀ b ∈ l, RangesApart e (b, headerSize)
  kmalloc : ∀ {n p : Nat} {h' : Heap}, n ≤ 0x7FFFFFE0 → kmalloc s.heap n = .ok (p, h') →
    ∀ e ∈ s.live, SameOn e s.heap.mem h'.mem
  kfree : ∀ {p n : Nat} {h' : Heap} {warned : Bool}, (p, n) ∈ s.live →
    kfree s.heap p = .ok (h', warned) → ∀ e ∈ s.live, e.1 ≠ p → SameOn e s.heap.mem h'.mem

theorem LiveOk.pairwise {bs : List Block} {live : List (Nat × Nat)} {lo hi : Nat}
    (hlive : LiveOk bs live) (ht : Tiles lo bs hi) : live.Pairwise RangesApart := by
  have hne : live.Pairwise fun e f => e.1 ≠ f.1 := List.pairwise_map.mp hlive.nodup
  refine hne.imp_of_mem fun {e f} he hf hne => ?_
  obtain ⟨b, hb, -, hp, -, hsize⟩ := hlive.block e he
  obtain ⟨c, hc, -, hq, -, hsize'⟩ := hlive.block f hf
  unfold RangesApart
  rcases ht.disjoint b hb c hc with rfl | hle | hle
  · exact absurd (hp.trans hq.symm) hne
  · unfold Block.stop at hle
    omega
  · unfold Block.stop at hle
    omega

/-- A request writes headers of the old and of the new block list, and both
are clear of what is live. -/
theorem LiveOk.kmalloc_sameOn {h h' : Heap} {bs bs' : List Block} {live : List (Nat × Nat)}
    {n p : Nat} (hrep : HeapRep h bs) (hrep' : HeapRep h' bs') (hlive : LiveOk bs live)
    (h1 : 1 ≤ n) (hn : n ≤ 0x7FFFFFE0) (hout : KmallocOutcome h bs (blockSizeFor n) p h' bs')
    {e : Nat × Nat} (he : e ∈ live) : SameOn e h.mem h'.mem := by
  have hlive' := hlive.kmalloc hrep h1 hn hout
  have he' : e ∈ if p = 0 then live else (p, n) :: live := by
    split
    · exact he
    · exact List.mem_cons_of_mem _ he
  intro x hlo hhi
  have hold := hlive.off_headers hrep he hlo hhi
  have hnew := hlive'.off_headers hrep' he' hlo hhi
  cases hout with
  | reuse hsplit hfits hfirst hsame =>
      refine hsame x ?_
      intro b hb
      rcases List.mem_append.mp hb with hb | hb
      · exact hold b hb
      · exact hnew b hb
  | extend hfull hroom hsame => exact hsame x hnew
  | fail hfull hroom => rfl

theorem HeapInv.liveSeparate {s : HeapClient} (hinv : HeapInv s) : LiveSeparate s := by
  obtain ⟨bs, hrep, hlive⟩ := hinv
  have ht := hrep.ok.tiles
  refine ⟨?_, ?_, hlive.pairwise ht, ⟨_, hrep.linked, ?_⟩, ?_, ?_⟩
  · intro e he
    obtain ⟨b, hb, -, hp, -⟩ := hlive.block e he
    have := ht.aligned hrep.ok.sized hrep.aligned b hb
    omega
  · intro e he
    obtain ⟨b, hb, -, hp, -, hsize⟩ := hlive.block e he
    have hbound := ht.bounds b hb
    unfold Block.stop at hbound
    omega
  · intro e he a ha
    obtain ⟨c, hc, rfl⟩ := List.mem_map.mp ha
    obtain ⟨b, hb, -, hp, -, hsize⟩ := hlive.block e he
    unfold RangesApart
    rw [headerSize_eq]
    rcases ht.disjoint b hb c hc with rfl | hle | hle
    · omega
    · unfold Block.stop at hle
      omega
    · unfold Block.stop at hle
      omega
  · intro n p h' hn hcall e he
    by_cases h1 : 1 ≤ n
    · obtain ⟨p', h'', bs', hcall', hrep', hout⟩ := kmalloc_outcome hrep h1 hn
      obtain ⟨rfl, rfl⟩ := Prod.mk.inj (Except.ok.inj (hcall.symm.trans hcall'))
      exact hlive.kmalloc_sameOn hrep hrep' h1 hn hout he
    · obtain rfl : n = 0 := by omega
      rw [kmalloc_zero] at hcall
      obtain ⟨rfl, rfl⟩ := Prod.mk.inj (Except.ok.inj hcall)
      exact fun _ _ _ => rfl
  · intro p n h' warned hmem hcall e he hne x hlo hhi
    obtain ⟨b, hb, hbf, hp, -⟩ := hlive.block _ hmem
    have hp' : p = b.addr + 24 := hp
    subst hp'
    have hoff := hlive.off_headers hrep he hlo hhi
    obtain ⟨pre, post, rfl⟩ := List.append_of_mem hb
    obtain ⟨m', hcall', -, hsame⟩ := kfree_live hrep hbf
    obtain ⟨rfl, -⟩ := Prod.mk.inj (Except.ok.inj (hcall.symm.trans hcall'))
    exact hsame x hoff

/-- Along every run live allocations keep apart from each other and from the
headers, and no call touches the bytes of another allocation. -/
theorem heapRun_liveSeparate {kernelEnd : Nat} {m : Mem} {p : Pmm}
    (hlim : heapLimit kernelEnd < 2147483648) {es : List HeapEvent} {s : HeapClient}
    (hrun : Run HeapStep ⟨(kmallocInit kernelEnd m p).1, []⟩ es s) : LiveSeparate s :=
  (HeapInv.of_run hlim hrun).liveSeparate

/-- Two live allocations with a free block between them, and a write into the
first. -/
theorem heapRun_liveSeparate_write : ∃ s, Run HeapStep
      ⟨(kmallocInit 0x200000 (fun _ => 0#8) (allUsed 0)).1, []⟩
      [.kmalloc 24, .kmalloc 100, .kmalloc 10, .kfree 0x210048, .write 0x21001A 7#8] s
    ∧ s.live = [(0x2100C8, 10), (0x210018, 24)] ∧ LiveSeparate s := by
  obtain ⟨s, hrun, hlive⟩ := execSteps_observe heapExec_step
    ⟨(kmallocInit 0x200000 (fun _ => 0#8) (allUsed 0)).1, []⟩
    [.kmalloc 24, .kmalloc 100, .kmalloc 10, .kfree 0x210048, .write 0x21001A 7#8]
    (fun s => s.live = [(0x2100C8, 10), (0x210018, 24)]) (by decide +kernel)
  exact ⟨s, hrun, hlive, heapRun_liveSeparate (p := allUsed 0) (by decide) hrun⟩

end Kfs
