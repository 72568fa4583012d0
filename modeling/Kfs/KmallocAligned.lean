import Kfs.KmallocDoubleFree
import Kfs.KmallocStats

/-!
# Aligned allocations

`kmalloc_aligned` asks for `size + alignment` bytes and moves the pointer up
to a multiple of the alignment. What it returns lies inside the block in any
case; but `kfree` looks for the header right below the pointer it is given,
and finds it only if the pointer did not move. That is a matter of where the
block that serves the request stands (`AlignedBlock`): payloads are at
multiples of 8, and of nothing more.
-/

namespace Kfs

def kmallocAligned (h : Heap) (size alignment : Nat) : Except Fault (Nat × Heap) := do
  let (p, h) ← kmalloc h (add32 size alignment)
  if p = 0 then return (0, h)
  return (sub32 (add32 p alignment) 1 &&& (0xFFFFFFFF ^^^ sub32 alignment 1), h)

/-! ## Runs with aligned requests -/

inductive AlignedEvent where
  | heap (e : HeapEvent)
  | kmallocAligned (size alignment : Nat)

/-- As `HeapStep`, with requests for a multiple of a power of two. -/
inductive AlignedStep : HeapClient → AlignedEvent → HeapClient → Prop where
  | heap {s t : HeapClient} {e : HeapEvent} (h : HeapStep s e t) : AlignedStep s (.heap e) t
  | kmallocAligned {s : HeapClient} {n k q : Nat} {h' : Heap} (h1 : 1 ≤ n)
      (hn : n + 2 ^ k ≤ 0x7FFFFFE0) (hcall : kmallocAligned s.heap n (2 ^ k) = .ok (q, h')) :
      AlignedStep s (.kmallocAligned n (2 ^ k)) ⟨h', if q = 0 then s.live else (q, n) :: s.live⟩

/-- The block that serves the request, the lowest free one that is large
enough or else a new one at the end of the heap, has its payload at a multiple
of the alignment. -/
def AlignedBlock (h : Heap) (size alignment : Nat) : Prop :=
  ∀ bs, Reads h bs →
    (∀ b, Lowest (roundedSize (size + alignment)) bs b → alignment ∣ b.addr + headerSize)
      ∧ ((∀ b, ¬Lowest (roundedSize (size + alignment)) bs b) →
        h.heapEnd + headerSize + roundedSize (size + alignment) ≤ h.heapMax →
          alignment ∣ h.heapEnd + headerSize)

def AlignedEvent.OnPayload (h : Heap) : AlignedEvent → Prop
  | .heap _ => True
  | .kmallocAligned size alignment => AlignedBlock h size alignment

def PayloadStep (s : HeapClient) (e : AlignedEvent) (t : HeapClient) : Prop :=
  AlignedStep s e t ∧ e.OnPayload s.heap

/-- The `size` bytes at `q` are aligned and lie in the payload of one used
block, away from the live allocations. -/
structure AlignedPlaced (s : HeapClient) (size alignment q : Nat) (h' : Heap) : Prop where
  aligned : alignment ∣ q
  block : ∃ bs, Reads h' bs
    ∧ ∃! b, b ∈ bs ∧ b.free = false ∧ b.addr + headerSize ≤ q ∧ q + size ≤ b.stop
  apart : ∀ e ∈ s.live, RangesApart (q, size) e

/-- And `kfree` takes them back: the used blocks are again those of the live
allocations, as many as before. -/
structure AlignedOk (s : HeapClient) (size alignment q : Nat) (h' : Heap) : Prop
    extends AlignedPlaced s size alignment q h' where
  released : ∃ h'', kfree h' q = .ok (h'', false) ∧ ∃ bs, Reads h'' bs ∧ LiveOk bs s.live
  counted : ∃ h'' stats stats'', kfree h' q = .ok (h'', false)
    ∧ kmallocGetStats s.heap = .ok stats ∧ kmallocGetStats h'' = .ok stats''
    ∧ stats''.numAllocations = stats.numAllocations

/-! ## The pointer -/

section Pointer

variable {k p a : Nat}

/-- `~(alignment - 1)`. -/
theorem xor_lowMask (hk : k ≤ 32) : 0xFFFFFFFF ^^^ (2 ^ k - 1) = 2 ^ 32 - 2 ^ k := by
  apply Nat.eq_of_testBit_eq
  intro i
  rw [testBit_highMask hk, show 0xFFFFFFFF = 2 ^ 32 - 1 from rfl, Nat.testBit_xor,
    Nat.testBit_two_pow_sub_one, Nat.testBit_two_pow_sub_one]
  by_cases hik : i < k
  · have h32 : i < 32 := by omega
    simp [hik, h32]
  · simp [hik, Nat.not_lt.mp hik]

theorem alignPointer (hk : k ≤ 32) (hp : 0 < p) (hlt : p + 2 ^ k < 4294967296) :
    sub32 (add32 p (2 ^ k)) 1 &&& (0xFFFFFFFF ^^^ sub32 (2 ^ k) 1)
      = (p + 2 ^ k - 1) / 2 ^ k * 2 ^ k := by
  have hpos : 1 ≤ 2 ^ k := Nat.one_le_two_pow
  rw [add32_of_lt hlt, sub32_of_le (by omega) hlt, sub32_of_le hpos (by omega), xor_lowMask hk]
  exact and_highMask hk (by omega)

/-- The least multiple that is not below `p`. -/
theorem roundUp_spec (ha : 0 < a) (hp : 0 < p) :
    a ∣ (p + a - 1) / a * a ∧ p ≤ (p + a - 1) / a * a ∧ (p + a - 1) / a * a < p + a
      ∧ (a ∣ p ↔ (p + a - 1) / a * a = p) := by
  have hmod := Nat.div_add_mod (p + a - 1) a
  have hlt := Nat.mod_lt (p + a - 1) ha
  rw [Nat.mul_comm] at hmod
  have hdvd : a ∣ (p + a - 1) / a * a := Nat.dvd_mul_left _ _
  generalize (p + a - 1) / a * a = q at *
  refine ⟨hdvd, by omega, by omega, fun h => ?_, fun h => h ▸ hdvd⟩
  have hzero : q - p = 0 := Nat.eq_zero_of_dvd_of_lt (Nat.dvd_sub hdvd h) (by omega)
  omega

end Pointer

/-! ## The call -/

section Call

variable {s : HeapClient} {n k : Nat}

/-- The blocks that are read at a list of addresses. -/
theorem Reads.eq_map {h : Heap} {bs : List Block} (hbs : Reads h bs) :
    (bs.map Block.addr).map (fun a =>
      ⟨a, (readHeader h.mem a).size, decide ((readHeader h.mem a).free ≠ 0#8)⟩) = bs := by
  rw [List.map_map]
  refine (List.map_congr_left fun b hb => ?_).trans (List.map_id bs)
  have hfree : decide ((readHeader h.mem b.addr).free ≠ 0#8) = b.free :=
    Bool.eq_iff_iff.mpr (decide_eq_true_iff.trans (hbs.free b hb))
  rw [Function.comp_apply, hbs.size b hb, hfree]
  rfl

theorem Reads.unique {h : Heap} {bs cs : List Block} (hbs : Reads h bs) (hcs : Reads h cs) :
    bs = cs := by
  rw [← hbs.eq_map, ← hcs.eq_map, hbs.linked.unique hcs.linked]

/-- A pointer is one to the payload of a used block. -/
theorem HeapInv.granted (hinv : HeapInv s) {p : Nat} {h' : Heap} (hn : n ≤ 0x7FFFFFE0)
    (hcall : kmalloc s.heap n = .ok (p, h')) (hp : p ≠ 0) :
    ∃ bs b, HeapRep h' bs ∧ LiveOk bs ((p, n) :: s.live) ∧ b ∈ bs ∧ b.free = false
      ∧ p = b.addr + 24 ∧ 1 ≤ n ∧ n ≤ b.size ∧ p + b.size < 2147483648 := by
  have hinv' := hinv.step (HeapStep.kmalloc hn hcall)
  rw [if_neg hp] at hinv'
  obtain ⟨bs, hrep, hlive⟩ := hinv'
  obtain ⟨b, hb, hused, hpb, h1, hsize⟩ := hlive.block _ List.mem_cons_self
  have haddr := hrep.addr hb
  exact ⟨bs, b, hrep, hlive, hb, hused, hpb, h1, hsize, by dsimp only at hpb; omega⟩

/-- A request for `n + 2 ^ k` bytes, and the pointer moved up. -/
theorem kmallocAligned_call (hinv : HeapInv s) (h1 : 1 ≤ n) (hn : n + 2 ^ k ≤ 0x7FFFFFE0) :
    ∃ p h', kmalloc s.heap (n + 2 ^ k) = .ok (p, h')
      ∧ kmallocAligned s.heap n (2 ^ k)
        = .ok (if p = 0 then 0 else (p + 2 ^ k - 1) / 2 ^ k * 2 ^ k, h')
      ∧ (AlignedBlock s.heap n (2 ^ k) ↔ 2 ^ k ∣ p) := by
  obtain ⟨bs, hrep, hlive⟩ := hinv
  obtain ⟨p, h', hcall, hfit⟩ := HeapInv.firstFit hrep hlive (Nat.le_add_right_of_le h1) hn
  have hk : k ≤ 32 := by
    by_contra hk
    have := Nat.pow_le_pow_right (show 0 < 2 by omega) (show 33 ≤ k by omega)
    omega
  refine ⟨p, h', hcall, ?_, fun hblock => ?_, fun hdvd cs hcs => ?_⟩
  · have hsum : add32 n (2 ^ k) = n + 2 ^ k := add32_of_lt (by omega)
    unfold kmallocAligned
    rw [hsum, hcall]
    by_cases hp : p = 0
    · subst hp
      rfl
    · obtain ⟨-, b, -, -, -, -, hpb, -, hsize, hlt⟩ := HeapInv.granted ⟨bs, hrep, hlive⟩ hn hcall hp
      have hpointer := alignPointer hk (show 0 < p by omega) (by omega)
      rw [if_neg hp, ← hpointer]
      exact if_neg hp
  · by_cases hp : p = 0
    · rw [hp]
      exact Nat.dvd_zero _
    obtain ⟨hlow, hend⟩ := hblock bs hrep.reads
    by_cases hex : ∃ b, Lowest (roundedSize (n + 2 ^ k)) bs b
    · obtain ⟨b, hb⟩ := hex
      rw [(hfit.reuse b hb).1]
      exact hlow b hb
    · have hnone : ∀ b, ¬Lowest (roundedSize (n + 2 ^ k)) bs b := fun b hb => hex ⟨b, hb⟩
      have hroom : s.heap.heapEnd + headerSize + roundedSize (n + 2 ^ k) ≤ s.heap.heapMax :=
        Nat.le_of_not_lt fun hlt => hp (hfit.refused.mpr ⟨hnone, hlt⟩)
      rw [(hfit.extend hnone hroom).1]
      exact hend hnone hroom
  · obtain rfl := hcs.unique hrep.reads
    refine ⟨fun b hb => ?_, fun hnone hroom => ?_⟩
    · rw [← (hfit.reuse b hb).1]
      exact hdvd
    · rw [← (hfit.extend hnone hroom).1]
      exact hdvd

/-- An aligned pointer lies inside the block, and away from what is live. -/
theorem HeapInv.alignedPlaced (hinv : HeapInv s) {p q a : Nat} {h' : Heap} (h1 : 1 ≤ n)
    (hn : n + a ≤ 0x7FFFFFE0) (hcall : kmalloc s.heap (n + a) = .ok (p, h')) (hp : p ≠ 0)
    (hq : a ∣ q) (hlo : p ≤ q) (hhi : q < p + a) : AlignedPlaced s n a q h' := by
  obtain ⟨bs, b, hrep, hlive, hb, hused, hpb, -, hsize, -⟩ := hinv.granted hn hcall hp
  refine ⟨hq, ⟨bs, hrep.reads, ?_⟩, fun e he => ?_⟩
  rw [headerSize_eq]
  refine ⟨b, ⟨hb, hused, by omega, ?_⟩, ?_⟩
  · unfold Block.stop
    omega
  · rintro c ⟨hc, -, hclo, hchi⟩
    unfold Block.stop at hchi
    rcases hrep.ok.tiles.disjoint c hc b hb with heq | hle | hle
    · exact heq
    · unfold Block.stop at hle
      omega
    · unfold Block.stop at hle
      omega
  · have hapart := (List.pairwise_cons.mp (hlive.pairwise hrep.ok.tiles)).1 e he
    unfold RangesApart at hapart ⊢
    omega

/-- With its pointer where the block's payload starts, the request is one for
`n + 2 ^ k` bytes. -/
theorem HeapInv.alignedOk (hinv : HeapInv s) (h1 : 1 ≤ n) (hn : n + 2 ^ k ≤ 0x7FFFFFE0) {p : Nat}
    {h' : Heap} (hcall : kmalloc s.heap (n + 2 ^ k) = .ok (p, h')) (hp : p ≠ 0)
    (hdvd : 2 ^ k ∣ p) : AlignedOk s n (2 ^ k) p h' := by
  have hplaced := hinv.alignedPlaced h1 hn hcall hp hdvd (Nat.le_refl p)
    (Nat.lt_add_of_pos_right Nat.one_le_two_pow)
  obtain ⟨bs, b, hrep, hlive, hb, hused, hpb, -, hsize, -⟩ := hinv.granted hn hcall hp
  obtain ⟨h'', hfree⟩ := HeapInv.progress (s := ⟨h', (p, n + 2 ^ k) :: s.live⟩) ⟨bs, hrep, hlive⟩
    |>.2 _ List.mem_cons_self
  obtain ⟨cs, hrep'', hlive''⟩ := hinv.kmalloc_kfree hn hcall hp hfree
  obtain ⟨bs0, hrep0, hlive0⟩ := hinv
  refine ⟨hplaced, ⟨h'', hfree, cs, hrep''.reads, hlive''⟩,
    h'', _, _, hfree, hrep0.stats, hrep''.stats, ?_⟩
  have hbefore := (hlive0.perm hrep0.ok.tiles).length_eq
  have hafter := (hlive''.perm hrep''.ok.tiles).length_eq
  rw [List.length_map, List.length_map] at hbefore hafter
  exact hafter.symm.trans hbefore

/-- Below a pointer that was moved there is no header, unless the payload
holds the magic word. -/
theorem not_alignedOk {a q : Nat} {h' : Heap} (hq : 24 ≤ q) (hlt : q < 4294967296)
    (hmagic : (readHeader h'.mem (q - headerSize)).magic ≠ blockMagic) : ¬AlignedOk s n a q h' := by
  rw [headerSize_eq] at hmagic
  intro hok
  obtain ⟨h'', hfree, -⟩ := hok.released
  have hpanic := kfree_header (h := h') (g := q - 24) (by omega)
  rw [Nat.sub_add_cancel hq, if_pos hmagic, hfree] at hpanic
  cases hpanic

/-- Payloads are at multiples of 8. -/
theorem HeapInv.alignedBlock (hinv : HeapInv s) (h1 : 1 ≤ n) (hn : n + 2 ^ k ≤ 0x7FFFFFE0)
    (hk : 2 ^ k ≤ 8) : AlignedBlock s.heap n (2 ^ k) := by
  obtain ⟨p, h', hcall, -, hblock⟩ := kmallocAligned_call hinv h1 hn
  by_cases hp : p = 0
  · exact hblock.mpr (hp ▸ Nat.dvd_zero _)
  · obtain ⟨bs, b, hrep, -, hb, -, hpb, -⟩ := hinv.granted hn hcall hp
    have hmod := hrep.ok.tiles.aligned hrep.ok.sized hrep.aligned b hb
    have hle : k ≤ 3 := (Nat.pow_le_pow_iff_right (by omega)).mp (show 2 ^ k ≤ 2 ^ 3 from hk)
    have hdvd : 2 ^ k ∣ 8 := Nat.pow_dvd_pow 2 hle
    exact hblock.mpr (hdvd.trans (Nat.dvd_of_mod_eq_zero (by omega)))

/-! ## Runs -/

/-- A request whose pointer stays is as good as one for `n + 2 ^ k` bytes. -/
theorem HeapInv.payloadStep {t : HeapClient} {e : AlignedEvent} (hinv : HeapInv s)
    (hstep : PayloadStep s e t) : HeapInv t := by
  obtain ⟨hstep, honpayload⟩ := hstep
  cases hstep with
  | heap h => exact hinv.step h
  | @kmallocAligned n k q h' h1 hn hcall =>
      obtain ⟨p, h'', hcall', haligned, hblock⟩ := kmallocAligned_call hinv h1 hn
      obtain ⟨rfl, rfl⟩ := Prod.mk.inj (Except.ok.inj (hcall.symm.trans haligned))
      by_cases hp : p = 0
      · have hinv' := hinv.step (HeapStep.kmalloc hn hcall')
        rw [if_pos hp] at hinv' ⊢
        exact hinv'
      · have hround := roundUp_spec (Nat.two_pow_pos k) (Nat.pos_of_ne_zero hp)
        rw [if_neg hp, hround.2.2.2.mp (hblock.mp honpayload), if_neg hp]
        obtain ⟨bs, b, hrep, hlive, hb, hused, hpb, -, hsize, -⟩ := hinv.granted hn hcall' hp
        refine ⟨bs, hrep, ⟨fun e he => ?_, fun c hc hcf => ?_, hlive.nodup⟩⟩
        · rcases List.mem_cons.mp he with rfl | he
          · exact ⟨b, hb, hused, hpb, h1, Nat.le_of_add_right_le hsize⟩
          · exact hlive.block e (List.mem_cons_of_mem _ he)
        · obtain ⟨e, he, hec⟩ := hlive.owned c hc hcf
          rcases List.mem_cons.mp he with rfl | he
          · exact ⟨(p, n), List.mem_cons_self, hec⟩
          · exact ⟨e, List.mem_cons_of_mem _ he, hec⟩

end Call

/-- When every pointer a run was given is one to a payload, an aligned request
is a real allocation if its block is aligned. If the block is not, the pointer
is in its place but cannot be given back, unless the payload happens to hold
the magic word. -/
theorem alignedRun_ok {kernelEnd : Nat} {m : Mem} {q : Pmm}
    (hlim : heapLimit kernelEnd < 2147483648) {es : List AlignedEvent} {s : HeapClient}
    (hrun : Run PayloadStep ⟨(kmallocInit kernelEnd m q).1, []⟩ es s) {n a : Nat} (h1 : 1 ≤ n)
    (ha : ∃ k, a = 2 ^ k) (hn : n + a ≤ 0x7FFFFFE0) :
    ∃ p h', kmallocAligned s.heap n a = .ok (p, h')
      ∧ (p ≠ 0 → AlignedPlaced s n a p h'
        ∧ (AlignedBlock s.heap n a → AlignedOk s n a p h')
        ∧ (¬AlignedBlock s.heap n a →
          (readHeader h'.mem (p - headerSize)).magic ≠ blockMagic → ¬AlignedOk s n a p h'))
      ∧ (a ≤ 8 → AlignedBlock s.heap n a) := by
  have hinv : HeapInv s := hrun.invariant (heapInv_init m hlim) HeapInv.payloadStep
  obtain ⟨k, rfl⟩ := ha
  obtain ⟨p, h', hcall, haligned, hblock⟩ := kmallocAligned_call hinv h1 hn
  refine ⟨_, h', haligned, fun hp0 => ?_, hinv.alignedBlock h1 hn⟩
  have hp : p ≠ 0 := fun hp => hp0 (if_pos hp)
  obtain ⟨hdvd, hlo, hhi, hstay⟩ := roundUp_spec (Nat.two_pow_pos k) (Nat.pos_of_ne_zero hp)
  obtain ⟨bs, b, -, -, -, -, hpb, -, -, hlt⟩ := hinv.granted hn hcall hp
  rw [if_neg hp]
  refine ⟨hinv.alignedPlaced h1 hn hcall hp hdvd hlo hhi, fun honpayload => ?_, fun _ hmagic => ?_⟩
  · have hpayload := hblock.mp honpayload
    rw [hstay.mp hpayload]
    exact hinv.alignedOk h1 hn hcall hp hpayload
  · exact not_alignedOk (by omega) (by omega) hmagic

/-- Two requests for multiples of 8. -/
theorem alignedRun_ok_twice : ∃ s, Run PayloadStep
      ⟨(kmallocInit 0x200000 (fun _ => 0#8) (allUsed 0)).1, []⟩ [.kmallocAligned 16 8] s
    ∧ ∃ p h', kmallocAligned s.heap 10 8 = .ok (p, h') ∧ (p ≠ 0 → AlignedOk s 10 8 p h') := by
  have hinit : HeapInv ⟨(kmallocInit 0x200000 (fun _ => 0#8) (allUsed 0)).1, []⟩ :=
    heapInv_init (fun _ => 0#8) (by decide)
  obtain ⟨p, h, -, hcall, -⟩ := kmallocAligned_call (n := 16) (k := 3) hinit (by decide) (by decide)
  have hstep : PayloadStep ⟨(kmallocInit 0x200000 (fun _ => 0#8) (allUsed 0)).1, []⟩
      (.kmallocAligned 16 8) _ :=
    ⟨.kmallocAligned (k := 3) (by decide) (by decide) hcall,
      hinit.alignedBlock (k := 3) (by decide) (by decide) (by decide)⟩
  obtain ⟨p, h', hnext, hok, hsmall⟩ := alignedRun_ok (q := allUsed 0) (by decide) (.one hstep)
    (n := 10) (a := 8) (by decide) ⟨3, rfl⟩ (by decide)
  exact ⟨_, .one hstep, p, h', hnext, fun hp => (hok hp).2.1 (hsmall (by decide))⟩

/-- The payload of the first block is no multiple of 16, and `kfree` panics
over the moved pointer. -/
theorem alignedRun_moved : ∃ s h', Run AlignedStep
      ⟨(kmallocInit 0x200000 (fun _ => 0#8) (allUsed 0)).1, []⟩ [] s
    ∧ kmallocAligned s.heap 16 16 = .ok (0x210020, h')
    ∧ kfree h' 0x210020 = .error (.panic "kfree: Invalid block (corrupted or double-free)")
    ∧ ¬AlignedOk s 16 16 0x210020 h' := by
  obtain ⟨⟨p, h'⟩, hcall, hvalue⟩ : ∃ r,
      kmallocAligned (kmallocInit 0x200000 (fun _ => 0#8) (allUsed 0)).1 16 16 = .ok r
        ∧ (r.1, (readHeader r.2.mem 0x210008).magic) = (0x210020, 0) :=
    eq_ok_of_map (by decide +kernel)
  obtain ⟨rfl, hmagic⟩ := Prod.mk.inj hvalue
  have hbad : (readHeader h'.mem 0x210008).magic ≠ blockMagic := by
    rw [hmagic]
    decide
  have hpanic := kfree_header (h := h') (g := 0x210008) (by decide)
  rw [if_pos hbad] at hpanic
  refine ⟨_, h', .nil, hcall, hpanic, not_alignedOk (by decide) (by decide) ?_⟩
  rw [headerSize_eq]
  exact hbad

end Kfs
