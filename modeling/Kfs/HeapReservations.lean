import Kfs.ProcessHeap

/-!
# Reservations in the heaps of processes

`process_memory_alloc` compares a sum that can wrap around with the end of
the heap. As long as no sum does, and no heap was placed at the end of the
address space, every heap is an arena and its reservations lie one behind the
other (`userRun_heaps`). A size that wraps is accepted and moves the break
down, so what was reserved before is handed out again (`userRun_overlap`).
-/

namespace Kfs

/-! ## One call -/

section Call

variable {k : Kernel} {p : Slot} {size : Nat}

/-- The heap of `p` is the arena `a`. -/
structure HeapIs (k : Kernel) (p : Slot) (a : Arena) : Prop where
  start : (k.processTable p).memory.heapStart = a.start
  top : (k.processTable p).memory.heapBreak = a.top
  stop : (k.processTable p).memory.heapEnd = a.stop

theorem HeapOk.heapIs (h : HeapOk (k.processTable p).memory) : HeapIs k p h.arena :=
  ⟨rfl, rfl, rfl⟩

theorem HeapIs.ok {a : Arena} (h : HeapIs k p a) (hpage : a.stop ≤ a.start + 4096)
    (hword : a.stop < 4294967296) : HeapOk (k.processTable p).memory := by
  refine ⟨?_, ?_, ?_, ?_⟩
  · rw [h.start, h.top]
    exact a.start_le
  · rw [h.top, h.stop]
    exact a.top_le
  · rw [h.start, h.stop]
    exact hpage
  · rw [h.stop]
    exact hword

/-- `heap_break := top`. -/
def Process.withBreak (top : Nat) (r : Process) : Process :=
  { r with memory := { r.memory with heapBreak := top } }

theorem memoryAlloc_eq (k : Kernel) (p : Slot) (size : Nat) :
    processMemoryAlloc k (some p) size
      = if size = 0 ∨ (k.processTable p).memory.heapEnd
            < add32 (k.processTable p).memory.heapBreak size then (false, k)
        else (true, k.modify p
          (Process.withBreak (add32 (k.processTable p).memory.heapBreak size))) := by
  unfold processMemoryAlloc
  dsimp only
  by_cases hzero : size = 0
  · rw [if_pos hzero, if_pos (Or.inl hzero)]
  · rw [if_neg hzero]
    by_cases hroom : (k.processTable p).memory.heapEnd
        < add32 (k.processTable p).memory.heapBreak size
    · rw [if_pos hroom, if_pos (Or.inr hroom)]
    · rw [if_neg hroom, if_neg (not_or.mpr ⟨hzero, hroom⟩)]
      rfl

/-- A call whose sum does not wrap around takes its cells off the arena, or
there are not enough. -/
theorem memoryAlloc_reserve {a : Arena} (h : HeapIs k p a)
    (hfits : (k.processTable p).memory.heapBreak + size < 4294967296) :
    processMemoryAlloc k (some p) size = (false, k)
      ∨ ∃ a', a.reserve size = some a'
        ∧ processMemoryAlloc k (some p) size = (true, k.modify p (Process.withBreak a'.top)) := by
  rw [memoryAlloc_eq, add32_of_lt hfits, h.top, h.stop]
  split
  · exact Or.inl rfl
  · next hroom =>
      have hle : a.top + size ≤ a.stop := Nat.le_of_not_lt fun hlt => hroom (Or.inr hlt)
      exact Or.inr ⟨_, dif_pos hle, rfl⟩

/-- A call whose sum wraps around is accepted, and the break goes down. -/
theorem memoryAlloc_wraps (h : HeapOk (k.processTable p).memory) (hsize : size < 4294967296)
    (hwraps : 4294967296 ≤ (k.processTable p).memory.heapBreak + size) :
    ∃ top, top < (k.processTable p).memory.heapBreak
      ∧ processMemoryAlloc k (some p) size = (true, k.modify p (Process.withBreak top)) := by
  have hbreak := h.break_le
  have hword := h.word
  have hsum := add32_eq (k.processTable p).memory.heapBreak size
  rw [memoryAlloc_eq]
  generalize add32 (k.processTable p).memory.heapBreak size = top at hsum
  exact ⟨top, by omega, if_neg (by omega)⟩

theorem processMmap_fst (k : Kernel) (p : Slot) (size : Nat) :
    (processMmap k (some p) size).1
      = if (processMemoryAlloc k (some p) size).1 = true then
          (k.processTable p).memory.heapBreak else 0 := by
  unfold processMmap
  dsimp only
  split
  · next hzero => rw [processMemoryAlloc, if_pos hzero]; rfl
  · generalize processMemoryAlloc k (some p) size = result
    obtain ⟨ok, k1⟩ := result
    cases ok <;> rfl

theorem HeapIs.withBreak {a a' : Arena} (h : HeapIs k p a) (hroom : a.reserve size = some a') :
    HeapIs (k.modify p (Process.withBreak a'.top)) p a' := by
  obtain ⟨hstart, -, hstop⟩ := Arena.reserve_eq hroom
  refine ⟨?_, ?_, ?_⟩ <;> rw [modify_self]
  · exact h.start.trans hstart.symm
  · rfl
  · exact h.stop.trans hstop.symm

/-- A call on any process, as the heap of `p` sees it. -/
theorem HeapIs.memoryAlloc {a : Arena} {process : Option Slot} (h : HeapIs k p a)
    (hfits : process = some p → (k.processTable p).memory.heapBreak + size < 4294967296) :
    ((process = some p → (processMemoryAlloc k process size).1 = false)
        ∧ HeapIs (processMemoryAlloc k process size).2 p a)
      ∨ process = some p ∧ (processMemoryAlloc k process size).1 = true
        ∧ ∃ a', a.reserve size = some a' ∧ HeapIs (processMemoryAlloc k process size).2 p a' := by
  by_cases hp : process = some p
  · subst hp
    rcases memoryAlloc_reserve h (hfits rfl) with heq | ⟨a', hroom, heq⟩
    · rw [heq]
      exact Or.inl ⟨fun _ => rfl, h⟩
    · rw [heq]
      exact Or.inr ⟨rfl, rfl, a', hroom, h.withBreak hroom⟩
  · refine Or.inl ⟨fun heq => absurd heq hp, ?_⟩
    cases process with
    | none => exact h
    | some q =>
        have hne : p ≠ q := fun heq => hp (congrArg some heq.symm)
        rw [memoryAlloc_eq]
        split
        · exact h
        · have hother := modify_of_ne k q (Process.withBreak
            (add32 (k.processTable q).memory.heapBreak size)) hne
          exact ⟨by rw [hother]; exact h.start, by rw [hother]; exact h.top,
            by rw [hother]; exact h.stop⟩

end Call

/-! ## Runs whose sums fit -/

/-- The heap of a new process ends below `2 ^ 32`, and so does what is asked
of a heap. -/
def UserEvent.Fits (s : System) : UserEvent → Prop
  | .system (.process e) => HeapFits e.base
  | .memoryAlloc (some p) size => (s.1.processTable p).memory.heapBreak + size < 4294967296
  | .mmap (some p) size => (s.1.processTable p).memory.heapBreak + size < 4294967296
  | _ => True

instance (s : System) : (e : UserEvent) → Decidable (e.Fits s)
  | .system (.process e) => inferInstanceAs (Decidable (HeapFits e.base))
  | .system (.vmalloc _) => .isTrue trivial
  | .system (.vfree _) => .isTrue trivial
  | .system (.mapPage _ _ _) => .isTrue trivial
  | .memoryAlloc none _ => .isTrue trivial
  | .memoryAlloc (some _) _ => inferInstanceAs (Decidable (_ < _))
  | .mmap none _ => .isTrue trivial
  | .mmap (some _) _ => inferInstanceAs (Decidable (_ < _))
  | .store _ _ _ => .isTrue trivial

def FittingStep (s : System) (label : UserEvent × UserReply) (s' : System) : Prop :=
  UserStep s label s' ∧ label.1.Fits s

/-- `FittingStep` as a function. -/
def fittingExec (s : System) (e : UserEvent) : Option (UserReply × System) :=
  if e.Fits s then userExec s e else none

theorem fittingExec_step ⦃s : System⦄ ⦃e : UserEvent⦄ ⦃r : UserReply⦄ ⦃s' : System⦄
    (h : fittingExec s e = some (r, s')) : FittingStep s (e, r) s' := by
  unfold fittingExec at h
  split at h
  · next hfits => exact ⟨userExec_step h, hfits⟩
  · cases h

/-- The process in slot `p` was reaped. -/
def userReaps (p : Slot) (label : UserEvent × UserReply) : Prop :=
  ∃ exitCode, label.2 = .system (.reply (.waited (.reaped p exitCode)))

/-- What a successful `process_mmap` of `p` returned, and its size. -/
def mappedRange (p : Slot) : UserEvent × UserReply → Option (Nat × Nat)
  | (.mmap (some q) size, .mapped r) => if q = p ∧ r ≠ 0 then some (r, size) else none
  | _ => none

/-- The ranges `process_mmap` gave to `p`, in order. -/
def mappedRanges (p : Slot) (labels : List (UserEvent × UserReply)) : List (Nat × Nat) :=
  labels.filterMap (mappedRange p)

theorem grants_mappedRanges (p : Slot) (labels : List (UserEvent × UserReply)) :
    grants (labels.map (mappedRange p)) = mappedRanges p labels := by
  unfold grants mappedRanges
  rw [List.filterMap_map]
  rfl

/-- Every heap is in order, and the process table is. -/
structure HeapsKept (s : System) : Prop where
  linkage : Linkage s.1
  heaps : HeapsOk s.1

section Steps

variable {s s' : System}

theorem heapsKept_init (vm : Vm) (heap : Heap) : HeapsKept (systemInit vm heap) := by
  refine ⟨linkage_processInit vm, fun q => ?_⟩
  have hzero : ((systemInit vm heap).1.processTable q).memory.heapStart = 0
      ∧ ((systemInit vm heap).1.processTable q).memory.heapBreak = 0
      ∧ ((systemInit vm heap).1.processTable q).memory.heapEnd = 0 := by
    unfold systemInit processInit
    dsimp only
    split
    · exact ⟨rfl, rfl, rfl⟩
    · exact ⟨rfl, rfl, rfl⟩
  obtain ⟨hstart, hbreak, hstop⟩ := hzero
  exact ⟨by omega, by omega, by omega, by omega⟩

theorem HeapsKept.memoryAlloc {process : Option Slot} {size : Nat} (h : HeapsKept s)
    (hfits : ∀ p, process = some p →
      (s.1.processTable p).memory.heapBreak + size < 4294967296)
    (hkernel : s'.1 = (processMemoryAlloc s.1 process size).2) : HeapsKept s' := by
  refine ⟨?_, fun p => ?_⟩
  · rw [hkernel]
    exact h.linkage.tame (processMemoryAlloc_tame s.1 process size)
  · have hok := h.heaps p
    rw [hkernel]
    rcases hok.heapIs.memoryAlloc (hfits p) with ⟨-, hsame⟩ | ⟨-, -, a', hroom, htaken⟩
    · exact hsame.ok hok.page hok.word
    · obtain ⟨hstart, -, hstop⟩ := Arena.reserve_eq hroom
      refine htaken.ok ?_ ?_
      · rw [hstart, hstop]
        exact hok.page
      · rw [hstop]
        exact hok.word

theorem HeapIs.reallots {p : Slot} {a : Arena} {B : Slot → ProcessMemory → Prop}
    (h : HeapIs s.1 p a) (hre : Reallots B s.1 s'.1)
    (hused : (s.1.processTable p).used = true) (hused' : (s'.1.processTable p).used = true) :
    HeapIs s'.1 p a := by
  rcases hre p with hsame | hzero | ⟨hunused, -⟩
  · have hmemory := holding_memory hsame
    exact ⟨by rw [hmemory]; exact h.start, by rw [hmemory]; exact h.top,
      by rw [hmemory]; exact h.stop⟩
  · rw [holding_used hzero] at hused'
    cases hused'
  · rw [hused] at hunused
    cases hunused

/-- What a step of the system does to the heaps. -/
theorem HeapsKept.system {e : SystemEvent} {r : SystemReply} (h : HeapsKept s)
    (hstep : SystemStep s (e, r) s') (hfits : (UserEvent.system e).Fits s) :
    HeapsKept s' ∧ Reallots (fun _ m => HeapOk m) s.1 s'.1
      ∧ ∀ p, (s.1.processTable p).used = true → ¬userReaps p (.system e, .system r) →
        (s'.1.processTable p).used = true := by
  have hvm : s'.1 = { s.1 with vm := s'.vm } → HeapsKept s'
      ∧ Reallots (fun _ m => HeapOk m) s.1 s'.1
      ∧ ∀ p, (s.1.processTable p).used = true → ¬userReaps p (.system e, .system r) →
        (s'.1.processTable p).used = true := by
    intro heq
    have hre : Reallots (fun _ m => HeapOk m) s.1 s'.1 := by
      rw [heq]
      exact SameHoldings.reallots fun _ => rfl
    refine ⟨⟨heq ▸ h.linkage.withVm s'.vm, h.heaps.reallots hre⟩, hre, fun p hused _ => ?_⟩
    rw [heq]
    exact hused
  cases e with
  | process e =>
      obtain ⟨reply, rfl, hkernel, -⟩ := hstep.process
      have hre := exec_heaps h.linkage.kernel h.heaps hfits hkernel.2
      refine ⟨⟨h.linkage.step hkernel, h.heaps.reallots hre⟩, hre, fun p hused hreap => ?_⟩
      refine (h.linkage.lives hkernel hused ?_).1
      rintro ⟨exitCode, hreply⟩
      exact hreap ⟨exitCode, congrArg (UserReply.system ∘ SystemReply.reply) hreply⟩
  | vmalloc size =>
      obtain ⟨-, -, -, heq⟩ := hstep.vmalloc
      exact hvm heq
  | vfree q => exact hvm hstep.vfree.2
  | mapPage virt phys flags => exact hvm hstep.mapPage.2.1

theorem HeapsKept.step {label : UserEvent × UserReply} (h : HeapsKept s)
    (hstep : FittingStep s label s') : HeapsKept s' := by
  obtain ⟨e, r⟩ := label
  obtain ⟨hstep, hfits⟩ := hstep
  cases e with
  | system e =>
      obtain ⟨reply, -, hsystem⟩ := hstep.system
      exact (h.system hsystem hfits).1
  | memoryAlloc process size =>
      obtain ⟨-, -, hkernel, -⟩ := hstep.memoryAlloc
      refine h.memoryAlloc ?_ hkernel
      rintro p rfl
      exact hfits
  | mmap process size =>
      obtain ⟨-, -, hkernel, -⟩ := hstep.mmap
      rw [processMmap_snd] at hkernel
      refine h.memoryAlloc ?_ hkernel
      rintro p rfl
      exact hfits
  | store p address value =>
      obtain ⟨-, -, hkernel, -⟩ := hstep.store
      exact ⟨hkernel ▸ h.linkage.withVm _, fun q => by rw [hkernel]; exact h.heaps q⟩

/-- The heap of `p` in the state is the arena, and `p` is there. -/
structure HeapSeen (p : Slot) (s : System) (a : Arena) : Prop where
  kept : HeapsKept s
  used : (s.1.processTable p).used = true
  heap : HeapIs s.1 p a

/-- A step that does not reap `p` is a step of its arena. -/
theorem HeapSeen.step {p : Slot} {a : Arena} {label : UserEvent × UserReply}
    (h : HeapSeen p s a) (hstep : FittingStep s label s' ∧ ¬userReaps p label) :
    ∃ a', ArenaStep a (mappedRange p label) a' ∧ HeapSeen p s' a' := by
  have hkept := h.kept.step hstep.1
  obtain ⟨e, r⟩ := label
  obtain ⟨⟨hstep, hfits⟩, hreap⟩ := hstep
  cases e with
  | system e =>
      obtain ⟨reply, rfl, hsystem⟩ := hstep.system
      obtain ⟨-, hre, hlives⟩ := h.kept.system hsystem hfits
      have hused := hlives p h.used hreap
      exact ⟨a, .idle, hkept, hused, h.heap.reallots hre h.used hused⟩
  | memoryAlloc process size =>
      obtain ⟨-, rfl, hkernel, -⟩ := hstep.memoryAlloc
      have hused : (s'.1.processTable p).used = true := by
        rw [hkernel, (processMemoryAlloc_tame s.1 process size).used]
        exact h.used
      have hbelow : process = some p →
          (s.1.processTable p).memory.heapBreak + size < 4294967296 := by
        rintro rfl
        exact hfits
      have hcall := h.heap.memoryAlloc hbelow
      rw [← hkernel] at hcall
      rcases hcall with ⟨-, hsame⟩ | ⟨-, -, a', hroom, htaken⟩
      · exact ⟨a, .idle, hkept, hused, hsame⟩
      · exact ⟨a', .silent hroom, hkept, hused, htaken⟩
  | mmap process size =>
      obtain ⟨-, rfl, hkernel, -⟩ := hstep.mmap
      rw [processMmap_snd] at hkernel
      have hused : (s'.1.processTable p).used = true := by
        rw [hkernel, (processMemoryAlloc_tame s.1 process size).used]
        exact h.used
      have hbelow : process = some p →
          (s.1.processTable p).memory.heapBreak + size < 4294967296 := by
        rintro rfl
        exact hfits
      have hcall := h.heap.memoryAlloc hbelow
      rw [← hkernel] at hcall
      rcases hcall with ⟨hrefused, hsame⟩ | ⟨rfl, haccepted, a', hroom, htaken⟩
      · refine ⟨a, ?_, hkept, hused, hsame⟩
        have hnone : mappedRange p (.mmap process size, .mapped (processMmap s.1 process size).1)
            = none := by
          cases process with
          | none => rfl
          | some q =>
              unfold mappedRange
              dsimp only
              refine if_neg ?_
              rintro ⟨rfl, hne⟩
              rw [processMmap_fst, hrefused rfl] at hne
              exact hne rfl
        rw [hnone]
        exact .idle
      · refine ⟨a', ?_, hkept, hused, htaken⟩
        unfold mappedRange
        dsimp only
        rw [processMmap_fst, haccepted, if_pos rfl, h.heap.top]
        split
        · exact .granted hroom
        · exact .silent hroom
  | store q address value =>
      obtain ⟨-, -, hkernel, -⟩ := hstep.store
      refine ⟨a, .idle, hkept, by rw [hkernel]; exact h.used, ?_⟩
      exact ⟨by rw [hkernel]; exact h.heap.start, by rw [hkernel]; exact h.heap.top,
        by rw [hkernel]; exact h.heap.stop⟩

end Steps

/-- In every state that is reached with sums that fit, every heap is in
order. From there on, as long as the process is not reaped, its break only
moves up and what it is given lies inside its heap, one range behind the
other. -/
theorem userRun_heaps {vm : Vm} {heap : Heap} {labels : List (UserEvent × UserReply)} {s : System}
    (hrun : Run FittingStep (systemInit vm heap) labels s) {p : Slot}
    (hused : (s.1.processTable p).used = true) :
    ((s.1.processTable p).memory.heapStart ≤ (s.1.processTable p).memory.heapBreak
        ∧ (s.1.processTable p).memory.heapBreak ≤ (s.1.processTable p).memory.heapEnd)
      ∧ ∀ later s', Run FittingStep s later s' → (∀ label ∈ later, ¬userReaps p label) →
        (s.1.processTable p).memory.heapBreak ≤ (s'.1.processTable p).memory.heapBreak
          ∧ (∀ r ∈ mappedRanges p later, (s'.1.processTable p).memory.heapStart ≤ r.1
            ∧ r.1 + r.2 ≤ (s'.1.processTable p).memory.heapEnd)
          ∧ (mappedRanges p later).Pairwise fun r r' => r.1 + r.2 ≤ r'.1 := by
  have hkept : HeapsKept s := hrun.invariant (heapsKept_init vm heap) fun h hstep => h.step hstep
  have hok := hkept.heaps p
  refine ⟨⟨hok.start_le, hok.break_le⟩, fun later s' hlater hreap => ?_⟩
  obtain ⟨a, harena, hseen⟩ := (hlater.restrict hreap).simulates
    (fun hstep h => HeapSeen.step h hstep) ⟨hkept, hused, hok.heapIs⟩
  have hgranted := harena.granted
  have hstart := hgranted.start
  have htop := hgranted.top
  rw [← grants_mappedRanges, hseen.heap.start, hseen.heap.top, hseen.heap.stop]
  refine ⟨htop, fun r hr => ?_, hgranted.apart⟩
  obtain ⟨hlo, hhi⟩ := hgranted.inside r hr
  refine ⟨?_, Nat.le_trans hhi a.top_le⟩
  rw [hstart]
  exact Nat.le_trans hok.start_le hlo

/-- A process and its child reserve side by side; the last call of the
parent asks for too much. -/
theorem userRun_heaps_fork :
    ∃ s s', Run FittingStep (systemInit (machine 4096 2576) machineHeap)
        [(.system (.process (.createOwned 0 (some .demoCounterProcess) 4096)),
          .system (.reply (.created (some 1))))] s
      ∧ Run FittingStep s
        [(.mmap (some 1) 16, .mapped 0x02022000),
          (.system (.process (.fork (some 1))), .system (.reply (.created (some 2)))),
          (.mmap (some 2) 4080, .mapped 0x02042010), (.mmap (some 1) 32, .mapped 0x02022010),
          (.memoryAlloc (some 1) 4049, .allocated false)] s'
      ∧ (s.1.processTable 1).memory.heapBreak ≤ (s'.1.processTable 1).memory.heapBreak
      ∧ ([(0x02022000, 16), (0x02022010, 32)] : List (Nat × Nat)).Pairwise
        fun r r' => r.1 + r.2 ≤ r'.1 := by
  obtain ⟨s, s', hrun, hlater, hused⟩ := execRun_observe_two fittingExec_step
    (systemInit (machine 4096 2576) machineHeap)
    [.system (.process (.createOwned 0 (some .demoCounterProcess) 4096))]
    [.system (.reply (.created (some 1)))]
    [.mmap (some 1) 16, .system (.process (.fork (some 1))), .mmap (some 2) 4080,
      .mmap (some 1) 32, .memoryAlloc (some 1) 4049]
    [.mapped 0x02022000, .system (.reply (.created (some 2))), .mapped 0x02042010,
      .mapped 0x02022010, .allocated false]
    (fun s _ => (s.1.processTable 1).used = true) (by decide +kernel)
  have hreap : ∀ label ∈ ([(.mmap (some 1) 16, .mapped 0x02022000),
      (.system (.process (.fork (some 1))), .system (.reply (.created (some 2)))),
      (.mmap (some 2) 4080, .mapped 0x02042010), (.mmap (some 1) 32, .mapped 0x02022010),
      (.memoryAlloc (some 1) 4049, .allocated false)] : List (UserEvent × UserReply)),
      ¬userReaps 1 label := by
    rintro label hlabel ⟨exitCode, hreply⟩
    simp only [List.mem_cons, List.not_mem_nil, or_false] at hlabel
    rcases hlabel with rfl | rfl | rfl | rfl | rfl <;> cases hreply
  obtain ⟨hbreak, -, hapart⟩ := (userRun_heaps hrun hused).2 _ _ hlater hreap
  exact ⟨s, s', hrun, hlater, hbreak, hapart⟩

/-- Sixteen bytes, then a size that takes the break back, and the same
sixteen bytes again; the last size takes it below the heap. -/
theorem userRun_overlap :
    ∃ s s', Run UserStep (systemInit (machine 4096 2576) machineHeap)
        [(.system (.process (.createOwned 0 (some .demoCounterProcess) 4096)),
          .system (.reply (.created (some 1)))),
          (.mmap (some 1) 16, .mapped 0x02022000)] s
      ∧ Run UserStep s
        [(.mmap (some 1) 0xFFFFFFF0, .mapped 0x02022010), (.mmap (some 1) 16, .mapped 0x02022000),
          (.mmap (some 1) 0xFFFFFFE0, .mapped 0x02022010)] s'
      ∧ (s'.1.processTable 1).memory.heapBreak < (s.1.processTable 1).memory.heapBreak
      ∧ (s'.1.processTable 1).memory.heapBreak < (s'.1.processTable 1).memory.heapStart :=
  execRun_observe_two userExec_step
    (systemInit (machine 4096 2576) machineHeap)
    [.system (.process (.createOwned 0 (some .demoCounterProcess) 4096)), .mmap (some 1) 16]
    [.system (.reply (.created (some 1))), .mapped 0x02022000]
    [.mmap (some 1) 0xFFFFFFF0, .mmap (some 1) 16, .mmap (some 1) 0xFFFFFFE0]
    [.mapped 0x02022010, .mapped 0x02022000, .mapped 0x02022010]
    (fun s s' => (s'.1.processTable 1).memory.heapBreak < (s.1.processTable 1).memory.heapBreak
      ∧ (s'.1.processTable 1).memory.heapBreak < (s'.1.processTable 1).memory.heapStart)
    (by decide +kernel)

end Kfs
