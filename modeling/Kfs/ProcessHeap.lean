import Kfs.Lib.Arena
import Kfs.ProcessMoves
import Kfs.UserEvents

/-!
# The heaps of the processes

The heap of a process is the arena from `heap_start` to `heap_end` with
`heap_break` as its top, and `process_memory_alloc` hands out its cells as
long as the sum with the size does not wrap around (`memoryAlloc_reserve`);
a sum that does is below the break, and accepted (`memoryAlloc_wraps`).

`exec_heaps` says what the other calls do to the memory records: a process
keeps its record as long as it is there, a new one starts with an empty heap,
and a child with the break of its parent, at the same distance from the start
of its own heap.
-/

namespace Kfs

/-! ## Who has which memory record -/

/-- What the heap of a process depends on. -/
def Process.holding (r : Process) : Bool × ProcessMemory := (r.used, r.memory)

/-- Nobody's memory record changes. -/
def SameHoldings (k k' : Kernel) : Prop :=
  ∀ q, (k'.processTable q).holding = (k.processTable q).holding

theorem SameHoldings.refl (k : Kernel) : SameHoldings k k := fun _ => rfl

theorem SameHoldings.trans {k k' k'' : Kernel} (h : SameHoldings k k')
    (h' : SameHoldings k' k'') : SameHoldings k k'' := fun q => (h' q).trans (h q)

theorem SameHoldings.modify (k : Kernel) {p : Slot} {f : Process → Process}
    (hf : (f (k.processTable p)).holding = (k.processTable p).holding) :
    SameHoldings k (k.modify p f) := modify_keeps Process.holding hf

theorem core_holding {r s : Process} (h : r.core = s.core) : r.holding = s.holding :=
  core_field Process.holding (fun _ => rfl) h

section Same

variable {k k' : Kernel}

theorem processExit_holdings (k : Kernel) (process : Option Slot) (exitCode : Int) :
    SameHoldings k (processExit k process exitCode) := by
  cases process with
  | none => exact SameHoldings.refl k
  | some p =>
      rcases processExit_cases k p exitCode with ⟨-, h⟩ | ⟨-, -, ⟨h, -⟩ | ⟨q, -, -, -, h⟩⟩
      · rw [h]
        exact SameHoldings.refl k
      · rw [h]
        exact SameHoldings.modify k rfl
      · rw [h]
        exact (SameHoldings.modify k rfl).trans (SameHoldings.modify _ rfl)

theorem processDefaultSignalHandler_holdings (k : Kernel) (p : Slot) (signal : Int)
    (value : Nat) : SameHoldings k (processDefaultSignalHandler k p signal value) := by
  unfold processDefaultSignalHandler
  dsimp only
  split
  · exact (SameHoldings.modify k rfl).trans (processExit_holdings _ _ _)
  · exact SameHoldings.modify k rfl

theorem deliverOne_holdings (k : Kernel) (p : Slot) : SameHoldings k (deliverOne k p) := by
  unfold deliverOne
  dsimp only
  split
  · exact (SameHoldings.modify k rfl).trans (processDefaultSignalHandler_holdings _ _ _ _)
  · exact (SameHoldings.modify k rfl).trans (processDefaultSignalHandler_holdings _ _ _ _)

theorem Move.holdings {m : MoveLabel} (hm : m ≠ .other) (h : Move k m k') :
    SameHoldings k k' := by
  cases h with
  | create | release | assign | copy | tick => exact absurd rfl hm
  | exit p exitCode => exact processExit_holdings k (some p) exitCode
  | deliver pending => exact deliverOne_holdings k _
  | queue => exact SameHoldings.modify k rfl
  | @socket p f keeps =>
      obtain ⟨s, v, heq⟩ := keeps (k.processTable p)
      exact SameHoldings.modify k (by rw [heq]; rfl)

theorem Moves.holdings (h : Moves (fun m => m ≠ .other) k k') (hk : k.kernelProcess = some 0) :
    SameHoldings k k' :=
  h.along (R := SameHoldings) hk (SameHoldings.refl k) (fun h1 h2 => h1.trans h2)
    fun _ hm hmove => hmove.holdings hm

theorem queueProcessSignal_holdings (k : Kernel) (process : Option Slot) (signal : Int)
    (value : Nat) : SameHoldings k (queueProcessSignal k process signal value).2 := by
  unfold queueProcessSignal
  cases process with
  | none => exact SameHoldings.refl k
  | some p =>
      dsimp only
      split
      · exact SameHoldings.refl k
      · dsimp only
        exact SameHoldings.modify k rfl

theorem sendSignalToProcess_holdings {sender : Option Slot} {pid value : Nat} {signal : Int}
    {ok : Bool} (call : sendSignalToProcess k sender pid signal value = .ok (ok, k')) :
    SameHoldings k k' := by
  obtain ⟨target, -, call⟩ := bind_eq_ok.mp call
  split at call
  · have hqueue : (queueProcessSignal k target signal value).2 = k' :=
      congrArg Prod.snd (Except.ok.inj call)
    rw [← hqueue]
    exact queueProcessSignal_holdings k target signal value
  · obtain ⟨-, rfl⟩ := Prod.mk.inj (Except.ok.inj call)
    exact SameHoldings.refl k

theorem socketSend_holdings {sender : Option Slot} {pid value : Nat} {ok : Bool}
    (call : socketSend k sender pid value = .ok (ok, k')) : SameHoldings k k' := by
  obtain ⟨target, -, call⟩ := bind_eq_ok.mp call
  cases target with
  | none =>
      obtain ⟨-, rfl⟩ := Prod.mk.inj (Except.ok.inj call)
      exact SameHoldings.refl k
  | some t =>
      dsimp only at call
      split at call
      · obtain ⟨-, rfl⟩ := Prod.mk.inj (Except.ok.inj call)
        exact SameHoldings.refl k
      · have hqueue := congrArg Prod.snd (Except.ok.inj call)
        dsimp only at hqueue
        rw [← hqueue]
        exact (SameHoldings.modify k rfl).trans (queueProcessSignal_holdings _ _ _ _)

theorem socketRecv_holdings (k : Kernel) (process : Option Slot) :
    SameHoldings k (socketRecv k process).2 := by
  unfold socketRecv
  cases process with
  | none => exact SameHoldings.refl k
  | some p =>
      dsimp only
      split
      · exact SameHoldings.refl k
      · dsimp only
        exact SameHoldings.modify k rfl

theorem waitFor_holdings (k : Kernel) (parent : Option Slot) (pid : Nat) :
    SameHoldings k (waitFor k parent pid) := by
  unfold waitFor
  cases parent with
  | none => exact SameHoldings.refl k
  | some p =>
      dsimp only
      split
      · exact SameHoldings.modify k rfl
      · exact (SameHoldings.modify k rfl).trans (SameHoldings.modify _ rfl)

theorem stopWaiting_holdings (k : Kernel) (parent : Option Slot) :
    SameHoldings k (stopWaiting k parent) := by
  unfold stopWaiting
  cases parent with
  | none => exact SameHoldings.refl k
  | some p =>
      dsimp only
      split
      · exact SameHoldings.modify k rfl
      · exact SameHoldings.refl k

/-- `if (status == RUN) status = READY`. -/
theorem pause_holdings (k : Kernel) (p : Slot) :
    SameHoldings k (if (k.processTable p).status = .run then
      k.modify p fun r => { r with status := .ready } else k) := by
  split
  · exact SameHoldings.modify k rfl
  · exact SameHoldings.refl k

theorem scheduleNextProcess_holdings (hk : k.kernelProcess = some 0)
    (call : scheduleNextProcess k = .ok k') : SameHoldings k k' := by
  obtain ⟨picked, -, call⟩ := bind_eq_ok.mp call
  cases picked with
  | none =>
      obtain rfl := Except.ok.inj call
      exact SameHoldings.refl k
  | some p =>
      dsimp only at call
      have hdeliver := (deliverProcessSignal_moves
        { k with schedulerCursor := some p, currentProcess := some p } (some p)
        (P := fun m => m ≠ .other) fun q _ => nofun).holdings hk
      generalize (deliverProcessSignal
        { k with schedulerCursor := some p, currentProcess := some p } (some p)).2 = k1
        at call hdeliver
      refine SameHoldings.trans (fun q => hdeliver q) ?_
      split at call
      · obtain rfl := Except.ok.inj call
        have hrun : SameHoldings k1 (k1.modify p fun r => { r with
            status := .run
            cpuTicks := add32 r.cpuTicks 1
            runCount := add32 r.runCount 1
            switchCount := add32 r.switchCount 1 }) := SameHoldings.modify k1 rfl
        exact fun q => hrun q
      · obtain rfl := Except.ok.inj call
        exact fun _ => rfl

theorem scheduleEvent_holdings (hk : k.kernelProcess = some 0)
    (call : scheduleEvent k = .ok k') : SameHoldings k k' := by
  unfold scheduleEvent at call
  split at call
  · obtain rfl := Except.ok.inj call
    exact SameHoldings.refl k
  · obtain ⟨k1, hall, call⟩ := bind_eq_ok.mp call
    have hmoves : Moves (fun m => m ≠ .other)
        { k with pendingSchedulerTicks := sub32 k.pendingSchedulerTicks 1 } k1 :=
      deliverAll_moves (fun _ => nofun) hall
    have hkernel : k1.kernelProcess = some 0 :=
      hmoves.along (R := fun _ k' => k'.kernelProcess = some 0) hk hk (fun _ h2 => h2)
        fun hk1 _ hmove => hmove.kernel hk1
    exact SameHoldings.trans (fun q => hmoves.holdings hk q)
      (scheduleNextProcess_holdings hkernel call)

theorem yieldEvent_holdings (k : Kernel) : SameHoldings k (yieldEvent k) := by
  have hyield : SameHoldings k (processYield k) := by
    unfold processYield
    split
    · exact SameHoldings.refl k
    · next p _ =>
        split
        · exact SameHoldings.refl k
        · exact (pause_holdings k p).trans (SameHoldings.modify _ rfl)
  unfold yieldEvent
  split
  · exact SameHoldings.refl k
  · next p _ =>
      have hspace : SameHoldings (processYield k)
          (processSwitchToKernelSpace (processYield k)) := by
        unfold processSwitchToKernelSpace
        split
        · exact SameHoldings.refl _
        · exact fun _ => rfl
      exact (hyield.trans hspace).trans (pause_holdings _ p)

end Same

/-! ## Who gets a new one -/

/-- The heap of a process at `base`, in slot `q`. -/
structure NewHeap (base : Nat) (q : Slot) (m : ProcessMemory) : Prop where
  start : m.heapStart = add32 (baseOf base q) 8192
  stop : m.heapEnd = add32 m.heapStart 4096

/-- A creation that may give slot `q` a record with `B q`, and takes nothing
from anybody. -/
def Allots (B : Slot → ProcessMemory → Prop) (k k' : Kernel) : Prop :=
  ∀ q, (k'.processTable q).holding = (k.processTable q).holding
    ∨ (k.processTable q).used = false
      ∧ ((k'.processTable q).holding = Process.zero.holding ∨ B q (k'.processTable q).memory)

/-- A call that may also release a process. -/
def Reallots (B : Slot → ProcessMemory → Prop) (k k' : Kernel) : Prop :=
  ∀ q, (k'.processTable q).holding = (k.processTable q).holding
    ∨ (k'.processTable q).holding = Process.zero.holding
    ∨ (k.processTable q).used = false ∧ B q (k'.processTable q).memory

theorem holding_used {r s : Process} (h : r.holding = s.holding) : r.used = s.used :=
  congrArg Prod.fst h

theorem holding_memory {r s : Process} (h : r.holding = s.holding) : r.memory = s.memory :=
  congrArg Prod.snd h

section Allots

variable {k k' k'' : Kernel} {B B' : Slot → ProcessMemory → Prop}

theorem SameHoldings.reallots (h : SameHoldings k k') : Reallots B k k' := fun q => Or.inl (h q)

theorem SameHoldings.allots (h : SameHoldings k k') : Allots B k k' := fun q => Or.inl (h q)

theorem Allots.reallots (h : Allots B k k') : Reallots B k k' := fun q => by
  rcases h q with hsame | ⟨hunused, hzero | hnew⟩
  · exact Or.inl hsame
  · exact Or.inr (Or.inl hzero)
  · exact Or.inr (Or.inr ⟨hunused, hnew⟩)

theorem Allots.trans (h : Allots B k k') (h' : Allots B k' k'') : Allots B k k'' := fun q => by
  rcases h' q with hsame' | ⟨hunused', hnew'⟩
  · rw [hsame', holding_memory hsame']
    exact h q
  · rcases h q with hsame | ⟨hunused, -⟩
    · exact Or.inr ⟨(holding_used hsame).symm.trans hunused', hnew'⟩
    · exact Or.inr ⟨hunused, hnew'⟩

/-- At the end a process is released. -/
theorem Allots.release {c : Slot} (h : Allots B k k') (hc : some c ≠ k'.kernelProcess)
    (call : processRelease k' c = .ok k'') : Reallots B k k'' := fun q => by
  obtain ⟨table, head, rfl, hzero, hcore⟩ := processRelease_eq hc call
  by_cases hq : q = c
  · subst hq
    exact Or.inr (Or.inl (congrArg Process.holding hzero))
  · have hsame := core_holding (hcore q hq)
    rw [hsame, holding_memory hsame]
    exact h.reallots q

/-! ### The calls -/

theorem mapOrRelease_true {start : Nat} {field : ProcessMemory → Nat → ProcessMemory}
    {vm vm' : Vm} {m m' : ProcessMemory}
    {next : Vm → ProcessMemory → Except Fault (Bool × Vm × ProcessMemory)}
    (h : mapOrRelease start field vm m next = .ok (true, vm', m')) :
    ∃ page vm1, next vm1 (field m page) = .ok (true, vm', m') := by
  rcases mapOrRelease_cases h with ⟨vm1, -, heq⟩ | ⟨page, vm1, -, hnext⟩
  · cases (Prod.mk.inj heq).1
  · exact ⟨page, vm1, hnext⟩

/-- A mapping that succeeds gives the process an empty heap. -/
theorem processMemoryMap_heap {vm vm' : Vm} {q : Slot} {base size : Nat} {m : ProcessMemory}
    (h : processMemoryMap vm q (requestedMemory base size) = .ok (true, vm', m)) :
    NewHeap base q m ∧ m.heapBreak = m.heapStart := by
  have hlayout : NewHeap base q (layoutMemory q (requestedMemory base size))
      ∧ (layoutMemory q (requestedMemory base size)).heapBreak
        = (layoutMemory q (requestedMemory base size)).heapStart := ⟨⟨rfl, rfl⟩, rfl⟩
  unfold processMemoryMap at h
  dsimp only at h
  generalize layoutMemory q (requestedMemory base size) = m0 at h hlayout
  obtain ⟨p1, vm1, h⟩ := mapOrRelease_true h
  obtain ⟨p2, vm2, h⟩ := mapOrRelease_true h
  obtain ⟨p3, vm3, h⟩ := mapOrRelease_true h
  obtain ⟨p4, vm4, h⟩ := mapOrRelease_true h
  obtain ⟨-, rfl⟩ := Prod.mk.inj (Prod.mk.inj (Except.ok.inj h)).2
  exact ⟨⟨hlayout.1.start, hlayout.1.stop⟩, hlayout.2⟩

theorem create_allots {parent p : Option Slot} {owner base size : Nat}
    {function : Option ExecFn} (hk : k.kernelProcess = some 0)
    (call : processCreateInternal k parent owner base function size = .ok (p, k')) :
    Allots (fun q m => p = some q ∧ NewHeap base q m ∧ m.heapBreak = m.heapStart) k k' := by
  cases p with
  | some p =>
      obtain ⟨-, hunused, vm, memory, table, head, hmap, rfl, hnew, hcore⟩ := spawn_eq call
      intro q
      by_cases hq : q = p
      · subst hq
        have hmemory : (table q).memory = memory := core_memory hnew
        refine Or.inr ⟨hunused, Or.inr ⟨rfl, ?_⟩⟩
        show NewHeap base q (table q).memory
          ∧ (table q).memory.heapBreak = (table q).memory.heapStart
        rw [hmemory]
        exact processMemoryMap_heap hmap
      · exact Or.inl (core_holding (hcore q hq))
  | none =>
      intro q
      rcases miss_eq hk call with rfl | ⟨p, vm, table, head, -, hunused, -, rfl, hzero, hcore⟩
      · exact Or.inl rfl
      · by_cases hq : q = p
        · subst hq
          exact Or.inr ⟨hunused, Or.inl (congrArg Process.holding hzero)⟩
        · exact Or.inl (core_holding (hcore q hq))

end Allots

/-! ## Heaps as arenas -/

structure HeapOk (m : ProcessMemory) : Prop where
  start_le : m.heapStart ≤ m.heapBreak
  break_le : m.heapBreak ≤ m.heapEnd
  page : m.heapEnd ≤ m.heapStart + 4096
  word : m.heapEnd < 4294967296

def HeapOk.arena {m : ProcessMemory} (h : HeapOk m) : Arena where
  start := m.heapStart
  top := m.heapBreak
  stop := m.heapEnd
  start_le := h.start_le
  top_le := h.break_le

/-- The heap of a process at `base` ends below `2 ^ 32`. -/
def HeapFits (base : Nat) : Prop := add32 base 8192 + 4096 < 4294967296

instance (base : Nat) : Decidable (HeapFits base) := inferInstanceAs (Decidable (_ < _))

theorem heapOk_zero : HeapOk Process.zero.memory :=
  ⟨Nat.le_refl 0, Nat.le_refl 0, Nat.zero_le _, by decide⟩

theorem heapFits_slot (q : Slot) : HeapFits (processVirtualBaseForSlot q) := by
  have hq := q.isLt
  unfold HeapFits processVirtualBaseForSlot
  rw [mul32_eq, add32_eq, add32_eq]
  omega

/-- Whatever the break is, if it stays in the page. -/
theorem NewHeap.ok {base offset : Nat} {q : Slot} {m : ProcessMemory} (h : NewHeap base q m)
    (hfits : HeapFits base) (hoffset : offset ≤ 4096)
    (hbreak : m.heapBreak = add32 m.heapStart offset) : HeapOk m := by
  have hbase : HeapFits (baseOf base q) := by
    unfold baseOf
    split
    · exact heapFits_slot q
    · exact hfits
  unfold HeapFits at hbase
  rw [← h.start] at hbase
  have hstop := h.stop
  rw [add32_of_lt hbase] at hstop
  rw [add32_of_lt (by omega)] at hbreak
  exact ⟨by omega, by omega, by omega, by omega⟩

theorem NewHeap.ok_empty {base : Nat} {q : Slot} {m : ProcessMemory} (h : NewHeap base q m)
    (hfits : HeapFits base) (hbreak : m.heapBreak = m.heapStart) : HeapOk m := by
  refine h.ok hfits (Nat.zero_le 4096) ?_
  rw [hbreak, h.start, add32_eq, add32_eq]
  omega

/-- All slots have a heap, of length 0 where there is no process. -/
def HeapsOk (k : Kernel) : Prop := ∀ q, HeapOk (k.processTable q).memory

section Events

variable {k k' : Kernel}

theorem HeapsOk.reallots (h : HeapsOk k) (hre : Reallots (fun _ m => HeapOk m) k k') :
    HeapsOk k' := fun q => by
  rcases hre q with hsame | hzero | ⟨-, hnew⟩
  · rw [holding_memory hsame]
    exact h q
  · rw [holding_memory hzero]
    exact heapOk_zero
  · exact hnew

theorem create_heaps {parent p : Option Slot} {owner base size : Nat}
    {function : Option ExecFn} (hk : k.kernelProcess = some 0) (hfits : HeapFits base)
    (call : processCreateInternal k parent owner base function size = .ok (p, k')) :
    Allots (fun _ m => HeapOk m) k k' := fun q =>
  (create_allots hk call q).imp_right fun ⟨hunused, h⟩ =>
    ⟨hunused, h.imp_right fun ⟨_, hnew, hbreak⟩ => hnew.ok_empty hfits hbreak⟩

theorem heapFits_zero : HeapFits 0 := by
  unfold HeapFits
  rw [add32_of_lt (by omega)]
  omega

theorem inheritFields_heap (source child : Process) (heapBreak : Nat) :
    (inheritFields source child heapBreak).memory = { child.memory with heapBreak := heapBreak } :=
  rfl

/-- The break of a child is as far from the start of its heap as that of its
parent. -/
theorem NewHeap.inherit {base : Nat} {q : Slot} {source child : Process}
    (h : NewHeap base q child.memory) (hfits : HeapFits base) (hsource : HeapOk source.memory) :
    HeapOk (inheritFrom source child).memory := by
  have hstart := hsource.start_le
  have hbreak := hsource.break_le
  have hpage := hsource.page
  have hword := hsource.word
  have hoffset : sub32 source.memory.heapBreak source.memory.heapStart ≤ 4096 := by
    rw [sub32_of_le hstart (by omega)]
    omega
  rw [inheritFrom, inheritFields_heap]
  generalize sub32 source.memory.heapBreak source.memory.heapStart = offset at hoffset
  generalize hheap : add32 child.memory.heapStart offset = heapBreak
  exact NewHeap.ok (m := { child.memory with heapBreak := heapBreak }) ⟨h.start, h.stop⟩ hfits
    hoffset hheap.symm

theorem fork_heaps {source p : Option Slot} (hk : k.kernelProcess = some 0) (h : HeapsOk k)
    (call : forkProcess k source = .ok (p, k')) : Allots (fun _ m => HeapOk m) k k' := by
  unfold forkProcess at call
  cases source with
  | none =>
      obtain ⟨-, rfl⟩ := Prod.mk.inj (Except.ok.inj call)
      exact (SameHoldings.refl _).allots
  | some source =>
      dsimp only at call
      split at call
      · obtain ⟨-, rfl⟩ := Prod.mk.inj (Except.ok.inj call)
        exact (SameHoldings.refl _).allots
      · obtain ⟨⟨child, k1⟩, hcreate, call⟩ := bind_eq_ok.mp call
        have hcreated := create_heaps hk heapFits_zero hcreate
        cases child with
        | none =>
            obtain ⟨-, rfl⟩ := Prod.mk.inj (Except.ok.inj call)
            exact hcreated
        | some child =>
            have hsource := h.reallots hcreated.reallots source
            have hchild := create_allots hk hcreate child
            obtain ⟨-, hunused, -⟩ := spawn_eq hcreate
            obtain ⟨-, hused, -⟩ := spawn_status hcreate
            obtain ⟨-, rfl⟩ := Prod.mk.inj (Except.ok.inj call)
            intro q
            by_cases hq : q = child
            · subst hq
              refine Or.inr ⟨hunused, Or.inr ?_⟩
              rcases hchild with hsame | ⟨-, hzero | ⟨-, hnew, -⟩⟩
              · rw [holding_used hsame, hunused] at hused
                cases hused
              · rw [holding_used hzero] at hused
                cases hused
              · rw [modify_self]
                exact hnew.inherit heapFits_zero hsource
            · rw [modify_of_ne _ _ _ hq]
              exact hcreated q

theorem processWait_heaps {parent : Option Slot} {pid : Nat} {result : WaitResult}
    (call : processWait k parent pid = .ok (result, k')) :
    Reallots (fun _ m => HeapOk m) k k' := by
  obtain ⟨child, -, call⟩ := bind_eq_ok.mp call
  cases child with
  | none =>
      obtain ⟨-, rfl⟩ := Prod.mk.inj (Except.ok.inj call)
      exact (SameHoldings.refl _).reallots
  | some c =>
      dsimp only at call
      split at call
      · obtain ⟨-, rfl⟩ := Prod.mk.inj (Except.ok.inj call)
        exact (SameHoldings.refl _).reallots
      · split at call
        · obtain ⟨-, rfl⟩ := Prod.mk.inj (Except.ok.inj call)
          exact (waitFor_holdings k parent pid).reallots
        · obtain ⟨k1, hrelease, call⟩ := bind_eq_ok.mp call
          obtain ⟨-, rfl⟩ := Prod.mk.inj (Except.ok.inj call)
          have hstop := stopWaiting_holdings k parent
          by_cases hc : some c = (stopWaiting k parent).kernelProcess
          · unfold processRelease at hrelease
            rw [if_pos hc] at hrelease
            obtain rfl := Except.ok.inj hrelease
            exact hstop.reallots
          · exact hstop.allots.release hc hrelease

theorem processSpawnDemoSocketPair_heaps {owner value : Nat} {pair : Option (Slot × Slot)}
    (hk : k.kernelProcess = some 0)
    (call : processSpawnDemoSocketPair k owner value = .ok (pair, k')) :
    Reallots (fun _ m => HeapOk m) k k' := by
  obtain ⟨⟨receiver, k1⟩, hfirst, call⟩ := bind_eq_ok.mp call
  have hcreated := create_heaps hk heapFits_zero hfirst
  cases receiver with
  | none =>
      obtain ⟨-, rfl⟩ := Prod.mk.inj (Except.ok.inj call)
      exact hcreated.reallots
  | some receiver =>
      obtain ⟨⟨sender, k2⟩, hsecond, call⟩ := bind_eq_ok.mp call
      have hk1 := (Move.create hfirst).kernel hk
      have hboth := hcreated.trans (create_heaps hk1 heapFits_zero hsecond)
      cases sender with
      | some sender =>
          obtain ⟨-, rfl⟩ := Prod.mk.inj (Except.ok.inj call)
          exact (hboth.trans (SameHoldings.modify k2 rfl).allots).reallots
      | none =>
          obtain ⟨k3, hrelease, call⟩ := bind_eq_ok.mp call
          obtain ⟨-, rfl⟩ := Prod.mk.inj (Except.ok.inj call)
          refine hboth.release ?_ hrelease
          rw [(Move.create hsecond).kernel hk1]
          exact fun heq => (spawn_status hfirst).1 (Option.some.inj heq)

/-- What a call does to the heaps: a process that is there before and after
keeps its own. -/
theorem exec_heaps {e : Event} {r : Reply} (hk : k.kernelProcess = some 0) (h : HeapsOk k)
    (hfits : HeapFits e.base) (hexec : e.exec k = .ok (r, k')) :
    Reallots (fun _ m => HeapOk m) k k' := by
  cases e with
  | createOwned owner function size =>
      obtain ⟨p, -, call⟩ := map_reply_eq_ok.mp hexec
      exact (create_heaps hk hfits call).reallots
  | execFn addr function size =>
      obtain ⟨p, -, call⟩ := map_reply_eq_ok.mp hexec
      exact (create_heaps hk hfits call).reallots
  | fork source =>
      obtain ⟨p, -, call⟩ := map_reply_eq_ok.mp hexec
      exact (fork_heaps hk h call).reallots
  | spawnDemoCounter owner seed limit =>
      obtain ⟨p, -, call⟩ := map_reply_eq_ok.mp hexec
      obtain ⟨⟨child, k1⟩, hcreate, call⟩ := bind_eq_ok.mp call
      have hcreated := create_heaps hk hfits hcreate
      cases child with
      | none =>
          obtain ⟨-, rfl⟩ := Prod.mk.inj (Except.ok.inj call)
          exact hcreated.reallots
      | some child =>
          obtain ⟨-, rfl⟩ := Prod.mk.inj (Except.ok.inj call)
          exact (hcreated.trans (SameHoldings.modify k1 rfl).allots).reallots
  | spawnDemoSocketPair owner value =>
      obtain ⟨pair, -, call⟩ := map_reply_eq_ok.mp hexec
      exact processSpawnDemoSocketPair_heaps hk call
  | wait parent pid =>
      obtain ⟨result, -, call⟩ := map_reply_eq_ok.mp hexec
      exact processWait_heaps call
  | schedulerTick =>
      obtain ⟨-, rfl⟩ := Prod.mk.inj (Except.ok.inj hexec)
      exact SameHoldings.reallots fun _ => rfl
  | exit process exitCode =>
      obtain ⟨-, rfl⟩ := Prod.mk.inj (Except.ok.inj hexec)
      exact (processExit_holdings k process exitCode).reallots
  | deliverSignal process =>
      obtain ⟨-, rfl⟩ := Prod.mk.inj (Except.ok.inj hexec)
      exact ((deliverProcessSignal_moves k process fun p _ => nofun).holdings hk).reallots
  | sendSignal sender pid signal value =>
      obtain ⟨ok, -, call⟩ := map_reply_eq_ok.mp hexec
      exact (sendSignalToProcess_holdings call).reallots
  | socketSend sender pid value =>
      obtain ⟨ok, -, call⟩ := map_reply_eq_ok.mp hexec
      exact (socketSend_holdings call).reallots
  | socketRecv process =>
      obtain ⟨-, rfl⟩ := Prod.mk.inj (Except.ok.inj hexec)
      exact (socketRecv_holdings k process).reallots
  | schedule =>
      obtain ⟨k1, call, heq⟩ := map_eq_ok.mp hexec
      obtain ⟨-, rfl⟩ := Prod.mk.inj heq
      exact (scheduleEvent_holdings hk call).reallots
  | yield =>
      obtain ⟨-, rfl⟩ := Prod.mk.inj (Except.ok.inj hexec)
      exact (yieldEvent_holdings k).reallots

end Events

end Kfs
