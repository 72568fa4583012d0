import Mathlib.Tactic.Common
import Kfs.ProcessEvents

/-!
# Records without their links

`Process.core` is a record with the pointers of the global list and of the
children lists blanked out. Linking and unlinking change no core, so every
property of the process table that does not mention these pointers is
insensitive to them; `Relinked` is the form in which this is used.

The file ends with what the three larger operations do to the machine and to
the cores: creating a process (`processCreateInternal_some` and
`processCreateInternal_none`) and releasing one (`processRelease_eq`).
-/

namespace Kfs

/-! ## Assigning to a record -/

section Modify

variable (k : Kernel) (p : Slot) (f : Process → Process)

@[simp] theorem modify_self : (k.modify p f).processTable p = f (k.processTable p) :=
  Function.update_self _ _ _

theorem modify_of_ne {q : Slot} (h : q ≠ p) :
    (k.modify p f).processTable q = k.processTable q :=
  Function.update_of_ne h _ _

theorem modify_apply (q : Slot) :
    (k.modify p f).processTable q = if q = p then f (k.processTable p) else k.processTable q :=
  Function.update_apply _ _ _ _

@[simp] theorem modify_vm : (k.modify p f).vm = k.vm := rfl

@[simp] theorem modify_processHead : (k.modify p f).processHead = k.processHead := rfl

@[simp] theorem modify_currentProcess : (k.modify p f).currentProcess = k.currentProcess := rfl

@[simp] theorem modify_kernelProcess : (k.modify p f).kernelProcess = k.kernelProcess := rfl

@[simp] theorem modify_schedulerCursor : (k.modify p f).schedulerCursor = k.schedulerCursor := rfl

@[simp] theorem modify_nextPid : (k.modify p f).nextPid = k.nextPid := rfl

@[simp] theorem modify_suspended : (k.modify p f).suspended = k.suspended := rfl

/-- A projection that `f` keeps is kept everywhere. -/
theorem modify_keeps {α : Type} {k : Kernel} {p : Slot} {f : Process → Process}
    (g : Process → α) (hf : g (f (k.processTable p)) = g (k.processTable p)) (q : Slot) :
    g ((k.modify p f).processTable q) = g (k.processTable q) := by
  rw [modify_apply]
  split
  · next h => rw [h, hf]
  · rfl

/-- Two assignments to the same record are one. -/
theorem modify_modify (g : Process → Process) :
    (k.modify p f).modify p g = k.modify p fun r => g (f r) := by
  unfold Kernel.modify
  simp only [Function.update_idem, Function.update_self]

end Modify

/-! ## Cores -/

/-- The record without `next`, `children` and `next_sibling`. -/
def Process.core (r : Process) : Process :=
  { r with next := none, children := none, nextSibling := none }

/-- Records with equal cores agree on every other field. -/
theorem core_field {α : Type} {r s : Process} (g : Process → α)
    (hg : ∀ r, g r.core = g r) (h : r.core = s.core) : g r = g s := by
  rw [← hg r, ← hg s, h]

theorem core_used {r s : Process} (h : r.core = s.core) : r.used = s.used :=
  core_field Process.used (fun _ => rfl) h

theorem core_pid {r s : Process} (h : r.core = s.core) : r.pid = s.pid :=
  core_field Process.pid (fun _ => rfl) h

theorem core_status {r s : Process} (h : r.core = s.core) : r.status = s.status :=
  core_field Process.status (fun _ => rfl) h

theorem core_parent {r s : Process} (h : r.core = s.core) : r.parent = s.parent :=
  core_field Process.parent (fun _ => rfl) h

theorem core_memory {r s : Process} (h : r.core = s.core) : r.memory = s.memory :=
  core_field Process.memory (fun _ => rfl) h

theorem core_entry {r s : Process} (h : r.core = s.core) : r.entry = s.entry :=
  core_field Process.entry (fun _ => rfl) h

theorem core_exitCode {r s : Process} (h : r.core = s.core) : r.exitCode = s.exitCode :=
  core_field Process.exitCode (fun _ => rfl) h

theorem core_waitTargetPid {r s : Process} (h : r.core = s.core) :
    r.waitTargetPid = s.waitTargetPid :=
  core_field Process.waitTargetPid (fun _ => rfl) h

/-- `k'` is `k` with another list and other links, except that anything may
have happened to the record of `p`. -/
def Relinked (p : Slot) (k k' : Kernel) : Prop :=
  ∃ table head, k' = { k with processTable := table, processHead := head }
    ∧ ∀ q, q ≠ p → (table q).core = (k.processTable q).core

theorem Relinked.refl (p : Slot) (k : Kernel) : Relinked p k k :=
  ⟨_, _, rfl, fun _ _ => rfl⟩

theorem Relinked.trans {p : Slot} {k k' k'' : Kernel} (h : Relinked p k k')
    (h' : Relinked p k' k'') : Relinked p k k'' := by
  obtain ⟨table, head, rfl, hcore⟩ := h
  obtain ⟨table', head', rfl, hcore'⟩ := h'
  exact ⟨table', head', rfl, fun q hq => (hcore' q hq).trans (hcore q hq)⟩

theorem Relinked.modify (p : Slot) (k : Kernel) {q : Slot} {f : Process → Process}
    (hf : q ≠ p → (f (k.processTable q)).core = (k.processTable q).core) :
    Relinked p k (k.modify q f) := by
  refine ⟨_, _, rfl, ?_⟩
  intro s hs
  by_cases hsq : s = q
  · subst hsq
    rw [Function.update_self]
    exact hf hs
  · rw [Function.update_of_ne hsq]

theorem Relinked.head (p : Slot) (k : Kernel) (head : Option Slot) :
    Relinked p k { k with processHead := head } :=
  ⟨_, _, rfl, fun _ _ => rfl⟩

theorem Relinked.core {p : Slot} {k k' : Kernel} (h : Relinked p k k') {q : Slot} (hq : q ≠ p) :
    (k'.processTable q).core = (k.processTable q).core := by
  obtain ⟨table, head, rfl, hcore⟩ := h
  exact hcore q hq

theorem processLinkGlobal_core {k k' : Kernel} {process : Slot}
    (h : processLinkGlobal k process = .ok k') :
    ∃ table head, k' = { k with processTable := table, processHead := head }
      ∧ ∀ q, (table q).core = (k.processTable q).core := by
  unfold processLinkGlobal at h
  split at h
  · obtain rfl := Except.ok.inj h
    exact ⟨_, _, rfl, fun _ => rfl⟩
  · obtain ⟨r, -, hr⟩ := bind_eq_ok.mp h
    cases r with
    | none =>
        obtain rfl := Except.ok.inj hr
        exact ⟨_, _, rfl, fun _ => rfl⟩
    | some tail =>
        obtain rfl := Except.ok.inj hr
        exact ⟨(k.modify tail fun r => { r with next := some process }).processTable,
          k.processHead, rfl, modify_keeps Process.core rfl⟩

theorem processUnlinkGlobal_relinked {k k' : Kernel} {process : Slot}
    (h : processUnlinkGlobal k process = .ok k') : Relinked process k k' := by
  obtain ⟨r, -, hr⟩ := bind_eq_ok.mp h
  match r, hr with
  | none, hr =>
      obtain rfl := Except.ok.inj hr
      exact Relinked.refl process k
  | some (none, cursor), hr =>
      obtain rfl := Except.ok.inj hr
      exact (Relinked.head process k _).trans (Relinked.modify process _ fun _ => rfl)
  | some (some previous, cursor), hr =>
      obtain rfl := Except.ok.inj hr
      exact (Relinked.modify process k fun _ => rfl).trans (Relinked.modify process _ fun _ => rfl)

theorem processUnlinkChild_relinked {k k' : Kernel} {process : Slot}
    (h : processUnlinkChild k process = .ok k') : Relinked process k k' := by
  unfold processUnlinkChild at h
  split at h
  · obtain rfl := Except.ok.inj h
    exact Relinked.refl process k
  · obtain ⟨r, -, hr⟩ := bind_eq_ok.mp h
    match r, hr with
    | none, hr =>
        obtain rfl := Except.ok.inj hr
        exact Relinked.refl process k
    | some (none, cursor), hr =>
        obtain rfl := Except.ok.inj hr
        exact (Relinked.modify process k fun _ => rfl).trans
          (Relinked.modify process _ fun h => absurd rfl h)
    | some (some previous, cursor), hr =>
        obtain rfl := Except.ok.inj hr
        exact (Relinked.modify process k fun _ => rfl).trans
          (Relinked.modify process _ fun h => absurd rfl h)

theorem processLinkChild_relinked (k : Kernel) (parent : Option Slot) (child : Slot) :
    Relinked child k (processLinkChild k parent child) := by
  have hchild : Relinked child k
      (k.modify child fun r => { r with parent := parent, nextSibling := none }) :=
    Relinked.modify child k fun h => absurd rfl h
  unfold processLinkChild
  cases parent with
  | none => exact hchild
  | some parent =>
      dsimp only
      split
      · exact hchild.trans (Relinked.modify child _ fun _ => rfl)
      · exact (hchild.trans (Relinked.modify child _ fun h => absurd rfl h)).trans
          (Relinked.modify child _ fun _ => rfl)

/-! ## Release -/

/-- `scheduler_cursor` after a process is released. -/
def cursorOff (k : Kernel) (process : Slot) : Option Slot :=
  if k.schedulerCursor = some process then k.processHead else k.schedulerCursor

theorem moveCursorOff_eq (k : Kernel) (process : Slot) :
    moveCursorOff k process = { k with schedulerCursor := cursorOff k process } := by
  unfold moveCursorOff cursorOff
  split <;> rfl

/-- The machine after a process is released. -/
def vmWithout (k : Kernel) (process : Slot) : Vm :=
  (processReleaseMemory k.vm (k.processTable process).memory).1

/-- The kernel between `process_release_memory` and the unlinking. -/
def releaseReady (k : Kernel) (process : Slot) : Kernel :=
  ({ k with schedulerCursor := cursorOff k process, vm := vmWithout k process }).modify process
    fun r => { r with memory := processResetMemory }

theorem processRelease_unlinks {k k' : Kernel} {c : Slot} (hc : some c ≠ k.kernelProcess)
    (h : processRelease k c = .ok k') :
    ∃ k1 k2, processUnlinkChild (releaseReady k c) c = .ok k1
      ∧ processUnlinkGlobal k1 c = .ok k2 ∧ k' = k2.modify c fun _ => Process.zero := by
  unfold processRelease at h
  rw [if_neg hc, moveCursorOff_eq] at h
  obtain ⟨k1, h1, h⟩ := bind_eq_ok.mp h
  obtain ⟨k2, h2, h⟩ := bind_eq_ok.mp h
  exact ⟨k1, k2, h1, h2, (Except.ok.inj h).symm⟩

/-- What a release does: the record is zeroed, its memory goes back, the
cursor moves off it, and no other core changes. -/
theorem processRelease_eq {k k' : Kernel} {c : Slot} (hc : some c ≠ k.kernelProcess)
    (h : processRelease k c = .ok k') :
    ∃ table head, k' = { k with
        processTable := table
        processHead := head
        vm := vmWithout k c
        schedulerCursor := cursorOff k c }
      ∧ table c = Process.zero
      ∧ ∀ q, q ≠ c → (table q).core = (k.processTable q).core := by
  obtain ⟨k1, k2, h1, h2, rfl⟩ := processRelease_unlinks hc h
  obtain ⟨t1, head1, rfl, hcore1⟩ := processUnlinkChild_relinked h1
  obtain ⟨t2, head2, rfl, hcore2⟩ := processUnlinkGlobal_relinked h2
  refine ⟨Function.update t2 c Process.zero, head2, rfl, Function.update_self _ _ _, ?_⟩
  intro q hq
  rw [Function.update_of_ne hq, hcore2 q hq, hcore1 q hq]
  exact congrArg Process.core (modify_of_ne _ _ _ hq)

/-! ## Creation -/

/-- The memory record before `process_memory_map`. -/
def requestedMemory (base size : Nat) : ProcessMemory :=
  { ProcessMemory.zero with virtualBase := base, codeSize := size }

/-- The record of a process that has its memory and is not linked yet. -/
def freshProcess (pid owner : Nat) (function : Option ExecFn) (memory : ProcessMemory) : Process :=
  { Process.zero with
    used := true
    pid := pid
    owner := owner
    rights := processRightAll
    entry := function
    signalHandler := some .processDefaultSignalHandler
    memory := memory }

/-- The kernel with the record `r` in slot `p` and its pid handed out. -/
def Kernel.withProcess (k : Kernel) (p : Slot) (r : Process) (vm : Vm) : Kernel :=
  { k with
    processTable := Function.update k.processTable p r
    vm := vm
    nextPid := add32 k.nextPid 1 }

theorem processAllocateSlot_some {k k' : Kernel} {p : Slot}
    (h : processAllocateSlot k = some (p, k')) :
    p ≠ 0 ∧ (k.processTable p).used = false
      ∧ k' = k.modify p fun _ => { Process.zero with used := true } := by
  unfold processAllocateSlot at h
  obtain ⟨slot, hslot, heq⟩ := Option.map_eq_some_iff.mp h
  obtain ⟨rfl, rfl⟩ := Prod.mk.inj heq
  have hunused := List.find?_some hslot
  have hmem := List.mem_of_find?_eq_some hslot
  refine ⟨?_, by simpa using hunused, rfl⟩
  rintro rfl
  exact absurd hmem (by decide)

/-- The record and the pid of a new process, before its memory is mapped. -/
theorem prepare_eq (k : Kernel) (p : Slot) (owner base : Nat) (function : Option ExecFn)
    (size : Nat) :
    let k1 := k.modify p fun _ => { Process.zero with used := true }
    { k1.modify p (newProcess k1.nextPid owner base function size) with
        nextPid := add32 k1.nextPid 1 }
      = k.withProcess p (freshProcess k.nextPid owner function (requestedMemory base size))
        k.vm := by
  dsimp only
  rw [modify_modify]
  rfl

theorem memoryMapOf_ok {k k' : Kernel} {p : Slot} {r : Process} {vm : Vm} {ok : Bool}
    (h : memoryMapOf (k.withProcess p r vm) p = .ok (ok, k')) :
    ∃ vm' memory, processMemoryMap vm p r.memory = .ok (ok, vm', memory)
      ∧ k' = k.withProcess p { r with memory := memory } vm' := by
  unfold memoryMapOf at h
  obtain ⟨⟨ok', vm', memory⟩, hmap, heq⟩ := bind_eq_ok.mp h
  obtain ⟨rfl, rfl⟩ := Prod.mk.inj (Except.ok.inj heq)
  have hp : ((k.withProcess p r vm).processTable p).memory = r.memory := by
    simp [Kernel.withProcess]
  refine ⟨vm', memory, by rw [← hp]; exact hmap, ?_⟩
  unfold Kernel.withProcess Kernel.modify
  simp only [Function.update_self, Function.update_idem]

section Create

variable {k k' : Kernel} {parent : Option Slot} {owner base size : Nat}
  {function : Option ExecFn}

/-- How a creation that returned a process got there. -/
theorem processCreateInternal_some {p : Slot}
    (h : processCreateInternal k parent owner base function size = .ok (some p, k')) :
    p ≠ 0 ∧ (k.processTable p).used = false
      ∧ ∃ vm memory k1, processMemoryMap k.vm p (requestedMemory base size) = .ok (true, vm, memory)
        ∧ processLinkGlobal (processLinkChild
            (k.withProcess p (freshProcess k.nextPid owner function memory) vm) parent p) p = .ok k1
        ∧ k' = { k1 with vm := clearFirstWords (k1.processTable p).memory k1.vm } := by
  unfold processCreateInternal at h
  split at h
  · cases h
  · rename_i q k0 halloc
    obtain ⟨hq, hunused, rfl⟩ := processAllocateSlot_some halloc
    rw [prepare_eq k q owner base function size] at h
    obtain ⟨⟨ok, k1⟩, hmap, h⟩ := bind_eq_ok.mp h
    obtain ⟨vm, memory, hmap', rfl⟩ := memoryMapOf_ok hmap
    cases ok with
    | false =>
        obtain ⟨k2, -, h⟩ := bind_eq_ok.mp h
        cases Except.ok.inj h
    | true =>
        obtain ⟨k2, hlink, h⟩ := bind_eq_ok.mp h
        obtain ⟨hqp, rfl⟩ := Prod.mk.inj (Except.ok.inj h)
        obtain rfl := Option.some.inj hqp
        unfold processLink at hlink
        obtain ⟨k3, hk3, h3⟩ := bind_eq_ok.mp hlink
        exact ⟨hq, hunused, vm, memory, k3, hmap', hk3, (Except.ok.inj h3).symm⟩

/-- How a creation failed: there was no slot, or not enough memory and the
new process was released again. -/
theorem processCreateInternal_none
    (h : processCreateInternal k parent owner base function size = .ok (none, k')) :
    k' = k ∨ ∃ p vm memory, p ≠ 0 ∧ (k.processTable p).used = false
      ∧ processMemoryMap k.vm p (requestedMemory base size) = .ok (false, vm, memory)
      ∧ processRelease (k.withProcess p (freshProcess k.nextPid owner function memory) vm) p
          = .ok k' := by
  unfold processCreateInternal at h
  split at h
  · exact Or.inl (Prod.mk.inj (Except.ok.inj h)).2.symm
  · rename_i q k0 halloc
    obtain ⟨hq, hunused, rfl⟩ := processAllocateSlot_some halloc
    rw [prepare_eq k q owner base function size] at h
    obtain ⟨⟨ok, k1⟩, hmap, h⟩ := bind_eq_ok.mp h
    obtain ⟨vm, memory, hmap', rfl⟩ := memoryMapOf_ok hmap
    cases ok with
    | false =>
        obtain ⟨k2, hrel, h⟩ := bind_eq_ok.mp h
        obtain ⟨-, rfl⟩ := Prod.mk.inj (Except.ok.inj h)
        exact Or.inr ⟨q, vm, memory, hq, hunused, hmap', hrel⟩
    | true =>
        obtain ⟨k2, -, h⟩ := bind_eq_ok.mp h
        cases (Prod.mk.inj (Except.ok.inj h)).1

theorem processLinkChild_self (k : Kernel) (parent : Option Slot) (child : Slot) :
    ((processLinkChild k parent child).processTable child).core
      = { k.processTable child with parent := parent }.core := by
  unfold processLinkChild
  cases parent with
  | none =>
      simp only [modify_self]
      rfl
  | some parent =>
      dsimp only
      split
      · rw [modify_keeps Process.core rfl, modify_self]
        rfl
      · rw [modify_keeps Process.core rfl, modify_self, modify_self]
        rfl

/-- What a creation that returned a process does: an unused slot gets the
new record, and no other core changes. -/
theorem spawn_eq {p : Slot}
    (call : processCreateInternal k parent owner base function size = .ok (some p, k')) :
    p ≠ 0 ∧ (k.processTable p).used = false
      ∧ ∃ vm memory table head,
        processMemoryMap k.vm p (requestedMemory base size) = .ok (true, vm, memory)
        ∧ k' = { k with
            processTable := table
            processHead := head
            vm := clearFirstWords memory vm
            nextPid := add32 k.nextPid 1 }
        ∧ (table p).core
          = { freshProcess k.nextPid owner function memory with parent := parent }.core
        ∧ ∀ q, q ≠ p → (table q).core = (k.processTable q).core := by
  obtain ⟨hp, hunused, vm, memory, k1, hmap, hlink, rfl⟩ := processCreateInternal_some call
  refine ⟨hp, hunused, vm, memory, ?_⟩
  have hself := processLinkChild_self
    (k.withProcess p (freshProcess k.nextPid owner function memory) vm) parent p
  obtain ⟨t1, head1, hchild, hcore1⟩ := processLinkChild_relinked
    (k.withProcess p (freshProcess k.nextPid owner function memory) vm) parent p
  rw [hchild] at hlink hself
  obtain ⟨t2, head2, rfl, hcore2⟩ := processLinkGlobal_core hlink
  have hfresh : (t2 p).core
      = { freshProcess k.nextPid owner function memory with parent := parent }.core := by
    rw [hcore2 p, hself]
    simp only [Kernel.withProcess, Function.update_self]
  have hmem : (t2 p).memory = memory := core_memory hfresh
  refine ⟨t2, head2, hmap, ?_, hfresh, ?_⟩
  · dsimp only
    rw [hmem]
    rfl
  · intro q hq
    rw [hcore2 q, hcore1 q hq]
    exact congrArg Process.core (Function.update_of_ne hq _ _)

/-- A mapping that failed has given everything back. -/
theorem mapOrRelease_false {start : Nat} {field : ProcessMemory → Nat → ProcessMemory} {vm vm' : Vm}
    {memory memory' : ProcessMemory}
    {next : Vm → ProcessMemory → Except Fault (Bool × Vm × ProcessMemory)}
    (hnext : ∀ {vm1 m1}, next vm1 m1 = .ok (false, vm', memory') → memory' = processResetMemory)
    (h : mapOrRelease start field vm memory next = .ok (false, vm', memory')) :
    memory' = processResetMemory := by
  obtain ⟨⟨page, vm1⟩, -, h⟩ := bind_eq_ok.mp h
  cases page with
  | none => exact (Prod.mk.inj (Prod.mk.inj (Except.ok.inj h)).2).2.symm
  | some page => exact hnext h

theorem processMemoryMap_false {vm vm' : Vm} {p : Slot} {memory memory' : ProcessMemory}
    (h : processMemoryMap vm p memory = .ok (false, vm', memory')) :
    memory' = processResetMemory := by
  unfold processMemoryMap at h
  refine mapOrRelease_false (fun h => ?_) h
  refine mapOrRelease_false (fun h => ?_) h
  refine mapOrRelease_false (fun h => ?_) h
  refine mapOrRelease_false (fun h => ?_) h
  cases (Prod.mk.inj (Except.ok.inj h)).1

/-- What a failed creation does: nothing but hand out a pid, take some
machine state and zero an unused slot. -/
theorem miss_eq (hk : k.kernelProcess = some 0)
    (call : processCreateInternal k parent owner base function size = .ok (none, k')) :
    k' = k ∨ ∃ p vm table head, p ≠ 0 ∧ (k.processTable p).used = false
      ∧ processMemoryMap k.vm p (requestedMemory base size) = .ok (false, vm, processResetMemory)
      ∧ k' = { k with
          processTable := table
          processHead := head
          vm := vm
          schedulerCursor := cursorOff k p
          nextPid := add32 k.nextPid 1 }
      ∧ table p = Process.zero ∧ ∀ q, q ≠ p → (table q).core = (k.processTable q).core := by
  rcases processCreateInternal_none call with rfl | ⟨p, vm, memory, hp, hunused, hmap, hrel⟩
  · exact Or.inl rfl
  · obtain rfl := processMemoryMap_false hmap
    have hkernel : some p ≠ (k.withProcess p
        (freshProcess k.nextPid owner function processResetMemory) vm).kernelProcess := by
      show some p ≠ k.kernelProcess
      rw [hk]
      exact fun h => hp (Option.some.inj h)
    obtain ⟨table, head, rfl, hzero, hcore⟩ := processRelease_eq hkernel hrel
    refine Or.inr ⟨p, vm, table, head, hp, hunused, hmap, ?_, hzero, ?_⟩
    · have hvm : vmWithout (k.withProcess p
          (freshProcess k.nextPid owner function processResetMemory) vm) p = vm := by
        simp only [vmWithout, Kernel.withProcess, Function.update_self]
        rfl
      rw [hvm]
      rfl
    · intro q hq
      rw [hcore q hq]
      exact congrArg Process.core (Function.update_of_ne hq _ _)

end Create

end Kfs
