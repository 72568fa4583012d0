import Kfs.Lib.Chain
import Kfs.Lib.Ring
import Kfs.ProcessMemory

/-!
# Processes

`kernel/src/process.c`. The process table has sixteen slots; a pointer to a
process is an `Option Slot`, and slot 0 is the kernel process. Used slots are
linked into one global list through `next`, and every process links its
children through `children` and `next_sibling`.

Walks of these lists are `scan` and `search` with a bound of seventeen: a
walk that meets more than the sixteen slots never ends.

Control. `process_context_switch` hands the processor over, so
`schedule_next_process` is cut there: `scheduleNextProcess` runs up to the
switch and remembers in `suspended` which process it switched to, and
`scheduleResume` is what it still does when that process gives the
processor back (`processYield`). Saved register contexts are not part of the
model, nor is the code of the processes: what they do is what the events of
`ProcessEvents` may do.
-/

namespace Kfs

/-! ## Records -/

/-- `process_status_t`. -/
inductive Status where
  | ready
  | run
  | waiting
  | zombie
  | thread
  deriving DecidableEq, Repr

/-- `process_pending_signal_t`. -/
structure PendingSignal where
  signal : Int
  value : Nat
  deriving DecidableEq, Repr

/-- The functions a process can be started with. -/
inductive ExecFn where
  | demoCounterProcess
  | demoSocketReceiverProcess
  | demoSocketSenderProcess
  | other (address : Nat)
  deriving DecidableEq, Repr

/-- The signal handlers of the repository: there is one. -/
inductive SignalHandler where
  | processDefaultSignalHandler
  deriving DecidableEq, Repr

/-- `process_t`. `signals` holds `pending_process_signals`, `signal_head` and
`signal_tail`. -/
structure Process where
  pid : Nat
  status : Status
  owner : Nat
  rights : Nat
  parent : Option Slot
  children : Option Slot
  nextSibling : Option Slot
  next : Option Slot
  memory : ProcessMemory
  signals : Ring 16 PendingSignal
  processSocket : Ring 8 Nat
  entry : Option ExecFn
  signalHandler : Option SignalHandler
  cpuTicks : Nat
  runCount : Nat
  switchCount : Nat
  lastSignal : Nat
  lastSignalValue : Nat
  lastSocketValue : Nat
  runtimeState : Nat
  runtimeValue : Nat
  runtimeArg0 : Nat
  runtimeArg1 : Nat
  exitCode : Int
  waitTargetPid : Nat
  used : Bool

/-- The record after `memset` to zero. -/
def Process.zero : Process where
  pid := 0
  status := .ready
  owner := 0
  rights := 0
  parent := none
  children := none
  nextSibling := none
  next := none
  memory := ProcessMemory.zero
  signals := ⟨fun _ => ⟨0, 0⟩, 0, 0⟩
  processSocket := ⟨fun _ => 0, 0, 0⟩
  entry := none
  signalHandler := none
  cpuTicks := 0
  runCount := 0
  switchCount := 0
  lastSignal := 0
  lastSignalValue := 0
  lastSocketValue := 0
  runtimeState := 0
  runtimeValue := 0
  runtimeArg0 := 0
  runtimeArg1 := 0
  exitCode := 0
  waitTargetPid := 0
  used := false

structure Kernel where
  vm : Vm
  processTable : Slot → Process
  processHead : Option Slot
  currentProcess : Option Slot
  kernelProcess : Option Slot
  schedulerCursor : Option Slot
  nextPid : Nat
  pendingSchedulerTicks : Nat
  totalSchedulerTicks : Nat
  totalContextSwitches : Nat
  schedulerEnabled : Bool
  suspended : Option Slot

/-- Assign fields of one record. -/
def Kernel.modify (k : Kernel) (p : Slot) (f : Process → Process) : Kernel :=
  { k with processTable := Function.update k.processTable p (f (k.processTable p)) }

def processRightAll : Nat := 0xFFFFFFFF

def processSignalKill : Int := 9

def processSignalTerm : Int := 15

def processSignalSocket : Int := 17

/-! ## The global list -/

/-- The first unused slot from 1 on, zeroed and marked used. -/
def processAllocateSlot (k : Kernel) : Option (Slot × Kernel) :=
  ((List.finRange 16).tail.find? fun slot => !(k.processTable slot).used).map fun slot =>
    (slot, k.modify slot fun _ => { Process.zero with used := true })

def Kernel.nextOf (k : Kernel) (p : Slot) : Option Slot := (k.processTable p).next

/-- Link behind the tail of the list. -/
def processLinkGlobal (k : Kernel) (process : Slot) : Except Fault Kernel :=
  if k.processHead = none then .ok { k with processHead := some process }
  else do
    match ← search k.nextOf (fun p => (k.nextOf p).isNone) 17 k.processHead with
    | none => return k
    | some tail => return k.modify tail fun r => { r with next := some process }

def processUnlinkGlobal (k : Kernel) (process : Slot) : Except Fault Kernel := do
  match ← scan k.nextOf (fun p => decide (p = process)) 17 none k.processHead with
  | none => return k
  | some (none, cursor) =>
      return ({ k with processHead := k.nextOf cursor }).modify process
        fun r => { r with next := none }
  | some (some previous, cursor) =>
      return (k.modify previous fun r => { r with next := k.nextOf cursor }).modify process
        fun r => { r with next := none }

/-! ## Children -/

def Kernel.siblingOf (k : Kernel) (p : Slot) : Option Slot := (k.processTable p).nextSibling

/-- Link in front of the parent's children. -/
def processLinkChild (k : Kernel) (parent : Option Slot) (child : Slot) : Kernel :=
  let k := k.modify child fun r => { r with parent := parent, nextSibling := none }
  match parent with
  | none => k
  | some parent =>
      match (k.processTable parent).children with
      | none => k.modify parent fun r => { r with children := some child }
      | some first =>
          (k.modify child fun r => { r with nextSibling := some first }).modify parent
            fun r => { r with children := some child }

def processUnlinkChild (k : Kernel) (process : Slot) : Except Fault Kernel :=
  match (k.processTable process).parent with
  | none => .ok k
  | some parent => do
      match ← scan k.siblingOf (fun p => decide (p = process)) 17 none
          (k.processTable parent).children with
      | none => return k
      | some (none, cursor) =>
          return (k.modify parent fun r => { r with children := k.siblingOf cursor }).modify
            process fun r => { r with nextSibling := none, parent := none }
      | some (some previous, cursor) =>
          return (k.modify previous fun r => { r with nextSibling := k.siblingOf cursor }).modify
            process fun r => { r with nextSibling := none, parent := none }

/-! ## Creation and release -/

/-- `process_release_memory` on a process. -/
def releaseMemoryOf (k : Kernel) (process : Slot) : Kernel :=
  let (vm, memory) := processReleaseMemory k.vm (k.processTable process).memory
  ({ k with vm := vm }).modify process fun r => { r with memory := memory }

/-- `if (scheduler_cursor == process) scheduler_cursor = process_head;` -/
def moveCursorOff (k : Kernel) (process : Slot) : Kernel :=
  if k.schedulerCursor = some process then { k with schedulerCursor := k.processHead } else k

def processRelease (k : Kernel) (process : Slot) : Except Fault Kernel :=
  if some process = k.kernelProcess then .ok k
  else do
    let k := releaseMemoryOf (moveCursorOff k process) process
    let k ← processUnlinkChild k process
    let k ← processUnlinkGlobal k process
    return k.modify process fun _ => Process.zero

/-- `socket_create`. -/
def socketCreate (r : Process) : Process :=
  { r with processSocket := { r.processSocket with head := 0, tail := 0 } }

/-- The record of a new process before its memory is mapped. -/
def newProcess (pid owner requestedBase : Nat) (function : Option ExecFn) (size : Nat)
    (r : Process) : Process :=
  socketCreate { r with
    pid := pid
    status := .ready
    owner := owner
    rights := processRightAll
    entry := function
    signalHandler := some .processDefaultSignalHandler
    memory := { r.memory with virtualBase := requestedBase, codeSize := size } }

/-- The words `process_create_internal` clears at the end. -/
def clearFirstWords (memory : ProcessMemory) (vm : Vm) : Vm :=
  let m := if memory.dataPage ≠ 0 then store32 vm.mem memory.dataPage 0 else vm.mem
  let m := if memory.bssPage ≠ 0 then store32 m memory.bssPage 0 else m
  { vm with mem := m }

/-- `process_memory_map` on a process. -/
def memoryMapOf (k : Kernel) (process : Slot) : Except Fault (Bool × Kernel) := do
  let (ok, vm, memory) ← processMemoryMap k.vm process (k.processTable process).memory
  return (ok, ({ k with vm := vm }).modify process fun r => { r with memory := memory })

/-- The last part of `process_create_internal`, once the memory is mapped. -/
def processLink (k : Kernel) (parent : Option Slot) (process : Slot) : Except Fault Kernel := do
  let k ← processLinkGlobal (processLinkChild k parent process) process
  return { k with vm := clearFirstWords (k.processTable process).memory k.vm }

def processCreateInternal (k : Kernel) (parent : Option Slot) (owner requestedBase : Nat)
    (function : Option ExecFn) (size : Nat) : Except Fault (Option Slot × Kernel) :=
  match processAllocateSlot k with
  | none => .ok (none, k)
  | some (process, k) => do
      let k := { k.modify process (newProcess k.nextPid owner requestedBase function size) with
        nextPid := add32 k.nextPid 1 }
      match ← memoryMapOf k process with
      | (false, k) => return (none, ← processRelease k process)
      | (true, k) => return (some process, ← processLink k parent process)

/-- The parent of a process that is created now: `current_process` if there
is one, else the kernel process. -/
def Kernel.creator (k : Kernel) : Option Slot := k.currentProcess.or k.kernelProcess

def processCreateOwned (k : Kernel) (owner : Nat) (function : Option ExecFn) (size : Nat) :
    Except Fault (Option Slot × Kernel) :=
  processCreateInternal k k.creator owner 0 function size

def execFn (k : Kernel) (addr : Nat) (function : Option ExecFn) (size : Nat) :
    Except Fault (Option Slot × Kernel) :=
  let owner := match k.currentProcess with
    | none => 0
    | some p => (k.processTable p).owner
  processCreateInternal k k.creator owner addr function size

/-! ## Fork -/

/-- The fields `fork_process` assigns in the child's record. -/
def inheritFields (source child : Process) (heapBreak : Nat) : Process :=
  { child with
    rights := source.rights
    signalHandler := source.signalHandler
    runtimeState := source.runtimeState
    runtimeValue := source.runtimeValue
    runtimeArg0 := source.runtimeArg0
    runtimeArg1 := source.runtimeArg1
    lastSignal := source.lastSignal
    lastSignalValue := source.lastSignalValue
    memory := { child.memory with heapBreak := heapBreak }
    status := .ready }

/-- The child's `heap_break` has the offset of its source's. -/
def inheritFrom (source child : Process) : Process :=
  inheritFields source child
    (add32 child.memory.heapStart (sub32 source.memory.heapBreak source.memory.heapStart))

/-- The three page copies of `fork_process`. -/
def copyPages (child source : ProcessMemory) (vm : Vm) : Vm :=
  let m := memcpy vm.mem child.dataPage source.dataPage 4096
  let m := memcpy m child.bssPage source.bssPage 4096
  { vm with mem := memcpy m child.heapPage source.heapPage 4096 }

def forkProcess (k : Kernel) (source : Option Slot) : Except Fault (Option Slot × Kernel) :=
  match source with
  | none => .ok (none, k)
  | some source =>
      if some source = k.kernelProcess ∨ (k.processTable source).entry = none then .ok (none, k)
      else do
        let r := k.processTable source
        match ← processCreateInternal k (some source) r.owner 0 r.entry r.memory.codeSize with
        | (none, k) => return (none, k)
        | (some child, k) =>
            let vm := copyPages (k.processTable child).memory (k.processTable source).memory k.vm
            return (some child, ({ k with vm := vm }).modify child
              (inheritFrom (k.processTable source)))

/-! ## Exit and wait -/

/-- The wake-up of `process_exit`. -/
def wakeParent (k : Kernel) (process : Slot) : Kernel :=
  match (k.processTable process).parent with
  | none => k
  | some parent =>
      if (k.processTable parent).status = .waiting
          ∧ ((k.processTable parent).waitTargetPid = 0
            ∨ (k.processTable parent).waitTargetPid = (k.processTable process).pid) then
        k.modify parent fun r => { r with status := .ready }
      else k

def processExit (k : Kernel) (process : Option Slot) (exitCode : Int) : Kernel :=
  match process with
  | none => k
  | some p =>
      if some p = k.kernelProcess ∨ (k.processTable p).status = .zombie then k
      else wakeParent (k.modify p fun r => { r with exitCode := exitCode, status := .zombie }) p

def processGetByPid (k : Kernel) (pid : Nat) : Except Fault (Option Slot) :=
  search k.nextOf (fun p => decide ((k.processTable p).used = true ∧ (k.processTable p).pid = pid))
    17 k.processHead

/-- `process_wait` on a child that is still alive. -/
def waitFor (k : Kernel) (parent : Option Slot) (pid : Nat) : Kernel :=
  match parent with
  | none => k
  | some p =>
      let k' := k.modify p fun r => { r with waitTargetPid := pid }
      if some p = k.kernelProcess then k'
      else k'.modify p fun r => { r with status := .waiting }

/-- `if (parent != NULL && parent->status == WAITING) parent->status = THREAD;` -/
def stopWaiting (k : Kernel) (parent : Option Slot) : Kernel :=
  match parent with
  | none => k
  | some p =>
      if (k.processTable p).status = .waiting then k.modify p fun r => { r with status := .thread }
      else k

/-- The result of `process_wait`: `-1`, `0` and `1` with the exit code and
the slot that was released. -/
inductive WaitResult where
  | refused
  | running
  | reaped (child : Slot) (exitCode : Int)
  deriving DecidableEq, Repr

def processWait (k : Kernel) (parent : Option Slot) (pid : Nat) :
    Except Fault (WaitResult × Kernel) := do
  match ← processGetByPid k pid with
  | none => return (.refused, k)
  | some child =>
      if parent ≠ k.kernelProcess ∧ (k.processTable child).parent ≠ parent then
        return (.refused, k)
      else if (k.processTable child).status ≠ .zombie then
        return (.running, waitFor k parent pid)
      else
        return (.reaped child (k.processTable child).exitCode,
          ← processRelease (stopWaiting k parent) child)

/-! ## The heap of a process -/

/-- Whether `process_memory_alloc` returned `0`. -/
def processMemoryAlloc (k : Kernel) (process : Option Slot) (size : Nat) : Bool × Kernel :=
  match process with
  | none => (false, k)
  | some p =>
      if size = 0 then (false, k)
      else if add32 (k.processTable p).memory.heapBreak size
          > (k.processTable p).memory.heapEnd then (false, k)
      else (true, k.modify p fun r =>
        { r with memory := { r.memory with heapBreak := add32 r.memory.heapBreak size } })

/-- The address `process_mmap` returned; `0` is `NULL`. -/
def processMmap (k : Kernel) (process : Option Slot) (size : Nat) : Nat × Kernel :=
  match process with
  | none => (0, k)
  | some p =>
      if size = 0 then (0, k)
      else
        let oldBreak := (k.processTable p).memory.heapBreak
        match processMemoryAlloc k (some p) size with
        | (false, k) => (0, k)
        | (true, k) => (oldBreak, k)

/-! ## Signals -/

/-- `process_can_signal`. -/
def processCanSignal (k : Kernel) (sender target : Option Slot) : Bool :=
  match target, sender with
  | none, _ => false
  | some _, none => true
  | some t, some s =>
      decide ((k.processTable s).owner = 0 ∨ s = t
        ∨ (k.processTable s).owner = (k.processTable t).owner)

/-- Whether the signal was queued (`0`) or refused (`-1`). -/
def queueProcessSignal (k : Kernel) (process : Option Slot) (signal : Int) (value : Nat) :
    Bool × Kernel :=
  match process with
  | none => (false, k)
  | some p =>
      if (k.processTable p).signals.Full then (false, k)
      else (true, k.modify p fun r => { r with signals := r.signals.put ⟨signal, value⟩ })

def processSignalPendingCount (k : Kernel) (process : Option Slot) : Nat :=
  match process with
  | none => 0
  | some p =>
      let r := (k.processTable p).signals
      if r.tail.val ≥ r.head.val then r.tail.val - r.head.val
      else 16 - r.head.val + r.tail.val

def processDefaultSignalHandler (k : Kernel) (process : Slot) (signal : Int) (value : Nat) :
    Kernel :=
  let k := k.modify process fun r =>
    { r with lastSignal := toUInt32 signal, lastSignalValue := value }
  if signal = processSignalTerm ∨ signal = processSignalKill then
    processExit k (some process) (128 + signal)
  else k

/-- One round of the loop of `deliver_process_signal`. -/
def deliverOne (k : Kernel) (process : Slot) : Kernel :=
  let pending := (k.processTable process).signals.front
  let k := k.modify process fun r =>
    { r with
      signals := r.signals.drop
      lastSignal := toUInt32 pending.signal
      lastSignalValue := pending.value }
  match (k.processTable process).signalHandler with
  | some .processDefaultSignalHandler =>
      processDefaultSignalHandler k process pending.signal pending.value
  | none => processDefaultSignalHandler k process pending.signal pending.value

/-- The loop of `deliver_process_signal`. Every round takes a signal out of a
queue that holds at most fifteen, so sixteen rounds are never exceeded. -/
def deliverLoop (process : Slot) : Nat → Nat → Kernel → Nat × Kernel
  | 0, delivered, k => (delivered, k)
  | fuel + 1, delivered, k =>
      if (k.processTable process).signals.Empty then (delivered, k)
      else
        let k := deliverOne k process
        if (k.processTable process).status = .zombie then (delivered + 1, k)
        else deliverLoop process fuel (delivered + 1) k

/-- The number of signals delivered. -/
def deliverProcessSignal (k : Kernel) (process : Option Slot) : Nat × Kernel :=
  match process with
  | none => (0, k)
  | some p => deliverLoop p 16 0 k

def sendSignalToProcess (k : Kernel) (sender : Option Slot) (pid : Nat) (signal : Int)
    (value : Nat) : Except Fault (Bool × Kernel) := do
  let target ← processGetByPid k pid
  if processCanSignal k sender target then return queueProcessSignal k target signal value
  else return (false, k)

/-! ## Sockets -/

/-- Whether `socket_send` returned `0`. -/
def socketSend (k : Kernel) (_sender : Option Slot) (pid value : Nat) :
    Except Fault (Bool × Kernel) := do
  match ← processGetByPid k pid with
  | none => return (false, k)
  | some target =>
      if (k.processTable target).processSocket.Full then return (false, k)
      else
        let k := k.modify target fun r => { r with processSocket := r.processSocket.put value }
        return queueProcessSignal k (some target) processSignalSocket value

/-- The value `socket_recv` stored, or `none` when it returned `-1`. -/
def socketRecv (k : Kernel) (process : Option Slot) : Option Nat × Kernel :=
  match process with
  | none => (none, k)
  | some p =>
      if (k.processTable p).processSocket.Empty then (none, k)
      else
        let value := (k.processTable p).processSocket.front
        (some value, k.modify p fun r =>
          { r with processSocket := r.processSocket.drop, lastSocketValue := value })

/-! ## The scheduler -/

def schedulerTick (k : Kernel) : Kernel :=
  { k with
    totalSchedulerTicks := add32 k.totalSchedulerTicks 1
    pendingSchedulerTicks := add32 k.pendingSchedulerTicks 1 }

/-- A process `pick_next_process` may return. -/
def Process.eligible (r : Process) : Bool :=
  decide (r.used = true ∧ r.entry ≠ none
    ∧ (r.status = .ready ∨ r.status = .thread ∨ r.status = .run))

/-- The loop of `pick_next_process`. Sixteen rounds without meeting `start`
again have come back to another slot, so the loop never ends. -/
def pickLoop (k : Kernel) (head start : Slot) : Nat → Slot → Except Fault (Option Slot)
  | 0, _ => .error .diverge
  | fuel + 1, candidate =>
      let candidate := (k.nextOf candidate).getD head
      if (k.processTable candidate).eligible then .ok (some candidate)
      else if candidate = start then .ok none
      else pickLoop k head start fuel candidate

def pickNextProcess (k : Kernel) : Except Fault (Option Slot) :=
  match k.schedulerEnabled, k.processHead with
  | true, some head =>
      let start := k.schedulerCursor.getD head
      pickLoop k head start 16 start
  | _, _ => .ok none

def processSwitchToKernelSpace (k : Kernel) : Kernel :=
  match k.kernelProcess with
  | none => k
  | some p =>
      { k with vm := pagingSwitchDirectory k.vm (k.processTable p).memory.processPageDirectory }

/-- `schedule_next_process` from the context switch back on. -/
def scheduleResume (k : Kernel) (nextProcess : Slot) : Kernel :=
  let k := processSwitchToKernelSpace k
  let k := if (k.processTable nextProcess).status = .run then
    k.modify nextProcess fun r => { r with status := .ready } else k
  { k with currentProcess := k.kernelProcess, suspended := none }

/-- `schedule_next_process` up to the context switch to the process it picked,
or to its end when it switches to none. -/
def scheduleNextProcess (k : Kernel) : Except Fault Kernel := do
  match ← pickNextProcess k with
  | none => return k
  | some nextProcess =>
      let k := { k with schedulerCursor := some nextProcess, currentProcess := some nextProcess }
      let k := (deliverProcessSignal k (some nextProcess)).2
      if (k.processTable nextProcess).status ≠ .zombie
          ∧ (k.processTable nextProcess).status ≠ .waiting then
        let k := k.modify nextProcess fun r =>
          { r with
            status := .run
            cpuTicks := add32 r.cpuTicks 1
            runCount := add32 r.runCount 1
            switchCount := add32 r.switchCount 1 }
        return { k with
          totalContextSwitches := add32 k.totalContextSwitches 1
          vm := pagingSwitchDirectory k.vm (k.processTable nextProcess).memory.processPageDirectory
          suspended := some nextProcess }
      else return { k with currentProcess := k.kernelProcess }

/-- The walk of `process_deliver_all_pending_signals`. -/
def deliverAll : Nat → Option Slot → Kernel → Except Fault Kernel
  | 0, _, _ => .error .diverge
  | _ + 1, none, k => .ok k
  | fuel + 1, some p, k =>
      let k := if (k.processTable p).used = true ∧ ¬(k.processTable p).signals.Empty then
        (deliverProcessSignal k (some p)).2 else k
      deliverAll fuel (k.nextOf p) k

/-- One round of the loop of `scheduler_run_pending`. -/
def schedulerRound (k : Kernel) : Except Fault Kernel := do
  let k := { k with pendingSchedulerTicks := sub32 k.pendingSchedulerTicks 1 }
  scheduleNextProcess (← deliverAll 17 k.processHead k)

/-- `process_yield` up to its context switch to the scheduler. -/
def processYield (k : Kernel) : Kernel :=
  match k.currentProcess with
  | none => k
  | some p =>
      if some p = k.kernelProcess then k
      else
        let k := if (k.processTable p).status = .run then
          k.modify p fun r => { r with status := .ready } else k
        ({ k with totalContextSwitches := add32 k.totalContextSwitches 1 }).modify p
          fun r => { r with switchCount := add32 r.switchCount 1 }

/-! ## Initialisation and demos -/

/-- `process_init` at boot, where `next_pid` is still 1. -/
def processInit (vm : Vm) : Kernel where
  vm := { vm with
    directories := fun d => match d with
      | .kernel => vm.directories .kernel
      | .process _ => fun _ => 0 }
  processTable := fun slot =>
    if slot = 0 then
      { Process.zero with
        used := true
        pid := 1
        status := .thread
        owner := 0
        rights := processRightAll
        memory := { processResetMemory with processPageDirectory := vm.currentDirectory } }
    else { Process.zero with memory := processResetMemory }
  processHead := some 0
  currentProcess := some 0
  kernelProcess := some 0
  schedulerCursor := some 0
  nextPid := 2
  pendingSchedulerTicks := 0
  totalSchedulerTicks := 0
  totalContextSwitches := 0
  schedulerEnabled := true
  suspended := none

def processSpawnDemoCounter (k : Kernel) (owner seed limit : Nat) :
    Except Fault (Option Slot × Kernel) := do
  match ← processCreateOwned k owner (some .demoCounterProcess) 4096 with
  | (none, k) => return (none, k)
  | (some p, k) =>
      return (some p, k.modify p fun r => { r with runtimeArg0 := seed, runtimeArg1 := limit })

/-- The sender and the receiver, or `none` when it returned `-1`. -/
def processSpawnDemoSocketPair (k : Kernel) (owner value : Nat) :
    Except Fault (Option (Slot × Slot) × Kernel) := do
  match ← processCreateOwned k owner (some .demoSocketReceiverProcess) 4096 with
  | (none, k) => return (none, k)
  | (some receiver, k) =>
      match ← processCreateOwned k owner (some .demoSocketSenderProcess) 4096 with
      | (none, k) => return (none, ← processRelease k receiver)
      | (some sender, k) =>
          let pid := (k.processTable receiver).pid
          return (some (sender, receiver),
            k.modify sender fun r => { r with runtimeArg0 := pid, runtimeArg1 := value })

end Kfs
