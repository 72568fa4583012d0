import Kfs.Scheduler

/-!
# The code of the processes

`process_bootstrap` and the three functions that processes are started with.
A process has the processor until it calls `process_yield`; `Thread` is the
point its code is at meanwhile, with the variables on its stack, and
`runThread` is the code from there to the next `process_yield`.

`Machine` is the kernel, the point of its code that has the processor, and
the threads of the processes. The shell makes the calls that come from the
kernel's code, and the timer interrupts anywhere; an interrupt only counts
a tick, so it does not matter where in the code of a process it comes.
-/

namespace Kfs

/-! ## Threads -/

inductive Thread where
  /-- At the start of `process_bootstrap`. -/
  | bootstrap
  /-- In the loop of `demo_counter_process`. -/
  | counting (counter iterations limit : Nat)
  /-- In the loop of `demo_socket_receiver_process`. -/
  | receiving
  /-- In the loop of `demo_socket_sender_process`. -/
  | sending
  /-- At the `while (1)` of `process_bootstrap`. -/
  | spinning
  deriving DecidableEq, Repr

/-- `*((uint32_t *)virt) = value` in the directory that is loaded, for an
address that is a multiple of four. -/
def Vm.storeWord (vm : Vm) (virt value : Nat) : Except Fault Vm :=
  if pagingIsMapped vm virt then
    .ok { vm with mem := store32 vm.mem (pagingGetPhysical vm virt) value }
  else .error (.panic "Page fault")

/-- `process_bootstrap` behind the call of `entry`. -/
def bootstrapExit (k : Kernel) (process : Slot) : Kernel × Thread :=
  (processExit k (some process) (toInt32 (k.processTable process).runtimeValue), .spinning)

/-- `demo_counter_process` from the test of its loop. -/
def demoCounterLoop (k : Kernel) (process : Slot) (counter iterations limit : Nat) :
    Except Fault (Kernel × Thread) :=
  if counter < limit then do
    let counter := add32 counter 1
    let iterations := add32 iterations 1
    let memory := (k.processTable process).memory
    let vm ← k.vm.storeWord memory.dataStart counter
    let vm ← vm.storeWord memory.bssStart iterations
    return (({ k with vm := vm }).modify process fun r =>
      { r with runtimeValue := counter, runtimeState := iterations },
      .counting counter iterations limit)
  else return bootstrapExit (processExit k (some process) (toInt32 counter)) process

/-- `demo_socket_receiver_process` from the test of its loop. -/
def demoSocketReceiverLoop (k : Kernel) (process : Slot) : Except Fault (Kernel × Thread) :=
  match socketRecv k (some process) with
  | (none, k) => .ok (k, .receiving)
  | (some value, k) => do
      let vm ← k.vm.storeWord (k.processTable process).memory.dataStart value
      let k := ({ k with vm := vm }).modify process fun r => { r with lastSocketValue := value }
      return bootstrapExit (processExit k (some process) (toInt32 (value &&& 0xFFFF))) process

/-- `demo_socket_sender_process` from the test of its loop. -/
def demoSocketSenderLoop (k : Kernel) (process : Slot) : Except Fault (Kernel × Thread) := do
  let r := k.processTable process
  match ← socketSend k (some process) r.runtimeArg0 r.runtimeArg1 with
  | (false, k) => return (k, .sending)
  | (true, k) =>
      let k := k.modify process fun r => { r with runtimeState := 1 }
      return bootstrapExit (processExit k (some process) 0) process

/-- `process_bootstrap`. Without a process to start it returns to an address
that nobody has pushed; functions from elsewhere have no code here. -/
def processBootstrap (k : Kernel) : Except Fault (Kernel × Thread) :=
  match k.currentProcess with
  | none => .error .diverge
  | some process =>
      if some process = k.kernelProcess then .error .diverge
      else
        let r := k.processTable process
        match r.entry with
        | some .demoCounterProcess => demoCounterLoop k process r.runtimeArg0 0 r.runtimeArg1
        | some .demoSocketReceiverProcess => demoSocketReceiverLoop k process
        | some .demoSocketSenderProcess => demoSocketSenderLoop k process
        | some (.other _) | none => .error .diverge

/-- The code of a process up to its next `process_yield`. -/
def runThread (k : Kernel) (process : Slot) : Thread → Except Fault (Kernel × Thread)
  | .bootstrap => processBootstrap k
  | .counting counter iterations limit => demoCounterLoop k process counter iterations limit
  | .receiving => demoSocketReceiverLoop k process
  | .sending => demoSocketSenderLoop k process
  | .spinning => .error .diverge

/-! ## The machine -/

structure Machine where
  kernel : Kernel
  control : Control
  threads : Slot → Thread

/-- `process_initialize_context` puts a new process at the start of
`process_bootstrap`. -/
def startThreads (k k' : Kernel) (threads : Slot → Thread) (q : Slot) : Thread :=
  if (k.processTable q).used = false ∧ (k'.processTable q).used = true then .bootstrap
  else threads q

/-- What the commands of the shell call; the arguments of the demos are
`uint32_t`, and `process_wait` is called for `process_root`. -/
def Event.byShell : Event → Prop
  | .fork _ => True
  | .spawnDemoCounter _ seed limit => seed < 4294967296 ∧ limit < 4294967296
  | .spawnDemoSocketPair _ value => value < 4294967296
  | .wait parent _ => parent = some 0
  | .sendSignal .. => True
  | _ => False

instance : (e : Event) → Decidable e.byShell
  | .fork _ | .sendSignal .. => inferInstanceAs (Decidable True)
  | .wait _ _ => inferInstanceAs (Decidable (_ = _))
  | .spawnDemoCounter _ _ _ => inferInstanceAs (Decidable (_ ∧ _))
  | .spawnDemoSocketPair _ _ => inferInstanceAs (Decidable (_ < _))
  | .createOwned .. | .execFn .. | .exit .. | .deliverSignal _ | .socketSend .. | .socketRecv _
  | .schedulerTick | .schedule | .yield => inferInstanceAs (Decidable False)

inductive MachineAction where
  | call (e : Event) (r : Reply)
  | mmap (process : Option Slot) (size : Nat)
  | interrupt
  | runPending (maxTicks : Nat)
  | forceTicks (count : Nat)
  | advance
  | run

/-- The scheduler advances by itself unless a process has the processor. -/
inductive MachineStep : Machine → MachineAction → Machine → Prop where
  | call {k k' : Kernel} {threads : Slot → Thread} {e : Event} {r : Reply}
      (shell : e.byShell) (call : e.exec k = .ok (r, k')) :
      MachineStep ⟨k, .kernelCode, threads⟩ (.call e r)
        ⟨k', .kernelCode, startThreads k k' threads⟩
  | mmap {k : Kernel} {threads : Slot → Thread} {process : Option Slot} {size : Nat} :
      MachineStep ⟨k, .kernelCode, threads⟩ (.mmap process size)
        ⟨(processMmap k process size).2, .kernelCode, threads⟩
  | interrupt {k : Kernel} {c : Control} {threads : Slot → Thread} :
      MachineStep ⟨k, c, threads⟩ .interrupt ⟨schedulerTick k, c, threads⟩
  | runPending {k : Kernel} {threads : Slot → Thread} (maxTicks : Nat) :
      MachineStep ⟨k, .kernelCode, threads⟩ (.runPending maxTicks)
        ⟨k, .runPending ⟨0, maxTicks, none⟩, threads⟩
  | forceTicks {k : Kernel} {threads : Slot → Thread} (count : Nat) :
      MachineStep ⟨k, .kernelCode, threads⟩ (.forceTicks count) ⟨k, .forceTicks 0 count, threads⟩
  | advance {k k' : Kernel} {c c' : Control} {threads : Slot → Thread}
      (call : schedulerAdvance k c = .ok (k', c')) :
      MachineStep ⟨k, c, threads⟩ .advance ⟨k', c', threads⟩
  | run {k k1 : Kernel} {p : Slot} {loop : PendingLoop} {threads : Slot → Thread} {thread : Thread}
      (code : runThread k p (threads p) = .ok (k1, thread)) :
      MachineStep ⟨k, .process p loop, threads⟩ .run
        ⟨(yieldFrom k1 p loop).1, (yieldFrom k1 p loop).2,
          Function.update threads p thread⟩

/-- On to the next point of the code that has the processor. -/
def Machine.next (m : Machine) : Except Fault Machine :=
  match m.control with
  | .process p loop => do
      let (k, thread) ← runThread m.kernel p (m.threads p)
      return ⟨(yieldFrom k p loop).1, (yieldFrom k p loop).2, Function.update m.threads p thread⟩
  | c => do
      let (k, c) ← schedulerAdvance m.kernel c
      return ⟨k, c, m.threads⟩

def Machine.nexts (m : Machine) : Nat → Except Fault Machine
  | 0 => .ok m
  | n + 1 => do (← m.next).nexts n

theorem Machine.next_step {m m' : Machine} (h : m.next = .ok m') :
    ∃ a, (a = .advance ∨ a = .run) ∧ MachineStep m a m' := by
  obtain ⟨k, c, threads⟩ := m
  have hadvance : (∀ p loop, c ≠ .process p loop) →
      (schedulerAdvance k c >>= fun r => .ok ⟨r.1, r.2, threads⟩) = .ok m' →
      ∃ a, (a = .advance ∨ a = .run) ∧ MachineStep ⟨k, c, threads⟩ a m' := fun _ h => by
    obtain ⟨⟨k', c'⟩, hcall, h⟩ := bind_eq_ok.mp h
    obtain rfl := Except.ok.inj h
    exact ⟨.advance, Or.inl rfl, .advance hcall⟩
  cases c with
  | process p loop =>
      obtain ⟨⟨k1, thread⟩, hcode, h⟩ := bind_eq_ok.mp h
      obtain rfl := Except.ok.inj h
      exact ⟨.run, Or.inr rfl, .run hcode⟩
  | _ => exact hadvance (fun p loop heq => by cases heq) h

/-- `MachineStep` as a function. -/
def machineExec (m : Machine) (action : MachineAction) : Option Machine :=
  match action, m.control with
  | .call e r, .kernelCode =>
      if e.byShell then
        (e.exec m.kernel).toOption.bind fun x =>
          if x.1 = r then some ⟨x.2, .kernelCode, startThreads m.kernel x.2 m.threads⟩ else none
      else none
  | .mmap process size, .kernelCode =>
      some ⟨(processMmap m.kernel process size).2, .kernelCode, m.threads⟩
  | .interrupt, c => some ⟨schedulerTick m.kernel, c, m.threads⟩
  | .runPending maxTicks, .kernelCode => some ⟨m.kernel, .runPending ⟨0, maxTicks, none⟩, m.threads⟩
  | .forceTicks count, .kernelCode => some ⟨m.kernel, .forceTicks 0 count, m.threads⟩
  | .advance, c =>
      (schedulerAdvance m.kernel c).toOption.map fun s => ⟨s.1, s.2, m.threads⟩
  | .run, .process p loop =>
      (runThread m.kernel p (m.threads p)).toOption.map fun x =>
        ⟨(yieldFrom x.1 p loop).1, (yieldFrom x.1 p loop).2, Function.update m.threads p x.2⟩
  | _, _ => none

theorem machineExec_step ⦃m : Machine⦄ ⦃action : MachineAction⦄ ⦃m' : Machine⦄
    (h : machineExec m action = some m') : MachineStep m action m' := by
  obtain ⟨k, c, threads⟩ := m
  cases action with
  | call e r =>
      cases c with
      | kernelCode =>
          simp only [machineExec] at h
          split at h
          · next hshell =>
              obtain ⟨⟨r', k'⟩, hcall, h⟩ := Option.bind_eq_some_iff.mp h
              split at h
              · next hreply =>
                  obtain rfl := Option.some.inj h
                  obtain rfl : r' = r := hreply
                  exact .call hshell (eq_ok_of_toOption hcall)
              · cases h
          · cases h
      | _ => cases h
  | interrupt =>
      obtain rfl := Option.some.inj h
      exact .interrupt
  | advance =>
      obtain ⟨⟨k', c'⟩, hcall, rfl⟩ := Option.map_eq_some_iff.mp h
      exact .advance (eq_ok_of_toOption hcall)
  | run =>
      cases c with
      | process p loop =>
          obtain ⟨⟨k1, thread⟩, hcode, rfl⟩ := Option.map_eq_some_iff.mp h
          exact .run (eq_ok_of_toOption hcode)
      | _ => cases h
  | mmap process size | runPending maxTicks | forceTicks count =>
      cases c <;> cases h
      constructor

/-- After `process_init` and `scheduler_init`. -/
def machineInit (vm : Vm) : Machine := ⟨processInit vm, .kernelCode, fun _ => .bootstrap⟩

end Kfs
