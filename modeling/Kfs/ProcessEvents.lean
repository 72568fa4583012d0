import Kfs.Process

/-!
# What can happen to the process table

An `Event` is one call of the process interface, with arbitrary arguments,
or one round of the scheduler. `Event.exec` runs it and gives the result the
caller sees; a fault means that the kernel does not come back from the call.
`KernelStep` is the transition system, labelled with the event and its
result.

Anyone may call anything at any time, whatever process is current: the runs
of the real kernel are among these. The one thing left out is calling the
scheduler from a process: a round starts only when no process has the
processor, that is when `suspended` is `none`.
-/

namespace Kfs

inductive Event where
  | createOwned (owner : Nat) (function : Option ExecFn) (size : Nat)
  | execFn (addr : Nat) (function : Option ExecFn) (size : Nat)
  | fork (source : Option Slot)
  | spawnDemoCounter (owner seed limit : Nat)
  | spawnDemoSocketPair (owner value : Nat)
  | exit (process : Option Slot) (exitCode : Int)
  | wait (parent : Option Slot) (pid : Nat)
  | sendSignal (sender : Option Slot) (pid : Nat) (signal : Int) (value : Nat)
  | deliverSignal (process : Option Slot)
  | socketSend (sender : Option Slot) (pid value : Nat)
  | socketRecv (process : Option Slot)
  | schedulerTick
  | schedule
  | yield
  deriving DecidableEq

/-- What the caller gets back. -/
inductive Reply where
  | done
  | created (process : Option Slot)
  | createdPair (pair : Option (Slot × Slot))
  | waited (result : WaitResult)
  | sent (ok : Bool)
  | received (value : Option Nat)
  deriving DecidableEq

/-- A round of `scheduler_run_pending`, which needs a pending tick. -/
def scheduleEvent (k : Kernel) : Except Fault Kernel :=
  if k.pendingSchedulerTicks = 0 then .ok k else schedulerRound k

/-- `process_yield` and the rest of the suspended `schedule_next_process`;
the kernel process returns from `process_yield` at once. -/
def yieldEvent (k : Kernel) : Kernel :=
  match k.suspended with
  | none => k
  | some p => scheduleResume (processYield k) p

def Event.exec (k : Kernel) : Event → Except Fault (Reply × Kernel)
  | .createOwned owner function size =>
      (processCreateOwned k owner function size).map fun r => (.created r.1, r.2)
  | .execFn addr function size =>
      (Kfs.execFn k addr function size).map fun r => (.created r.1, r.2)
  | .fork source => (forkProcess k source).map fun r => (.created r.1, r.2)
  | .spawnDemoCounter owner seed limit =>
      (processSpawnDemoCounter k owner seed limit).map fun r => (.created r.1, r.2)
  | .spawnDemoSocketPair owner value =>
      (processSpawnDemoSocketPair k owner value).map fun r => (.createdPair r.1, r.2)
  | .exit process exitCode => .ok (.done, processExit k process exitCode)
  | .wait parent pid => (processWait k parent pid).map fun r => (.waited r.1, r.2)
  | .sendSignal sender pid signal value =>
      (sendSignalToProcess k sender pid signal value).map fun r => (.sent r.1, r.2)
  | .deliverSignal process => .ok (.done, (deliverProcessSignal k process).2)
  | .socketSend sender pid value =>
      (Kfs.socketSend k sender pid value).map fun r => (.sent r.1, r.2)
  | .socketRecv process =>
      .ok (.received (Kfs.socketRecv k process).1, (Kfs.socketRecv k process).2)
  | .schedulerTick => .ok (.done, Kfs.schedulerTick k)
  | .schedule => (scheduleEvent k).map fun k => (.done, k)
  | .yield => .ok (.done, yieldEvent k)

def KernelStep (k : Kernel) (label : Event × Reply) (k' : Kernel) : Prop :=
  (label.1 = .schedule → k.suspended = none) ∧ label.1.exec k = .ok (label.2, k')

/-- The calls of `process_create_internal` an event makes, at most. -/
def Event.creations : Event → Nat
  | .createOwned .. => 1
  | .execFn .. => 1
  | .fork _ => 1
  | .spawnDemoCounter .. => 1
  | .spawnDemoSocketPair .. => 2
  | _ => 0

/-- The calls of `process_create_internal` along a run. -/
def creations (labels : List (Event × Reply)) : Nat :=
  (labels.map fun label => label.1.creations).sum

/-- The address a process is created at; `0` is the default of its slot. -/
def Event.base : Event → Nat
  | .execFn addr _ _ => addr
  | _ => 0

/-- The process on whose behalf an event creates others. -/
def Event.creator (k : Kernel) : Event → Option Slot
  | .fork source => source
  | _ => k.creator

/-- `process_wait` reaped the process in slot `p`. -/
def reaps (p : Slot) (label : Event × Reply) : Prop :=
  ∃ exitCode, label.2 = .waited (.reaped p exitCode)

instance (p : Slot) : (label : Event × Reply) → Decidable (reaps p label)
  | (_, .waited (.reaped c exitCode)) => decidable_of_iff (c = p)
      ⟨fun h => ⟨exitCode, h ▸ rfl⟩, fun ⟨_, h⟩ => by cases h; rfl⟩
  | (_, .waited .refused) => .isFalse fun ⟨_, h⟩ => by cases h
  | (_, .waited .running) => .isFalse fun ⟨_, h⟩ => by cases h
  | (_, .done) => .isFalse fun ⟨_, h⟩ => by cases h
  | (_, .created _) => .isFalse fun ⟨_, h⟩ => by cases h
  | (_, .createdPair _) => .isFalse fun ⟨_, h⟩ => by cases h
  | (_, .sent _) => .isFalse fun ⟨_, h⟩ => by cases h
  | (_, .received _) => .isFalse fun ⟨_, h⟩ => by cases h

/-! ## Running events -/

/-- `KernelStep` as a function. -/
def kernelExec (k : Kernel) (e : Event) : Option (Reply × Kernel) :=
  if e = .schedule ∧ k.suspended ≠ none then none else (e.exec k).toOption

theorem kernelExec_step ⦃k : Kernel⦄ ⦃e : Event⦄ ⦃r : Reply⦄ ⦃k' : Kernel⦄
    (h : kernelExec k e = some (r, k')) : KernelStep k (e, r) k' := by
  unfold kernelExec at h
  split at h
  · cases h
  · rename_i hsched
    exact ⟨fun he => Decidable.not_not.mp fun hs => hsched ⟨he, hs⟩, eq_ok_of_toOption h⟩

/-- A machine with 8 MB, of which the kernel has the first two, after
`paging_init`. -/
def eightMegabytes : Vm :=
  pagingInit (fun i => 0x110000 + 4096 * i.val)
    { mem := fun _ => 0#8
      pmm :=
        { frameBitmap := fun i => if 64 ≤ i ∧ i < 256 then 0#8 else 0xFF#8
          totalMemory := 0x800000
          totalFrames := 2048
          usedFrames := 512 }
      directories := fun _ _ => 0
      currentDirectory := none
      kernelDirectory := none }

end Kfs
