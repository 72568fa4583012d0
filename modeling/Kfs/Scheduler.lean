import Kfs.ProcessContext

/-!
# The scheduler and the code it runs

The control flow of `scheduler_force_ticks`, `scheduler_run_pending` and
`schedule_next_process`, cut wherever other code can run: at the heads of
the two loops, between the delivery of signals and `schedule_next_process`,
and at the context switch. `Control` is the point that has the processor.
`process_context_switch` hands it to a process and back; what the code of the
process does in between is any sequence of calls, and the timer interrupts
anywhere.
-/

namespace Kfs

/-- The variables of `scheduler_run_pending`, and those of
`scheduler_force_ticks` if that is the caller. -/
structure PendingLoop where
  executed : Nat
  maxTicks : Nat
  forced : Option (Nat × Nat)
  deriving DecidableEq

/-- Who has the processor. -/
inductive Control where
  /-- The code that calls the scheduler. -/
  | kernelCode
  /-- The head of the loop of `scheduler_force_ticks`. -/
  | forceTicks (index count : Nat)
  /-- The head of the loop of `scheduler_run_pending`. -/
  | runPending (loop : PendingLoop)
  /-- Before the call of `schedule_next_process`. -/
  | delivered (loop : PendingLoop)
  /-- The process in slot `p`. -/
  | process (p : Slot) (loop : PendingLoop)
  deriving DecidableEq

/-- Behind the call of `schedule_next_process`. -/
def PendingLoop.next (loop : PendingLoop) : PendingLoop :=
  { loop with executed := loop.executed + 1 }

/-- Where `scheduler_run_pending` returns to. -/
def PendingLoop.caller (loop : PendingLoop) : Control :=
  match loop.forced with
  | none => .kernelCode
  | some (index, count) => .forceTicks (index + 1) count

/-- On to the next point of the scheduler's code. -/
def schedulerAdvance (k : Kernel) : Control → Except Fault (Kernel × Control)
  | .kernelCode => .ok (k, .kernelCode)
  | .forceTicks index count =>
      if index < count then .ok (schedulerTick k, .runPending ⟨0, 1, some (index, count)⟩)
      else .ok (k, .kernelCode)
  | .runPending loop =>
      if k.pendingSchedulerTicks > 0 ∧ loop.executed < loop.maxTicks then do
        let k := { k with pendingSchedulerTicks := sub32 k.pendingSchedulerTicks 1 }
        return (← deliverAll 17 k.processHead k, .delivered loop)
      else .ok (k, loop.caller)
  | .delivered loop => do
      let k ← scheduleNextProcess k
      match k.suspended with
      | some p => return (k, .process p loop)
      | none => return (k, .runPending loop.next)
  | .process p loop => .ok (k, .process p loop)

/-- `process_yield`, called by the code of the process in slot `p`; the kernel
process would return from it at once. -/
def yieldFrom (k : Kernel) (p : Slot) (loop : PendingLoop) : Kernel × Control :=
  if k.currentProcess = none ∨ k.currentProcess = k.kernelProcess then (k, .process p loop)
  else (scheduleResume (processYield k) p, .runPending loop.next)

/-- The end of `process_bootstrap`, behind the call of `entry`. -/
def finishFrom (k : Kernel) (p : Slot) (loop : PendingLoop) : Kernel × Control :=
  yieldFrom (processExit k (some p) (toInt32 (k.processTable p).runtimeValue)) p loop

/-- A call the code of a process may make: none of the scheduler, and
`process_wait` only for itself. -/
def Event.byProcess (k : Kernel) : Event → Prop
  | .wait parent _ => parent = k.currentProcess
  | .schedule => False
  | .yield => False
  | _ => True

inductive SchedulerAction where
  | call (e : Event) (r : Reply)
  | interrupt
  | runPending (maxTicks : Nat)
  | forceTicks (count : Nat)
  | advance
  | yield
  | finish

inductive SchedulerStep : Kernel × Control → SchedulerAction → Kernel × Control → Prop where
  | kernelCall {k k' : Kernel} {e : Event} {r : Reply} (notSchedule : e ≠ .schedule)
      (notYield : e ≠ .yield) (call : e.exec k = .ok (r, k')) :
      SchedulerStep (k, .kernelCode) (.call e r) (k', .kernelCode)
  | processCall {k k' : Kernel} {e : Event} {r : Reply} {p : Slot} {loop : PendingLoop}
      (allowed : e.byProcess k) (call : e.exec k = .ok (r, k')) :
      SchedulerStep (k, .process p loop) (.call e r) (k', .process p loop)
  | interrupt {k : Kernel} {c : Control} :
      SchedulerStep (k, c) .interrupt (schedulerTick k, c)
  | runPending {k : Kernel} (maxTicks : Nat) :
      SchedulerStep (k, .kernelCode) (.runPending maxTicks) (k, .runPending ⟨0, maxTicks, none⟩)
  | forceTicks {k : Kernel} (count : Nat) :
      SchedulerStep (k, .kernelCode) (.forceTicks count) (k, .forceTicks 0 count)
  | advance {k k' : Kernel} {c c' : Control} (call : schedulerAdvance k c = .ok (k', c')) :
      SchedulerStep (k, c) .advance (k', c')
  | yield {k : Kernel} {p : Slot} {loop : PendingLoop} :
      SchedulerStep (k, .process p loop) .yield (yieldFrom k p loop)
  | finish {k : Kernel} {p : Slot} {loop : PendingLoop} :
      SchedulerStep (k, .process p loop) .finish (finishFrom k p loop)

/-! ## Taking steps -/

instance (k : Kernel) : (e : Event) → Decidable (e.byProcess k)
  | .wait parent _ => inferInstanceAs (Decidable (parent = k.currentProcess))
  | .schedule | .yield => inferInstanceAs (Decidable False)
  | .createOwned .. | .execFn .. | .fork _ | .spawnDemoCounter .. | .spawnDemoSocketPair ..
  | .exit .. | .sendSignal .. | .deliverSignal _ | .socketSend .. | .socketRecv _
  | .schedulerTick => inferInstanceAs (Decidable True)

/-- Whether code at `c` may make a call. -/
def Control.mayCall (k : Kernel) (c : Control) (e : Event) : Bool :=
  match c with
  | .kernelCode => decide (e ≠ .schedule ∧ e ≠ .yield)
  | .process _ _ => decide (e.byProcess k)
  | _ => false

/-- `SchedulerStep` as a function. -/
def schedulerExec (s : Kernel × Control) (action : SchedulerAction) : Option (Kernel × Control) :=
  match action, s.2 with
  | .call e r, c =>
      if c.mayCall s.1 e then
        (e.exec s.1).toOption.bind fun x => if x.1 = r then some (x.2, c) else none
      else none
  | .interrupt, c => some (schedulerTick s.1, c)
  | .runPending maxTicks, .kernelCode => some (s.1, .runPending ⟨0, maxTicks, none⟩)
  | .forceTicks count, .kernelCode => some (s.1, .forceTicks 0 count)
  | .advance, c => (schedulerAdvance s.1 c).toOption
  | .yield, .process p loop => some (yieldFrom s.1 p loop)
  | .finish, .process p loop => some (finishFrom s.1 p loop)
  | _, _ => none

theorem schedulerExec_step ⦃s : Kernel × Control⦄ ⦃action : SchedulerAction⦄
    ⦃s' : Kernel × Control⦄ (h : schedulerExec s action = some s') :
    SchedulerStep s action s' := by
  obtain ⟨k, c⟩ := s
  cases action with
  | call e r =>
      simp only [schedulerExec] at h
      split at h
      · next hmay =>
          obtain ⟨⟨r', k'⟩, hcall, h⟩ := Option.bind_eq_some_iff.mp h
          split at h
          · next hreply =>
              obtain rfl := Option.some.inj h
              obtain rfl : r' = r := hreply
              cases c with
              | kernelCode =>
                  obtain ⟨hschedule, hyield⟩ := of_decide_eq_true hmay
                  exact .kernelCall hschedule hyield (eq_ok_of_toOption hcall)
              | process p loop =>
                  exact .processCall (of_decide_eq_true hmay) (eq_ok_of_toOption hcall)
              | _ => cases hmay
          · cases h
      · cases h
  | interrupt =>
      obtain rfl := Option.some.inj h
      exact .interrupt
  | advance => exact .advance (eq_ok_of_toOption h)
  | runPending maxTicks | forceTicks count =>
      cases c <;> cases h
      constructor
  | yield | finish =>
      cases c <;> cases h
      constructor

end Kfs
