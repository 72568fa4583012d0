import Kfs.Lib.History
import Kfs.ProcessSignals
import Kfs.SchedulerContext

/-!
# Queueing and delivering

The calls that put a signal into a queue and take one out. `signalCalls` reads
them off the code: a send that returned success is one accepted call of
`queue_process_signal`, and the loops of `deliver_process_signal` hand one
signal a round to its handler. No call of the kernel and no step of the
scheduler does anything else to the queue of a process that is there before and
after it (`exec_booked`, `schedulerStep_booked`).

`SignalLedger` is the record of both sides, kept beside a run. What was queued
is what was delivered and then what is pending (`SignalLedger.Balanced`).
-/

namespace Kfs

inductive SignalCall where
  | queue (process : Slot) (pending : PendingSignal)
  | deliver (process : Slot) (pending : PendingSignal)
  deriving DecidableEq

inductive SignalStep : Kernel → SignalCall → Kernel → Prop where
  | queue {k k' : Kernel} {p : Slot} {x : PendingSignal}
      (call : queueProcessSignal k (some p) x.signal x.value = (true, k')) :
      SignalStep k (.queue p x) k'
  | deliver {k : Kernel} {p : Slot} (pending : ¬(k.processTable p).signals.Empty) :
      SignalStep k (.deliver p (k.processTable p).signals.front) (deliverOne k p)

/-- The signals that were queued for slot `q`, in order. -/
def queuedTo (q : Slot) (calls : List SignalCall) : List PendingSignal :=
  calls.filterMap fun call =>
    match call with
    | .queue p x => if p = q then some x else none
    | .deliver .. => none

/-- The signals that were delivered to slot `q`, in order. -/
def deliveredTo (q : Slot) (calls : List SignalCall) : List PendingSignal :=
  calls.filterMap fun call =>
    match call with
    | .deliver p x => if p = q then some x else none
    | .queue .. => none

/-! ## The calls of the code -/

/-- The kernel with one pending tick less. -/
def Kernel.tickTaken (k : Kernel) : Kernel :=
  { k with pendingSchedulerTicks := sub32 k.pendingSchedulerTicks 1 }

/-- The signals the loop of `deliver_process_signal` hands to their handler. -/
def deliverLoopCalls (process : Slot) : Nat → Kernel → List SignalCall
  | 0, _ => []
  | fuel + 1, k =>
      if (k.processTable process).signals.Empty then []
      else
        .deliver process (k.processTable process).signals.front ::
          if ((deliverOne k process).processTable process).status = .zombie then []
          else deliverLoopCalls process fuel (deliverOne k process)

def deliverProcessSignalCalls (k : Kernel) : Option Slot → List SignalCall
  | none => []
  | some p => deliverLoopCalls p 16 k

def deliverAllCalls : Nat → Option Slot → Kernel → List SignalCall
  | 0, _, _ => []
  | _ + 1, none, _ => []
  | fuel + 1, some p, k =>
      if (k.processTable p).used = true ∧ ¬(k.processTable p).signals.Empty then
        deliverProcessSignalCalls k (some p)
          ++ deliverAllCalls fuel ((deliverProcessSignal k (some p)).2.nextOf p)
            (deliverProcessSignal k (some p)).2
      else deliverAllCalls fuel (k.nextOf p) k

def scheduleNextProcessCalls (k : Kernel) : List SignalCall :=
  match pickNextProcess k with
  | .ok (some p) =>
      deliverProcessSignalCalls { k with schedulerCursor := some p, currentProcess := some p }
        (some p)
  | _ => []

/-- What `schedulerAdvance` delivers. -/
def schedulerAdvanceCalls (k : Kernel) : Control → List SignalCall
  | .runPending loop =>
      if k.pendingSchedulerTicks > 0 ∧ loop.executed < loop.maxTicks then
        deliverAllCalls 17 k.processHead k.tickTaken
      else []
  | .delivered _ => scheduleNextProcessCalls k
  | _ => []

/-- A signal that was accepted for the process with pid `pid`. -/
def sentCalls (k : Kernel) (pid : Nat) (pending : PendingSignal) : List SignalCall :=
  match processGetByPid k pid with
  | .ok (some target) => [.queue target pending]
  | _ => []

/-- A round of the scheduler: the walk, and then the process it picks. -/
def scheduleEventCalls (k : Kernel) : List SignalCall :=
  if k.pendingSchedulerTicks = 0 then []
  else
    deliverAllCalls 17 k.processHead k.tickTaken ++
      match deliverAll 17 k.processHead k.tickTaken with
      | .ok k1 => scheduleNextProcessCalls k1
      | .error _ => []

def Event.signalCalls (k : Kernel) : Event → Reply → List SignalCall
  | .sendSignal _ pid signal value, .sent true => sentCalls k pid ⟨signal, value⟩
  | .socketSend _ pid value, .sent true => sentCalls k pid ⟨processSignalSocket, value⟩
  | .deliverSignal process, _ => deliverProcessSignalCalls k process
  | .schedule, _ => scheduleEventCalls k
  | _, _ => []

def SchedulerAction.signalCalls (k : Kernel) (c : Control) : SchedulerAction → List SignalCall
  | .call e r => e.signalCalls k r
  | .advance => schedulerAdvanceCalls k c
  | _ => []

/-! ## The ledger -/

/-- For every slot, what was queued for its process and what was delivered. -/
structure SignalLedger where
  queued : Slot → List PendingSignal
  delivered : Slot → List PendingSignal

def SignalLedger.empty : SignalLedger := ⟨fun _ => [], fun _ => []⟩

/-- The calls of a step are entered for the processes that are there before and
after it. No step releases a process and gives its slot to another, so these
are the same processes; a new one starts with empty pages. -/
def SignalLedger.next (ledger : SignalLedger) (k k' : Kernel) (calls : List SignalCall) :
    SignalLedger where
  queued q :=
    if (k.processTable q).used = true ∧ (k'.processTable q).used = true then
      ledger.queued q ++ queuedTo q calls
    else []
  delivered q :=
    if (k.processTable q).used = true ∧ (k'.processTable q).used = true then
      ledger.delivered q ++ deliveredTo q calls
    else []

/-- The record of a run of the process interface. -/
def kernelLedger (k : Kernel) (label : Event × Reply) (k' : Kernel) (ledger : SignalLedger) :
    SignalLedger :=
  ledger.next k k' (label.1.signalCalls k label.2)

/-- The record of a run of the scheduler. -/
def schedulerLedger (s : Kernel × Control) (action : SchedulerAction) (s' : Kernel × Control)
    (ledger : SignalLedger) : SignalLedger :=
  ledger.next s.1 s'.1 (action.signalCalls s.1 s.2)

/-- Nothing is lost, doubled or out of order. -/
def SignalLedger.Balanced (ledger : SignalLedger) (k : Kernel) : Prop :=
  ∀ q, (k.processTable q).used = true → ledger.queued q = ledger.delivered q ++ k.pendingOf q

/-! ## Deliveries -/

section Deliver

variable {k : Kernel}

instance (x : PendingSignal) : Decidable x.Fatal := inferInstanceAs (Decidable (_ ∨ _))

/-- The oldest signal is taken from the queue of the process in slot `p`. -/
def Kernel.take (k : Kernel) (p : Slot) : Kernel :=
  k.modify p fun r =>
    { r with
      signals := r.signals.drop
      lastSignal := toUInt32 r.signals.front.signal
      lastSignalValue := r.signals.front.value }

/-- A round of `deliver_process_signal`: the signal is taken, and the default
handler exits or not. -/
theorem deliverOne_eq (k : Kernel) (p : Slot) :
    deliverOne k p = if (k.processTable p).signals.front.Fatal then
      processExit (k.take p) (some p) (128 + (k.processTable p).signals.front.signal)
    else k.take p := by
  unfold deliverOne processDefaultSignalHandler Kernel.take
  dsimp only
  simp only [modify_modify]
  split <;> rfl

theorem processExit_signals (k : Kernel) (process : Option Slot) (exitCode : Int) (q : Slot) :
    ((processExit k process exitCode).processTable q).signals = (k.processTable q).signals := by
  cases process with
  | none => rfl
  | some p =>
      rcases processExit_cases k p exitCode with ⟨-, h⟩ | ⟨-, -, ⟨h, -⟩ | ⟨s, -, -, -, h⟩⟩
      · rw [h]
      · rw [h]
        exact modify_keeps Process.signals rfl q
      · rw [h, modify_keeps Process.signals rfl]
        exact modify_keeps Process.signals rfl q

theorem deliverOne_signals (k : Kernel) (p q : Slot) :
    ((deliverOne k p).processTable q).signals
      = if q = p then (k.processTable p).signals.drop else (k.processTable q).signals := by
  have htake : ((k.take p).processTable q).signals
      = if q = p then (k.processTable p).signals.drop else (k.processTable q).signals := by
    unfold Kernel.take
    rw [modify_apply]
    split <;> rfl
  rw [deliverOne_eq, ← htake]
  split
  · exact processExit_signals _ _ _ q
  · rfl

end Deliver

/-! ## The queues along a run -/

section Queues

variable {k k' : Kernel}

theorem queueProcessSignal_put {p : Slot} {signal : Int} {value : Nat}
    (h : queueProcessSignal k (some p) signal value = (true, k')) :
    ¬(k.processTable p).signals.Full
      ∧ k' = k.modify p fun r => { r with signals := r.signals.put ⟨signal, value⟩ } := by
  unfold queueProcessSignal at h
  dsimp only at h
  split at h
  · cases (Prod.mk.inj h).1
  · next hroom => exact ⟨hroom, (Prod.mk.inj h).2.symm⟩

theorem processSignalPendingCount_eq (k : Kernel) (p : Slot) :
    processSignalPendingCount k (some p) = (k.pendingOf p).length := by
  have hcases := (k.processTable p).signals.count_cases
  have hhead := (k.processTable p).signals.head.isLt
  unfold Kernel.pendingOf processSignalPendingCount
  rw [Ring.length_contents]
  dsimp only
  split <;> omega

/-- A signal is refused exactly when fifteen are pending. -/
theorem queueProcessSignal_refused (k : Kernel) (p : Slot) (signal : Int) (value : Nat) :
    (queueProcessSignal k (some p) signal value).1 = false
      ↔ processSignalPendingCount k (some p) = 15 := by
  rw [processSignalPendingCount_eq]
  unfold Kernel.pendingOf queueProcessSignal
  rw [Ring.length_contents]
  dsimp only
  have hfull := (k.processTable p).signals.full_iff
  split
  · next h =>
      constructor
      · exact fun _ => hfull.mp h
      · exact fun _ => rfl
  · next h =>
      constructor
      · exact fun heq => (nomatch heq)
      · exact fun heq => absurd (hfull.mpr heq) h

end Queues

/-! ## The queue of a slot -/

section Accounts

variable {k k' k'' : Kernel} {q : Slot} {calls calls' : List SignalCall}

/-- The queue of slot `q` changed by `calls` and nothing else. -/
def Accounts (q : Slot) (k : Kernel) (calls : List SignalCall) (k' : Kernel) : Prop :=
  k.pendingOf q ++ queuedTo q calls = deliveredTo q calls ++ k'.pendingOf q

theorem queuedTo_append (q : Slot) (calls calls' : List SignalCall) :
    queuedTo q (calls ++ calls') = queuedTo q calls ++ queuedTo q calls' := List.filterMap_append

theorem deliveredTo_append (q : Slot) (calls calls' : List SignalCall) :
    deliveredTo q (calls ++ calls') = deliveredTo q calls ++ deliveredTo q calls' :=
  List.filterMap_append

theorem Accounts.same (h : (k'.processTable q).signals = (k.processTable q).signals) :
    Accounts q k [] k' := by
  unfold Accounts Kernel.pendingOf
  rw [h]
  exact List.append_nil _

theorem Accounts.refl (k : Kernel) (q : Slot) : Accounts q k [] k := .same rfl

theorem Accounts.trans (h : Accounts q k calls k') (h' : Accounts q k' calls' k'') :
    Accounts q k (calls ++ calls') k'' := by
  unfold Accounts at h h' ⊢
  calc k.pendingOf q ++ queuedTo q (calls ++ calls')
      = (k.pendingOf q ++ queuedTo q calls) ++ queuedTo q calls' := by
        rw [queuedTo_append, List.append_assoc]
    _ = deliveredTo q calls ++ (k'.pendingOf q ++ queuedTo q calls') := by
        rw [h, List.append_assoc]
    _ = deliveredTo q (calls ++ calls') ++ k''.pendingOf q := by
        rw [h', deliveredTo_append, List.append_assoc]

/-- A change that leaves the queue alone, before the calls. -/
theorem Accounts.after (h' : Accounts q k' calls k'')
    (h : (k'.processTable q).signals = (k.processTable q).signals) : Accounts q k calls k'' :=
  (Accounts.same h).trans h'

/-- The same behind them. -/
theorem Accounts.before (h : Accounts q k calls k')
    (h' : (k''.processTable q).signals = (k'.processTable q).signals) : Accounts q k calls k'' := by
  have := h.trans (Accounts.same h')
  rwa [List.append_nil] at this

theorem SignalStep.accounts {call : SignalCall} (h : SignalStep k call k') (q : Slot) :
    Accounts q k [call] k' := by
  unfold Accounts queuedTo deliveredTo Kernel.pendingOf
  cases h with
  | @queue _ p x call =>
      obtain ⟨hroom, rfl⟩ := queueProcessSignal_put call
      by_cases hpq : p = q
      · subst hpq
        simp [Ring.contents_put hroom x]
      · simp [hpq, modify_of_ne _ _ _ (Ne.symm hpq)]
  | @deliver p hpending =>
      rw [deliverOne_signals]
      by_cases hpq : p = q
      · subst hpq
        simp [Ring.contents_drop hpending]
      · simp [hpq, Ne.symm hpq]

theorem accounts_run (h : Run SignalStep k calls k') (q : Slot) : Accounts q k calls k' :=
  h.invariant_trace (I := fun calls k' => Accounts q k calls k') (.refl k q)
    fun ih hstep => ih.trans (hstep.accounts q)

/-! ## The loops -/

theorem deliverLoop_run (p : Slot) : ∀ (fuel delivered : Nat) (k : Kernel),
    Run SignalStep k (deliverLoopCalls p fuel k) (deliverLoop p fuel delivered k).2
  | 0, _, k => .nil
  | fuel + 1, delivered, k => by
      rw [deliverLoop, deliverLoopCalls]
      split
      · exact .nil
      · next hpending =>
          have hone := Run.one (SignalStep.deliver hpending)
          dsimp only
          split
          · exact hone
          · exact hone.append (deliverLoop_run p fuel (delivered + 1) (deliverOne k p))

/-- `deliver_process_signal` returns the number of its rounds. -/
theorem deliverLoop_count (p : Slot) : ∀ (fuel delivered : Nat) (k : Kernel),
    (deliverLoop p fuel delivered k).1 = delivered + (deliverLoopCalls p fuel k).length
  | 0, _, _ => rfl
  | fuel + 1, delivered, k => by
      rw [deliverLoop, deliverLoopCalls]
      split
      · rfl
      · dsimp only
        split
        · rfl
        · rw [deliverLoop_count p fuel, List.length_cons]
          omega

theorem deliverProcessSignal_run (k : Kernel) (process : Option Slot) :
    Run SignalStep k (deliverProcessSignalCalls k process) (deliverProcessSignal k process).2 := by
  cases process with
  | none => exact .nil
  | some p => exact deliverLoop_run p 16 0 k

theorem deliverProcessSignal_count (k : Kernel) (process : Option Slot) :
    (deliverProcessSignal k process).1 = (deliverProcessSignalCalls k process).length := by
  cases process with
  | none => rfl
  | some p => exact (deliverLoop_count p 16 0 k).trans (Nat.zero_add _)

theorem deliverAll_run {fuel : Nat} {process : Option Slot}
    (h : deliverAll fuel process k = .ok k') :
    Run SignalStep k (deliverAllCalls fuel process k) k' := by
  induction fuel generalizing process k with
  | zero => cases h
  | succ fuel ih =>
      cases process with
      | none =>
          obtain rfl := Except.ok.inj h
          exact .nil
      | some p =>
          simp only [deliverAll] at h
          rw [deliverAllCalls]
          split
          · next hpending =>
              rw [if_pos hpending] at h
              exact (deliverProcessSignal_run k (some p)).append (ih h)
          · next hnone =>
              rw [if_neg hnone] at h
              exact ih h

/-- The walk of a tick. -/
theorem deliverAll_accounts {fuel : Nat} {process : Option Slot}
    (h : deliverAll fuel process k.tickTaken = .ok k') (q : Slot) :
    Accounts q k (deliverAllCalls fuel process k.tickTaken) k' :=
  (accounts_run (deliverAll_run h) q).after rfl

theorem runPending_walk {loop : PendingLoop} (hpending : k.pendingSchedulerTicks > 0)
    (hexecuted : loop.executed < loop.maxTicks) :
    schedulerAdvance k (.runPending loop)
      = deliverAll 17 k.processHead k.tickTaken >>= fun k1 => .ok (k1, .delivered loop) := by
  rw [schedulerAdvance, if_pos ⟨hpending, hexecuted⟩]
  rfl

/-- A process that takes a turn. -/
theorem scheduleNextProcess_accounts (h : scheduleNextProcess k = .ok k') (q : Slot) :
    Accounts q k (scheduleNextProcessCalls k) k' := by
  unfold scheduleNextProcessCalls
  obtain ⟨picked, hpick, h⟩ := bind_eq_ok.mp h
  rw [hpick]
  cases picked with
  | none =>
      obtain rfl := Except.ok.inj h
      exact .refl k q
  | some p =>
      dsimp only at h ⊢
      have hrun := deliverProcessSignal_run
        { k with schedulerCursor := some p, currentProcess := some p } (some p)
      have hdelivers : Accounts q k _ _ := (accounts_run hrun q).after rfl
      refine hdelivers.before ?_
      generalize (deliverProcessSignal
        { k with schedulerCursor := some p, currentProcess := some p } (some p)).2 = k1 at h
      split at h
      · obtain rfl := Except.ok.inj h
        exact modify_keeps (k := k1) (p := p) Process.signals (f := fun r => { r with
          status := .run
          cpuTicks := add32 r.cpuTicks 1
          runCount := add32 r.runCount 1
          switchCount := add32 r.switchCount 1 }) rfl q
      · obtain rfl := Except.ok.inj h
        rfl

theorem schedulerAdvance_accounts {c c' : Control} (h : schedulerAdvance k c = .ok (k', c'))
    (q : Slot) : Accounts q k (schedulerAdvanceCalls k c) k' := by
  cases c with
  | kernelCode | process =>
      obtain ⟨rfl, -⟩ := Prod.mk.inj (Except.ok.inj h)
      exact .refl _ q
  | forceTicks index count =>
      simp only [schedulerAdvance] at h
      split at h
      · obtain ⟨rfl, -⟩ := Prod.mk.inj (Except.ok.inj h)
        exact .same rfl
      · obtain ⟨rfl, -⟩ := Prod.mk.inj (Except.ok.inj h)
        exact .refl _ q
  | runPending loop =>
      rw [schedulerAdvanceCalls]
      split
      · next hpending =>
          rw [runPending_walk hpending.1 hpending.2] at h
          obtain ⟨k1, hall, h⟩ := bind_eq_ok.mp h
          obtain ⟨rfl, -⟩ := Prod.mk.inj (Except.ok.inj h)
          exact deliverAll_accounts hall q
      · next hdone =>
          rw [schedulerAdvance, if_neg hdone] at h
          obtain ⟨rfl, -⟩ := Prod.mk.inj (Except.ok.inj h)
          exact .refl _ q
  | delivered loop =>
      obtain ⟨k1, hnext, h⟩ := bind_eq_ok.mp h
      have hdelivers := scheduleNextProcess_accounts hnext q
      split at h <;>
        · obtain ⟨rfl, -⟩ := Prod.mk.inj (Except.ok.inj h)
          exact hdelivers

theorem scheduleEvent_accounts (h : scheduleEvent k = .ok k') (q : Slot) :
    Accounts q k (scheduleEventCalls k) k' := by
  unfold scheduleEvent at h
  unfold scheduleEventCalls
  split at h
  · next hticks =>
      obtain rfl := Except.ok.inj h
      rw [if_pos hticks]
      exact .refl _ q
  · next hticks =>
      obtain ⟨k1, hall, hnext⟩ := bind_eq_ok.mp h
      have hwalk : deliverAll 17 k.processHead k.tickTaken = .ok k1 := hall
      rw [if_neg hticks, hwalk]
      exact (deliverAll_accounts hwalk q).trans (scheduleNextProcess_accounts hnext q)

end Accounts

/-! ## Code that neither queues nor delivers -/

section Others

variable {k k' : Kernel}

theorem socketRecv_signals (k : Kernel) (process : Option Slot) (q : Slot) :
    ((socketRecv k process).2.processTable q).signals = (k.processTable q).signals := by
  unfold socketRecv
  cases process with
  | none => rfl
  | some p =>
      dsimp only
      split
      · rfl
      · dsimp only
        rw [modify_apply]
        split
        · next hqp => rw [hqp]
        · rfl

theorem pause_signals (k : Kernel) (p q : Slot) :
    ((if (k.processTable p).status = .run then k.modify p fun r => { r with status := .ready }
      else k).processTable q).signals = (k.processTable q).signals := by
  split
  · exact modify_keeps Process.signals rfl q
  · rfl

theorem processYield_signals (k : Kernel) (q : Slot) :
    ((processYield k).processTable q).signals = (k.processTable q).signals := by
  unfold processYield
  cases k.currentProcess with
  | none => rfl
  | some p =>
      dsimp only
      split
      · rfl
      · exact (modify_keeps Process.signals rfl q).trans (pause_signals k p q)

theorem scheduleResume_signals (k : Kernel) (p q : Slot) :
    ((scheduleResume k p).processTable q).signals = (k.processTable q).signals := by
  have hspace : ((processSwitchToKernelSpace k).processTable q).signals
      = (k.processTable q).signals := by
    unfold processSwitchToKernelSpace
    split <;> rfl
  exact (pause_signals _ p q).trans hspace

theorem yieldEvent_signals (k : Kernel) (q : Slot) :
    ((yieldEvent k).processTable q).signals = (k.processTable q).signals := by
  unfold yieldEvent
  split
  · rfl
  · exact (scheduleResume_signals _ _ q).trans (processYield_signals k q)

theorem yieldFrom_signals (k : Kernel) (p : Slot) (loop : PendingLoop) (q : Slot) :
    ((yieldFrom k p loop).1.processTable q).signals = (k.processTable q).signals := by
  unfold yieldFrom
  split
  · rfl
  · exact (scheduleResume_signals _ _ q).trans (processYield_signals k q)

end Others

/-! ## Creation and release -/

section Creation

variable {k k' k'' : Kernel}

/-- Processes may have come, with empty queues, and none has gone. -/
structure Creates (k k' : Kernel) : Prop where
  old : ∀ q, (k.processTable q).used = true →
    (k'.processTable q).used = true ∧ (k'.processTable q).signals = (k.processTable q).signals
  new : ∀ q, (k.processTable q).used = false → (k'.processTable q).used = true →
    k'.pendingOf q = []

theorem Creates.same (hused : ∀ q, (k'.processTable q).used = (k.processTable q).used)
    (hsignals : ∀ q, (k'.processTable q).signals = (k.processTable q).signals) : Creates k k' where
  old q hq := ⟨(hused q).trans hq, hsignals q⟩
  new q hfree hq := by
    rw [hused q, hfree] at hq
    cases hq

theorem Creates.refl (k : Kernel) : Creates k k := .same (fun _ => rfl) fun _ => rfl

theorem Creates.modify (k : Kernel) (p : Slot) {f : Process → Process}
    (hused : (f (k.processTable p)).used = (k.processTable p).used)
    (hsignals : (f (k.processTable p)).signals = (k.processTable p).signals) :
    Creates k (k.modify p f) :=
  .same (modify_keeps Process.used hused) (modify_keeps Process.signals hsignals)

theorem Creates.trans (h : Creates k k') (h' : Creates k' k'') : Creates k k'' where
  old q hq := by
    obtain ⟨hused, hsignals⟩ := h.old q hq
    exact ⟨(h'.old q hused).1, (h'.old q hused).2.trans hsignals⟩
  new q hfree hq := by
    cases hmid : (k'.processTable q).used with
    | false => exact h'.new q hmid hq
    | true =>
        have hempty := h.new q hfree hmid
        unfold Kernel.pendingOf at hempty ⊢
        rw [(h'.old q hmid).2, hempty]

/-- Only slot `p`, which is free, changed: it is empty, or its process has no
signals. -/
theorem Creates.slot {p : Slot} (hfree : (k.processTable p).used = false)
    (hnew : (k'.processTable p).used = true → k'.pendingOf p = [])
    (hcore : ∀ q, q ≠ p → (k'.processTable q).core = (k.processTable q).core) : Creates k k' where
  old q hq := by
    have hqp : q ≠ p := fun heq => by
      rw [heq, hfree] at hq
      cases hq
    exact ⟨(core_used (hcore q hqp)).trans hq, core_signals (hcore q hqp)⟩
  new q hunused hq := by
    by_cases hqp : q = p
    · subst hqp
      exact hnew hq
    · rw [core_used (hcore q hqp), hunused] at hq
      cases hq

theorem processCreateInternal_creates {parent p : Option Slot} {owner base size : Nat}
    {function : Option ExecFn} (hk : k.kernelProcess = some 0)
    (h : processCreateInternal k parent owner base function size = .ok (p, k')) :
    Creates k k' := by
  cases p with
  | some p =>
      obtain ⟨-, hfree, vm, memory, table, head, -, rfl, hnew, hcore⟩ := spawn_eq h
      have hempty : Process.zero.signals.contents = [] := rfl
      exact .slot hfree (fun _ => (congrArg Ring.contents (core_signals hnew)).trans hempty) hcore
  | none =>
      rcases miss_eq hk h with rfl | ⟨p, vm, table, head, -, hfree, -, rfl, hzero, hcore⟩
      · exact .refl _
      · refine .slot hfree (fun hused => ?_) hcore
        cases (congrArg Process.used hzero).symm.trans hused

theorem forkProcess_creates {source p : Option Slot} (hk : k.kernelProcess = some 0)
    (h : forkProcess k source = .ok (p, k')) : Creates k k' := by
  unfold forkProcess at h
  cases source with
  | none =>
      obtain ⟨-, rfl⟩ := Prod.mk.inj (Except.ok.inj h)
      exact .refl k
  | some source =>
      dsimp only at h
      split at h
      · obtain ⟨-, rfl⟩ := Prod.mk.inj (Except.ok.inj h)
        exact .refl k
      · obtain ⟨⟨child, k1⟩, hcreate, h⟩ := bind_eq_ok.mp h
        have hcreated := processCreateInternal_creates hk hcreate
        cases child with
        | none =>
            obtain ⟨-, rfl⟩ := Prod.mk.inj (Except.ok.inj h)
            exact hcreated
        | some child =>
            obtain ⟨-, rfl⟩ := Prod.mk.inj (Except.ok.inj h)
            have hcopied : ∀ vm, Creates k1 { k1 with vm := vm } := fun vm =>
              .same (fun _ => rfl) fun _ => rfl
            exact (hcreated.trans (hcopied _)).trans (.modify _ child rfl rfl)

theorem processSpawnDemoCounter_creates {owner seed limit : Nat} {p : Option Slot}
    (hk : k.kernelProcess = some 0) (h : processSpawnDemoCounter k owner seed limit = .ok (p, k')) :
    Creates k k' := by
  obtain ⟨⟨child, k1⟩, hcreate, h⟩ := bind_eq_ok.mp h
  have hcreated := processCreateInternal_creates hk hcreate
  cases child with
  | none =>
      obtain ⟨-, rfl⟩ := Prod.mk.inj (Except.ok.inj h)
      exact hcreated
  | some child =>
      obtain ⟨-, rfl⟩ := Prod.mk.inj (Except.ok.inj h)
      exact hcreated.trans (.modify k1 child rfl rfl)

theorem processSpawnDemoSocketPair_creates {owner value : Nat} {pair : Option (Slot × Slot)}
    (hk : k.kernelProcess = some 0)
    (h : processSpawnDemoSocketPair k owner value = .ok (pair, k')) : Creates k k' := by
  obtain ⟨⟨receiver, k1⟩, hfirst, h⟩ := bind_eq_ok.mp h
  have hcreated := processCreateInternal_creates hk hfirst
  cases receiver with
  | none =>
      obtain ⟨-, rfl⟩ := Prod.mk.inj (Except.ok.inj h)
      exact hcreated
  | some receiver =>
      obtain ⟨⟨sender, k2⟩, hsecond, h⟩ := bind_eq_ok.mp h
      have hk1 := (Move.create hfirst).kernel hk
      have hboth := hcreated.trans (processCreateInternal_creates hk1 hsecond)
      cases sender with
      | some sender =>
          obtain ⟨-, rfl⟩ := Prod.mk.inj (Except.ok.inj h)
          exact hboth.trans (.modify k2 sender rfl rfl)
      | none =>
          -- the receiver is released again
          obtain ⟨k3, hrelease, h⟩ := bind_eq_ok.mp h
          obtain ⟨-, rfl⟩ := Prod.mk.inj (Except.ok.inj h)
          obtain ⟨hne, hfree, -⟩ := spawn_eq hfirst
          have hkernel : some receiver ≠ k2.kernelProcess := by
            rw [(Move.create hsecond).kernel hk1]
            exact fun heq => hne (Option.some.inj heq)
          obtain ⟨table, head, rfl, hzero, hcore⟩ := processRelease_eq hkernel hrelease
          refine ⟨fun q hq => ?_, fun q hunused hq => ?_⟩
          · have hqr : q ≠ receiver := fun heq => by
              rw [heq, hfree] at hq
              cases hq
            obtain ⟨hused, hsignals⟩ := hboth.old q hq
            refine ⟨(core_used (hcore q hqr)).trans hused, ?_⟩
            exact (core_signals (hcore q hqr)).trans hsignals
          · by_cases hqr : q = receiver
            · subst hqr
              cases (congrArg Process.used hzero).symm.trans hq
            · have hempty := hboth.new q hunused ((core_used (hcore q hqr)).symm.trans hq)
              unfold Kernel.pendingOf at hempty ⊢
              rw [core_signals (hcore q hqr), hempty]

/-- Processes may have gone, and none has come. -/
def Departs (k k' : Kernel) : Prop :=
  ∀ q, (k'.processTable q).used = true →
    (k.processTable q).used = true ∧ (k'.processTable q).signals = (k.processTable q).signals

theorem Departs.modify (k : Kernel) (p : Slot) {f : Process → Process}
    (hused : (f (k.processTable p)).used = (k.processTable p).used)
    (hsignals : (f (k.processTable p)).signals = (k.processTable p).signals) :
    Departs k (k.modify p f) := fun q hq =>
  ⟨(modify_keeps Process.used hused q).symm.trans hq, modify_keeps Process.signals hsignals q⟩

theorem Departs.refl (k : Kernel) : Departs k k := fun _ hq => ⟨hq, rfl⟩

theorem Departs.trans (h : Departs k k') (h' : Departs k' k'') : Departs k k'' := by
  intro q hq
  obtain ⟨hmid, hsignals'⟩ := h' q hq
  obtain ⟨hused, hsignals⟩ := h q hmid
  exact ⟨hused, hsignals'.trans hsignals⟩

theorem waitFor_departs (k : Kernel) (parent : Option Slot) (pid : Nat) :
    Departs k (waitFor k parent pid) := by
  unfold waitFor
  cases parent with
  | none => exact .refl k
  | some p =>
      dsimp only
      split
      · exact .modify k p rfl rfl
      · exact (Departs.modify k p rfl rfl).trans (.modify _ p rfl rfl)

theorem stopWaiting_departs (k : Kernel) (parent : Option Slot) :
    Departs k (stopWaiting k parent) := by
  unfold stopWaiting
  cases parent with
  | none => exact .refl k
  | some p =>
      dsimp only
      split
      · exact .modify k p rfl rfl
      · exact .refl k

theorem processRelease_departs {c : Slot} (h : processRelease k c = .ok k') : Departs k k' := by
  by_cases hc : some c = k.kernelProcess
  · unfold processRelease at h
    rw [if_pos hc] at h
    obtain rfl := Except.ok.inj h
    exact .refl k
  · obtain ⟨table, head, rfl, hzero, hcore⟩ := processRelease_eq hc h
    intro q hq
    have hqc : q ≠ c := by
      rintro rfl
      cases (congrArg Process.used hzero).symm.trans hq
    exact ⟨(core_used (hcore q hqc)).symm.trans hq, core_signals (hcore q hqc)⟩

theorem processWait_departs {parent : Option Slot} {pid : Nat} {result : WaitResult}
    (h : processWait k parent pid = .ok (result, k')) : Departs k k' := by
  obtain ⟨child, -, h⟩ := bind_eq_ok.mp h
  cases child with
  | none =>
      obtain ⟨-, rfl⟩ := Prod.mk.inj (Except.ok.inj h)
      exact .refl k
  | some c =>
      dsimp only at h
      split at h
      · obtain ⟨-, rfl⟩ := Prod.mk.inj (Except.ok.inj h)
        exact .refl k
      · split at h
        · obtain ⟨-, rfl⟩ := Prod.mk.inj (Except.ok.inj h)
          exact waitFor_departs k parent pid
        · obtain ⟨k1, hrelease, h⟩ := bind_eq_ok.mp h
          obtain ⟨-, rfl⟩ := Prod.mk.inj (Except.ok.inj h)
          exact (stopWaiting_departs k parent).trans (processRelease_departs hrelease)

end Creation

/-! ## Every step -/

section Steps

variable {k k' : Kernel} {calls : List SignalCall}

/-- What `calls` did to the queues is all that happened to the processes that
are still there, and a new process has an empty one. -/
def Booked (k : Kernel) (calls : List SignalCall) (k' : Kernel) : Prop :=
  ∀ q, (k'.processTable q).used = true →
    (k.processTable q).used = true ∧ Accounts q k calls k'
      ∨ (k.processTable q).used = false ∧ k'.pendingOf q = []

theorem Creates.booked (h : Creates k k') : Booked k [] k' := by
  intro q hq
  cases hbefore : (k.processTable q).used with
  | true => exact Or.inl ⟨rfl, .same (h.old q hbefore).2⟩
  | false => exact Or.inr ⟨rfl, h.new q hbefore hq⟩

theorem Departs.booked (h : Departs k k') : Booked k [] k' := fun q hq =>
  Or.inl ⟨(h q hq).1, .same (h q hq).2⟩

theorem Tame.booked (htame : Tame k k') (h : ∀ q, Accounts q k calls k') : Booked k calls k' :=
  fun q hq => Or.inl ⟨(htame.used q).symm.trans hq, h q⟩

theorem Tame.booked_same (htame : Tame k k')
    (h : ∀ q, (k'.processTable q).signals = (k.processTable q).signals) : Booked k [] k' :=
  htame.booked fun q => .same (h q)

/-- What a send that returned success queued. -/
theorem queueProcessSignal_accounts {t q : Slot} {signal : Int} {value : Nat} {ok : Bool}
    (h : queueProcessSignal k (some t) signal value = (ok, k')) :
    Accounts q k (if ok = true then [.queue t ⟨signal, value⟩] else []) k' := by
  cases ok with
  | true => exact (SignalStep.queue (x := ⟨signal, value⟩) h).accounts q
  | false =>
      unfold queueProcessSignal at h
      dsimp only at h
      split at h
      · obtain ⟨-, rfl⟩ := Prod.mk.inj h
        exact .refl k q
      · cases (Prod.mk.inj h).1

theorem sendSignalToProcess_accounts {sender : Option Slot} {pid value : Nat} {signal : Int}
    {ok : Bool} (h : sendSignalToProcess k sender pid signal value = .ok (ok, k')) (q : Slot) :
    Accounts q k (if ok = true then sentCalls k pid ⟨signal, value⟩ else []) k' := by
  obtain ⟨target, hget, h⟩ := bind_eq_ok.mp h
  unfold sentCalls
  rw [hget]
  split at h
  · cases target with
    | none =>
        obtain ⟨rfl, rfl⟩ := Prod.mk.inj (Except.ok.inj h)
        exact .refl k q
    | some t => exact queueProcessSignal_accounts (Except.ok.inj h)
  · obtain ⟨rfl, rfl⟩ := Prod.mk.inj (Except.ok.inj h)
    exact .refl k q

theorem socketSend_accounts {sender : Option Slot} {pid value : Nat} {ok : Bool}
    (h : socketSend k sender pid value = .ok (ok, k')) (q : Slot) :
    Accounts q k (if ok = true then sentCalls k pid ⟨processSignalSocket, value⟩ else []) k' := by
  obtain ⟨target, hget, h⟩ := bind_eq_ok.mp h
  unfold sentCalls
  rw [hget]
  cases target with
  | none =>
      obtain ⟨rfl, rfl⟩ := Prod.mk.inj (Except.ok.inj h)
      exact .refl k q
  | some t =>
      dsimp only at h
      split at h
      · obtain ⟨rfl, rfl⟩ := Prod.mk.inj (Except.ok.inj h)
        exact .refl k q
      · have hqueued := queueProcessSignal_accounts (q := q) (Except.ok.inj h)
        refine hqueued.after ?_
        exact modify_keeps (f := fun r => { r with processSocket := r.processSocket.put value })
          Process.signals rfl q

/-- Every call of the process interface. -/
theorem exec_booked {e : Event} {r : Reply} (hk : k.kernelProcess = some 0)
    (h : e.exec k = .ok (r, k')) : Booked k (e.signalCalls k r) k' := by
  cases e with
  | createOwned owner function size =>
      obtain ⟨p, rfl, call⟩ := map_reply_eq_ok.mp h
      exact (processCreateInternal_creates hk call).booked
  | execFn addr function size =>
      obtain ⟨p, rfl, call⟩ := map_reply_eq_ok.mp h
      exact (processCreateInternal_creates hk call).booked
  | fork source =>
      obtain ⟨p, rfl, call⟩ := map_reply_eq_ok.mp h
      exact (forkProcess_creates hk call).booked
  | spawnDemoCounter owner seed limit =>
      obtain ⟨p, rfl, call⟩ := map_reply_eq_ok.mp h
      exact (processSpawnDemoCounter_creates hk call).booked
  | spawnDemoSocketPair owner value =>
      obtain ⟨pair, rfl, call⟩ := map_reply_eq_ok.mp h
      exact (processSpawnDemoSocketPair_creates hk call).booked
  | exit process exitCode =>
      obtain ⟨rfl, rfl⟩ := Prod.mk.inj (Except.ok.inj h)
      exact (processExit_mildRun k process exitCode).tame.booked_same
        (processExit_signals k process exitCode)
  | wait parent pid =>
      obtain ⟨result, rfl, call⟩ := map_reply_eq_ok.mp h
      exact (processWait_departs call).booked
  | sendSignal sender pid signal value =>
      obtain ⟨ok, rfl, call⟩ := map_reply_eq_ok.mp h
      have hsent := (sendSignalToProcess_mildRun call).tame.booked
        (sendSignalToProcess_accounts call)
      cases ok <;> exact hsent
  | deliverSignal process =>
      obtain ⟨rfl, rfl⟩ := Prod.mk.inj (Except.ok.inj h)
      exact (deliverProcessSignal_mildRun k process).tame.booked
        (accounts_run (deliverProcessSignal_run k process))
  | socketSend sender pid value =>
      obtain ⟨ok, rfl, call⟩ := map_reply_eq_ok.mp h
      have hsent := (socketSend_mildRun call).tame.booked (socketSend_accounts call)
      cases ok <;> exact hsent
  | socketRecv process =>
      obtain ⟨rfl, rfl⟩ := Prod.mk.inj (Except.ok.inj h)
      exact (socketRecv_mildRun k process).tame.booked_same (socketRecv_signals k process)
  | schedulerTick =>
      obtain ⟨rfl, rfl⟩ := Prod.mk.inj (Except.ok.inj h)
      exact (schedulerTick_retarget k).tame.booked_same fun _ => rfl
  | schedule =>
      obtain ⟨k1, call, heq⟩ := map_eq_ok.mp h
      obtain ⟨rfl, rfl⟩ := Prod.mk.inj heq
      exact (scheduleEvent_mildRun call).tame.booked (scheduleEvent_accounts call)
  | yield =>
      obtain ⟨rfl, rfl⟩ := Prod.mk.inj (Except.ok.inj h)
      exact (yieldEvent_mildRun k).tame.booked_same (yieldEvent_signals k)

theorem schedulerStep_booked {s s' : Kernel × Control} {action : SchedulerAction}
    (hk : s.1.kernelProcess = some 0) (h : SchedulerStep s action s') :
    Booked s.1 (action.signalCalls s.1 s.2) s'.1 := by
  cases h with
  | kernelCall _ _ call => exact exec_booked hk call
  | processCall _ call => exact exec_booked hk call
  | interrupt => exact (schedulerTick_retarget _).tame.booked_same fun _ => rfl
  | runPending => exact (Tame.refl _).booked_same fun _ => rfl
  | forceTicks => exact (Tame.refl _).booked_same fun _ => rfl
  | advance call => exact (schedulerAdvance_tame call).booked (schedulerAdvance_accounts call)
  | yield => exact (yieldFrom_mildRun _ _ _).tame.booked_same (yieldFrom_signals _ _ _)
  | @finish k p loop =>
      refine (((processExit_mildRun k (some p) _).trans
        (yieldFrom_mildRun _ p loop)).tame).booked_same fun q => ?_
      exact (yieldFrom_signals _ p loop q).trans (processExit_signals k (some p) _ q)

/-- The ledger stays balanced. -/
theorem Booked.balanced {ledger : SignalLedger} (h : Booked k calls k') (hb : ledger.Balanced k) :
    (ledger.next k k' calls).Balanced k' := by
  intro q hq
  unfold SignalLedger.next
  dsimp only
  rcases h q hq with ⟨hused, haccounts⟩ | ⟨hfree, hempty⟩
  · -- the same process
    unfold Accounts at haccounts
    rw [if_pos ⟨hused, hq⟩, if_pos ⟨hused, hq⟩, hb q hused, List.append_assoc, haccounts,
      List.append_assoc]
  · -- a new one
    have hnot : ¬((k.processTable q).used = true ∧ (k'.processTable q).used = true) := by
      rw [hfree]
      simp
    rw [if_neg hnot, if_neg hnot, hempty]
    rfl

end Steps

end Kfs
