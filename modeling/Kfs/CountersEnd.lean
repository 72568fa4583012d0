import Kfs.DemoSockets
import Kfs.MachineProgress
import Mathlib.Algebra.Order.BigOperators.Group.Finset

/-!
# Forced ticks end the counters

A tick that `scheduler_force_ticks` forces is taken by `scheduler_run_pending`
at once, and while only counters are alive it costs some counter a round or
its life. So as many forced ticks as there are rounds left bring every
counter to its end, wherever the timer interrupts.
-/

namespace Kfs

/-! ## Ticks -/

/-- The code in between neither counts nor takes a tick. -/
def SameTicks (k k' : Kernel) : Prop := k'.pendingSchedulerTicks = k.pendingSchedulerTicks

section Ticks

variable {k k' k'' : Kernel} {p : Slot}

theorem SameTicks.trans (h : SameTicks k k') (h' : SameTicks k' k'') : SameTicks k k'' :=
  Eq.trans h' h

theorem processExit_ticks (k : Kernel) (p : Slot) (exitCode : Int) :
    SameTicks k (processExit k (some p) exitCode) := by
  rcases processExit_cases k p exitCode with ⟨-, h⟩ | ⟨-, -, ⟨h, -⟩ | ⟨s, -, -, -, h⟩⟩ <;>
    rw [h] <;> rfl

theorem deliverOne_ticks (k : Kernel) (p : Slot) : SameTicks k (deliverOne k p) := by
  have hhandler : ∀ (k : Kernel) (signal : Int) (value : Nat),
      SameTicks k (processDefaultSignalHandler k p signal value) := fun k signal value => by
    unfold processDefaultSignalHandler
    dsimp only
    split
    · exact SameTicks.trans rfl (processExit_ticks _ _ _)
    · rfl
  unfold deliverOne
  dsimp only
  split <;> exact SameTicks.trans rfl (hhandler _ _ _)

theorem deliverLoop_ticks (p : Slot) : ∀ (fuel delivered : Nat) (k : Kernel),
    SameTicks k (deliverLoop p fuel delivered k).2
  | 0, _, _ => rfl
  | fuel + 1, delivered, k => by
      rw [deliverLoop]
      split
      · rfl
      · dsimp only
        split
        · exact deliverOne_ticks k p
        · exact (deliverOne_ticks k p).trans (deliverLoop_ticks p fuel _ _)

theorem deliverProcessSignal_ticks (k : Kernel) (process : Option Slot) :
    SameTicks k (deliverProcessSignal k process).2 := by
  cases process with
  | none => rfl
  | some p => exact deliverLoop_ticks p 16 0 k

theorem deliverAll_ticks {fuel : Nat} {process : Option Slot}
    (h : deliverAll fuel process k = .ok k') : SameTicks k k' := by
  induction fuel generalizing process k with
  | zero => cases h
  | succ fuel ih =>
      cases process with
      | none =>
          obtain rfl := Except.ok.inj h
          rfl
      | some p =>
          simp only [deliverAll] at h
          refine SameTicks.trans ?_ (ih h)
          split
          · exact deliverProcessSignal_ticks k (some p)
          · rfl

theorem scheduleNextProcess_ticks (h : scheduleNextProcess k = .ok k') : SameTicks k k' := by
  obtain ⟨picked, -, h⟩ := bind_eq_ok.mp h
  cases picked with
  | none =>
      obtain rfl := Except.ok.inj h
      rfl
  | some p =>
      have hdelivered : SameTicks k _ := deliverProcessSignal_ticks
        { k with schedulerCursor := some p, currentProcess := some p } (some p)
      dsimp only at h
      split at h <;>
        · obtain rfl := Except.ok.inj h
          exact hdelivered

theorem queueProcessSignal_ticks (k : Kernel) (process : Option Slot) (signal : Int)
    (value : Nat) : SameTicks k (queueProcessSignal k process signal value).2 := by
  unfold queueProcessSignal
  cases process with
  | none => rfl
  | some p =>
      dsimp only
      split <;> rfl

theorem bootstrapExit_ticks (k : Kernel) (p : Slot) (exitCode : Int) :
    SameTicks k (bootstrapExit (processExit k (some p) exitCode) p).1 :=
  (processExit_ticks k p exitCode).trans (processExit_ticks _ p _)

theorem demoCounterLoop_ticks {thread : Thread} {counter iterations limit : Nat}
    (h : demoCounterLoop k p counter iterations limit = .ok (k', thread)) : SameTicks k k' := by
  unfold demoCounterLoop at h
  split at h
  · obtain ⟨vm, -, h⟩ := bind_eq_ok.mp h
    obtain ⟨vm', -, h⟩ := bind_eq_ok.mp h
    obtain ⟨rfl, -⟩ := Prod.mk.inj (Except.ok.inj h)
    rfl
  · obtain rfl : _ = k' := congrArg Prod.fst (Except.ok.inj h)
    exact bootstrapExit_ticks k p _

theorem demoSocketReceiverLoop_ticks {thread : Thread}
    (h : demoSocketReceiverLoop k p = .ok (k', thread)) : SameTicks k k' := by
  unfold demoSocketReceiverLoop socketRecv at h
  dsimp only at h
  by_cases hempty : (k.processTable p).processSocket.Empty
  · rw [if_pos hempty] at h
    obtain ⟨rfl, -⟩ := Prod.mk.inj (Except.ok.inj h)
    rfl
  · rw [if_neg hempty] at h
    obtain ⟨vm, -, h⟩ := bind_eq_ok.mp h
    obtain rfl : _ = k' := congrArg Prod.fst (Except.ok.inj h)
    exact SameTicks.trans rfl (bootstrapExit_ticks _ p _)

theorem socketSend_ticks {sender : Option Slot} {pid value : Nat} {ok : Bool}
    (h : socketSend k sender pid value = .ok (ok, k')) : SameTicks k k' := by
  obtain ⟨target, -, h⟩ := bind_eq_ok.mp h
  cases target with
  | none =>
      obtain ⟨-, rfl⟩ := Prod.mk.inj (Except.ok.inj h)
      rfl
  | some t =>
      dsimp only at h
      split at h
      · obtain ⟨-, rfl⟩ := Prod.mk.inj (Except.ok.inj h)
        rfl
      · obtain rfl : (queueProcessSignal _ (some t) processSignalSocket _).2 = k' :=
          congrArg Prod.snd (Except.ok.inj h)
        exact SameTicks.trans rfl (queueProcessSignal_ticks _ _ _ _)

theorem demoSocketSenderLoop_ticks {thread : Thread}
    (h : demoSocketSenderLoop k p = .ok (k', thread)) : SameTicks k k' := by
  obtain ⟨⟨ok, k1⟩, hsend, h⟩ := bind_eq_ok.mp h
  have hsent := socketSend_ticks hsend
  cases ok with
  | false =>
      obtain ⟨rfl, -⟩ := Prod.mk.inj (Except.ok.inj h)
      exact hsent
  | true =>
      obtain rfl : _ = k' := congrArg Prod.fst (Except.ok.inj h)
      exact hsent.trans (SameTicks.trans rfl (bootstrapExit_ticks _ p _))

theorem processBootstrap_ticks {thread : Thread} (h : processBootstrap k = .ok (k', thread)) :
    SameTicks k k' := by
  unfold processBootstrap at h
  split at h
  · cases h
  · split at h
    · cases h
    · dsimp only at h
      split at h
      · exact demoCounterLoop_ticks h
      · exact demoSocketReceiverLoop_ticks h
      · exact demoSocketSenderLoop_ticks h
      · cases h
      · cases h

theorem runThread_ticks {thread thread' : Thread}
    (h : runThread k p thread = .ok (k', thread')) : SameTicks k k' := by
  cases thread with
  | bootstrap => exact processBootstrap_ticks h
  | counting => exact demoCounterLoop_ticks h
  | receiving => exact demoSocketReceiverLoop_ticks h
  | sending => exact demoSocketSenderLoop_ticks h
  | spinning => cases h

theorem yieldFrom_ticks (k : Kernel) (p : Slot) (loop : PendingLoop) :
    SameTicks k (yieldFrom k p loop).1 := by
  have hpause : ∀ (k : Kernel) (p : Slot), SameTicks k (if (k.processTable p).status = .run
      then k.modify p fun r => { r with status := .ready } else k) := fun k p => by
    split <;> rfl
  have hyield : SameTicks k (processYield k) := by
    unfold processYield
    split
    · rfl
    · split
      · rfl
      · exact SameTicks.trans (hpause k _) rfl
  have hresume : ∀ k : Kernel, SameTicks k (scheduleResume k p) := fun k => by
    have hspace : SameTicks k (processSwitchToKernelSpace k) := by
      unfold processSwitchToKernelSpace
      split <;> rfl
    exact SameTicks.trans hspace (SameTicks.trans (hpause _ p) rfl)
  unfold yieldFrom
  split
  · rfl
  · exact hyield.trans (hresume _)

end Ticks

/-! ## Rounds -/

def Thread.rounds : Thread → Nat
  | .counting _ iterations _ => iterations
  | _ => 0

/-- The rounds a process has still to run as a counter; it ends in the last
of them. -/
def Machine.roundsLeft (m : Machine) (q : Slot) : Nat :=
  if m.kernel.Live q ∧ (m.kernel.processTable q).status ≠ .zombie then
    (m.kernel.processTable q).runtimeArg1 - (m.kernel.processTable q).runtimeArg0 + 1
      - (m.threads q).rounds
  else 0

def Machine.allRoundsLeft (m : Machine) : Nat := ∑ q, m.roundsLeft q

def OnlyCounters (k : Kernel) : Prop :=
  ∀ q, k.Live q → (k.processTable q).entry = some .demoCounterProcess

section Rounds

variable {m m' : Machine} {a : MachineAction} {q : Slot}

theorem CounterAt.rounds {r : Process} {n : Nat} {thread : Thread} (h : CounterAt r n thread)
    (hspin : thread ≠ .spinning) : thread.rounds = n := by
  cases h with
  | bootstrap => rfl
  | counting => rfl
  | spinning => exact absurd rfl hspin

theorem MachineInv.counterWork (h : MachineInv m) (hlive : m.kernel.Live q)
    (hentry : (m.kernel.processTable q).entry = some .demoCounterProcess) :
    ∃ n, CounterWork m.kernel q (m.control.runs q) (m.threads q) n := by
  cases (h.tasks q hlive).work with
  | counter work => exact ⟨_, work⟩
  | receiver work =>
      rw [work.entry] at hentry
      cases hentry
  | sender work =>
      rw [work.entry] at hentry
      cases hentry

theorem Machine.roundsLeft_zombie (hz : (m.kernel.processTable q).status = .zombie) :
    m.roundsLeft q = 0 :=
  if_neg fun h => h.2 hz

theorem MachineInv.roundsLeft_pos (h : MachineInv m) (hlive : m.kernel.Live q)
    (hentry : (m.kernel.processTable q).entry = some .demoCounterProcess)
    (halive : (m.kernel.processTable q).status ≠ .zombie) : 0 < m.roundsLeft q := by
  obtain ⟨n, work⟩ := h.counterWork hlive hentry
  have hrounds := work.place.rounds fun hspin => halive ((h.tasks q hlive).spins hspin)
  have hbound := work.place.bound
  unfold Machine.roundsLeft
  rw [if_pos ⟨hlive, halive⟩, hrounds]
  omega

/-- A round takes one of the rounds that are left. -/
theorem MachineInv.roundsLeft_ran {k : Kernel} {thread : Thread} (h : MachineInv m)
    (hentry : (m.kernel.processTable q).entry = some .demoCounterProcess)
    (hruns : m.control.runs q = true)
    (hcode : runThread m.kernel q (m.threads q) = .ok (k, thread))
    (hback : Undisturbed k m'.kernel q) (hthread : m'.threads q = thread) :
    m'.roundsLeft q < m.roundsLeft q := by
  obtain ⟨hrunning, htask⟩ := h.busy hruns
  have halive := htask.alive rfl
  obtain ⟨n, work⟩ := h.counterWork hrunning.live hentry
  have hrounds := work.place.rounds fun hspin => halive (htask.spins hspin)
  have hleft : m.roundsLeft q = (m.kernel.processTable q).runtimeArg1
      - (m.kernel.processTable q).runtimeArg0 + 1 - n := by
    unfold Machine.roundsLeft
    rw [if_pos ⟨hrunning.live, halive⟩, hrounds]
  have hbound := work.place.bound
  rw [hruns] at work
  rcases work.outcome htask hrunning with ⟨hlt, k', heq, hround⟩ | ⟨-, k', heq, -, hexited, -⟩
  · obtain ⟨rfl, rfl⟩ := Prod.mk.inj (Except.ok.inj (heq.symm.trans hcode))
    have hjob := hback.sameJob
    have harg0 : (m'.kernel.processTable q).runtimeArg0
        = (m.kernel.processTable q).runtimeArg0 := by rw [hjob.arg0, hround.record]
    have harg1 : (m'.kernel.processTable q).runtimeArg1
        = (m.kernel.processTable q).runtimeArg1 := by rw [hjob.arg1, hround.record]
    rw [hleft]
    unfold Machine.roundsLeft
    split
    · rw [hthread, harg0, harg1]
      show _ + 1 - (n + 1) < _
      omega
    · omega
  · obtain ⟨rfl, -⟩ := Prod.mk.inj (Except.ok.inj (heq.symm.trans hcode))
    rw [Machine.roundsLeft_zombie (hback.lives.ended hexited.status).1, hleft]
    omega

/-- No step but a call makes more rounds. -/
theorem MachineInv.roundsLeft_le (h : MachineInv m) (hstep : MachineStep m a m')
    (hcounters : OnlyCounters m.kernel) (hcall : ∀ e r, a ≠ .call e r) (q : Slot) :
    m'.roundsLeft q ≤ m.roundsLeft q := by
  have hslot := h.slot hstep q
  by_cases hleft : m'.kernel.Live q ∧ (m'.kernel.processTable q).status ≠ .zombie
  · have hsame : m.kernel.Live q → (m.kernel.processTable q).status ≠ .zombie →
        m'.threads q = m.threads q → m'.roundsLeft q = m.roundsLeft q :=
      fun hlive halive hthread => by
        have hjob := hslot.survives hlive hleft.1
        unfold Machine.roundsLeft
        rw [if_pos hleft, if_pos ⟨hlive, halive⟩, hthread, hjob.arg0, hjob.arg1]
    cases hslot with
    | kept live hkept hthread =>
        exact (hsame live (fun hz => hleft.2 (hkept.lives.ended hz).1) hthread).le
    | gone hgone => exact absurd hleft.1 hgone
    | started => exact absurd rfl (hcall _ _)
    | dispatched live _ hsignals halive _ _ hthread =>
        exact (hsame live (fun hz => halive (hsignals.lives.ended hz).1) hthread).le
    | ran live hruns hcode _ hback hthread =>
        exact (h.roundsLeft_ran (hcounters q live) hruns hcode hback hthread).le
  · rw [show m'.roundsLeft q = 0 from if_neg hleft]
    exact Nat.zero_le _

theorem MachineInv.allRoundsLeft_le (h : MachineInv m) (hstep : MachineStep m a m')
    (hcounters : OnlyCounters m.kernel) (hcall : ∀ e r, a ≠ .call e r) :
    m'.allRoundsLeft ≤ m.allRoundsLeft :=
  Finset.sum_le_sum fun q _ => h.roundsLeft_le hstep hcounters hcall q

theorem MachineInv.allRoundsLeft_lt (h : MachineInv m) (hstep : MachineStep m a m')
    (hcounters : OnlyCounters m.kernel) (hcall : ∀ e r, a ≠ .call e r)
    (hlt : m'.roundsLeft q < m.roundsLeft q) : m'.allRoundsLeft < m.allRoundsLeft :=
  Finset.sum_lt_sum (fun q _ => h.roundsLeft_le hstep hcounters hcall q)
    ⟨q, Finset.mem_univ q, hlt⟩

theorem MachineInv.onlyCounters_step (h : MachineInv m) (hstep : MachineStep m a m')
    (hcounters : OnlyCounters m.kernel) (hcall : ∀ e r, a ≠ .call e r) :
    OnlyCounters m'.kernel := by
  intro q hlive
  have hslot := h.slot hstep q
  by_cases hbefore : m.kernel.Live q
  · exact (hslot.survives hbefore hlive).entry.trans (hcounters q hbefore)
  · have hused := (h.samePids hstep hcall).used q
    exact absurd ⟨hlive.1, hused.symm.trans hlive.2⟩ hbefore

/-- The run of a process. -/
theorem MachineInv.run_lt (h : MachineInv m) (hstep : MachineStep m .run m')
    (hcounters : OnlyCounters m.kernel) : m'.allRoundsLeft < m.allRoundsLeft := by
  have hcall : ∀ e r, MachineAction.run ≠ .call e r := fun e r heq => by cases heq
  obtain ⟨p, hruns, hnot⟩ : ∃ p, m.control.runs p = true ∧ m'.control.runs p = false := by
    cases hstep with
    | @run k k1 p loop threads thread code =>
        obtain ⟨k2, thread2, hcode, hturn⟩ := h.turn
        obtain ⟨rfl, rfl⟩ := Prod.mk.inj (Except.ok.inj (hcode.symm.trans code))
        obtain ⟨k', heq, -⟩ := yieldFrom_context hturn.ran.running.housed
          hturn.ran.running.context loop
        exact ⟨p, decide_eq_true rfl, by rw [heq]; rfl⟩
  have hlive := (h.busy hruns).1.live
  have hslot := h.slot hstep p
  generalize ha : MachineAction.run = a at hslot hstep hcall
  cases hslot with
  | kept _ _ _ hsame =>
      rw [hruns, hnot] at hsame
      cases hsame
  | gone _ hreaped =>
      subst ha
      exact absurd (hreaped hlive) id
  | started => cases ha
  | dispatched => cases ha
  | ran live _ hcode _ hback hthread =>
      exact h.allRoundsLeft_lt hstep hcounters hcall
        (h.roundsLeft_ran (hcounters p live) hruns hcode hback hthread)

/-- A living process that nothing can run is no counter of the demos. -/
theorem MachineInv.runnable (h : MachineInv m) (hlive : m.kernel.Live q)
    (hentry : (m.kernel.processTable q).entry = some .demoCounterProcess)
    (halive : (m.kernel.processTable q).status ≠ .zombie) : m.kernel.runnable q = true := by
  have hawake := (h.tasks q hlive).awake
  refine decide_eq_true ⟨by rw [hentry]; exact fun heq => (by cases heq), ?_⟩
  cases hstatus : (m.kernel.processTable q).status with
  | ready => exact Or.inl rfl
  | run => exact Or.inr (Or.inl rfl)
  | thread => exact Or.inr (Or.inr rfl)
  | waiting => exact absurd hstatus hawake
  | zombie => exact absurd hstatus halive

/-- A choice that switches to no process: there is none, or it ended by its
signals. -/
theorem scheduleNextProcess_idle {k k' : Kernel} {l : List Slot} {kids : Slot → List Slot}
    (hl : LinkInv k l kids) (hnext : scheduleNextProcess k = .ok k')
    (hnone : k'.suspended = none) :
    (∀ q, (k.processTable q).used = true → k.runnable q = false)
      ∨ ∃ p, (k.processTable p).used = true ∧ k.runnable p = true
        ∧ (k'.processTable p).status = .zombie := by
  obtain ⟨c, hpick⟩ := hl.pickExact
  obtain ⟨picked, heq, hnext⟩ := bind_eq_ok.mp hnext
  rw [hpick.pick] at heq
  have hfind := Except.ok.inj heq
  cases picked with
  | none =>
      exact Or.inl fun q hused => hpick.idle.mp (hpick.pick.trans heq) q ((hl.mem q).mpr hused)
  | some p =>
      have hrunnable := List.find?_some hfind
      have hmem := (circleFrom_perm hpick.listed).mem_iff.mp (List.mem_of_find?_eq_some hfind)
      refine Or.inr ⟨p, (hl.mem p).mp hmem, hrunnable, ?_⟩
      have hpicked : Undisturbed k
          { k with schedulerCursor := some p, currentProcess := some p } p := .table rfl rfl
      have hawake := (hpicked.trans (deliverProcessSignal_undisturbed _ (some p) p)).lives.awake
      dsimp only at hnext
      split at hnext
      · obtain rfl := Except.ok.inj hnext
        cases hnone
      · next hended =>
          obtain rfl := Except.ok.inj hnext
          by_contra halive
          refine hended ⟨halive, fun hwaits => ?_⟩
          have hwaiting := hawake hwaits
          rw [Kernel.runnable, hwaiting] at hrunnable
          simp at hrunnable

/-- The scheduler finds no process to switch to. -/
theorem MachineInv.idle_lt {k k' : Kernel} {loop : PendingLoop} {threads : Slot → Thread}
    {c : Control} (h : MachineInv ⟨k, .delivered loop, threads⟩) (hcounters : OnlyCounters k)
    (hnext : scheduleNextProcess k = .ok k') (hnone : k'.suspended = none)
    (hstep : MachineStep ⟨k, .delivered loop, threads⟩ .advance ⟨k', c, threads⟩) :
    Machine.allRoundsLeft ⟨k, .delivered loop, threads⟩ = 0
      ∨ Machine.allRoundsLeft ⟨k', c, threads⟩
        < Machine.allRoundsLeft ⟨k, .delivered loop, threads⟩ := by
  have hhoused : Housed k := h.scheduler.housed
  obtain ⟨l, kids, hl⟩ := hhoused.links
  rcases scheduleNextProcess_idle hl hnext hnone with hidle | ⟨p, hused, hrunnable, hz⟩
  · refine Or.inl (Finset.sum_eq_zero fun q _ => ?_)
    by_contra hleft
    have halive : k.Live q ∧ (k.processTable q).status ≠ .zombie := by
      by_contra hdead
      exact hleft (if_neg hdead)
    have hcan := h.runnable halive.1 (hcounters q halive.1) halive.2
    rw [hidle q halive.1.2] at hcan
    cases hcan
  · have hparts := of_decide_eq_true hrunnable
    have hlive : k.Live p := by
      refine ⟨?_, hused⟩
      rintro rfl
      exact hparts.1 hhoused.idle
    have halive : (k.processTable p).status ≠ .zombie := by
      rcases hparts.2 with heq | heq | heq <;> rw [heq] <;> exact fun h => by cases h
    have hcall : ∀ e r, MachineAction.advance ≠ .call e r := fun e r heq => by cases heq
    refine Or.inr (h.allRoundsLeft_lt (q := p) hstep hcounters hcall ?_)
    rw [Machine.roundsLeft_zombie (m := ⟨k', c, threads⟩) hz]
    exact h.roundsLeft_pos hlive (hcounters p hlive) halive

end Rounds

/-! ## Forced ticks -/

/-- Where `scheduler_force_ticks` is. The ticks it has still to force are
enough for the `left` rounds, and of the pending ticks at most one is its
own; `ticks` are the others. -/
inductive Forcing (pending left ticks : Nat) : Control → Prop where
  | back (done : left = 0) (few : pending ≤ ticks) : Forcing pending left ticks .kernelCode
  | head {index count : Nat} (enough : left ≤ count - index) (few : pending ≤ ticks) :
      Forcing pending left ticks (.forceTicks index count)
  | forced {index count : Nat} (more : index < count) (counted : 0 < pending)
      (enough : left ≤ count - index) (few : pending ≤ ticks + 1) :
      Forcing pending left ticks (.runPending ⟨0, 1, some (index, count)⟩)
  | delivered {index count : Nat} (more : index < count) (enough : left ≤ count - index)
      (few : pending ≤ ticks) :
      Forcing pending left ticks (.delivered ⟨0, 1, some (index, count)⟩)
  | process {p : Slot} {index count : Nat} (more : index < count)
      (enough : left ≤ count - index) (few : pending ≤ ticks) :
      Forcing pending left ticks (.process p ⟨0, 1, some (index, count)⟩)
  | taken {index count : Nat} (enough : left ≤ count - (index + 1)) (few : pending ≤ ticks) :
      Forcing pending left ticks (.runPending ⟨1, 1, some (index, count)⟩)

/-- The timer interrupts along a run. -/
def MachineAction.interrupts : MachineAction → Nat
  | .interrupt => 1
  | _ => 0

def machineInterrupts (actions : List MachineAction) : Nat :=
  (actions.map MachineAction.interrupts).sum

theorem machineInterrupts_append (actions : List MachineAction) (a : MachineAction) :
    machineInterrupts (actions ++ [a]) = machineInterrupts actions + a.interrupts := by
  simp [machineInterrupts]

/-- Nothing but the scheduler, the processes and the timer. -/
def MachineAction.quiet (a : MachineAction) : Prop := a = .advance ∨ a = .run ∨ a = .interrupt

section Forcing

variable {m m' : Machine} {a : MachineAction} {ticks : Nat}

def Machine.forcing (m : Machine) (ticks : Nat) : Prop :=
  Forcing m.kernel.pendingSchedulerTicks m.allRoundsLeft ticks m.control

theorem MachineInv.forcing_interrupt {k : Kernel} {c : Control} {threads : Slot → Thread}
    (h : MachineInv ⟨k, c, threads⟩) (hcounters : OnlyCounters k)
    (hforcing : Machine.forcing ⟨k, c, threads⟩ ticks) (hticks : ticks + 2 < 4294967296) :
    Machine.forcing ⟨schedulerTick k, c, threads⟩ (ticks + 1) := by
  have hle : Machine.allRoundsLeft ⟨schedulerTick k, c, threads⟩
      ≤ Machine.allRoundsLeft ⟨k, c, threads⟩ :=
    h.allRoundsLeft_le .interrupt hcounters fun e r heq => by cases heq
  unfold Machine.forcing at hforcing ⊢
  dsimp only at hforcing ⊢
  have hpending : k.pendingSchedulerTicks < 4294967295 →
      (schedulerTick k).pendingSchedulerTicks = k.pendingSchedulerTicks + 1 :=
    fun hlt => add32_of_lt (by omega)
  cases hforcing with
  | back done few => exact .back (by omega) (by rw [hpending (by omega)]; omega)
  | head enough few => exact .head (by omega) (by rw [hpending (by omega)]; omega)
  | forced more counted enough few =>
      rw [hpending (by omega)]
      exact .forced more (by omega) (by omega) (by omega)
  | delivered more enough few =>
      exact .delivered more (by omega) (by rw [hpending (by omega)]; omega)
  | process more enough few =>
      exact .process more (by omega) (by rw [hpending (by omega)]; omega)
  | taken enough few => exact .taken (by omega) (by rw [hpending (by omega)]; omega)

theorem MachineInv.forcing_advance {k k' : Kernel} {c c' : Control} {threads : Slot → Thread}
    (h : MachineInv ⟨k, c, threads⟩) (hcounters : OnlyCounters k)
    (hforcing : Machine.forcing ⟨k, c, threads⟩ ticks) (hticks : ticks + 1 < 4294967296)
    (call : schedulerAdvance k c = .ok (k', c')) :
    Machine.forcing ⟨k', c', threads⟩ ticks := by
  have hle := h.allRoundsLeft_le (.advance call) hcounters fun e r heq => by cases heq
  unfold Machine.forcing at hforcing ⊢
  dsimp only at hforcing ⊢
  generalize hleft : Machine.allRoundsLeft ⟨k, c, threads⟩ = left at hle hforcing
  cases hforcing with
  | back done few =>
      obtain ⟨rfl, rfl⟩ := Prod.mk.inj (Except.ok.inj call)
      exact .back (by omega) few
  | @head index count enough few =>
      simp only [schedulerAdvance] at call
      split at call
      · next more =>
          obtain ⟨rfl, rfl⟩ := Prod.mk.inj (Except.ok.inj call)
          have hpending : (schedulerTick k).pendingSchedulerTicks
              = k.pendingSchedulerTicks + 1 := add32_of_lt (by omega)
          rw [hpending]
          exact .forced more (by omega) (by omega) (by omega)
      · next hdone =>
          obtain ⟨rfl, rfl⟩ := Prod.mk.inj (Except.ok.inj call)
          exact .back (by omega) few
  | @forced index count more counted enough few =>
      simp only [schedulerAdvance] at call
      rw [if_pos ⟨counted, Nat.zero_lt_one⟩] at call
      obtain ⟨k1, hall, call⟩ := bind_eq_ok.mp call
      obtain ⟨rfl, rfl⟩ := Prod.mk.inj (Except.ok.inj call)
      have hall' : k1.pendingSchedulerTicks = sub32 k.pendingSchedulerTicks 1 :=
        deliverAll_ticks hall
      have hpending := hall'.trans (sub32_of_le counted (by omega))
      exact .delivered more (by omega) (by omega)
  | @delivered index count more enough few =>
      have hcall := call
      obtain ⟨k1, hnext, call⟩ := bind_eq_ok.mp call
      have hpending : k1.pendingSchedulerTicks = k.pendingSchedulerTicks :=
        scheduleNextProcess_ticks hnext
      cases hsuspended : k1.suspended with
      | some p =>
          rw [hsuspended] at call
          obtain ⟨rfl, rfl⟩ := Prod.mk.inj (Except.ok.inj call)
          exact .process more (by omega) (by omega)
      | none =>
          rw [hsuspended] at call
          obtain ⟨rfl, rfl⟩ := Prod.mk.inj (Except.ok.inj call)
          have hlt := h.idle_lt hcounters hnext hsuspended (.advance hcall)
          rw [hleft] at hlt
          exact .taken (by omega) (by omega)
  | process more enough few =>
      obtain ⟨rfl, rfl⟩ := Prod.mk.inj (Except.ok.inj call)
      exact .process more (by omega) few
  | taken enough few =>
      simp only [schedulerAdvance] at call
      rw [if_neg (fun hgo => absurd hgo.2 (lt_irrefl 1))] at call
      obtain ⟨rfl, rfl⟩ := Prod.mk.inj (Except.ok.inj call)
      exact .head (by omega) few

theorem MachineInv.forcing_step (h : MachineInv m) (hstep : MachineStep m a m') (hquiet : a.quiet)
    (hcounters : OnlyCounters m.kernel) (hforcing : m.forcing ticks)
    (hticks : ticks + a.interrupts + 1 < 4294967296) : m'.forcing (ticks + a.interrupts) := by
  rcases hquiet with rfl | rfl | rfl
  · cases hstep with
    | advance call => exact h.forcing_advance hcounters hforcing hticks call
  · have hlt := h.run_lt hstep hcounters
    cases hstep with
    | @run k k1 p loop threads thread code =>
        have hpending : (yieldFrom k1 p loop).1.pendingSchedulerTicks = k.pendingSchedulerTicks :=
          (runThread_ticks code).trans (yieldFrom_ticks k1 p loop)
        obtain ⟨k2, thread2, hcode, hturn⟩ := h.turn
        obtain ⟨rfl, rfl⟩ := Prod.mk.inj (Except.ok.inj (hcode.symm.trans code))
        obtain ⟨k', heq, -⟩ := yieldFrom_context hturn.ran.running.housed
          hturn.ran.running.context loop
        rw [heq] at hlt hpending ⊢
        unfold Machine.forcing at hforcing ⊢
        dsimp only at hlt hforcing hpending ⊢
        generalize Machine.allRoundsLeft ⟨k, .process p loop, threads⟩ = left at hlt hforcing
        cases hforcing with
        | process more enough few => exact .taken (by omega) (hpending ▸ few)
  · cases hstep with
    | interrupt => exact h.forcing_interrupt hcounters hforcing hticks

end Forcing

/-- The rounds that the processes in the table have still to run if all are
counters. -/
def Kernel.roundsOwed (k : Kernel) : Nat :=
  ∑ q, if k.Live q ∧ (k.processTable q).status ≠ .zombie then
    (k.processTable q).runtimeArg1 - (k.processTable q).runtimeArg0 + 1
      - (k.processTable q).runCount
  else 0

theorem MachineInv.roundsOwed {k : Kernel} {threads : Slot → Thread}
    (h : MachineInv ⟨k, .kernelCode, threads⟩) (hcounters : OnlyCounters k) :
    Machine.allRoundsLeft ⟨k, .kernelCode, threads⟩ = k.roundsOwed := by
  refine Finset.sum_congr rfl fun q _ => ?_
  unfold Machine.roundsLeft
  split
  · next halive =>
      obtain ⟨n, work⟩ := h.counterWork halive.1 (hcounters q halive.1)
      have hspin : threads q ≠ .spinning := fun hspin =>
        halive.2 ((h.tasks q halive.1).spins hspin)
      have hcount := work.runCount
      rw [if_neg (by simp [Control.runs, hspin])] at hcount
      dsimp only at hcount ⊢
      rw [work.place.rounds hspin, hcount]
  · rfl

/-- Every counter of `k` is a zombie: a signal ended it, or it made all its
rounds. -/
def CountersEnded (k k' : Kernel) : Prop :=
  ∀ q, k.Live q → k'.Live q ∧ (k'.processTable q).status = .zombie
    ∧ (FatalCode (k'.processTable q).exitCode
      ∨ (k'.processTable q).exitCode
        = toInt32 (max (k.processTable q).runtimeArg0 (k.processTable q).runtimeArg1))

section Ends

variable {m m' : Machine} {ticks : Nat} {actions : List MachineAction}

theorem MachineAction.quiet.not_call {a : MachineAction} (h : a.quiet) (e : Event) (r : Reply) :
    a ≠ .call e r := by
  rcases h with rfl | rfl | rfl <;> exact fun heq => by cases heq

/-- A run of the scheduler, the processes and the timer. -/
theorem MachineInv.forcing_run (h : MachineInv m) (hcounters : OnlyCounters m.kernel)
    (hforcing : m.forcing ticks) (hrun : Run MachineStep m actions m')
    (hquiet : ∀ a ∈ actions, a.quiet)
    (hticks : ticks + machineInterrupts actions + 1 < 4294967296) :
    MachineInv m' ∧ OnlyCounters m'.kernel ∧ m'.forcing (ticks + machineInterrupts actions) := by
  refine hrun.invariant_trace (I := fun actions m' => (∀ a ∈ actions, a.quiet) →
    ticks + machineInterrupts actions + 1 < 4294967296 →
      MachineInv m' ∧ OnlyCounters m'.kernel ∧ m'.forcing (ticks + machineInterrupts actions))
    (fun _ _ => ⟨h, hcounters, hforcing⟩) ?_ hquiet hticks
  intro actions m2 a m3 ih hstep hquiet hticks
  rw [machineInterrupts_append] at hticks ⊢
  obtain ⟨h2, hcounters2, hforcing2⟩ :=
    ih (fun a ha => hquiet a (List.mem_append_left _ ha)) (by omega)
  have hlast := hquiet a (by simp)
  refine ⟨h2.step hstep, h2.onlyCounters_step hstep hcounters2 hlast.not_call, ?_⟩
  rw [← Nat.add_assoc]
  exact h2.forcing_step hstep hlast hcounters2 hforcing2 (by omega)

/-- Once the shell has the processor again, no counter has a round left. -/
theorem MachineInv.counters_ended (h : MachineInv m) (hrun : Run MachineStep m actions m')
    (hquiet : ∀ a ∈ actions, a.quiet) (h' : MachineInv m') (hcounters' : OnlyCounters m'.kernel)
    (hforcing : m'.forcing ticks) (hback : m'.control = .kernelCode) :
    CountersEnded m.kernel m'.kernel := by
  intro q hlive
  have hreap : ∀ a ∈ actions, ¬a.reaps q := fun a ha => by
    rcases hquiet a ha with rfl | rfl | rfl <;> exact id
  obtain ⟨hlive', hjob, -⟩ := machineRun_job h hlive hrun hreap
  have hentry := hcounters' q hlive'
  unfold Machine.forcing at hforcing
  rw [hback] at hforcing
  cases hforcing with
  | back done few =>
      have hz : (m'.kernel.processTable q).status = .zombie := by
        by_contra halive
        have hpos := h'.roundsLeft_pos hlive' hentry halive
        have hle := Finset.single_le_sum (f := m'.roundsLeft) (fun _ _ => Nat.zero_le _)
          (Finset.mem_univ q)
        unfold Machine.allRoundsLeft at done
        omega
      refine ⟨hlive', hz, ?_⟩
      obtain ⟨n, hcounted⟩ := h'.counted hlive' hentry rfl rfl
      rcases hcounted.ended hz with ⟨hfatal, -⟩ | ⟨hexit, -⟩
      · exact Or.inl hfatal
      · rw [hexit, hjob.arg0, hjob.arg1]
        exact Or.inr rfl

/-- The stretches of code and the interrupts between them are a run. -/
theorem Machine.timed_run {timer : Nat → Nat} {n : Nat} (h : m.timed timer n = .ok m') :
    ∃ actions, Run MachineStep m actions m' ∧ (∀ a ∈ actions, a.quiet)
      ∧ machineInterrupts actions = ∑ i ∈ Finset.range n, timer i := by
  induction n generalizing m timer with
  | zero =>
      obtain rfl := Except.ok.inj h
      exact ⟨[], .nil, by simp, rfl⟩
  | succ n ih =>
      obtain ⟨m1, hnext, h⟩ := bind_eq_ok.mp h
      obtain ⟨a, ha, hstep⟩ := Machine.next_step hnext
      obtain ⟨actions, hrun, hquiet, hcount⟩ := ih h
      refine ⟨List.replicate (timer 0) .interrupt ++ ([a] ++ actions),
        (m.interrupted_run (timer 0)).append ((Run.one hstep).append hrun), ?_, ?_⟩
      · intro b hb
        rcases List.mem_append.mp hb with hb | hb
        · exact Or.inr (Or.inr (List.eq_of_mem_replicate hb))
        · rcases List.mem_cons.mp hb with rfl | hb
          · exact ha.imp_right Or.inl
          · exact hquiet b hb
      · have hnone : a.interrupts = 0 := by
          rcases ha with rfl | rfl <;> rfl
        have hone : MachineAction.interrupt.interrupts = 1 := rfl
        unfold machineInterrupts at hcount ⊢
        rw [Finset.sum_range_succ', ← hcount]
        simp [hone, hnone, Nat.add_comm]

end Ends

/-- While only counters are alive, forcing as many ticks as they owe rounds
ends them all: however often and wherever the timer interrupts, the call
returns within five stretches of code for each tick, and then every counter is
a zombie. -/
theorem machineRun_counters_end {vm : Vm} {before : List MachineAction} {m m1 : Machine}
    {count : Nat} (hready : VmReady vm) (hvm : vm.currentDirectory = some .kernel)
    (hbefore : Run MachineStep (machineInit vm) before m) (hcounters : OnlyCounters m.kernel)
    (hforce : MachineStep m (.forceTicks count) m1) (henough : m.kernel.roundsOwed ≤ count) :
    (∀ timer : Nat → Nat,
      m.kernel.pendingSchedulerTicks + ∑ i ∈ Finset.range (5 * count + 1), timer i + 1
        < 4294967296 →
      ∃ n ≤ 5 * count + 1, ∃ m', m1.timed timer n = .ok m' ∧ m'.control = .kernelCode
        ∧ CountersEnded m.kernel m'.kernel)
    ∧ ∀ actions m', Run MachineStep m1 actions m' → (∀ a ∈ actions, a.quiet) →
      m.kernel.pendingSchedulerTicks + machineInterrupts actions + 1 < 4294967296 →
      (m'.control ≠ .kernelCode → ∃ m2, m'.next = .ok m2 ∧ m2.control.rest < m'.control.rest)
        ∧ (m'.control = .kernelCode → CountersEnded m.kernel m'.kernel) := by
  have h := machineInv_run hready hvm hbefore
  cases hforce with
  | @forceTicks k threads =>
      have h1 := h.step (.forceTicks count)
      have hstart : Machine.forcing ⟨k, .forceTicks 0 count, threads⟩ k.pendingSchedulerTicks :=
        .head ((h.roundsOwed hcounters).trans_le henough) (Nat.le_refl _)
      refine ⟨fun timer hticks => ?_, fun actions m' hrun hquiet hticks => ?_⟩
      · obtain ⟨n, hn, m', htimed, hback⟩ := h1.timed_returns timer
        obtain ⟨actions, hrun, hquiet, hcount⟩ := Machine.timed_run htimed
        have hle : ∑ i ∈ Finset.range n, timer i ≤ ∑ i ∈ Finset.range (5 * count + 1), timer i :=
          Finset.sum_le_sum_of_subset (Finset.range_subset_range.mpr hn)
        obtain ⟨h', hcounters', hforcing⟩ := h1.forcing_run hcounters hstart hrun hquiet
          (by rw [hcount]; dsimp only at hticks; omega)
        exact ⟨n, hn, m', htimed, hback,
          h1.counters_ended hrun hquiet h' hcounters' hforcing hback⟩
      · obtain ⟨h', hcounters', hforcing⟩ := h1.forcing_run hcounters hstart hrun hquiet hticks
        exact ⟨h'.progress, h1.counters_ended hrun hquiet h' hcounters' hforcing⟩

/-- Two counters that owe five rounds, with an interrupt before every other
stretch of code. -/
theorem machineRun_counters_end_five : ∃ m m1 n m',
    Run MachineStep (machineInit eightMegabytes)
        [.call (.spawnDemoCounter 0 5 7) (.created (some 1)),
          .call (.spawnDemoCounter 0 1 2) (.created (some 2))] m
      ∧ m.kernel.roundsOwed = 5 ∧ MachineStep m (.forceTicks 5) m1
      ∧ m1.timed (fun i => i % 2) n = .ok m' ∧ m'.control = .kernelCode
      ∧ (m'.kernel.processTable 1).status = .zombie
      ∧ (m'.kernel.processTable 2).status = .zombie := by
  obtain ⟨m, m1, hbefore, hforce, howed, hcounters, hlive1, hlive2, hpending⟩ :=
    execSteps_observe_two machineExec_step (machineInit eightMegabytes)
    [.call (.spawnDemoCounter 0 5 7) (.created (some 1)),
      .call (.spawnDemoCounter 0 1 2) (.created (some 2))] [.forceTicks 5]
    (fun m _ => m.kernel.roundsOwed = 5
      ∧ (∀ q, m.kernel.Live q → (m.kernel.processTable q).entry = some .demoCounterProcess)
      ∧ m.kernel.Live 1 ∧ m.kernel.Live 2 ∧ m.kernel.pendingSchedulerTicks = 0)
    (by decide +kernel)
  obtain ⟨n, -, m', htimed, hback, hended⟩ := (machineRun_counters_end eightMegabytes_ready rfl
    hbefore hcounters hforce.of_one howed.le).1 (fun i => i % 2) (by rw [hpending]; decide)
  exact ⟨m, m1, n, m', hbefore, howed, hforce.of_one, htimed, hback, (hended 1 hlive1).2.1,
    (hended 2 hlive2).2.1⟩

end Kfs
