import Kfs.DemoTasks
import Kfs.UserEvents

/-!
# Runs of the machine

`SlotStep` is all that a step of the machine can do to the process in a slot:
nothing, reap it, start one, switch to it, or run its code to the next
`process_yield`. The invariant `MachineInv` is that every process is at a
point of its code that fits its record and its memory.
-/

namespace Kfs

/-- Whether process `q` has the processor. -/
def Control.runs (c : Control) (q : Slot) : Bool :=
  match c with
  | .process p _ => decide (p = q)
  | _ => false

/-- New values in the socket of `q` are from senders. -/
def Heard (k k' : Kernel) (q : Slot) : Prop :=
  ∀ v ∈ (k'.processTable q).processSocket.contents,
    v ∈ (k.processTable q).processSocket.contents
      ∨ ∃ s, k.Live s ∧ (k.processTable s).entry = some .demoSocketSenderProcess
        ∧ (k.processTable q).pid = (k.processTable s).runtimeArg0
        ∧ v = (k.processTable s).runtimeArg1

/-- The socket of a process that does not run. -/
structure Listens (k k' : Kernel) (q : Slot) : Prop where
  heard : Heard k k' q
  held : Held k k' q

/-- `process_wait` reaped the process in slot `p`. -/
def MachineAction.reaps (p : Slot) : MachineAction → Prop
  | .call e r => Kfs.reaps p (e, r)
  | _ => False

instance (p : Slot) : (a : MachineAction) → Decidable (a.reaps p)
  | .call e r => inferInstanceAs (Decidable (Kfs.reaps p (e, r)))
  | .mmap .. | .interrupt | .runPending _ | .forceTicks _ | .advance | .run =>
      inferInstanceAs (Decidable False)

inductive SlotStep (m m' : Machine) (q : Slot) : MachineAction → Prop where
  | kept {a : MachineAction} (live : m.kernel.Live q)
      (undisturbed : Undisturbed m.kernel m'.kernel q) (thread : m'.threads q = m.threads q)
      (runs : m'.control.runs q = m.control.runs q) (listens : Listens m.kernel m'.kernel q) :
      SlotStep m m' q a
  | gone {a : MachineAction} (after : ¬m'.kernel.Live q)
      (reaped : m.kernel.Live q → a.reaps q) : SlotStep m m' q a
  | started {e : Event} {r : Reply} (shell : e.byShell) (before : ¬m.kernel.Live q)
      (unstarted : Unstarted (m'.kernel.processTable q))
      (starts : Starts m.kernel m'.kernel q (e, r))
      (thread : m'.threads q = .bootstrap) (runs : m'.control.runs q = false) :
      SlotStep m m' q (.call e r)
  | dispatched {k1 : Kernel} (live : m.kernel.Live q) (before : m.control.runs q = false)
      (signals : Undisturbed m.kernel k1 q) (alive : (k1.processTable q).status ≠ .zombie)
      (record : m'.kernel.processTable q = { k1.processTable q with
        status := .run
        cpuTicks := add32 (k1.processTable q).cpuTicks 1
        runCount := add32 (k1.processTable q).runCount 1
        switchCount := add32 (k1.processTable q).switchCount 1 })
      (mem : m'.kernel.vm.mem = k1.vm.mem) (thread : m'.threads q = m.threads q)
      (runs : m'.control.runs q = true) (listens : Listens m.kernel m'.kernel q) :
      SlotStep m m' q .advance
  | ran {k1 : Kernel} {thread : Thread} (live : m.kernel.Live q) (before : m.control.runs q = true)
      (code : runThread m.kernel q (m.threads q) = .ok (k1, thread))
      (turn : Turn m.kernel k1 q thread) (back : Undisturbed k1 m'.kernel q)
      (same : m'.threads q = thread) (runs : m'.control.runs q = false)
      (heard : Heard m.kernel m'.kernel q) (sockets : SameSockets k1 m'.kernel) :
      SlotStep m m' q .run

structure MachineInv (m : Machine) : Prop where
  scheduler : SchedulerInv (m.kernel, m.control)
  spaced : Spaced m.kernel
  running : ∀ p loop, m.control = .process p loop → (m.kernel.processTable p).status = .run
  tasks : ∀ q, m.kernel.Live q → Task m.kernel q (m.control.runs q) (m.threads q)
  sockets : ∀ q, m.kernel.Live q →
    ∀ v ∈ (m.kernel.processTable q).processSocket.contents, v < 4294967296

/-! ## Sockets -/

section Heard

variable {k k' k'' : Kernel} {p q : Slot}

theorem Heard.same (h : (k'.processTable q).processSocket = (k.processTable q).processSocket) :
    Heard k k' q := fun _ hv => Or.inl (h ▸ hv)

theorem SocketFlow.heard (h : SocketFlow k k' p) (hlive : k.Live p) (q : Slot) : Heard k k' q :=
  fun v hv => (h q v hv).imp_right fun ⟨hentry, hpid, hv⟩ => ⟨p, hlive, hentry, hpid, hv⟩

theorem Heard.then_same (h : Heard k k' q)
    (hsame : (k''.processTable q).processSocket = (k'.processTable q).processSocket) :
    Heard k k'' q := fun v hv => h v (hsame ▸ hv)

theorem Listens.same (h : (k'.processTable q).processSocket = (k.processTable q).processSocket) :
    Listens k k' q := ⟨.same h, .same h⟩

end Heard

/-! ## The scheduler's steps -/

section Scheduler

variable {k k' : Kernel} {p q : Slot}

theorem scheduleNextProcess_sockets (h : scheduleNextProcess k = .ok k') : SameSockets k k' := by
  obtain ⟨picked, -, h⟩ := bind_eq_ok.mp h
  cases picked with
  | none =>
      obtain rfl := Except.ok.inj h
      exact .refl _
  | some p =>
      dsimp only at h
      have hdelivered : SameSockets k _ := fun q => deliverProcessSignal_sockets
        { k with schedulerCursor := some p, currentProcess := some p } (some p) q
      generalize (deliverProcessSignal
        { k with schedulerCursor := some p, currentProcess := some p } (some p)).2 = k1
        at h hdelivered
      split at h
      · obtain rfl := Except.ok.inj h
        refine hdelivered.trans fun q => ?_
        dsimp only
        exact modify_keeps Process.processSocket rfl q
      · obtain rfl := Except.ok.inj h
        exact hdelivered

/-- The switch to a process, behind the delivery of its signals. -/
theorem scheduleNextProcess_dispatched (h : scheduleNextProcess k = .ok k')
    (hkernel : k.kernelProcess = some 0) (hk : k.suspended = none) (hp : k'.suspended = some p) :
    ∃ k1, Undisturbed k k1 p ∧ (k1.processTable p).status ≠ .zombie
      ∧ k'.processTable p = { k1.processTable p with
        status := .run
        cpuTicks := add32 (k1.processTable p).cpuTicks 1
        runCount := add32 (k1.processTable p).runCount 1
        switchCount := add32 (k1.processTable p).switchCount 1 }
      ∧ k'.vm.mem = k1.vm.mem := by
  obtain ⟨picked, hpick, h⟩ := bind_eq_ok.mp h
  cases picked with
  | none =>
      obtain rfl := Except.ok.inj h
      rw [hk] at hp
      cases hp
  | some next =>
      dsimp only at h
      have hpicked : Undisturbed k
          { k with schedulerCursor := some next, currentProcess := some next } p := .table rfl rfl
      have hdelivered := hpicked.trans (deliverProcessSignal_undisturbed _ (some next) p)
      have hmoves := (deliverProcessSignal_moves (P := fun _ => True)
        { k with schedulerCursor := some next, currentProcess := some next } (some next)
        fun _ _ => trivial)
      generalize (deliverProcessSignal
        { k with schedulerCursor := some next, currentProcess := some next } (some next)).2 = k1
        at h hdelivered hmoves
      split at h
      · next halive =>
          obtain rfl := Except.ok.inj h
          obtain rfl : next = p := Option.some.inj hp
          refine ⟨k1, hdelivered, halive.1, ?_, pagingSwitchDirectory_mem _ _⟩
          dsimp only
          rw [modify_self]
      · obtain rfl := Except.ok.inj h
        have hnone : k1.suspended = none := (hmoves.sameContext hkernel).suspended.trans hk
        rw [hnone] at hp
        cases hp

end Scheduler

/-! ## Steps -/

section Steps

variable {m m' : Machine} {a : MachineAction}

theorem Control.not_runs {c : Control} (hc : ∀ p loop, c ≠ .process p loop) (q : Slot) :
    c.runs q = false := by
  cases c with
  | process p loop => exact absurd rfl (hc p loop)
  | _ => rfl

/-- Two slots of a machine that did not change but for its control. -/
theorem SlotStep.still {k : Kernel} {c c' : Control} {threads : Slot → Thread} {q : Slot}
    (hruns : c'.runs q = c.runs q) : SlotStep ⟨k, c, threads⟩ ⟨k, c', threads⟩ q a := by
  by_cases hq : k.Live q
  · exact .kept hq (.refl k q) rfl hruns (.same rfl)
  · exact .gone hq fun hq' => absurd hq' hq

/-- Code that leaves every process undisturbed. -/
theorem SlotStep.quiet {k k' : Kernel} {c c' : Control} {threads : Slot → Thread} {q : Slot}
    (hkept : Undisturbed k k' q) (hsockets : SameSockets k k') (hruns : c'.runs q = c.runs q) :
    SlotStep ⟨k, c, threads⟩ ⟨k', c', threads⟩ q a := by
  by_cases hq : k.Live q
  · exact .kept hq hkept rfl hruns (.same (hsockets q))
  · exact .gone (fun hq' => hq (hkept.live.mp hq')) fun hq' => absurd hq' hq

theorem schedulerAdvance_slot {k k' : Kernel} {c c' : Control} {threads : Slot → Thread}
    (h : SchedulerInv (k, c)) (hcall : schedulerAdvance k c = .ok (k', c')) (q : Slot) :
    SlotStep ⟨k, c, threads⟩ ⟨k', c', threads⟩ q .advance := by
  have hh : Housed k := h.housed
  have hc : Context k c := h.context
  cases c with
  | kernelCode =>
      obtain ⟨rfl, rfl⟩ := Prod.mk.inj (Except.ok.inj hcall)
      exact .still rfl
  | forceTicks index count =>
      simp only [schedulerAdvance] at hcall
      split at hcall
      · obtain ⟨rfl, rfl⟩ := Prod.mk.inj (Except.ok.inj hcall)
        exact .quiet (schedulerTick_undisturbed k q) (.refl _) rfl
      · obtain ⟨rfl, rfl⟩ := Prod.mk.inj (Except.ok.inj hcall)
        exact .still rfl
  | runPending loop =>
      simp only [schedulerAdvance] at hcall
      split at hcall
      · obtain ⟨k1, hall, hcall⟩ := bind_eq_ok.mp hcall
        obtain ⟨rfl, rfl⟩ := Prod.mk.inj (Except.ok.inj hcall)
        have hcounted : Undisturbed k
            { k with pendingSchedulerTicks := sub32 k.pendingSchedulerTicks 1 } q := .table rfl rfl
        exact .quiet (hcounted.trans (deliverAll_undisturbed hall))
          (fun q => deliverAll_sockets hall q) rfl
      · obtain ⟨rfl, rfl⟩ := Prod.mk.inj (Except.ok.inj hcall)
        refine .still (Control.not_runs ?_ q)
        unfold PendingLoop.caller
        intro p l heq
        split at heq <;> cases heq
  | delivered loop =>
      have hcontext : KernelContext k := hc
      obtain ⟨k1, hnext, hcall⟩ := bind_eq_ok.mp hcall
      have hsockets := scheduleNextProcess_sockets hnext
      cases hsuspended : k1.suspended with
      | none =>
          rw [hsuspended] at hcall
          obtain ⟨rfl, rfl⟩ := Prod.mk.inj (Except.ok.inj hcall)
          refine .quiet (scheduleNextProcess_undisturbed hnext q ?_) hsockets rfl
          rw [hsuspended]
          exact fun heq => by cases heq
      | some p =>
          rw [hsuspended] at hcall
          obtain ⟨rfl, rfl⟩ := Prod.mk.inj (Except.ok.inj hcall)
          by_cases hqp : q = p
          · subst hqp
            obtain ⟨k2, hsignals, halive, hrecord, hmem⟩ := scheduleNextProcess_dispatched hnext
              hh.ground.kernel hcontext.suspended hsuspended
            rcases scheduleNextProcess_context hh hc hnext with ⟨hnone, -⟩ | ⟨p, hp, hp', -⟩
            · rw [hnone] at hsuspended
              cases hsuspended
            · obtain rfl := Option.some.inj (hp.symm.trans hsuspended)
              have hused := hp'.used
              rw [hrecord] at hused
              have hlive : k.Live p := ⟨hp'.user, hsignals.used.symm.trans hused⟩
              exact .dispatched hlive rfl hsignals halive hrecord hmem rfl (decide_eq_true rfl)
                (.same (hsockets p))
          · refine .quiet (scheduleNextProcess_undisturbed hnext q ?_) hsockets
              (decide_eq_false fun heq => hqp heq.symm)
            rw [hsuspended]
            exact fun heq => hqp (Option.some.inj heq).symm
  | process p loop =>
      obtain ⟨rfl, rfl⟩ := Prod.mk.inj (Except.ok.inj hcall)
      exact .still rfl

theorem startThreads_of_used {k k' : Kernel} {threads : Slot → Thread} {q : Slot}
    (h : (k'.processTable q).used = (k.processTable q).used) :
    startThreads k k' threads q = threads q := by
  unfold startThreads
  rw [if_neg]
  rintro ⟨hunused, hused⟩
  rw [h, hunused] at hused
  cases hused

/-- A process that was reaped is gone. -/
theorem reaps_gone {k k' : Kernel} {e : Event} {r : Reply} {q : Slot}
    (hk : k.kernelProcess = some 0) (hq : q ≠ 0) (hexec : e.exec k = .ok (r, k'))
    (hreap : reaps q (e, r)) : ¬k'.Live q := by
  obtain ⟨exitCode, hr⟩ := hreap
  obtain rfl : r = .waited (.reaped q exitCode) := hr
  cases e with
  | wait parent pid =>
      obtain ⟨result, hresult, call⟩ := map_reply_eq_ok.mp hexec
      obtain rfl := Reply.waited.inj hresult
      have hrelease := (processWait_reaped call).2.2
      have hk1 := (stopWaiting_tame k parent).kernel.trans hk
      exact fun hlive => ((release_live hk1 hq hrelease).mp hlive).2 rfl
  | exit | deliverSignal | socketRecv | schedulerTick | yield =>
      cases (Prod.mk.inj (Except.ok.inj hexec)).1
  | _ =>
      obtain ⟨x, -, heq⟩ := map_eq_ok.mp hexec
      cases (Prod.mk.inj heq).1

/-- A command of the shell. -/
theorem shellCall_slotStep {k k' : Kernel} {threads : Slot → Thread} {e : Event} {r : Reply}
    (h : SchedulerInv (k, .kernelCode)) (hs : Spaced k) (hshell : e.byShell)
    (hexec : e.exec k = .ok (r, k')) (q : Slot) :
    SlotStep ⟨k, .kernelCode, threads⟩ ⟨k', .kernelCode, startThreads k k' threads⟩ q
      (.call e r) := by
  have hg : Grounded k := h.housed.ground
  obtain ⟨base, total, hregions⟩ := hs.regions
  have houtcome := shellCall_slot hregions hg hs.vacant hshell hexec q
  cases houtcome with
  | kept hkept =>
      by_cases hq : k.Live q
      · refine .kept hq hkept (startThreads_of_used hkept.used) rfl (.same ?_)
        refine exec_socket hg.kernel hexec hq.2 (fun hreap => ?_) ?_ ?_
        · exact reaps_gone hg.kernel hq.1 hexec hreap (hkept.live.mpr hq)
        · rintro sender pid value rfl
          cases hshell
        · rintro process rfl
          cases hshell
      · exact .gone (fun hq' => hq (hkept.live.mp hq')) fun hq' => absurd hq' hq
  | reaped hreaps hgone => exact .gone hgone fun _ => hreaps
  | absent hbefore hafter => exact .gone hafter fun hq => absurd hq hbefore
  | started hbefore hlive hunstarted hstarts =>
      refine .started hshell hbefore hunstarted hstarts ?_ rfl
      show startThreads k k' threads q = .bootstrap
      unfold startThreads
      rw [if_pos]
      refine ⟨?_, hlive.2⟩
      by_contra hused
      exact hbefore ⟨hlive.1, by simpa using hused⟩

theorem processMmap_tame (k : Kernel) (process : Option Slot) (size : Nat) :
    Tame k (processMmap k process size).2 ∧ SameContext k (processMmap k process size).2
      ∧ SameSockets k (processMmap k process size).2 := by
  have hrefl : Tame k k ∧ SameContext k k ∧ SameSockets k k := ⟨.refl k, .refl k, .refl k⟩
  unfold processMmap processMemoryAlloc
  cases process with
  | none => exact hrefl
  | some p =>
      dsimp only
      by_cases hsize : size = 0
      · simp only [if_pos hsize]
        exact hrefl
      · simp only [if_neg hsize]
        split
        · next hfalse =>
            split at hfalse
            · obtain ⟨-, rfl⟩ := Prod.mk.inj hfalse
              exact hrefl
            · cases (Prod.mk.inj hfalse).1
        · next htrue =>
            split at htrue
            · cases (Prod.mk.inj htrue).1
            · obtain ⟨-, rfl⟩ := Prod.mk.inj htrue
              dsimp only
              exact ⟨.modify k rfl, .modify k p fun hrun => hrun, .modify k rfl⟩

theorem MachineInv.isRunning {k : Kernel} {p : Slot} {loop : PendingLoop} {threads : Slot → Thread}
    (h : MachineInv ⟨k, .process p loop, threads⟩) : Running k p :=
  ⟨h.scheduler.housed, h.spaced, h.scheduler.context⟩

theorem MachineInv.busyTask {k : Kernel} {p : Slot} {loop : PendingLoop} {threads : Slot → Thread}
    (h : MachineInv ⟨k, .process p loop, threads⟩) : Task k p true (threads p) := by
  have htask := h.tasks p h.isRunning.live
  have hruns : (Control.process p loop).runs p = true := decide_eq_true rfl
  dsimp only at htask
  rwa [hruns] at htask

/-- The code of the process that has the processor does not fault and comes
to its next `process_yield`. -/
theorem MachineInv.turn {k : Kernel} {p : Slot} {loop : PendingLoop} {threads : Slot → Thread}
    (h : MachineInv ⟨k, .process p loop, threads⟩) :
    ∃ k' thread, runThread k p (threads p) = .ok (k', thread) ∧ Turn k k' p thread :=
  h.busyTask.turn h.isRunning (h.sockets p h.isRunning.live)

theorem pause_sockets (k : Kernel) (p : Slot) :
    SameSockets k (if (k.processTable p).status = .run
      then k.modify p fun r => { r with status := .ready } else k) := by
  split
  · exact .modify k rfl
  · exact .refl k

theorem processYield_sockets (k : Kernel) : SameSockets k (processYield k) := by
  unfold processYield
  split
  · exact .refl k
  · split
    · exact .refl k
    · exact (pause_sockets k _).trans (.modify _ rfl)

theorem scheduleResume_sockets (k : Kernel) (p : Slot) : SameSockets k (scheduleResume k p) := by
  have hspace : SameSockets k (processSwitchToKernelSpace k) := fun q => by
    rw [(processSwitchToKernelSpace_retarget k).table]
  exact hspace.trans (pause_sockets _ p)

theorem yieldFrom_sockets (k : Kernel) (p : Slot) (loop : PendingLoop) :
    SameSockets k (yieldFrom k p loop).1 := by
  unfold yieldFrom
  split
  · exact .refl k
  · exact (processYield_sockets k).trans (scheduleResume_sockets _ p)

theorem MachineInv.slot (h : MachineInv m) (hstep : MachineStep m a m') (q : Slot) :
    SlotStep m m' q a := by
  cases hstep with
  | call shell call => exact shellCall_slotStep h.scheduler h.spaced shell call q
  | mmap => exact .quiet (processMmap_undisturbed _ _ _ q) (processMmap_tame _ _ _).2.2 rfl
  | interrupt => exact .quiet (schedulerTick_undisturbed _ q) (.refl _) rfl
  | runPending maxTicks => exact .still rfl
  | forceTicks count => exact .still rfl
  | advance call => exact schedulerAdvance_slot h.scheduler call q
  | @run k k1 p loop threads thread code =>
      obtain ⟨k2, thread2, hcode, hturn⟩ := h.turn
      obtain ⟨rfl, rfl⟩ := Prod.mk.inj (Except.ok.inj (hcode.symm.trans code))
      have hrunning := h.isRunning
      obtain ⟨k', heq, -⟩ :=
        yieldFrom_context hturn.ran.running.housed hturn.ran.running.context loop
      have hback := yieldFrom_undisturbed k2 p q loop
      have hsockets := yieldFrom_sockets k2 p loop
      rw [heq] at hback hsockets ⊢
      have hheard := (hturn.flow.heard hrunning.live q).then_same (hsockets q)
      have hheld : q ≠ p → Held k k' q := fun hqp => by
        have hprefix := hturn.held q hqp
        unfold Held at hprefix ⊢
        rwa [hsockets q]
      by_cases hqp : q = p
      · subst hqp
        exact .ran hrunning.live (decide_eq_true rfl) hcode hturn hback
          (Function.update_self _ _ _) rfl hheard hsockets
      · by_cases hq : k.Live q
        · exact .kept hq ((hturn.ran.others q hqp hq).trans hback) (Function.update_of_ne hqp _ _)
            (decide_eq_false fun heq => hqp heq.symm).symm ⟨hheard, hheld hqp⟩
        · exact .gone (fun hq' => hq ((hturn.ran.live q).mp (hback.live.mp hq')))
            fun hq' => absurd hq' hq

/-! ## The invariant -/

theorem Control.runs_eq {c : Control} {q : Slot} (h : c.runs q = true) :
    ∃ loop, c = .process q loop := by
  cases c with
  | process p loop =>
      obtain rfl := of_decide_eq_true h
      exact ⟨loop, rfl⟩
  | _ => cases h

theorem MachineInv.scheduler_step (h : MachineInv m) (hstep : MachineStep m a m') :
    SchedulerInv (m'.kernel, m'.control) := by
  have hs := h.scheduler
  cases hstep with
  | call shell call =>
      refine hs.step (.kernelCall ?_ ?_ call)
      · rintro rfl
        cases shell
      · rintro rfl
        cases shell
  | @mmap k threads process size =>
      obtain ⟨ht, hsame, -⟩ := processMmap_tame k process size
      exact ⟨hs.housed.tame (hs.housed.links.tame ht) ht,
        KernelContext.same hs.context hsame ht.kernel⟩
  | interrupt => exact hs.step .interrupt
  | runPending maxTicks => exact hs.step (.runPending maxTicks)
  | forceTicks count => exact hs.step (.forceTicks count)
  | advance call => exact hs.advance call
  | @run k k1 p loop threads thread code =>
      obtain ⟨k2, thread2, hcode, hturn⟩ := h.turn
      obtain ⟨rfl, rfl⟩ := Prod.mk.inj (Except.ok.inj (hcode.symm.trans code))
      exact .back hturn.ran.running.housed hturn.ran.running.context loop

theorem MachineInv.spaced_step (h : MachineInv m) (hstep : MachineStep m a m') :
    Spaced m'.kernel := by
  have hs := h.spaced
  cases hstep with
  | call shell call => exact hs.exec h.scheduler.housed.links shell call
  | mmap => exact hs.tame (processMmap_tame _ _ _).1
  | @interrupt k c threads => exact hs.tame (schedulerTick_retarget k).tame
  | runPending maxTicks => exact hs
  | forceTicks count => exact hs
  | advance call => exact hs.tame (schedulerAdvance_tame call)
  | @run k k1 p loop threads thread code =>
      obtain ⟨k2, thread2, hcode, hturn⟩ := h.turn
      obtain ⟨rfl, rfl⟩ := Prod.mk.inj (Except.ok.inj (hcode.symm.trans code))
      obtain ⟨k', heq, -, hmild⟩ := yieldFrom_context hturn.ran.running.housed
        hturn.ran.running.context loop
      rw [heq]
      exact hturn.ran.running.spaced.tame hmild.tame

theorem MachineInv.running_step (h : MachineInv m) (hstep : MachineStep m a m') (p : Slot)
    (loop : PendingLoop) (hp : m'.control = .process p loop) :
    (m'.kernel.processTable p).status = .run := by
  have hslot := h.slot hstep p
  have hrunning := h.running p
  cases hstep with
  | interrupt => exact hrunning loop hp
  | @advance k k' c c' threads call =>
      obtain rfl : c' = .process p loop := hp
      cases hslot with
      | kept live hkept _ hruns =>
          obtain ⟨loop', hc⟩ := Control.runs_eq (hruns.symm.trans (decide_eq_true rfl))
          obtain rfl : c = .process p loop' := hc
          obtain ⟨rfl, -⟩ := Prod.mk.inj (Except.ok.inj call)
          exact hrunning loop' rfl
      | gone hgone =>
          have hcontext : ProcessContext k' p := (h.scheduler.advance call).context
          exact absurd ⟨hcontext.user, hcontext.used⟩ hgone
      | dispatched _ _ _ _ hrecord =>
          rw [hrecord]
  | call | mmap | runPending | forceTicks => cases hp
  | @run k k1 q l threads thread code =>
      obtain ⟨k2, thread2, hcode, hturn⟩ := h.turn
      obtain ⟨rfl, rfl⟩ := Prod.mk.inj (Except.ok.inj (hcode.symm.trans code))
      obtain ⟨k', heq, -⟩ := yieldFrom_context hturn.ran.running.housed
        hturn.ran.running.context l
      rw [heq] at hp
      cases hp

/-- What a switch does to the work of the process. -/
theorem sameWork_of_record {k k' : Kernel} {q : Slot} {thread : Thread} {status : Status}
    {ticks runs switches : Nat}
    (hrecord : k'.processTable q = { k.processTable q with
      status := status, cpuTicks := ticks, runCount := runs, switchCount := switches })
    (hmem : k'.vm.mem = k.vm.mem) : SameWork k k' q thread := by
  have hwords : ∀ j, k'.ownWord q j = k.ownWord q j := fun j => by
    unfold Kernel.ownWord
    rw [hrecord, hmem]
  exact ⟨by rw [hrecord], by rw [hrecord], by rw [hrecord], by rw [hrecord], by rw [hrecord],
    by rw [hrecord], hwords, fun _ => by rw [hrecord]⟩

theorem MachineInv.task_step (h : MachineInv m) (hstep : MachineStep m a m') (q : Slot)
    (hlive : m'.kernel.Live q) : Task m'.kernel q (m'.control.runs q) (m'.threads q) := by
  cases h.slot hstep q with
  | kept live hkept hthread hruns =>
      rw [hthread, hruns]
      refine (h.tasks q live).kept hkept h.spaced live fun hbusy => ?_
      obtain ⟨loop, hc⟩ := Control.runs_eq (hruns.trans hbusy)
      rw [h.running_step hstep q loop hc]
      exact fun heq => by cases heq
  | gone hgone => exact absurd hlive hgone
  | started hshell _ hunstarted hstarts hthread hruns =>
      rw [hthread, hruns]
      exact .started hshell hunstarted hstarts fun s hs => ⟨_, _, h.tasks s hs⟩
  | dispatched live hbefore hsignals halive hrecord hmem hthread hruns =>
      have htask := h.tasks q live
      rw [hbefore] at htask
      rw [hthread, hruns]
      refine (htask.kept hsignals h.spaced live fun hbusy => (by cases hbusy)).dispatched
        (sameWork_of_record hrecord hmem) ?_ halive ?_
      · rw [hrecord]
      · rw [hrecord]
  | ran live _ _ hturn hback hsame hruns =>
      rw [hsame, hruns]
      exact hturn.task.kept hback hturn.ran.running.spaced ((hturn.ran.live q).mpr live)
        fun hbusy => (by cases hbusy)

/-- The values in sockets stay those that a `uint32_t` can have. -/
theorem Heard.small (h : MachineInv m) {k' : Kernel} {q : Slot} (hlive : m.kernel.Live q)
    (hheard : Heard m.kernel k' q) :
    ∀ v ∈ (k'.processTable q).processSocket.contents, v < 4294967296 := by
  intro v hv
  rcases hheard v hv with hold | ⟨s, hs, hentry, -, rfl⟩
  · exact h.sockets q hlive v hold
  · cases (h.tasks s hs).work with
    | counter work =>
        rw [work.entry] at hentry
        cases hentry
    | receiver work =>
        rw [work.entry] at hentry
        cases hentry
    | sender work => exact work.arg1

theorem MachineInv.step (h : MachineInv m) (hstep : MachineStep m a m') : MachineInv m' where
  scheduler := h.scheduler_step hstep
  spaced := h.spaced_step hstep
  running := h.running_step hstep
  tasks := h.task_step hstep
  sockets q hlive := by
    cases h.slot hstep q with
    | kept live _ _ _ hlistens => exact hlistens.heard.small h live
    | gone hgone => exact absurd hlive hgone
    | started _ _ hunstarted =>
        rw [hunstarted.sockets]
        exact fun v hv => absurd hv
          (by simp [Ring.contents_eq_nil (r := Process.zero.processSocket) rfl])
    | dispatched live _ _ _ _ _ _ _ hlistens => exact hlistens.heard.small h live
    | ran live _ _ _ _ _ _ hheard => exact hheard.small h live

theorem machineInv_init {vm : Vm} (hready : VmReady vm)
    (hvm : vm.currentDirectory = some .kernel) : MachineInv (machineInit vm) := by
  have hnone : ∀ q, ¬(processInit vm).Live q := fun q hq => by
    obtain ⟨hne, hused⟩ := hq
    simp [processInit, hne, Process.zero] at hused
  exact ⟨schedulerInv_processInit hvm, ⟨⟨_, _, regions_processInit hready.ok hready.low
    hready.kernelDirectory⟩, hready.vacant, fun q hq => absurd hq (hnone q)⟩,
    fun p loop heq => (by cases heq), fun q hq => absurd hq (hnone q),
    fun q hq => absurd hq (hnone q)⟩

/-- The invariant holds in every state a machine can reach. -/
theorem machineInv_run {vm : Vm} {actions : List MachineAction} {m : Machine}
    (hready : VmReady vm) (hvm : vm.currentDirectory = some .kernel)
    (hrun : Run MachineStep (machineInit vm) actions m) : MachineInv m :=
  hrun.invariant (machineInv_init hready hvm) fun h hstep => h.step hstep

/-! ## Processes that do not run -/

/-- A step in which process `p` has the processor neither before nor after
it, and is not reaped. -/
structure AwayStep (p : Slot) (m : Machine) (a : MachineAction) (m' : Machine) : Prop where
  step : MachineStep m a m'
  before : m.control.runs p = false
  after : m'.control.runs p = false
  notReaped : ¬a.reaps p

theorem AwayStep.undisturbed {p : Slot} (h : MachineInv m) (haway : AwayStep p m a m')
    (hlive : m.kernel.Live p) :
    Undisturbed m.kernel m'.kernel p ∧ m'.threads p = m.threads p := by
  have hslot := h.slot haway.step p
  have hbefore := haway.before
  have hafter := haway.after
  have hreap := haway.notReaped
  cases hslot with
  | kept _ hkept hthread => exact ⟨hkept, hthread⟩
  | gone _ hreaped => exact absurd (hreaped hlive) hreap
  | started _ hnot => exact absurd hlive hnot
  | dispatched _ _ _ _ _ _ _ hruns =>
      rw [hruns] at hafter
      cases hafter
  | ran _ hruns =>
      rw [hruns] at hbefore
      cases hbefore

/-- Whatever the shell, the timer and the other processes do while a process
does not have the processor, its program, its bytes and its place in its code
stay as they are, and if it ends then by a fatal signal. -/
theorem machineRun_isolation {vm : Vm} {before actions : List MachineAction} {m m' : Machine}
    {p : Slot} (hready : VmReady vm) (hvm : vm.currentDirectory = some .kernel)
    (hbefore : Run MachineStep (machineInit vm) before m) (hlive : m.kernel.Live p)
    (hrun : Run (AwayStep p) m actions m') :
    Undisturbed m.kernel m'.kernel p ∧ m'.threads p = m.threads p := by
  obtain ⟨-, hkept, hthread⟩ := hrun.invariant (I := fun m' => MachineInv m'
      ∧ Undisturbed m.kernel m'.kernel p ∧ m'.threads p = m.threads p)
    ⟨machineInv_run hready hvm hbefore, .refl _ p, rfl⟩ (by
      rintro m1 a m2 ⟨h, hkept, hthread⟩ haway
      obtain ⟨hkept', hthread'⟩ := haway.undisturbed h (hkept.live.mpr hlive)
      exact ⟨h.step haway.step, hkept.trans hkept', hthread'.trans hthread⟩)
  exact ⟨hkept, hthread⟩

/-- A counter while another one is started and a tick is counted. -/
theorem machineRun_isolation_spawn : ∃ m m', Run MachineStep (machineInit eightMegabytes)
        [.call (.spawnDemoCounter 0 5 7) (.created (some 1))] m
      ∧ Run (AwayStep 1) m [.call (.spawnDemoCounter 0 1 2) (.created (some 2)), .interrupt] m'
      ∧ Undisturbed m.kernel m'.kernel 1 := by
  have hcalls : ((Event.exec (processInit eightMegabytes)
      (.spawnDemoCounter 0 5 7)).toOption.bind fun w =>
        (Event.exec w.2 (.spawnDemoCounter 0 1 2)).toOption.map fun x =>
          (w.1, x.1, decide (w.2.Live 1)))
      = some (.created (some 1), .created (some 2), true) := by decide +kernel
  obtain ⟨⟨r, k1⟩, hspawn, hcalls⟩ := Option.bind_eq_some_iff.mp hcalls
  obtain ⟨⟨r2, k2⟩, hsecond, heq⟩ := Option.map_eq_some_iff.mp hcalls
  simp only [Prod.mk.injEq, decide_eq_true_eq] at heq
  obtain ⟨rfl, rfl, hlive⟩ := heq
  have hbefore : Run MachineStep (machineInit eightMegabytes)
      [.call (.spawnDemoCounter 0 5 7) (.created (some 1))] ⟨k1, .kernelCode, startThreads
        (processInit eightMegabytes) k1 fun _ => .bootstrap⟩ :=
    Run.one (.call (by decide) (eq_ok_of_toOption hspawn))
  have hrun : Run (AwayStep 1) ⟨k1, .kernelCode, startThreads
        (processInit eightMegabytes) k1 fun _ => .bootstrap⟩
      [.call (.spawnDemoCounter 0 1 2) (.created (some 2)), .interrupt] _ :=
    (Run.one ⟨.call (by decide) (eq_ok_of_toOption hsecond), rfl, rfl, by decide⟩).snoc
      ⟨.interrupt, rfl, rfl, id⟩
  exact ⟨_, _, hbefore, hrun,
    (machineRun_isolation eightMegabytes_ready rfl hbefore hlive hrun).1⟩

end Steps

end Kfs
