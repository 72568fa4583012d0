import Kfs.ProcessSignals
import Kfs.SchedulerContext
import Kfs.Syscalls

/-!
# Who may end a process

A process ends itself, or a TERM or KILL signal ends it. Signals are queued
now and delivered later, so the state of a run is watched: beside every
queued signal stands its `Origin`, the sender and the owner the sender had
when it queued it. `AuthorityStep` lets processes with any owners make system
calls and use sockets, and everything else happen in between.
`authorityRun_termination`: whoever ended a process was allowed to.
-/

namespace Kfs

/-! ## Watching the queues -/

/-- Who queued a signal. -/
inductive Origin where
  /-- The sender was `NULL`. -/
  | null
  | process (sender : Slot) (owner : Nat)
  /-- `socket_send`. -/
  | socket
  deriving DecidableEq

/-- The sender's part of `process_can_signal`, for the process in slot `p`
with owner `owner`. -/
def Origin.MayEnd (p : Slot) (owner : Nat) : Origin → Prop
  | .null => True
  | .process sender senderOwner => senderOwner = 0 ∨ senderOwner = owner ∨ sender = p
  | .socket => False

def Origin.of (k : Kernel) : Option Slot → Origin
  | none => .null
  | some sender => .process sender (k.processTable sender).owner

structure QueuedSignal where
  pending : PendingSignal
  origin : Origin
  deriving DecidableEq

structure Watched where
  kernel : Kernel
  control : Control
  queued : Slot → List QueuedSignal

inductive AuthorityAction where
  | syscall (number arg0 arg1 arg2 result : Nat)
  | scheduler (action : SchedulerAction)

/-- Whose signal it is if a call queues one. -/
def Event.origin (k : Kernel) : Event → Option Origin
  | .sendSignal sender .. => some (Origin.of k sender)
  | .socketSend .. => some .socket
  | _ => none

def AuthorityAction.origin (k : Kernel) : AuthorityAction → Option Origin
  | .syscall .. => some (Origin.of k k.currentProcess)
  | .scheduler (.call e _) => e.origin k
  | _ => none

/-- A queue that was `before` and is `after` now: what is behind the old
signals is new and has the origin `origin`, and what is no longer queued is
dropped from the front. -/
def watchQueue (origin : Option Origin) (before after : List PendingSignal)
    (queued : List QueuedSignal) : List QueuedSignal :=
  let all := queued ++ origin.elim [] fun o =>
    (after.drop before.length).map fun pending => ⟨pending, o⟩
  all.drop (all.length - after.length)

def Watched.next (w : Watched) (action : AuthorityAction) (k : Kernel) (c : Control) : Watched where
  kernel := k
  control := c
  queued q := watchQueue (action.origin w.kernel) (w.kernel.pendingOf q) (k.pendingOf q)
    (w.queued q)

/-- A process calls `process_exit` for itself. -/
def AuthorityAction.exits : AuthorityAction → Prop
  | .syscall number .. => syscallTable number = .exit
  | .scheduler (.call (.exit ..) _) => True
  | .scheduler .finish => True
  | _ => False

inductive AuthorityStep : Watched → AuthorityAction → Watched → Prop where
  | syscall {w : Watched} {k' : Kernel} {number arg0 arg1 arg2 result : Nat}
      (running : w.control = .kernelCode ∨ ∃ p loop, w.control = .process p loop)
      (call : syscallDispatch w.kernel number arg0 arg1 arg2 = .ok (result, k')) :
      AuthorityStep w (.syscall number arg0 arg1 arg2 result)
        (w.next (.syscall number arg0 arg1 arg2 result) k' w.control)
  | scheduler {w : Watched} {action : SchedulerAction} {k' : Kernel} {c' : Control}
      (step : SchedulerStep (w.kernel, w.control) action (k', c'))
      (ownExit : ∀ process exitCode r, action = .call (.exit process exitCode) r →
        process = w.kernel.currentProcess) :
      AuthorityStep w (.scheduler action) (w.next (.scheduler action) k' c')

def watchedInit (vm : Vm) : Watched := ⟨processInit vm, .kernelCode, fun _ => []⟩

/-- A process has the processor, or the code that calls the scheduler. -/
def Control.running : Control → Bool
  | .kernelCode | .process .. => true
  | _ => false

/-- `process_exit` is called for the current process only. -/
def SchedulerAction.ownExit (k : Kernel) : SchedulerAction → Bool
  | .call (.exit process _) _ => decide (process = k.currentProcess)
  | _ => true

/-- `AuthorityStep` as a function. -/
def authorityExec (w : Watched) : AuthorityAction → Option Watched
  | .syscall number arg0 arg1 arg2 result =>
      if w.control.running then
        (syscallDispatch w.kernel number arg0 arg1 arg2).toOption.bind fun x =>
          if x.1 = result then
            some (w.next (.syscall number arg0 arg1 arg2 result) x.2 w.control)
          else none
      else none
  | .scheduler action =>
      if action.ownExit w.kernel then
        (schedulerExec (w.kernel, w.control) action).map fun s =>
          w.next (.scheduler action) s.1 s.2
      else none

theorem Control.running_cases {c : Control} (h : c.running = true) :
    c = .kernelCode ∨ ∃ p loop, c = .process p loop := by
  cases c with
  | kernelCode => exact Or.inl rfl
  | process p loop => exact Or.inr ⟨p, loop, rfl⟩
  | _ => cases h

theorem authorityExec_step ⦃w : Watched⦄ ⦃action : AuthorityAction⦄ ⦃w' : Watched⦄
    (h : authorityExec w action = some w') : AuthorityStep w action w' := by
  cases action with
  | syscall number arg0 arg1 arg2 result =>
      simp only [authorityExec] at h
      split at h
      · next hrunning =>
          obtain ⟨⟨r, k'⟩, hcall, h⟩ := Option.bind_eq_some_iff.mp h
          split at h
          · next hresult =>
              obtain rfl := Option.some.inj h
              obtain rfl : r = result := hresult
              exact .syscall (Control.running_cases hrunning) (eq_ok_of_toOption hcall)
          · cases h
      · cases h
  | scheduler action =>
      simp only [authorityExec] at h
      split at h
      · next hown =>
          obtain ⟨⟨k', c'⟩, hstep, rfl⟩ := Option.map_eq_some_iff.mp h
          refine .scheduler (schedulerExec_step hstep) ?_
          rintro process exitCode r rfl
          exact of_decide_eq_true hown
      · cases h

section Watch

variable {origin : Option Origin} {before after taken : List PendingSignal}
  {queued : List QueuedSignal}

theorem watchQueue_taken (h : queued.map QueuedSignal.pending = before)
    (htaken : before = taken ++ after) :
    queued = queued.take taken.length ++ watchQueue origin before after queued
      ∧ (queued.take taken.length).map QueuedSignal.pending = taken
      ∧ (watchQueue origin before after queued).map QueuedSignal.pending = after := by
  have hlength : queued.length = taken.length + after.length := by
    rw [← List.length_map (f := QueuedSignal.pending), h, htaken, List.length_append]
  have hnew : after.drop before.length = [] :=
    List.drop_eq_nil_of_le (by rw [htaken, List.length_append]; omega)
  have hall : watchQueue origin before after queued = queued.drop taken.length := by
    have helim : (origin.elim [] fun o =>
        (after.drop before.length).map fun pending => QueuedSignal.mk pending o) = [] := by
      rw [hnew]
      cases origin <;> rfl
    unfold watchQueue
    rw [helim, List.append_nil]
    dsimp only
    rw [hlength, Nat.add_sub_cancel]
  rw [hall]
  refine ⟨(List.take_append_drop _ _).symm, ?_, ?_⟩
  · rw [List.map_take, h, htaken, List.take_left]
  · rw [List.map_drop, h, htaken, List.drop_left]

theorem watchQueue_nil : watchQueue origin before [] queued = [] := by
  have helim : (origin.elim [] fun o =>
      (([] : List PendingSignal).drop before.length).map fun pending => QueuedSignal.mk pending o)
        = [] := by
    rw [List.drop_nil]
    cases origin <;> rfl
  unfold watchQueue
  rw [helim, List.append_nil]
  exact List.drop_length

theorem watchQueue_new {o : Origin} {x : PendingSignal}
    (h : queued.map QueuedSignal.pending = before) :
    watchQueue (some o) before (before ++ [x]) queued = queued ++ [⟨x, o⟩] := by
  have hlength : queued.length = before.length := by
    rw [← h, List.length_map]
  unfold watchQueue
  simp [hlength]

end Watch

/-! ## Signals along the scheduler -/

section Scheduler

variable {k k' : Kernel} {actor : Option Slot}

theorem scheduleNextProcess_delivers (hk : k.kernelProcess = some 0)
    (h : scheduleNextProcess k = .ok k') (q : Slot) : Delivers actor k k' q := by
  obtain ⟨picked, -, h⟩ := bind_eq_ok.mp h
  cases picked with
  | none =>
      obtain rfl := Except.ok.inj h
      exact .refl _
  | some p =>
      dsimp only at h
      have hpicked : Delivers actor k
          { k with schedulerCursor := some p, currentProcess := some p } q := .same rfl rfl id
      have hmoves := deliverProcessSignal_moves (P := fun m => m = .deliver p)
        { k with schedulerCursor := some p, currentProcess := some p } (some p)
        fun _ heq => Option.some.inj heq ▸ rfl
      refine (hpicked.trans (hmoves.delivers hk (fun _ heq => by cases heq)
        (fun _ _ heq => by cases heq) q)).trans ?_
      split at h
      · obtain rfl := Except.ok.inj h
        refine .trans (.modify (p := p) (f := fun r => { r with
          status := .run
          cpuTicks := add32 r.cpuTicks 1
          runCount := add32 r.runCount 1
          switchCount := add32 r.switchCount 1 }) rfl rfl ?_) (.same rfl rfl id)
        exact fun hrun => by cases hrun
      · obtain rfl := Except.ok.inj h
        exact .same rfl rfl id

theorem schedulerAdvance_delivers {c c' : Control} (hk : k.kernelProcess = some 0)
    (h : schedulerAdvance k c = .ok (k', c')) (q : Slot) : Delivers actor k k' q := by
  cases c with
  | kernelCode =>
      obtain ⟨rfl, -⟩ := Prod.mk.inj (Except.ok.inj h)
      exact .refl _
  | process p loop =>
      obtain ⟨rfl, -⟩ := Prod.mk.inj (Except.ok.inj h)
      exact .refl _
  | forceTicks index count =>
      simp only [schedulerAdvance] at h
      split at h
      · obtain ⟨rfl, -⟩ := Prod.mk.inj (Except.ok.inj h)
        exact .same rfl rfl id
      · obtain ⟨rfl, -⟩ := Prod.mk.inj (Except.ok.inj h)
        exact .refl _
  | runPending loop =>
      simp only [schedulerAdvance] at h
      split at h
      · obtain ⟨k1, hall, h⟩ := bind_eq_ok.mp h
        obtain ⟨rfl, -⟩ := Prod.mk.inj (Except.ok.inj h)
        have htick : Delivers actor k
            { k with pendingSchedulerTicks := sub32 k.pendingSchedulerTicks 1 } q :=
          .same rfl rfl id
        have hmoves := deliverAll_moves (P := fun m => ∃ p, m = .deliver p) (fun p => ⟨p, rfl⟩) hall
        refine htick.trans (hmoves.delivers hk ?_ ?_ q)
        · rintro _ ⟨_, heq⟩
          cases heq
        · rintro _ _ ⟨_, heq⟩
          cases heq
      · obtain ⟨rfl, -⟩ := Prod.mk.inj (Except.ok.inj h)
        exact .refl _
  | delivered loop =>
      obtain ⟨k1, hnext, h⟩ := bind_eq_ok.mp h
      have hdelivers : Delivers actor k k1 q := scheduleNextProcess_delivers hk hnext q
      split at h
      · obtain ⟨rfl, -⟩ := Prod.mk.inj (Except.ok.inj h)
        exact hdelivers
      · obtain ⟨rfl, -⟩ := Prod.mk.inj (Except.ok.inj h)
        exact hdelivers

/-- Taking the status `RUN` from a process. -/
theorem pause_delivers (k : Kernel) (p q : Slot) :
    Delivers actor k (if (k.processTable p).status = .run then
      k.modify p fun r => { r with status := .ready } else k) q := by
  split
  · exact .modify rfl rfl fun hready => by cases hready
  · exact .refl _

theorem processYield_delivers (k : Kernel) (q : Slot) : Delivers actor k (processYield k) q := by
  unfold processYield
  split
  · exact .refl _
  · next p _ =>
      split
      · exact .refl _
      · have hcount : ∀ k1 : Kernel, Delivers actor k1
            { k1 with totalContextSwitches := add32 k1.totalContextSwitches 1 } q :=
          fun _ => .same rfl rfl id
        exact ((pause_delivers k p q).trans (hcount _)).trans (.modify rfl rfl id)

theorem scheduleResume_delivers (k : Kernel) (p q : Slot) :
    Delivers actor k (scheduleResume k p) q := by
  have hspace : Delivers actor k (processSwitchToKernelSpace k) q := by
    unfold processSwitchToKernelSpace
    split
    · exact .refl _
    · exact .same rfl rfl id
  exact hspace.trans ((pause_delivers _ p q).trans (.same rfl rfl id))

theorem yieldFrom_delivers (k : Kernel) (p : Slot) (loop : PendingLoop) (q : Slot) :
    Delivers actor k (yieldFrom k p loop).1 q := by
  unfold yieldFrom
  split
  · exact .refl _
  · exact (processYield_delivers k q).trans (scheduleResume_delivers _ p q)

end Scheduler

/-! ## Steps -/

section Steps

variable {k k' : Kernel}

/-- A signal that `process_can_signal` let pass. -/
theorem mayEnd_of_canSignal {sender : Option Slot} {t : Slot}
    (h : processCanSignal k sender (some t) = true) :
    (Origin.of k sender).MayEnd t (k.processTable t).owner := by
  cases sender with
  | none => trivial
  | some s =>
      rcases of_decide_eq_true h with howner | hself | howner
      · exact Or.inl howner
      · exact Or.inr (Or.inr hself)
      · exact Or.inr (Or.inl howner)

theorem socket_not_fatal {value : Nat} : ¬(PendingSignal.mk processSignalSocket value).Fatal := by
  rintro (h | h) <;> cases h

/-- A call delivers, or it queues a signal that its origin may queue. -/
theorem exec_signals {e : Event} {r : Reply} (hk : k.kernelProcess = some 0)
    (h : e.exec k = .ok (r, k')) (hschedule : e ≠ .schedule) (hyield : e ≠ .yield) :
    (∀ q, Delivers e.actor k k' q) ∨ ∃ t x o, Queues k k' t x ∧ e.origin k = some o
      ∧ (x.Fatal → o.MayEnd t (k.processTable t).owner) := by
  have hother := exec_delivers hk h hschedule hyield
  cases e with
  | sendSignal sender pid signal value =>
      obtain ⟨ok, -, call⟩ := map_reply_eq_ok.mp h
      rcases sendSignalToProcess_cases call with rfl | ⟨t, hcan, hq⟩
      · exact Or.inl fun q => .refl _
      · exact Or.inr ⟨t, _, _, hq, rfl, fun _ => mayEnd_of_canSignal hcan⟩
  | socketSend sender pid value =>
      obtain ⟨ok, -, call⟩ := map_reply_eq_ok.mp h
      rcases socketSend_signals call with hdelivers | ⟨t, hq⟩
      · exact Or.inl hdelivers
      · exact Or.inr ⟨t, _, _, hq, rfl, fun hfatal => absurd hfatal socket_not_fatal⟩
  | _ => exact Or.inl (hother (fun _ _ _ _ heq => by cases heq) fun _ _ _ heq => by cases heq)

/-- The current process, if it is not the kernel's, has the processor. -/
theorem SchedulerInv.control_current {c : Control} {p : Slot} (h : SchedulerInv (k, c))
    (hp : p ≠ 0) (hcurrent : k.currentProcess = some p) : ∃ loop, c = .process p loop := by
  have hnot : ¬KernelContext k := fun hc => by
    have hcur := hc.current
    rw [hcurrent, h.housed.ground.kernel] at hcur
    exact hp (Option.some.inj hcur)
  have hc : Context k c := h.context
  cases c with
  | process q loop =>
      have hc' : ProcessContext k q := hc
      obtain rfl := Option.some.inj (hc'.current.symm.trans hcurrent)
      exact ⟨loop, rfl⟩
  | _ => exact absurd hc hnot

theorem Event.bySyscall.not_schedule {e : Event} (h : e.bySyscall k) :
    e ≠ .schedule ∧ e ≠ .yield := by
  constructor
  · rintro rfl
    exact h
  · rintro rfl
    exact h

theorem Event.bySyscall.byProcess {e : Event} (h : e.bySyscall k) {p : Slot}
    (hp : k.currentProcess = some p) : e.byProcess k := by
  cases e with
  | wait parent pid =>
      have hparent : parent = k.creator := h
      show parent = k.currentProcess
      rw [hparent, Kernel.creator, hp]
      rfl
  | schedule | yield => exact h
  | _ => trivial

/-- The context stays that of the code that has the processor. -/
theorem AuthorityStep.inv {w w' : Watched} {action : AuthorityAction}
    (hi : SchedulerInv (w.kernel, w.control)) (h : AuthorityStep w action w') :
    SchedulerInv (w'.kernel, w'.control) := by
  cases h with
  | scheduler step ownExit => exact hi.step step
  | @syscall k' number arg0 arg1 arg2 result running call =>
      obtain ⟨k, c, queued⟩ := w
      rcases syscallDispatch_event call with rfl | ⟨e, r, hby, hexec, -⟩
      · exact hi
      · obtain ⟨hschedule, hyield⟩ := hby.not_schedule
        rcases running with rfl | ⟨p, loop, rfl⟩
        · exact hi.step (.kernelCall hschedule hyield hexec)
        · have hc : ProcessContext k p := hi.context
          exact hi.step (.processCall (hby.byProcess hc.current) hexec)

/-- What a step from `k` to `k'` does to signals. -/
inductive SignalEffect (k : Kernel) (c : Control) (action : AuthorityAction) (k' : Kernel) :
    Prop where
  | delivers (actor : Option Slot) (moves : ∀ q, Delivers actor k k' q)
      (own : ∀ p, p ≠ 0 → actor = some p → action.exits ∧ ∃ loop, c = .process p loop)
  | queues (target : Slot) (x : PendingSignal) (origin : Origin) (queue : Queues k k' target x)
      (sent : action.origin k = some origin)
      (may : x.Fatal → origin.MayEnd target (k.processTable target).owner)

/-- A step in which nobody exits. -/
theorem SignalEffect.quiet {c : Control} {action : AuthorityAction}
    (h : ∀ q, Delivers none k k' q) : SignalEffect k c action k' :=
  .delivers none h fun _ _ heq => by cases heq

theorem SignalEffect.call {c : Control} {e : Event} {r : Reply} (hi : SchedulerInv (k, c))
    (hexec : e.exec k = .ok (r, k')) (hschedule : e ≠ .schedule) (hyield : e ≠ .yield)
    (hown : ∀ process exitCode, e = .exit process exitCode → process = k.currentProcess) :
    SignalEffect k c (.scheduler (.call e r)) k' := by
  rcases exec_signals hi.housed.ground.kernel hexec hschedule hyield with
    hmoves | ⟨t, x, o, hq, ho, hmay⟩
  · refine .delivers e.actor hmoves fun p hp hactor => ?_
    cases e with
    | exit process exitCode =>
        exact ⟨trivial, hi.control_current hp ((hown _ _ rfl).symm.trans hactor)⟩
    | _ => cases hactor
  · exact .queues t x o hq ho hmay

theorem SchedulerStep.signals {s s' : Kernel × Control} {action : SchedulerAction}
    (hi : SchedulerInv s) (h : SchedulerStep s action s')
    (hown : ∀ process exitCode r, action = .call (.exit process exitCode) r →
      process = s.1.currentProcess) : SignalEffect s.1 s.2 (.scheduler action) s'.1 := by
  have hk : s.1.kernelProcess = some 0 := hi.housed.ground.kernel
  cases h with
  | @kernelCall k k' e r hschedule hyield hexec =>
      exact .call hi hexec hschedule hyield fun process exitCode heq =>
        hown process exitCode r (by rw [heq])
  | @processCall k k' e r p loop hby hexec =>
      refine .call hi hexec ?_ ?_ fun process exitCode heq =>
        hown process exitCode r (by rw [heq])
      · rintro rfl
        exact hby
      · rintro rfl
        exact hby
  | interrupt => exact .quiet fun q => .same rfl rfl id
  | runPending maxTicks => exact .quiet fun q => .refl _
  | forceTicks count => exact .quiet fun q => .refl _
  | advance hadvance => exact .quiet fun q => schedulerAdvance_delivers hk hadvance q
  | @yield k p loop => exact .quiet fun q => yieldFrom_delivers k p loop q
  | @finish k p loop =>
      refine .delivers (some p) (fun q => ?_) fun q _ hactor => ?_
      · exact (processExit_delivers hk p q _).trans (yieldFrom_delivers _ p loop q)
      · obtain rfl := Option.some.inj hactor
        exact ⟨trivial, loop, rfl⟩

theorem AuthorityStep.signals {w w' : Watched} {action : AuthorityAction}
    (hi : SchedulerInv (w.kernel, w.control)) (h : AuthorityStep w action w') :
    SignalEffect w.kernel w.control action w'.kernel := by
  cases h with
  | scheduler step ownExit => exact step.signals hi ownExit
  | syscall running call =>
      rcases syscallDispatch_event call with rfl | ⟨e, r, hby, hexec, hexit⟩
      · exact .quiet fun q => .refl _
      · obtain ⟨hschedule, hyield⟩ := hby.not_schedule
        rcases exec_signals hi.housed.ground.kernel hexec hschedule hyield with
          hmoves | ⟨t, x, o, hq, ho, hmay⟩
        · refine .delivers e.actor hmoves fun p hp hactor => ?_
          cases e with
          | exit process exitCode =>
              have hprocess : process = w.kernel.currentProcess := hby
              exact ⟨hexit _ _ rfl, hi.control_current hp (hprocess.symm.trans hactor)⟩
          | _ => cases hactor
        · refine .queues t x o hq ?_ hmay
          cases e with
          | sendSignal sender pid signal value =>
              have hsender : sender = w.kernel.currentProcess := hby
              rw [← ho, hsender]
              rfl
          | socketSend sender pid value => exact hby.elim
          | _ => cases ho

/-- The queue of a watched slot after a step. -/
theorem AuthorityStep.queued {w w' : Watched} {action : AuthorityAction}
    (h : AuthorityStep w action w') (q : Slot) :
    w'.queued q = watchQueue (action.origin w.kernel) (w.kernel.pendingOf q)
      (w'.kernel.pendingOf q) (w.queued q) := by
  cases h <;> rfl

end Steps

/-! ## Runs -/

/-- What holds of every state of a run. -/
structure Authority (w : Watched) : Prop where
  scheduler : SchedulerInv (w.kernel, w.control)
  queues : ∀ q, (w.queued q).map QueuedSignal.pending = w.kernel.pendingOf q
  may : ∀ q, ∀ x ∈ w.queued q, x.pending.Fatal →
    x.origin.MayEnd q (w.kernel.processTable q).owner
  root : (w.kernel.processTable 0).status ≠ .zombie

/-- Why the process in slot `p` became a zombie in a step. -/
inductive EndedBy (p : Slot) (w : Watched) (action : AuthorityAction) (w' : Watched) : Prop where
  /-- It had the processor and called `process_exit` or returned from its
  entry function. -/
  | itself (exits : action.exits) (running : ∃ loop, w.control = .process p loop)
  /-- A fatal signal was taken from its queue. -/
  | signal (delivered : List QueuedSignal) (queue : w.queued p = delivered ++ w'.queued p)
      (x : QueuedSignal) (mem : x ∈ delivered) (fatal : x.pending.Fatal)
      (may : x.origin.MayEnd p (w.kernel.processTable p).owner)

section Runs

variable {w w' : Watched} {action : AuthorityAction}

/-- A slot in which nothing was queued. -/
theorem Authority.kept (h : Authority w) (hstep : AuthorityStep w action w') {q : Slot}
    {taken : List PendingSignal} (htaken : w.kernel.pendingOf q = taken ++ w'.kernel.pendingOf q) :
    ∃ delivered, w.queued q = delivered ++ w'.queued q
      ∧ delivered.map QueuedSignal.pending = taken
      ∧ (w'.queued q).map QueuedSignal.pending = w'.kernel.pendingOf q := by
  obtain ⟨hsplit, hdelivered, hrest⟩ := watchQueue_taken (h.queues q) htaken
  rw [← hstep.queued q] at hsplit hrest
  exact ⟨_, hsplit, hdelivered, hrest⟩

/-- The queue of a slot stays watched, and what is in it may be. -/
theorem Authority.slot (h : Authority w) (hstep : AuthorityStep w action w') (q : Slot) :
    (w'.queued q).map QueuedSignal.pending = w'.kernel.pendingOf q
      ∧ ∀ x ∈ w'.queued q, x.pending.Fatal →
        x.origin.MayEnd q (w'.kernel.processTable q).owner := by
  cases hstep.signals h.scheduler with
  | delivers actor moves own =>
      cases moves q with
      | kept taken hqueue howner hends =>
          obtain ⟨delivered, hsplit, -, hrest⟩ := h.kept hstep hqueue
          refine ⟨hrest, fun x hx hfatal => ?_⟩
          rw [howner]
          exact h.may q x (hsplit ▸ List.mem_append_right _ hx) hfatal
      | fresh huser hqueue hends =>
          have hnil : w'.queued q = [] := by
            rw [hstep.queued q, hqueue, watchQueue_nil]
          rw [hnil, hqueue]
          exact ⟨rfl, fun x hx => by cases hx⟩
  | queues target x origin hq hsent hmay =>
      rw [hq.owner q]
      by_cases hqt : q = target
      · subst hqt
        have hqueued : w'.queued q = w.queued q ++ [⟨x, origin⟩] := by
          rw [hstep.queued q, hsent, hq.queue, watchQueue_new (h.queues q)]
        rw [hqueued, hq.queue]
        refine ⟨by rw [List.map_append, h.queues q]; rfl, fun y hy hfatal => ?_⟩
        rcases List.mem_append.mp hy with hy | hy
        · exact h.may q y hy hfatal
        · obtain rfl := List.mem_singleton.mp hy
          exact hmay hfatal
      · have hsame : w.kernel.pendingOf q = [] ++ w'.kernel.pendingOf q := (hq.others q hqt).symm
        obtain ⟨delivered, hsplit, -, hrest⟩ := h.kept hstep hsame
        exact ⟨hrest, fun y hy => h.may q y (hsplit ▸ List.mem_append_right _ hy)⟩

theorem Authority.ended (h : Authority w) (hstep : AuthorityStep w action w') {p : Slot}
    (halive : (w.kernel.processTable p).status ≠ .zombie)
    (hzombie : (w'.kernel.processTable p).status = .zombie) :
    p ≠ 0 ∧ EndedBy p w action w' := by
  cases hstep.signals h.scheduler with
  | delivers actor moves own =>
      cases moves p with
      | kept taken hqueue howner hends =>
          obtain ⟨delivered, hsplit, hdelivered, -⟩ := h.kept hstep hqueue
          rcases hends hzombie with hbefore | ⟨hp, hactor | ⟨x, hx, hfatal⟩⟩
          · exact absurd hbefore halive
          · obtain ⟨hexits, hrunning⟩ := own p hp hactor
            exact ⟨hp, .itself hexits hrunning⟩
          · rw [← hdelivered] at hx
            obtain ⟨y, hy, rfl⟩ := List.mem_map.mp hx
            refine ⟨hp, .signal delivered hsplit y hy hfatal ?_⟩
            exact h.may p y (hsplit ▸ List.mem_append_left _ hy) hfatal
      | fresh hp hqueue hends =>
          obtain ⟨hexits, hrunning⟩ := own p hp (hends hzombie)
          exact ⟨hp, .itself hexits hrunning⟩
  | queues target x origin hq hsent hmay =>
      rw [hq.status p] at hzombie
      exact absurd hzombie halive

theorem Authority.step (h : Authority w) (hstep : AuthorityStep w action w') : Authority w' := by
  refine ⟨hstep.inv h.scheduler, fun q => (h.slot hstep q).1, fun q => (h.slot hstep q).2, ?_⟩
  exact fun hzombie => (h.ended hstep h.root hzombie).1 rfl

theorem authority_watchedInit {vm : Vm} (hvm : vm.currentDirectory = some .kernel) :
    Authority (watchedInit vm) := by
  have hempty : ∀ q, (processInit vm).pendingOf q = [] := by
    intro q
    refine Ring.contents_eq_nil ?_
    by_cases hq : q = 0
    · subst hq
      rfl
    · rw [show (processInit vm).processTable q
        = { Process.zero with memory := processResetMemory } from if_neg hq]
      rfl
  refine ⟨schedulerInv_processInit hvm, fun q => (hempty q).symm, ?_, ?_⟩
  · intro q x hx
    cases hx
  · show ((processInit vm).processTable 0).status ≠ .zombie
    rw [processInit_status]
    exact fun heq => by cases heq

end Runs

/-- In every run the kernel process is no zombie, every queued signal stands
beside its origin, and a process that becomes a zombie ended itself or was
ended by one who may. -/
theorem authorityRun_termination {vm : Vm} (hvm : vm.currentDirectory = some .kernel)
    {actions : List AuthorityAction} {w : Watched}
    (hrun : Run AuthorityStep (watchedInit vm) actions w) :
    (w.kernel.processTable 0).status ≠ .zombie
      ∧ (∀ q, (w.queued q).map QueuedSignal.pending = (w.kernel.processTable q).signals.contents)
      ∧ ∀ action w' p, AuthorityStep w action w' → (w.kernel.processTable p).status ≠ .zombie →
        (w'.kernel.processTable p).status = .zombie → p ≠ 0 ∧ EndedBy p w action w' := by
  have h : Authority w := hrun.invariant (authority_watchedInit hvm) fun h hstep => h.step hstep
  exact ⟨h.root, h.queues, fun action w' p hstep => h.ended hstep⟩

/-- The kernel kills a process of owner 5; the signal is delivered at the
next tick. -/
theorem authorityRun_termination_killed :
    ∃ actions w w', Run AuthorityStep (watchedInit eightMegabytes) actions w
      ∧ AuthorityStep w (.scheduler .advance) w'
      ∧ EndedBy 1 w (.scheduler .advance) w' := by
  obtain ⟨w, w', hrun, hstep, halive, hzombie⟩ := execSteps_observe_two authorityExec_step
    (watchedInit eightMegabytes)
    [.scheduler (.call (.createOwned 5 (some .demoCounterProcess) 4096) (.created (some 1))),
      .syscall 6 2 15 0 0, .scheduler (.forceTicks 1), .scheduler .advance] [.scheduler .advance]
    (fun w w' => (w.kernel.processTable 1).status ≠ .zombie
      ∧ (w'.kernel.processTable 1).status = .zombie) (by decide +kernel)
  exact ⟨_, w, w', hrun, hstep.of_one,
    ((authorityRun_termination rfl hrun).2.2 _ _ 1 hstep.of_one halive hzombie).2⟩

end Kfs
