import Kfs.DemoCounters
import Kfs.SchedulerRotation
import Kfs.SignalDelivery

/-!
# The shell gets the processor back

No point of a run is stuck: the code that has the processor goes on, be it
the scheduler's or that of a process, and `Control.rest` says for how many
stretches at most until `scheduler_run_pending` or `scheduler_force_ticks`
returns.
-/

namespace Kfs

/-! ## How much is left of a call -/

def PendingLoop.restOfCaller (loop : PendingLoop) : Nat :=
  match loop.forced with
  | none => 0
  | some (index, count) => 5 * (count - (index + 1)) + 1

/-- A bound for the stretches of code up to the return of the scheduler: five
for each tick that `scheduler_force_ticks` has still to force, three for each
that `scheduler_run_pending` may still take. -/
def Control.rest : Control → Nat
  | .kernelCode => 0
  | .forceTicks index count => 5 * (count - index) + 1
  | .runPending loop => 3 * (loop.maxTicks - loop.executed) + 1 + loop.restOfCaller
  | .delivered loop => 3 * (loop.maxTicks - loop.executed - 1) + 3 + loop.restOfCaller
  | .process _ loop => 3 * (loop.maxTicks - loop.executed - 1) + 2 + loop.restOfCaller

theorem PendingLoop.rest_caller (loop : PendingLoop) : loop.caller.rest = loop.restOfCaller := by
  unfold PendingLoop.caller PendingLoop.restOfCaller
  cases loop.forced with
  | none => rfl
  | some forced => rfl

theorem PendingLoop.rest_next (loop : PendingLoop) :
    (Control.runPending loop.next).rest
      = 3 * (loop.maxTicks - loop.executed - 1) + 1 + loop.restOfCaller := by
  show 3 * (loop.maxTicks - (loop.executed + 1)) + 1 + loop.restOfCaller = _
  rw [Nat.sub_add_eq]

section Progress

variable {k : Kernel} {c : Control}

theorem LinkInv.deliverAll_ok {l : List Slot} {kids : Slot → List Slot} (h : LinkInv k l kids) :
    ∃ k', deliverAll 17 k.processHead k = .ok k' := by
  obtain ⟨k', hall, -⟩ := deliverAll_delivered h.kernel h.linked h.nodup
    (nodup_length_lt h.nodup) fun q hq => (h.mem q).mp hq
  exact ⟨k', hall⟩

/-- The scheduler's code goes on, towards its end. -/
theorem schedulerAdvance_progress (h : SchedulerInv (k, c)) (hkernel : c ≠ .kernelCode)
    (hprocess : ∀ p loop, c ≠ .process p loop) :
    ∃ k' c', schedulerAdvance k c = .ok (k', c') ∧ c'.rest < c.rest := by
  have hlinkage : Linkage k := h.housed.links
  cases c with
  | kernelCode => exact absurd rfl hkernel
  | process p loop => exact absurd rfl (hprocess p loop)
  | forceTicks index count =>
      unfold schedulerAdvance
      by_cases hlt : index < count
      · refine ⟨_, _, if_pos hlt, ?_⟩
        simp only [Control.rest, PendingLoop.restOfCaller]
        omega
      · exact ⟨_, _, if_neg hlt, Nat.succ_pos _⟩
  | runPending loop =>
      unfold schedulerAdvance
      by_cases hgo : k.pendingSchedulerTicks > 0 ∧ loop.executed < loop.maxTicks
      · obtain ⟨l, kids, hl⟩ := hlinkage
        have hcounted : Retarget k
            { k with pendingSchedulerTicks := sub32 k.pendingSchedulerTicks 1 } :=
          ⟨rfl, rfl, rfl, rfl, rfl, Or.inl rfl, Or.inl rfl, _, rfl⟩
        obtain ⟨k', hall⟩ := (hl.tame hcounted.tame).deliverAll_ok
        refine ⟨k', _, (if_pos hgo).trans (bind_eq_ok.mpr ⟨k', hall, rfl⟩), ?_⟩
        simp only [Control.rest]
        omega
      · refine ⟨_, _, if_neg hgo, ?_⟩
        rw [loop.rest_caller]
        simp only [Control.rest]
        omega
  | delivered loop =>
      obtain ⟨l, kids, hl⟩ := hlinkage
      obtain ⟨k', hnext⟩ := hl.scheduleNext
      have hrest := loop.rest_next
      unfold schedulerAdvance
      cases hsuspended : k'.suspended with
      | none =>
          refine ⟨k', _, bind_eq_ok.mpr ⟨k', hnext, by rw [hsuspended]; rfl⟩, ?_⟩
          rw [hrest]
          simp only [Control.rest]
          omega
      | some p =>
          refine ⟨k', _, bind_eq_ok.mpr ⟨k', hnext, by rw [hsuspended]; rfl⟩, ?_⟩
          simp only [Control.rest]
          omega

end Progress

/-- Whoever has the processor goes on, unless it is the shell. -/
theorem MachineInv.progress {m : Machine} (h : MachineInv m) (hkernel : m.control ≠ .kernelCode) :
    ∃ m', m.next = .ok m' ∧ m'.control.rest < m.control.rest := by
  obtain ⟨k, c, threads⟩ := m
  by_cases hprocess : ∃ p loop, c = .process p loop
  · obtain ⟨p, loop, rfl⟩ := hprocess
    obtain ⟨k1, thread, hcode, hturn⟩ := h.turn
    obtain ⟨k2, heq, -⟩ := yieldFrom_context hturn.ran.running.housed
      hturn.ran.running.context loop
    refine ⟨_, bind_eq_ok.mpr ⟨_, hcode, rfl⟩, ?_⟩
    rw [heq, loop.rest_next]
    simp only [Control.rest]
    omega
  · obtain ⟨k', c', hcall, hrest⟩ := schedulerAdvance_progress h.scheduler hkernel
      fun p loop heq => hprocess ⟨p, loop, heq⟩
    refine ⟨⟨k', c', threads⟩, ?_, hrest⟩
    unfold Machine.next
    split
    · next p loop heq => exact absurd ⟨p, loop, heq⟩ hprocess
    · exact bind_eq_ok.mpr ⟨_, hcall, rfl⟩

theorem MachineInv.returns {m : Machine} (h : MachineInv m) :
    ∃ n ≤ m.control.rest, ∃ m', m.nexts n = .ok m' ∧ m'.control = .kernelCode := by
  generalize hrest : m.control.rest = bound
  induction bound using Nat.strong_induction_on generalizing m with
  | _ bound ih =>
      by_cases hkernel : m.control = .kernelCode
      · exact ⟨0, Nat.zero_le _, m, rfl, hkernel⟩
      · obtain ⟨m1, hnext, hlt⟩ := h.progress hkernel
        obtain ⟨a, -, hstep⟩ := Machine.next_step hnext
        obtain ⟨n, hn, m', hnexts, hm'⟩ := ih _ (hrest ▸ hlt) (h.step hstep) rfl
        exact ⟨n + 1, by omega, m', bind_eq_ok.mpr ⟨m1, hnext, hnexts⟩, hm'⟩

/-! ## With the timer -/

/-- The timer interrupts `n` times. -/
def Machine.interrupted (m : Machine) (n : Nat) : Machine :=
  { m with kernel := schedulerTick^[n] m.kernel }

/-- `n` stretches of code, with `timer i` interrupts before the `i`-th. -/
def Machine.timed (timer : Nat → Nat) : Nat → Machine → Except Fault Machine
  | 0, m => .ok m
  | n + 1, m => do (← (m.interrupted (timer 0)).next).timed (fun i => timer (i + 1)) n

theorem Machine.interrupted_run (m : Machine) (n : Nat) :
    Run MachineStep m (List.replicate n .interrupt) (m.interrupted n) := by
  obtain ⟨k, c, threads⟩ := m
  induction n with
  | zero => exact .nil
  | succ n ih =>
      rw [List.replicate_succ']
      unfold Machine.interrupted at ih ⊢
      rw [Function.iterate_succ_apply']
      exact ih.snoc .interrupt

theorem MachineInv.run {m m' : Machine} {actions : List MachineAction} (h : MachineInv m)
    (hrun : Run MachineStep m actions m') : MachineInv m' :=
  hrun.invariant h fun h hstep => h.step hstep

/-- However often and wherever the timer interrupts, the shell gets the
processor back. -/
theorem MachineInv.timed_returns {m : Machine} (h : MachineInv m) (timer : Nat → Nat) :
    ∃ n ≤ m.control.rest, ∃ m', m.timed timer n = .ok m' ∧ m'.control = .kernelCode := by
  generalize hrest : m.control.rest = bound
  induction bound using Nat.strong_induction_on generalizing m timer with
  | _ bound ih =>
      by_cases hkernel : m.control = .kernelCode
      · exact ⟨0, Nat.zero_le _, m, rfl, hkernel⟩
      · have hinterrupted := h.run (m.interrupted_run (timer 0))
        obtain ⟨m1, hnext, hlt⟩ := hinterrupted.progress hkernel
        obtain ⟨a, -, hstep⟩ := Machine.next_step hnext
        obtain ⟨n, hn, m', htimed, hm'⟩ :=
          ih _ (hrest ▸ hlt) (hinterrupted.step hstep) (fun i => timer (i + 1)) rfl
        have hlt' : m1.control.rest < m.control.rest := hlt
        exact ⟨n + 1, by omega, m', bind_eq_ok.mpr ⟨m1, hnext, htimed⟩, hm'⟩

/-- From every state the machine can reach, wherever the timer interrupted
it, the code that has the processor does not fault, and the call of the
scheduler returns to the shell. -/
theorem machineRun_returns {vm : Vm} {actions : List MachineAction} {m : Machine}
    (hready : VmReady vm) (hvm : vm.currentDirectory = some .kernel)
    (hrun : Run MachineStep (machineInit vm) actions m) :
    (m.control ≠ .kernelCode → ∃ m', m.next = .ok m' ∧ m'.control.rest < m.control.rest)
      ∧ ∃ n ≤ m.control.rest, ∃ m', m.nexts n = .ok m' ∧ m'.control = .kernelCode :=
  ⟨(machineInv_run hready hvm hrun).progress, (machineInv_run hready hvm hrun).returns⟩

/-- A counter has the processor, with two rounds and two more ticks to go. -/
theorem machineRun_returns_process : ∃ m, Run MachineStep (machineInit eightMegabytes)
      [.call (.spawnDemoCounter 0 5 7) (.created (some 1)), .interrupt, .interrupt, .interrupt,
        .runPending 8, .advance, .advance] m
    ∧ m.control = .process 1 ⟨0, 8, none⟩
    ∧ (∃ m', m.next = .ok m' ∧ m'.control.rest < m.control.rest)
    ∧ ∃ n ≤ 23, ∃ m', m.nexts n = .ok m' ∧ m'.control = .kernelCode := by
  obtain ⟨m, hrun, hcontrol⟩ := execSteps_observe machineExec_step (machineInit eightMegabytes)
    [.call (.spawnDemoCounter 0 5 7) (.created (some 1)), .interrupt, .interrupt, .interrupt,
      .runPending 8, .advance, .advance] (fun m => m.control = .process 1 ⟨0, 8, none⟩)
    (by decide +kernel)
  obtain ⟨hprogress, hreturns⟩ := machineRun_returns eightMegabytes_ready rfl hrun
  have hnot : m.control ≠ .kernelCode := fun heq => by
    rw [hcontrol] at heq
    cases heq
  have hrest : m.control.rest = 23 := by
    rw [hcontrol]
    rfl
  exact ⟨m, hrun, hcontrol, hprogress hnot, hrest ▸ hreturns⟩

end Kfs
