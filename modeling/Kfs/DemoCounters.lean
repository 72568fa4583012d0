import Kfs.MachineRuns

/-!
# Counting under every schedule

Whatever the shell, the timer and the other processes do between two of its
switches, a counter counts its switches and nothing else: its two numbers
are in its record and in its memory, each exact, and it ends after the round
it was started for unless a fatal signal ends it before.
-/

namespace Kfs

/-! ## A process keeps its job -/

section Jobs

variable {m m' m'' : Machine} {a : MachineAction} {p : Slot}

theorem SlotStep.survives (h : SlotStep m m' p a) (hlive : m.kernel.Live p)
    (hlive' : m'.kernel.Live p) :
    SameJob (m.kernel.processTable p) (m'.kernel.processTable p) := by
  cases h with
  | kept _ hkept => exact hkept.sameJob
  | gone hgone => exact absurd hlive' hgone
  | started _ hbefore => exact absurd hlive hbefore
  | @dispatched k1 _ _ hsignals _ hrecord =>
      have hjob := hsignals.sameJob
      rw [hrecord]
      exact ⟨hjob.pid, hjob.entry, hjob.arg0, hjob.arg1⟩
  | ran _ _ _ hturn hback => exact hturn.job.trans hback.sameJob

theorem SlotStep.live (h : SlotStep m m' p a) (hlive : m.kernel.Live p) (hreap : ¬a.reaps p) :
    m'.kernel.Live p := by
  cases h with
  | kept _ hkept => exact hkept.live.mpr hlive
  | gone _ hreaped => exact absurd (hreaped hlive) hreap
  | started _ hbefore => exact absurd hlive hbefore
  | dispatched _ _ hsignals _ hrecord =>
      refine ⟨hlive.1, ?_⟩
      rw [hrecord]
      exact hsignals.used.trans hlive.2
  | ran _ _ _ hturn hback => exact hback.live.mpr ((hturn.ran.live p).mpr hlive)

/-- Until it is reaped. -/
theorem machineRun_job (h : MachineInv m) (hlive : m.kernel.Live p) {actions : List MachineAction}
    (hrun : Run MachineStep m actions m') (hreap : ∀ a ∈ actions, ¬a.reaps p) :
    m'.kernel.Live p ∧ SameJob (m.kernel.processTable p) (m'.kernel.processTable p)
      ∧ MachineInv m' := by
  refine hrun.invariant_trace (I := fun actions m' => (∀ a ∈ actions, ¬a.reaps p) →
    m'.kernel.Live p ∧ SameJob (m.kernel.processTable p) (m'.kernel.processTable p)
      ∧ MachineInv m') (fun _ => ⟨hlive, .refl _, h⟩) ?_ hreap
  intro actions m1 a m2 ih hstep hall
  obtain ⟨hlive1, hjob1, h1⟩ := ih fun a ha => hall a (List.mem_append_left _ ha)
  have hslot := h1.slot hstep p
  have hlive2 := hslot.live hlive1 (hall a (by simp))
  exact ⟨hlive2, hjob1.trans (hslot.survives hlive1 hlive2), h1.step hstep⟩

end Jobs

/-! ## Counters -/

/-- The process in slot `p` has counted `n` rounds from `seed` on. -/
structure RoundsCounted (k : Kernel) (p : Slot) (seed limit n : Nat) : Prop where
  bound : n ≤ limit - seed
  record : 0 < n → (k.processTable p).runtimeValue = seed + n
    ∧ (k.processTable p).runtimeState = n
  memory : 0 < n → k.ownWord p 0 = seed + n ∧ k.ownWord p 1 = n
  runCount : (k.processTable p).status ≠ .zombie → (k.processTable p).runCount
    = if (k.processTable p).status = .run then add32 n 1 else n
  ended : (k.processTable p).status = .zombie →
    (FatalCode (k.processTable p).exitCode ∧ (k.processTable p).runCount = n)
      ∨ ((k.processTable p).exitCode = toInt32 (max seed limit) ∧ n = limit - seed
        ∧ (k.processTable p).runCount = add32 n 1)

theorem MachineInv.runs_iff {m : Machine} (h : MachineInv m) (q : Slot) :
    m.control.runs q = true ↔ (m.kernel.processTable q).status = .run := by
  constructor
  · intro hruns
    obtain ⟨loop, hc⟩ := Control.runs_eq hruns
    exact h.running q loop hc
  · intro hrun
    have hcontext : Context m.kernel m.control := h.scheduler.context
    cases hc : m.control with
    | process p loop =>
        rw [hc] at hcontext
        refine decide_eq_true ?_
        by_contra hne
        exact hcontext.others q (fun heq => hne heq.symm) hrun
    | _ =>
        rw [hc] at hcontext
        exact absurd hrun (KernelContext.run hcontext q)

theorem MachineInv.counted {m : Machine} {p : Slot} {seed limit : Nat} (h : MachineInv m)
    (hlive : m.kernel.Live p)
    (hentry : (m.kernel.processTable p).entry = some .demoCounterProcess)
    (hseed : (m.kernel.processTable p).runtimeArg0 = seed)
    (hlimit : (m.kernel.processTable p).runtimeArg1 = limit) :
    ∃ n, RoundsCounted m.kernel p seed limit n := by
  subst hseed hlimit
  have htask := h.tasks p hlive
  have hruns := h.runs_iff p
  cases htask.work with
  | @counter n work =>
      have hcount := work.runCount
      refine ⟨n, work.place.bound, fun hpos => ?_, fun hpos => ?_, fun halive => ?_, fun hz => ?_⟩
      · exact ⟨(work.shows hpos).value, (work.shows hpos).state⟩
      · exact ⟨(work.shows hpos).data, (work.shows hpos).bss⟩
      · have hnot : m.threads p ≠ .spinning := fun hspin => halive (htask.spins hspin)
        simpa [hruns, hnot] using hcount
      · have hidle : ¬m.control.runs p = true := fun hbusy => htask.alive hbusy hz
        by_cases hspin : m.threads p = .spinning
        · obtain ⟨hexit, hn⟩ := work.place.end_spinning hspin
          exact Or.inr ⟨hexit, hn, hcount.trans (if_pos (Or.inr hspin))⟩
        · exact Or.inl ⟨(htask.ended hz).resolve_left hspin,
            hcount.trans (if_neg (not_or.mpr ⟨hidle, hspin⟩))⟩
  | receiver work =>
      rw [work.entry] at hentry
      cases hentry
  | sender work =>
      rw [work.entry] at hentry
      cases hentry

/-- The call that starts a counter: the demo, or a fork of a counter. -/
def StartsCounter (k : Kernel) (p : Slot) (seed limit : Nat) (a : MachineAction) : Prop :=
  (∃ owner, a = .call (.spawnDemoCounter owner seed limit) (.created (some p)))
    ∨ ∃ s, a = .call (.fork (some s)) (.created (some p))
      ∧ (k.processTable s).entry = some .demoCounterProcess
      ∧ (k.processTable s).runtimeArg0 = seed ∧ (k.processTable s).runtimeArg1 = limit

/-- The process that a call returned. -/
theorem MachineInv.call_started {m m' : Machine} {e : Event} {p : Slot} (h : MachineInv m)
    (hstep : MachineStep m (.call e (.created (some p))) m') :
    m'.kernel.Live p ∧ Unstarted (m'.kernel.processTable p)
      ∧ Starts m.kernel m'.kernel p (e, .created (some p)) := by
  have hslot := h.slot hstep p
  cases hstep with
  | call shell call =>
      obtain ⟨hbefore, hafter⟩ := shellCall_created shell call
      cases hslot with
      | kept live => exact absurd live hbefore
      | gone hgone => exact absurd hafter hgone
      | started _ _ hunstarted hstarts => exact ⟨hafter, hunstarted, hstarts⟩

theorem StartsCounter.job {m m' : Machine} {a : MachineAction} {p : Slot} {seed limit : Nat}
    (h : MachineInv m) (hstart : StartsCounter m.kernel p seed limit a)
    (hstep : MachineStep m a m') :
    m'.kernel.Live p ∧ (m'.kernel.processTable p).runCount = 0
      ∧ (m'.kernel.processTable p).entry = some .demoCounterProcess
      ∧ (m'.kernel.processTable p).runtimeArg0 = seed
      ∧ (m'.kernel.processTable p).runtimeArg1 = limit := by
  rcases hstart with ⟨owner, rfl⟩ | ⟨s, rfl, hentry, hseed, hlimit⟩
  · obtain ⟨hlive, hunstarted, hstarts⟩ := h.call_started hstep
    cases hstarts with
    | counter entry arg0 arg1 => exact ⟨hlive, hunstarted.runCount, entry, arg0, arg1⟩
  · obtain ⟨hlive, hunstarted, hstarts⟩ := h.call_started hstep
    cases hstarts with
    | fork _ entry arg0 arg1 =>
        exact ⟨hlive, hunstarted.runCount, entry.trans hentry, arg0.trans hseed,
          arg1.trans hlimit⟩

/-- From its start until it is reaped a counter has counted the switches to
it; and a fork starts at the seed again. -/
theorem machineRun_counter {vm : Vm} {before : List MachineAction} {m0 m1 : Machine}
    {a : MachineAction} {p : Slot} {seed limit : Nat} (hready : VmReady vm)
    (hvm : vm.currentDirectory = some .kernel)
    (hbefore : Run MachineStep (machineInit vm) before m0)
    (hstart : StartsCounter m0.kernel p seed limit a) (hstep : MachineStep m0 a m1) :
    (m1.kernel.processTable p).runCount = 0
      ∧ ∀ after m, Run MachineStep m1 after m → (∀ a ∈ after, ¬a.reaps p) →
        ∃ n, RoundsCounted m.kernel p seed limit n := by
  have h0 := machineInv_run hready hvm hbefore
  obtain ⟨hlive, hcount, hentry, hseed, hlimit⟩ := hstart.job h0 hstep
  refine ⟨hcount, fun after m hrun hreap => ?_⟩
  obtain ⟨hlive', hjob, h⟩ := machineRun_job (h0.step hstep) hlive hrun hreap
  exact h.counted hlive' (hjob.entry.trans hentry) (hjob.arg0.trans hseed)
    (hjob.arg1.trans hlimit)

/-- A counter in its first round. -/
theorem machineRun_counter_round : ∃ m1 after m n,
    MachineStep (machineInit eightMegabytes)
        (.call (.spawnDemoCounter 0 5 7) (.created (some 1))) m1
      ∧ Run MachineStep m1 after m ∧ (m.kernel.processTable 1).runtimeValue = 6
      ∧ RoundsCounted m.kernel 1 5 7 n := by
  obtain ⟨m1, m, hstep, hrun, hvalue⟩ := execSteps_observe_two machineExec_step
    (machineInit eightMegabytes) [.call (.spawnDemoCounter 0 5 7) (.created (some 1))]
    [.forceTicks 1, .advance, .advance, .advance, .run]
    (fun _ m => (m.kernel.processTable 1).runtimeValue = 6) (by decide +kernel)
  obtain ⟨n, hcounted⟩ := (machineRun_counter eightMegabytes_ready rfl .nil
    (Or.inl ⟨0, rfl⟩) hstep.of_one).2 _ _ hrun (by simp [MachineAction.reaps])
  exact ⟨m1, _, m, n, hstep.of_one, hrun, hvalue, hcounted⟩

end Kfs
