import Kfs.ProcessContext

/-!
# Zombies

A process that has exited is a zombie until it is reaped, except that
`process_exit` returns to it: it may go on, and if it waits for a child that
is still alive, `process_wait` makes it WAITING and the child's exit makes it
READY (`zombieRun_final_fails`). Along runs in which no zombie does that,
zombies are final (`zombieRun_final`).
-/

namespace Kfs

/-- The process with pid `pid` in slot `p` is a zombie. -/
structure ZombieAt (k : Kernel) (p : Slot) (pid : Nat) (exitCode : Int) : Prop where
  used : (k.processTable p).used = true
  same : (k.processTable p).pid = pid
  zombie : (k.processTable p).status = .zombie
  code : (k.processTable p).exitCode = exitCode

section Effects

variable {k k' : Kernel} {p : Slot} {pid : Nat} {exitCode : Int}
  (h : ZombieAt k p pid exitCode)

include h

theorem ZombieAt.core (hcore : (k'.processTable p).core = (k.processTable p).core) :
    ZombieAt k' p pid exitCode :=
  ⟨(core_used hcore).trans h.used, (core_pid hcore).trans h.same,
    (core_status hcore).trans h.zombie, (core_exitCode hcore).trans h.code⟩

theorem ZombieAt.eq (heq : k'.processTable p = k.processTable p) : ZombieAt k' p pid exitCode :=
  h.core (congrArg Process.core heq)

/-- Assigning to the record of a process that is no zombie. -/
theorem ZombieAt.modify {q : Slot} {f : Process → Process}
    (hq : (k.processTable q).status ≠ .zombie) : ZombieAt (k.modify q f) p pid exitCode := by
  refine h.eq (modify_of_ne _ _ _ ?_)
  rintro rfl
  exact hq h.zombie

/-- No effect revives a zombie, except that it waits or is released. -/
theorem ZombieAt.effect {x : Effect} (hx : KernelEffect k x k') (hk : k.kernelProcess = some 0)
    (hrelease : x ≠ .release p) (hwait : ∀ pid, x ≠ .waitFor p pid) :
    ZombieAt k' p pid exitCode := by
  cases x with
  | spawn q parent base =>
      obtain ⟨-, hunused, -, hcore⟩ := hx.spawn_table
      refine h.core (hcore p ?_)
      rintro rfl
      rw [h.used] at hunused
      cases hunused
  | miss base => exact h.core (hx.miss_core hk h.used)
  | release c =>
      obtain ⟨-, -, hcore⟩ := hx.release_table
      exact h.core (hcore p fun hpc => hrelease (hpc ▸ rfl))
  | exit q =>
      cases hx with
      | exit q code =>
          rcases processExit_cases k q code with
            ⟨-, heq⟩ | ⟨halive, -, ⟨heq, -⟩ | ⟨s, hs, -, hw, heq⟩⟩
          · rw [heq]
            exact h
          · rw [heq]
            exact h.modify halive
          · rw [heq]
            refine (h.modify halive).modify ?_
            rw [modify_of_ne _ _ _ hs, hw]
            exact Status.noConfusion
  | waitFor parent pid' =>
      cases hx with
      | waitFor hused htarget halive hkin =>
          have hp : p ≠ parent := fun hp => hwait pid' (hp ▸ rfl)
          unfold waitFor
          dsimp only
          split
          · exact h.eq (modify_of_ne _ _ _ hp)
          · rw [modify_modify]
            exact h.eq (modify_of_ne _ _ _ hp)
  | other =>
      cases hx with
      | stopWaiting parent =>
          unfold stopWaiting
          split
          · exact h
          · split
            · next hw =>
                refine h.modify ?_
                rw [hw]
                exact Status.noConfusion
            · exact h
      | run halive _ => exact h.modify halive
      | pause hrun =>
          refine h.modify ?_
          rw [hrun]
          exact Status.noConfusion
      | @quiet q f keeps =>
          have hv := modify_keeps (k := k) (p := q) (f := f) Process.vitals keeps p
          exact ⟨(vitals_field hv Process.used fun _ => rfl).trans h.used,
            (vitals_field hv Process.pid fun _ => rfl).trans h.same,
            (vitals_field hv Process.status fun _ => rfl).trans h.zombie,
            (vitals_field hv Process.exitCode fun _ => rfl).trans h.code⟩
      | retarget moves => exact h.eq (by rw [moves.table])
      | copy _ _ _ => exact h.eq rfl

theorem ZombieAt.effects {effects : List Effect} (hl : Linkage k)
    (hrun : Run KernelEffect k effects k') (hrelease : .release p ∉ effects)
    (hwait : ∀ pid, .waitFor p pid ∉ effects) : ZombieAt k' p pid exitCode := by
  refine (hrun.invariant_trace (I := fun xs k' => Linkage k'
    ∧ (.release p ∉ xs → (∀ pid, .waitFor p pid ∉ xs) → ZombieAt k' p pid exitCode))
    ⟨hl, fun _ _ => h⟩ ?_).2 hrelease hwait
  rintro xs k1 x k2 ⟨hl1, ih⟩ hx
  refine ⟨hl1.effect hx, ?_⟩
  intro hrelease hwait
  have h1 := ih (fun hmem => hrelease (List.mem_append_left _ hmem))
    fun pid hmem => hwait pid (List.mem_append_left _ hmem)
  exact h1.effect hx hl1.kernel (fun heq => hrelease (by simp [heq]))
    fun pid heq => hwait pid (by simp [heq])

end Effects

/-! ## Events -/

/-- Whether an event leaves zombies alone: no zombie waits for a child that
is alive. -/
def Event.keepsZombies (k : Kernel) : Event → Prop
  | .wait (some w) pid => (k.processTable w).status = .zombie →
      ∀ c, processGetByPid k pid = .ok (some c) →
        (some w = k.kernelProcess ∨ (k.processTable c).parent = some w) →
        (k.processTable c).status = .zombie
  | _ => True

def ZombieStep (k : Kernel) (label : Event × Reply) (k' : Kernel) : Prop :=
  KernelStep k label k' ∧ label.1.keepsZombies k

theorem ZombieAt.step {k k' : Kernel} {p : Slot} {pid : Nat} {exitCode : Int}
    {label : Event × Reply} (h : ZombieAt k p pid exitCode) (hl : Linkage k)
    (hstep : KernelStep k label k') (hsafe : label.1.keepsZombies k) (hreap : ¬reaps p label) :
    ZombieAt k' p pid exitCode := by
  obtain ⟨effects, hrun, hshape⟩ := hl.performs hstep
  obtain ⟨e, r⟩ := label
  refine h.effects hl hrun (hshape.release_not_mem hrun h.used hreap) ?_
  intro pid'
  cases hshape with
  | mild hmild => exact (mild_not_mem hmild p).2 pid'
  | spawned _ hmild => simpa using (mild_not_mem hmild p).2 pid'
  | missed _ => simp
  | pair hmild => simpa using (mild_not_mem hmild p).2 pid'
  | pairMissed => simp
  | pairUndone => simp
  | @waiting w c _ found kin alive =>
      have hpw : p ≠ w := by
        rintro rfl
        exact alive (hsafe h.zombie c found kin)
      simp [hpw]
  | reaped _ _ _ => simp

/-! ## The scheduler -/

/-- A round of the scheduler leaves the process it switched to running. -/
theorem scheduleEvent_run {k k' : Kernel} {p : Slot} (hk : k.kernelProcess = some 0)
    (h : scheduleEvent k = .ok k') (hnone : k.suspended = none) (hp : k'.suspended = some p) :
    (k'.processTable p).status = .run := by
  unfold scheduleEvent at h
  split at h
  · obtain rfl := Except.ok.inj h
    rw [hnone] at hp
    cases hp
  · obtain ⟨k1, hall, h⟩ := bind_eq_ok.mp h
    have hmoves := deliverAll_moves (P := fun _ => True) (fun _ => trivial) hall
    have hnone1 : k1.suspended = none := (hmoves.sameContext hk).suspended.trans hnone
    have hk1 : k1.kernelProcess = some 0 := (deliverAll_mildRun hall).tame.kernel.trans hk
    obtain ⟨picked, -, h⟩ := bind_eq_ok.mp h
    cases picked with
    | none =>
        obtain rfl := Except.ok.inj h
        rw [hnone1] at hp
        cases hp
    | some q =>
        dsimp only at h
        have hnone2 := ((deliverProcessSignal_moves (P := fun _ => True)
          { k1 with schedulerCursor := some q, currentProcess := some q } (some q)
          fun _ _ => trivial).sameContext hk1).suspended
        generalize (deliverProcessSignal
          { k1 with schedulerCursor := some q, currentProcess := some q } (some q)).2 = k2
          at h hnone2
        split at h
        · obtain rfl := Except.ok.inj h
          obtain rfl := Option.some.inj hp
          simp
        · obtain rfl := Except.ok.inj h
          have hp' : k2.suspended = some p := hp
          rw [hnone2] at hp'
          exact absurd (hnone1.symm.trans hp') (by simp)

/-! ## Runs -/

/-- Along the runs of `step` from `k0` zombies are final. -/
structure ZombiesFinal (step : Kernel → Event × Reply → Kernel → Prop) (k0 : Kernel) :
    Prop where
  /-- `process_exit` makes a process a zombie with the exit code it was
  called with. -/
  exits : ∀ before k, Run step k0 before k → ∀ p exitCode, (k.processTable p).used = true →
    some p ≠ k.kernelProcess → (k.processTable p).status ≠ .zombie →
    ZombieAt (processExit k (some p) exitCode) p (k.processTable p).pid exitCode
  /-- A zombie stays as it is until it is reaped. -/
  stays : ∀ before k, Run step k0 before k → ∀ p, (k.processTable p).used = true →
    (k.processTable p).status = .zombie →
    ∀ after k', Run step k after k' → (∀ label ∈ after, ¬reaps p label) →
    ZombieAt k' p (k.processTable p).pid (k.processTable p).exitCode
  /-- The scheduler does not switch to a zombie again. -/
  stops : ∀ before k, Run step k0 before k → ∀ p, (k.processTable p).used = true →
    (k.processTable p).status = .zombie →
    ∀ after k', Run step k after k' → (∀ label ∈ after, ¬reaps p label) →
    ∀ r k'', KernelStep k' (.schedule, r) k'' → k''.suspended ≠ some p

theorem processExit_zombieAt {k : Kernel} {p : Slot} {exitCode : Int}
    (hused : (k.processTable p).used = true) (hkernel : some p ≠ k.kernelProcess)
    (halive : (k.processTable p).status ≠ .zombie) :
    ZombieAt (processExit k (some p) exitCode) p (k.processTable p).pid exitCode := by
  have hz : ZombieAt (k.modify p fun r => { r with exitCode := exitCode, status := .zombie }) p
      (k.processTable p).pid exitCode := by
    constructor <;> rw [modify_self]
    exact hused
  unfold processExit wakeParent
  dsimp only
  rw [if_neg (not_or.mpr ⟨hkernel, halive⟩)]
  split
  · exact hz
  · split
    · next hwait =>
        refine hz.modify ?_
        rw [hwait.1]
        exact Status.noConfusion
    · exact hz

theorem zombieStep_linkage {vm : Vm} {labels : List (Event × Reply)} {k : Kernel}
    (hrun : Run ZombieStep (processInit vm) labels k) : Linkage k :=
  hrun.invariant (linkage_processInit vm) fun hl hstep => hl.step hstep.1

theorem ZombieAt.run {k k' : Kernel} {p : Slot} {pid : Nat} {exitCode : Int}
    {labels : List (Event × Reply)} (h : ZombieAt k p pid exitCode) (hl : Linkage k)
    (hrun : Run ZombieStep k labels k') (hreap : ∀ label ∈ labels, ¬reaps p label) :
    ZombieAt k' p pid exitCode := by
  refine (hrun.invariant_trace (I := fun labels k' => Linkage k'
    ∧ ((∀ label ∈ labels, ¬reaps p label) → ZombieAt k' p pid exitCode))
    ⟨hl, fun _ => h⟩ ?_).2 hreap
  rintro labels k1 label k2 ⟨hl1, ih⟩ hstep
  refine ⟨hl1.step hstep.1, ?_⟩
  intro hreap
  exact (ih fun x hx => hreap x (List.mem_append_left _ hx)).step hl1 hstep.1 hstep.2
    (hreap label (by simp))

/-- Zombies are final along every run in which no zombie waits for a child
that is alive. -/
theorem zombieRun_final (vm : Vm) : ZombiesFinal ZombieStep (processInit vm) := by
  have hstays : ∀ before k, Run ZombieStep (processInit vm) before k → ∀ p,
      (k.processTable p).used = true → (k.processTable p).status = .zombie →
      ∀ after k', Run ZombieStep k after k' → (∀ label ∈ after, ¬reaps p label) →
      ZombieAt k' p (k.processTable p).pid (k.processTable p).exitCode :=
    fun before k hbefore p hused hzombie after k' hafter hreap =>
      ZombieAt.run ⟨hused, rfl, hzombie, rfl⟩ (zombieStep_linkage hbefore) hafter hreap
  refine ⟨fun before k _ p exitCode hused hkernel halive =>
    processExit_zombieAt hused hkernel halive, hstays, ?_⟩
  intro before k hbefore p hused hzombie after k' hafter hreap r k'' hstep hp
  have hz := hstays before k hbefore p hused hzombie after k' hafter hreap
  have hl := zombieStep_linkage (hbefore.append hafter)
  have hz' := hz.step hl hstep trivial fun ⟨exitCode, heq⟩ => by
    obtain ⟨k1, -, hr⟩ := map_eq_ok.mp hstep.2
    rw [← (Prod.mk.inj hr).1] at heq
    cases heq
  -- a process that was switched to is running
  obtain ⟨k1, hsched, hr⟩ := map_eq_ok.mp hstep.2
  obtain ⟨-, rfl⟩ := Prod.mk.inj hr
  have hrunning := scheduleEvent_run hl.kernel hsched (hstep.1 rfl) hp
  rw [hz'.zombie] at hrunning
  cases hrunning

instance (k : Kernel) : (e : Event) → Decidable (e.keepsZombies k)
  | .wait (some w) pid => inferInstanceAs (Decidable ((k.processTable w).status = .zombie →
      ∀ c, processGetByPid k pid = .ok (some c) →
        (some w = k.kernelProcess ∨ (k.processTable c).parent = some w) →
        (k.processTable c).status = .zombie))
  | .wait none _ => .isTrue trivial
  | .createOwned .. => .isTrue trivial
  | .execFn .. => .isTrue trivial
  | .fork _ => .isTrue trivial
  | .spawnDemoCounter .. => .isTrue trivial
  | .spawnDemoSocketPair .. => .isTrue trivial
  | .exit _ _ => .isTrue trivial
  | .sendSignal .. => .isTrue trivial
  | .deliverSignal _ => .isTrue trivial
  | .socketSend .. => .isTrue trivial
  | .socketRecv _ => .isTrue trivial
  | .schedulerTick => .isTrue trivial
  | .schedule => .isTrue trivial
  | .yield => .isTrue trivial

def zombieExec (k : Kernel) (e : Event) : Option (Reply × Kernel) :=
  if e.keepsZombies k then kernelExec k e else none

theorem zombieExec_step ⦃k : Kernel⦄ ⦃e : Event⦄ ⦃r : Reply⦄ ⦃k' : Kernel⦄
    (h : zombieExec k e = some (r, k')) : ZombieStep k (e, r) k' := by
  unfold zombieExec at h
  split at h
  · next hsafe => exact ⟨kernelExec_step h, hsafe⟩
  · cases h

/-- A zombie exits again, is killed and reaps its child, and is a zombie with
its first exit code still. -/
theorem zombieRun_final_again :
    ∃ before k after k', Run ZombieStep (processInit eightMegabytes) before k
      ∧ Run ZombieStep k after k' ∧ ZombieAt k' 1 2 7 := by
  obtain ⟨k, k', hbefore, hafter, hused, hzombie, hpid, hcode⟩ := execRun_observe_two
    zombieExec_step (processInit eightMegabytes)
    [.createOwned 0 (some (.other 0x150000)) 4096, .fork (some 1), .exit (some 1) 7]
    [.created (some 1), .created (some 2), .done]
    [.exit (some 1) 8, .exit (some 2) 0, .sendSignal none 2 9 0, .wait (some 1) 3,
      .schedulerTick, .schedule]
    [.done, .done, .sent true, .waited (.reaped 2 0), .done, .done]
    (fun k _ => (k.processTable 1).used = true ∧ (k.processTable 1).status = .zombie
      ∧ (k.processTable 1).pid = 2 ∧ (k.processTable 1).exitCode = 7) (by decide +kernel)
  refine ⟨_, k, _, k', hbefore, hafter, ?_⟩
  rw [← hpid, ← hcode]
  exact (zombieRun_final eightMegabytes).stays _ k hbefore 1 hused hzombie _ k' hafter (by decide)

/-- A running process forks, exits and waits for its child; when the child
exits, the zombie is READY and the scheduler switches to it again. -/
theorem zombieRun_final_fails : ¬∀ vm : Vm, ZombiesFinal KernelStep (processInit vm) := by
  intro hall
  obtain ⟨k, k', hbefore, hafter, hused, hzombie, hrunning, -⟩ := execRun_observe_two
    kernelExec_step (processInit eightMegabytes)
    [.createOwned 0 (some (.other 0x150000)) 4096, .schedulerTick, .schedule, .fork (some 1),
      .exit (some 1) 7]
    [.created (some 1), .done, .done, .created (some 2), .done]
    [.wait (some 1) 3, .yield, .schedulerTick, .schedule, .exit (some 2) 0, .yield,
      .schedulerTick, .schedule]
    [.waited .running, .done, .done, .done, .done, .done, .done, .done]
    (fun k k' => (k.processTable 1).used = true ∧ (k.processTable 1).status = .zombie
      ∧ (k'.processTable 1).status = .run ∧ k'.suspended = some 1) (by decide +kernel)
  have hz := (hall eightMegabytes).stays _ k hbefore 1 hused hzombie _ k' hafter
    (by decide)
  rw [hz.zombie] at hrunning
  cases hrunning

end Kfs
