import Kfs.ProcessZombies

/-!
# Waiting

A process that is WAITING waits for a child of its own that is alive, so the
exit that will wake it is still to come. The invariant is `WaitInv`; it holds
along every run, whoever waits, exits, is killed or is reaped
(`WaitInv.step`).

The wake-up in `process_exit` looks at the parent after the child's status
was overwritten, so a process that is its own parent would not be woken. No
process is: a process is created by a living one, as long as nobody reaps the
process that is running.
-/

namespace Kfs

/-- Every waiting process waits for a living child. -/
def WaitInv (k : Kernel) : Prop :=
  ∀ w, (k.processTable w).used = true → (k.processTable w).status = .waiting →
    ∃ c, (k.processTable c).used = true
      ∧ (k.processTable c).pid = (k.processTable w).waitTargetPid
      ∧ (k.processTable c).status ≠ .zombie ∧ (k.processTable c).parent = some w

/-- Nobody starts to wait or becomes a zombie between `k` and `k'`. -/
def Settled (k k' : Kernel) : Prop :=
  ∀ q, ((k'.processTable q).status = .waiting → (k.processTable q).status = .waiting
      ∧ (k'.processTable q).waitTargetPid = (k.processTable q).waitTargetPid)
    ∧ ((k'.processTable q).status = .zombie → (k.processTable q).status = .zombie)

/-- One process gets a status that is neither WAITING nor ZOMBIE. -/
theorem settled_setStatus (k : Kernel) (p : Slot) {status : Status} (hw : status ≠ .waiting)
    (hz : status ≠ .zombie) : Settled k (k.modify p fun r => { r with status := status }) := by
  intro q
  by_cases hq : q = p
  · rw [hq, modify_self]
    exact ⟨fun h => absurd h hw, fun h => absurd h hz⟩
  · rw [modify_of_ne _ _ _ hq]
    exact ⟨fun h => ⟨h, rfl⟩, fun h => h⟩

theorem KernelEffect.settled {k k' : Kernel} (hx : KernelEffect k .other k') : Settled k k' := by
  have hsame : ∀ k2 : Kernel, k2.processTable = k.processTable → Settled k k2 := fun k2 heq q => by
    rw [heq]
    exact ⟨fun h => ⟨h, rfl⟩, fun h => h⟩
  cases hx with
  | stopWaiting parent =>
      unfold Kfs.stopWaiting
      split
      · exact hsame k rfl
      · split
        · exact settled_setStatus k _ Status.noConfusion Status.noConfusion
        · exact hsame k rfl
  | run _ _ => exact settled_setStatus k _ Status.noConfusion Status.noConfusion
  | pause _ => exact settled_setStatus k _ Status.noConfusion Status.noConfusion
  | @quiet p f keeps =>
      intro q
      have hv := modify_keeps (k := k) (p := p) (f := f) Process.vitals keeps q
      rw [vitals_field hv Process.status fun _ => rfl,
        vitals_field hv Process.waitTargetPid fun _ => rfl]
      exact ⟨fun h => ⟨h, rfl⟩, fun h => h⟩
  | retarget moves => exact hsame _ moves.table
  | copy _ _ _ => exact hsame _ rfl

section Effects

variable {k k' : Kernel} (h : WaitInv k)

include h

/-- Processes come or go, none starts to wait and only zombies go. -/
theorem WaitInv.core
    (hnew : ∀ q, (k'.processTable q).used = true → (k'.processTable q).status = .waiting →
      (k.processTable q).used = true)
    (hsame : ∀ q, (k.processTable q).used = true →
      (k.processTable q).status ≠ .zombie ∨ (k'.processTable q).used = true →
      (k'.processTable q).core = (k.processTable q).core) : WaitInv k' := by
  intro w hused hwait
  have hw := hnew w hused hwait
  have hcore := hsame w hw (Or.inr hused)
  obtain ⟨c, hc, hpid, halive, hparent⟩ := h w hw ((core_status hcore).symm.trans hwait)
  have hccore := hsame c hc (Or.inl halive)
  refine ⟨c, (core_used hccore).trans hc, ?_, ?_, (core_parent hccore).trans hparent⟩
  · rw [core_pid hccore, core_waitTargetPid hcore, hpid]
  · rw [core_status hccore]
    exact halive

/-- Nobody starts to wait or becomes a zombie. -/
theorem WaitInv.settled (ht : Tame k k') (hs : Settled k k') : WaitInv k' := by
  intro w hused hwait
  obtain ⟨hwait, htarget⟩ := (hs w).1 hwait
  obtain ⟨c, hc, hpid, halive, hparent⟩ := h w ((ht.used w).symm.trans hused) hwait
  exact ⟨c, (ht.used c).trans hc, by rw [frame_pid (ht.frame c), htarget, hpid],
    fun hzombie => halive ((hs c).2 hzombie), (frame_parent (ht.frame c)).trans hparent⟩

/-- The exit of the target wakes the waiter. -/
theorem WaitInv.exit (p : Slot) (exitCode : Int) :
    WaitInv (processExit k (some p) exitCode) := by
  have ht := processExit_tame k p exitCode
  rcases processExit_cases k p exitCode with
    ⟨-, heq⟩ | ⟨-, -, ⟨heq, hnone⟩ | ⟨s, hsp, hps, hs, heq⟩⟩
  · rw [heq]
    exact h
  · -- the parent of `p` does not wait for it
    rw [heq] at ht ⊢
    intro w hused hwait
    have hwp : w ≠ p := by
      rintro rfl
      rw [modify_self] at hwait
      cases hwait
    rw [modify_of_ne _ _ _ hwp] at hused hwait ⊢
    obtain ⟨c, hc, hpid, halive, hparent⟩ := h w hused hwait
    have hcp : c ≠ p := by
      rintro rfl
      exact hwp (hnone w hparent hwait hpid.symm)
    refine ⟨c, ?_⟩
    rw [modify_of_ne _ _ _ hcp]
    exact ⟨hc, hpid, halive, hparent⟩
  · -- the parent of `p` is woken
    rw [heq] at ht ⊢
    intro w hused hwait
    have hws : w ≠ s := by
      rintro rfl
      rw [modify_self] at hwait
      cases hwait
    rw [modify_of_ne _ _ _ hws] at hused hwait ⊢
    have hwp : w ≠ p := by
      rintro rfl
      rw [modify_self] at hwait
      cases hwait
    rw [modify_of_ne _ _ _ hwp] at hused hwait ⊢
    obtain ⟨c, hc, hpid, halive, hparent⟩ := h w hused hwait
    have hcp : c ≠ p := by
      rintro rfl
      exact hws (Option.some.inj (hparent.symm.trans hps))
    refine ⟨c, (ht.used c).trans hc, (frame_pid (ht.frame c)).trans hpid, ?_,
      (frame_parent (ht.frame c)).trans hparent⟩
    by_cases hcs : c = s
    · rw [hcs, modify_self]
      exact Status.noConfusion
    · rw [modify_of_ne _ _ _ hcs, modify_of_ne _ _ _ hcp]
      exact halive

/-- A process starts to wait for a living child, or the kernel process asks
for one. -/
theorem WaitInv.waitFor {parent c : Slot} {pid : Nat} (hc : (k.processTable c).used = true)
    (htarget : (k.processTable c).pid = pid) (halive : (k.processTable c).status ≠ .zombie)
    (hkin : some parent = k.kernelProcess ∨ (k.processTable c).parent = some parent)
    (hkernel : ∀ s, some s = k.kernelProcess → (k.processTable s).status ≠ .waiting) :
    WaitInv (waitFor k (some parent) pid) := by
  have ht := waitFor_tame k (some parent) pid
  unfold Kfs.waitFor at ht ⊢
  dsimp only at ht ⊢
  split
  · rename_i hpk
    rw [if_pos hpk] at ht
    refine h.settled ht fun q => ⟨?_, ?_⟩
    · intro hq
      have hqp : q ≠ parent := by
        rintro rfl
        rw [modify_self] at hq
        exact hkernel q hpk hq
      rw [modify_of_ne _ _ _ hqp] at hq ⊢
      exact ⟨hq, rfl⟩
    · intro hq
      exact (modify_keeps Process.status rfl q).symm.trans hq
  · rename_i hpk
    rw [if_neg hpk] at ht
    have hcparent := hkin.resolve_left hpk
    rw [modify_modify] at ht ⊢
    -- nobody becomes a zombie
    have hz : ∀ q, (k.processTable q).status ≠ .zombie →
        ((k.modify parent fun r => { r with waitTargetPid := pid, status := .waiting }).processTable
          q).status ≠ .zombie := fun q hq => by
      rw [modify_apply]
      split
      · exact Status.noConfusion
      · exact hq
    intro w hused hwait
    by_cases hwp : w = parent
    · subst hwp
      refine ⟨c, (ht.used c).trans hc, ?_, hz c halive, (frame_parent (ht.frame c)).trans hcparent⟩
      rw [frame_pid (ht.frame c), modify_self, htarget]
    · rw [modify_of_ne _ _ _ hwp] at hused hwait ⊢
      obtain ⟨c', hc', hpid', halive', hparent'⟩ := h w hused hwait
      exact ⟨c', (ht.used c').trans hc', (frame_pid (ht.frame c')).trans hpid', hz c' halive',
        (frame_parent (ht.frame c')).trans hparent'⟩

theorem WaitInv.spawn {p : Slot} {parent : Option Slot} {base : Nat}
    (hx : KernelEffect k (.spawn p parent base) k') : WaitInv k' := by
  obtain ⟨-, hunused, ⟨owner, function, memory, hnew⟩, hcore⟩ := hx.spawn_table
  refine h.core ?_ fun q hq _ => hcore q ?_
  · intro q hused hwait
    have hqp : q ≠ p := by
      rintro rfl
      rw [core_status hnew] at hwait
      cases hwait
    exact (core_used (hcore q hqp)).symm.trans hused
  · rintro rfl
    rw [hq] at hunused
    cases hunused

theorem WaitInv.miss {base : Nat} (hx : KernelEffect k (.miss base) k')
    (hk : k.kernelProcess = some 0) :
    WaitInv k' :=
  h.core (fun q hused _ => (hx.miss_used hk q).symm.trans hused)
    fun _ hq _ => hx.miss_core hk hq

/-- A zombie is released. -/
theorem WaitInv.release {c : Slot} (hx : KernelEffect k (.release c) k')
    (hz : (k.processTable c).status = .zombie) : WaitInv k' := by
  obtain ⟨-, hzero, hcore⟩ := hx.release_table
  have hgone : ∀ q, (k'.processTable q).used = true → q ≠ c := by
    rintro q hq rfl
    rw [hzero] at hq
    cases hq
  refine h.core ?_ fun q hq hor => hcore q ?_
  · intro q hused _
    exact (core_used (hcore q (hgone q hused))).symm.trans hused
  · rcases hor with halive | hused
    · rintro rfl
      exact halive hz
    · exact hgone q hused

end Effects

/-! ## Events -/

/-- The waiting invariant, with what it needs of the kernel process. -/
structure WaitState (k : Kernel) : Prop where
  ground : Grounded k
  kernel : (k.processTable 0).status ≠ .waiting
  waits : WaitInv k

section Events

variable {k k' : Kernel} (h : WaitState k)

include h

theorem WaitState.mild {x : Effect} (hx : KernelEffect k x k') (hmild : x.mild) :
    WaitState k' := by
  have ht := hx.tame (Or.inl hmild)
  refine ⟨h.ground.tame ht, ?_, ?_⟩
  · cases x with
    | exit p =>
        cases hx with
        | exit p exitCode =>
            rcases processExit_cases k p exitCode with
              ⟨-, heq⟩ | ⟨-, -, ⟨heq, -⟩ | ⟨s, -, -, -, heq⟩⟩
            · rw [heq]
              exact h.kernel
            · rw [heq, modify_apply]
              split
              · exact Status.noConfusion
              · exact h.kernel
            · rw [heq, modify_apply]
              split
              · exact Status.noConfusion
              · rw [modify_apply]
                split
                · exact Status.noConfusion
                · exact h.kernel
    | other => exact fun hw => h.kernel ((hx.settled 0).1 hw).1
    | _ => cases hmild
  · cases x with
    | exit p =>
        cases hx with
        | exit p exitCode => exact h.waits.exit p exitCode
    | other => exact h.waits.settled ht hx.settled
    | _ => cases hmild

theorem WaitState.mildRun (hrun : MildRun k k') : WaitState k' := by
  obtain ⟨effects, hrun, hmild⟩ := hrun
  refine hrun.invariant_trace (I := fun xs k' => (∀ x ∈ xs, x.mild) → WaitState k')
    (fun _ => h) ?_ hmild
  intro xs k1 x k2 ih hx hmild
  exact (ih fun y hy => hmild y (List.mem_append_left _ hy)).mild hx (hmild x (by simp))

theorem WaitState.spawn {p : Slot} {parent : Option Slot} {base : Nat}
    (hx : KernelEffect k (.spawn p parent base) k') : WaitState k' := by
  obtain ⟨hp, -, -, hcore⟩ := hx.spawn_table
  exact ⟨h.ground.effect hx, by rw [core_status (hcore 0 hp.symm)]; exact h.kernel,
    h.waits.spawn hx⟩

theorem WaitState.miss {base : Nat} (hx : KernelEffect k (.miss base) k') : WaitState k' := by
  have hcore := hx.miss_core h.ground.kernel h.ground.used
  exact ⟨h.ground.effect hx, by rw [core_status hcore]; exact h.kernel,
    h.waits.miss hx h.ground.kernel⟩

theorem WaitState.release {c : Slot} (hx : KernelEffect k (.release c) k')
    (hz : (k.processTable c).status = .zombie) : WaitState k' := by
  obtain ⟨-, -, hcore⟩ := hx.release_table
  have hc := (h.ground.release_ne hx).symm
  exact ⟨h.ground.effect hx, by rw [core_status (hcore 0 hc)]; exact h.kernel,
    h.waits.release hx hz⟩

theorem WaitState.waitFor {parent : Slot} {pid : Nat}
    (hx : KernelEffect k (.waitFor parent pid) k') : WaitState k' := by
  have ht := hx.tame (Or.inr ⟨parent, pid, rfl⟩)
  cases hx with
  | @waitFor _ c _ hc htarget halive hkin =>
      have hkernel : ∀ s, some s = k.kernelProcess → (k.processTable s).status ≠ .waiting := by
        intro s hs
        rw [h.ground.kernel] at hs
        rw [Option.some.inj hs]
        exact h.kernel
      refine ⟨h.ground.tame ht, ?_, h.waits.waitFor hc htarget halive hkin hkernel⟩
      unfold Kfs.waitFor
      dsimp only
      split
      · rw [modify_keeps Process.status rfl]
        exact h.kernel
      · rename_i hpk
        have hp0 : (0 : Slot) ≠ parent := by
          rintro rfl
          exact hpk h.ground.kernel.symm
        rw [modify_of_ne _ _ _ hp0, modify_of_ne _ _ _ hp0]
        exact h.kernel

/-- The first process of a pair is created and released again. -/
theorem WaitState.undo {k1 k2 : Kernel} {a : Slot} {parent : Option Slot} {base base' : Nat}
    (hx1 : KernelEffect k (.spawn a parent base) k1) (hx2 : KernelEffect k1 (.miss base') k2)
    (hx3 : KernelEffect k2 (.release a) k') : WaitState k' := by
  have hg1 := h.ground.effect hx1
  have hg2 := hg1.effect hx2
  obtain ⟨-, hunused, -, hcore1⟩ := hx1.spawn_table
  obtain ⟨-, hzero, hcore3⟩ := hx3.release_table
  have hsame : ∀ q, (k.processTable q).used = true →
      (k'.processTable q).core = (k.processTable q).core := by
    intro q hq
    have hqa : q ≠ a := by
      rintro rfl
      rw [hq] at hunused
      cases hunused
    have hq1 := (core_used (hcore1 q hqa)).trans hq
    exact (hcore3 q hqa).trans ((hx2.miss_core hg1.kernel hq1).trans (hcore1 q hqa))
  refine ⟨hg2.effect hx3, ?_, h.waits.core ?_ fun q hq _ => hsame q hq⟩
  · rw [core_status (hsame 0 h.ground.used)]
    exact h.kernel
  · intro q hused _
    have hqa : q ≠ a := by
      rintro rfl
      rw [hzero] at hused
      cases hused
    have hq2 := (core_used (hcore3 q hqa)).symm.trans hused
    exact (core_used (hcore1 q hqa)).symm.trans ((hx2.miss_used hg1.kernel q).symm.trans hq2)

theorem WaitState.step {label : Event × Reply} (hstep : KernelStep k label k') :
    WaitState k' := by
  obtain ⟨effects, hrun, hshape⟩ := exec_shape h.ground.kernel hstep.2
  obtain ⟨e, r⟩ := label
  cases hshape with
  | mild hmild => exact h.mildRun ⟨effects, hrun, hmild⟩
  | @spawned _ p effects _ hmild =>
      obtain ⟨k1, hx, hrest⟩ := hrun.uncons
      exact (h.spawn hx).mildRun ⟨effects, hrest, hmild⟩
  | missed _ =>
      obtain ⟨k1, hx, hnil⟩ := hrun.uncons
      obtain rfl := hnil.eq_of_nil
      exact h.miss hx
  | @pair owner value a b effects hmild =>
      obtain ⟨k1, hx1, hrun⟩ := hrun.uncons
      obtain ⟨k2, hx2, hrest⟩ := hrun.uncons
      exact ((h.spawn hx1).spawn hx2).mildRun ⟨effects, hrest, hmild⟩
  | pairMissed =>
      obtain ⟨k1, hx, hnil⟩ := hrun.uncons
      obtain rfl := hnil.eq_of_nil
      exact h.miss hx
  | pairUndone =>
      obtain ⟨k1, hx1, hrun⟩ := hrun.uncons
      obtain ⟨k2, hx2, hrun⟩ := hrun.uncons
      obtain ⟨k3, hx3, hnil⟩ := hrun.uncons
      obtain rfl := hnil.eq_of_nil
      exact h.undo hx1 hx2 hx3
  | waiting _ _ _ =>
      obtain ⟨k1, hx, hnil⟩ := hrun.uncons
      obtain rfl := hnil.eq_of_nil
      exact h.waitFor hx
  | @reaped parent pid c exitCode zombie found kin =>
      obtain ⟨k1, hx1, hrun⟩ := hrun.uncons
      obtain ⟨k2, hx2, hnil⟩ := hrun.uncons
      obtain rfl := hnil.eq_of_nil
      have hz : ZombieAt k c (k.processTable c).pid (k.processTable c).exitCode :=
        ⟨(processGetByPid_some found).1, rfl, zombie, rfl⟩
      have hz1 := hz.effect hx1 h.ground.kernel (by simp) (by simp)
      exact (h.mild hx1 trivial).release hx2 hz1.zombie

end Events

/-! ## Nobody is his own parent -/

/-- A step that does not reap the process that is running: `process_wait` is
called by that process or, when none is running, by the kernel process. -/
def CurrentStep (k : Kernel) (label : Event × Reply) (k' : Kernel) : Prop :=
  KernelStep k label k' ∧ ∀ c, reaps c label → k.currentProcess ≠ some c

/-- The running process is alive and nobody is his own parent. -/
structure ParentInv (k : Kernel) : Prop where
  ground : Grounded k
  current : ∀ s, k.currentProcess = some s → (k.processTable s).used = true
  self : ∀ p, (k.processTable p).used = true → (k.processTable p).parent ≠ some p

theorem stopWaiting_current (k : Kernel) (parent : Option Slot) :
    (stopWaiting k parent).currentProcess = k.currentProcess := by
  unfold stopWaiting
  split
  · rfl
  · split <;> rfl

section Parents

variable {k k' : Kernel} (h : ParentInv k)

include h

theorem ParentInv.tame (ht : Tame k k') : ParentInv k' := by
  refine ⟨h.ground.tame ht, ?_, ?_⟩
  · intro s hs
    rw [ht.used s]
    rcases ht.current with heq | heq | ⟨q, hq, heq⟩
    · exact h.current s (heq.symm.trans hs)
    · rw [h.ground.kernel, hs] at heq
      rw [Option.some.inj heq]
      exact h.ground.used
    · rw [Option.some.inj (hs.symm.trans heq)]
      exact hq
  · intro p hp
    rw [frame_parent (ht.frame p)]
    exact h.self p ((ht.used p).symm.trans hp)

theorem ParentInv.spawn {p s : Slot} {base : Nat} (hs : (k.processTable s).used = true)
    (hx : KernelEffect k (.spawn p (some s) base) k') : ParentInv k' := by
  obtain ⟨-, hunused, ⟨owner, function, memory, hnew⟩, hcore⟩ := hx.spawn_table
  have hne : ∀ {q : Slot}, (k.processTable q).used = true → q ≠ p := by
    rintro q hq rfl
    rw [hq] at hunused
    cases hunused
  refine ⟨h.ground.effect hx, ?_, ?_⟩
  · intro q hq
    rw [(hx.pointers h.ground.kernel (Or.inl ⟨_, _, _, rfl⟩)).1] at hq
    have hused := h.current q hq
    exact (core_used (hcore q (hne hused))).trans hused
  · intro q hq
    by_cases hqp : q = p
    · rw [hqp, core_parent hnew]
      exact fun heq => hne hs (Option.some.inj heq)
    · rw [core_parent (hcore q hqp)]
      exact h.self q ((core_used (hcore q hqp)).symm.trans hq)

theorem ParentInv.miss {base : Nat} (hx : KernelEffect k (.miss base) k') : ParentInv k' := by
  have hk := h.ground.kernel
  refine ⟨h.ground.effect hx, ?_, ?_⟩
  · intro q hq
    rw [(hx.pointers hk (Or.inr (Or.inl ⟨_, rfl⟩))).1] at hq
    exact (hx.miss_used hk q).trans (h.current q hq)
  · intro q hq
    have hused := (hx.miss_used hk q).symm.trans hq
    rw [core_parent (hx.miss_core hk hused)]
    exact h.self q hused

/-- A process that is not running is released. -/
theorem ParentInv.release {c : Slot} (hx : KernelEffect k (.release c) k')
    (hc : k.currentProcess ≠ some c) : ParentInv k' := by
  obtain ⟨-, hzero, hcore⟩ := hx.release_table
  refine ⟨h.ground.effect hx, ?_, ?_⟩
  · intro q hq
    rw [(hx.pointers h.ground.kernel (Or.inr (Or.inr ⟨c, rfl⟩))).1] at hq
    have hqc : q ≠ c := by
      rintro rfl
      exact hc hq
    exact (core_used (hcore q hqc)).trans (h.current q hq)
  · intro q hq
    have hqc : q ≠ c := by
      rintro rfl
      rw [hzero] at hq
      cases hq
    rw [core_parent (hcore q hqc)]
    exact h.self q ((core_used (hcore q hqc)).symm.trans hq)

theorem ParentInv.step {label : Event × Reply} (hstep : CurrentStep k label k') :
    ParentInv k' := by
  obtain ⟨hstep, hreap⟩ := hstep
  obtain ⟨effects, hrun, hshape⟩ := exec_shape h.ground.kernel hstep.2
  obtain ⟨e, r⟩ := label
  cases hshape with
  | mild hmild => exact h.tame (MildRun.tame ⟨effects, hrun, hmild⟩)
  | @spawned _ p effects one hmild =>
      obtain ⟨k1, hx, hrest⟩ := hrun.uncons
      obtain ⟨s, hcreator, hs⟩ := h.ground.creator_used (Or.inr h.current) one hstep.2
      rw [hcreator] at hx
      exact (h.spawn hs hx).tame (MildRun.tame ⟨effects, hrest, hmild⟩)
  | missed _ =>
      obtain ⟨k1, hx, hnil⟩ := hrun.uncons
      obtain rfl := hnil.eq_of_nil
      exact h.miss hx
  | @pair owner value a b effects hmild =>
      obtain ⟨k1, hx1, hrun⟩ := hrun.uncons
      obtain ⟨k2, hx2, hrest⟩ := hrun.uncons
      obtain ⟨s, hcreator, hs⟩ := h.ground.current_creator h.current
      rw [hcreator] at hx1 hx2
      obtain ⟨-, hunused, -, hcore⟩ := hx1.spawn_table
      have hsa : s ≠ a := by
        rintro rfl
        rw [hs] at hunused
        cases hunused
      have h2 := (h.spawn hs hx1).spawn ((core_used (hcore s hsa)).trans hs) hx2
      exact h2.tame (MildRun.tame ⟨effects, hrest, hmild⟩)
  | pairMissed =>
      obtain ⟨k1, hx, hnil⟩ := hrun.uncons
      obtain rfl := hnil.eq_of_nil
      exact h.miss hx
  | @pairUndone owner value a =>
      obtain ⟨k1, hx1, hrun⟩ := hrun.uncons
      obtain ⟨k2, hx2, hrun⟩ := hrun.uncons
      obtain ⟨k3, hx3, hnil⟩ := hrun.uncons
      obtain rfl := hnil.eq_of_nil
      obtain ⟨s, hcreator, hs⟩ := h.ground.current_creator h.current
      rw [hcreator] at hx1
      have h1 := h.spawn hs hx1
      refine (h1.miss hx2).release hx3 ?_
      rw [(hx2.pointers h1.ground.kernel (Or.inr (Or.inl ⟨_, rfl⟩))).1,
        (hx1.pointers h.ground.kernel (Or.inl ⟨_, _, _, rfl⟩)).1]
      intro hcur
      obtain ⟨-, hunused, -⟩ := hx1.spawn_table
      rw [h.current a hcur] at hunused
      cases hunused
  | waiting _ _ _ =>
      obtain ⟨k1, hx, hnil⟩ := hrun.uncons
      obtain rfl := hnil.eq_of_nil
      exact h.tame (hx.tame (Or.inr ⟨_, _, rfl⟩))
  | @reaped parent pid c exitCode zombie found kin =>
      obtain ⟨result, hresult, hwait⟩ := map_reply_eq_ok.mp hstep.2
      obtain rfl := Reply.waited.inj hresult
      obtain ⟨-, -, hrel⟩ := processWait_reaped hwait
      have ht := stopWaiting_tame k parent
      have hcur : (stopWaiting k parent).currentProcess ≠ some c := by
        rw [stopWaiting_current]
        exact hreap c ⟨exitCode, rfl⟩
      by_cases hc : some c = (stopWaiting k parent).kernelProcess
      · unfold processRelease at hrel
        rw [if_pos hc] at hrel
        obtain rfl := Except.ok.inj hrel
        exact h.tame ht
      · have hused := (ht.used c).trans (processGetByPid_some found).1
        exact (h.tame ht).release (.release hc hused hrel) hcur

end Parents

/-! ## Runs -/

/-- Every waiting process waits for a child that is in the list and alive,
and the exit of that child makes it READY. -/
def WaitsOk (k : Kernel) : Prop :=
  ∀ w, (k.processTable w).used = true → (k.processTable w).status = .waiting →
    ∃ c, processGetByPid k (k.processTable w).waitTargetPid = .ok (some c)
      ∧ (k.processTable c).pid = (k.processTable w).waitTargetPid
      ∧ (k.processTable c).status ≠ .zombie ∧ (k.processTable c).parent = some w
      ∧ ∀ exitCode, ((processExit k (some c) exitCode).processTable w).status = .ready

theorem processExit_wakes {k : Kernel} {c w : Slot} (hkernel : some c ≠ k.kernelProcess)
    (halive : (k.processTable c).status ≠ .zombie) (hparent : (k.processTable c).parent = some w)
    (hne : w ≠ c) (hwait : (k.processTable w).status = .waiting)
    (htarget : (k.processTable w).waitTargetPid = (k.processTable c).pid) (exitCode : Int) :
    ((processExit k (some c) exitCode).processTable w).status = .ready := by
  rcases processExit_cases k c exitCode with
    ⟨hcond, -⟩ | ⟨-, -, ⟨-, hnone⟩ | ⟨s, -, hs, -, heq⟩⟩
  · exact absurd hcond (not_or.mpr ⟨hkernel, halive⟩)
  · exact absurd (hnone w hparent hwait htarget) hne
  · obtain rfl := Option.some.inj (hparent.symm.trans hs)
    rw [heq, modify_self]

theorem waitState_processInit (vm : Vm) : WaitState (processInit vm) := by
  refine ⟨grounded_processInit vm, Status.noConfusion, ?_⟩
  intro w _ hwait
  by_cases hw : w = 0
  · rw [hw] at hwait
    cases hwait
  · simp [processInit, hw, Process.zero] at hwait

theorem parentInv_processInit (vm : Vm) : ParentInv (processInit vm) := by
  refine ⟨grounded_processInit vm, ?_, ?_⟩
  · intro s hs
    rw [← Option.some.inj hs]
    rfl
  · intro p hp
    have hparent : ((processInit vm).processTable p).parent = none := by
      by_cases hp0 : p = 0
      · rw [hp0]
        rfl
      · simp [processInit, hp0, Process.zero]
    rw [hparent]
    exact (Option.some_ne_none p).symm

/-- No wake-up is lost: in every state that can be reached, before the pid
counter comes round, a waiting process waits for a living child. -/
theorem kernelRun_waitsOk {vm : Vm} {labels : List (Event × Reply)} {k : Kernel}
    (hrun : Run CurrentStep (processInit vm) labels k) (hc : creations labels < 4294967295) :
    WaitsOk k := by
  have hrun' : Run KernelStep (processInit vm) labels k := hrun.mono fun hstep => hstep.1
  obtain ⟨⟨l, kids, hl⟩, hpids⟩ := kernelRun_linkage hrun'
  obtain ⟨n, -, hpid⟩ := hpids hc
  have hstate : WaitState k :=
    hrun'.invariant (waitState_processInit vm) fun h hstep => h.step hstep
  have hparents : ParentInv k :=
    hrun.invariant (parentInv_processInit vm) fun h hstep => h.step hstep
  intro w hw hwait
  obtain ⟨c, hused, htarget, halive, hparent⟩ := hstate.waits w hw hwait
  refine ⟨c, (hl.getByPid_some hpid.inj _ c).mpr ⟨hused, htarget⟩, htarget, halive, hparent, ?_⟩
  refine processExit_wakes ?_ halive hparent ?_ hwait htarget.symm
  · rw [hl.kernel]
    rintro ⟨⟩
    rw [hstate.ground.root] at hparent
    cases hparent
  · rintro rfl
    exact hparents.self w hused hparent

def currentExec (k : Kernel) (e : Event) : Option (Reply × Kernel) :=
  (kernelExec k e).filter fun x => decide (∀ c, reaps c (e, x.1) → k.currentProcess ≠ some c)

theorem currentExec_step ⦃k : Kernel⦄ ⦃e : Event⦄ ⦃r : Reply⦄ ⦃k' : Kernel⦄
    (h : currentExec k e = some (r, k')) : CurrentStep k (e, r) k' := by
  obtain ⟨hexec, hcur⟩ := Option.filter_eq_some_iff.mp h
  exact ⟨kernelExec_step hexec, of_decide_eq_true hcur⟩

/-- A running process forks twice and waits for one child and then for the
other, while the first is killed. -/
theorem kernelRun_waitsOk_fork :
    ∃ labels k, Run CurrentStep (processInit eightMegabytes) labels k ∧ creations labels = 3
      ∧ (k.processTable 1).status = .waiting ∧ (k.processTable 1).waitTargetPid = 4
      ∧ WaitsOk k := by
  obtain ⟨k, hrun, hwait, htarget⟩ := execRun_observe currentExec_step
    (processInit eightMegabytes)
    [.createOwned 0 (some (.other 0x150000)) 4096, .schedulerTick, .schedule, .fork (some 1),
      .fork (some 1), .wait (some 1) 3, .wait (some 1) 4, .yield, .sendSignal none 3 9 0,
      .schedulerTick, .schedule]
    [.created (some 1), .done, .done, .created (some 2), .created (some 3), .waited .running,
      .waited .running, .done, .sent true, .done, .done]
    (fun k => (k.processTable 1).status = .waiting ∧ (k.processTable 1).waitTargetPid = 4)
    (by decide +kernel)
  exact ⟨_, k, hrun, by decide, hwait, htarget, kernelRun_waitsOk hrun (by decide)⟩

end Kfs
