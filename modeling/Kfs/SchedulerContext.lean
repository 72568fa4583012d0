import Kfs.ProcessWalks
import Kfs.Scheduler

/-!
# The context code runs in

While a process has the processor it is the current one and its directory is
loaded; while the kernel has it, the kernel process is current, the kernel
directory is loaded and no process has the status `RUN`. The invariant says
so at every point of `Control`, with what it takes to keep it: a process has
a directory of its own, and none is its own parent, so that the running
process cannot reap itself.
-/

namespace Kfs

/-! ## Directories and parents -/

structure Housed (k : Kernel) : Prop where
  links : Linkage k
  ground : Grounded k
  home : (k.processTable 0).memory.processPageDirectory = some .kernel
  idle : (k.processTable 0).entry = none
  spaces : ∀ q, q ≠ 0 → (k.processTable q).used = true →
    (k.processTable q).memory.processPageDirectory = some (.process q)
  parents : ∀ q, (k.processTable q).parent ≠ some q

theorem mapOrRelease_directory {start : Nat} {field : ProcessMemory → Nat → ProcessMemory}
    {vm vm' : Vm} {memory memory' : ProcessMemory}
    {next : Vm → ProcessMemory → Except Fault (Bool × Vm × ProcessMemory)}
    (h : mapOrRelease start field vm memory next = .ok (true, vm', memory'))
    (hfield : ∀ m page, (field m page).processPageDirectory = m.processPageDirectory)
    (hnext : ∀ vm1 m1, next vm1 m1 = .ok (true, vm', memory') →
      memory'.processPageDirectory = m1.processPageDirectory) :
    memory'.processPageDirectory = memory.processPageDirectory := by
  obtain ⟨⟨page, vm1⟩, -, h⟩ := bind_eq_ok.mp h
  cases page with
  | none => cases (Prod.mk.inj (Except.ok.inj h)).1
  | some page => exact (hnext _ _ h).trans (hfield memory page)

theorem processMemoryMap_directory {vm vm' : Vm} {p : Slot} {memory memory' : ProcessMemory}
    (h : processMemoryMap vm p memory = .ok (true, vm', memory')) :
    memory'.processPageDirectory = some (.process p) := by
  have hsame : memory'.processPageDirectory = (layoutMemory p memory).processPageDirectory := by
    unfold processMemoryMap at h
    refine mapOrRelease_directory h (fun _ _ => rfl) fun _ _ h => ?_
    refine mapOrRelease_directory h (fun _ _ => rfl) fun _ _ h => ?_
    refine mapOrRelease_directory h (fun _ _ => rfl) fun _ _ h => ?_
    refine mapOrRelease_directory h (fun _ _ => rfl) fun _ _ h => ?_
    obtain ⟨-, rfl⟩ := Prod.mk.inj (Prod.mk.inj (Except.ok.inj h)).2
    rfl
  exact hsame

section Effects

variable {k k' : Kernel}

/-- The records that keep their cores, or are zeroed. -/
theorem Housed.cores (h : Housed k) (hl : Linkage k') (hg : Grounded k')
    (hcore : ∀ q, (k'.processTable q).core = (k.processTable q).core
      ∨ q ≠ 0 ∧ k'.processTable q = Process.zero) : Housed k' := by
  have hkernel : (k'.processTable 0).core = (k.processTable 0).core :=
    (hcore 0).resolve_right fun hzero => hzero.1 rfl
  refine ⟨hl, hg, ?_, (core_entry hkernel).trans h.idle, ?_, ?_⟩
  · rw [core_memory hkernel]
    exact h.home
  · intro q hq hused
    rcases hcore q with hsame | ⟨-, hzero⟩
    · rw [core_memory hsame]
      exact h.spaces q hq ((core_used hsame).symm.trans hused)
    · rw [hzero] at hused
      cases hused
  · intro q
    rcases hcore q with hsame | ⟨-, hzero⟩
    · rw [core_parent hsame]
      exact h.parents q
    · rw [hzero]
      exact fun heq => by cases heq

theorem Housed.tame (h : Housed k) (hl : Linkage k') (ht : Tame k k') : Housed k' := by
  have hdirectory : ∀ q, (k'.processTable q).memory.processPageDirectory
      = (k.processTable q).memory.processPageDirectory := fun q =>
    frame_field (ht.frame q) (fun r => r.memory.processPageDirectory) fun _ => rfl
  refine ⟨hl, h.ground.tame ht, (hdirectory 0).trans h.home,
    (frame_entry (ht.frame 0)).trans h.idle, ?_, ?_⟩
  · intro q hq hused
    exact (hdirectory q).trans (h.spaces q hq ((ht.used q).symm.trans hused))
  · intro q
    rw [frame_parent (ht.frame q)]
    exact h.parents q

/-- Every effect, if what creates a process is alive. -/
theorem Housed.effect {x : Effect} (h : Housed k) (hx : KernelEffect k x k')
    (hparent : ∀ p s base, x = .spawn p (some s) base → (k.processTable s).used = true) :
    Housed k' := by
  have hl := h.links.effect hx
  have hg := h.ground.effect hx
  cases x with
  | spawn p parent base =>
      cases hx with
      | spawn call =>
          obtain ⟨hp, hunused, vm, memory, table, head, hmap, rfl, hnew, hcore⟩ := spawn_eq call
          refine ⟨hl, hg, ?_, (core_entry (hcore 0 hp.symm)).trans h.idle, ?_, ?_⟩
          · exact (congrArg ProcessMemory.processPageDirectory
              (core_memory (hcore 0 hp.symm))).trans h.home
          · intro q hq hused
            by_cases hqp : q = p
            · subst hqp
              exact (congrArg ProcessMemory.processPageDirectory (core_memory hnew)).trans
                (processMemoryMap_directory hmap)
            · exact (congrArg ProcessMemory.processPageDirectory
                (core_memory (hcore q hqp))).trans
                (h.spaces q hq ((core_used (hcore q hqp)).symm.trans hused))
          · intro q hself
            by_cases hqp : q = p
            · subst hqp
              have hparent' : parent = some q := (core_parent hnew).symm.trans hself
              rw [hparent q q base (hparent' ▸ rfl)] at hunused
              cases hunused
            · exact h.parents q ((core_parent (hcore q hqp)).symm.trans hself)
  | miss base =>
      refine h.cores hl hg fun q => ?_
      rcases hx.miss_table h.ground.kernel q with hcore | ⟨hunused, hzero⟩
      · exact Or.inl hcore
      · refine Or.inr ⟨?_, hzero⟩
        rintro rfl
        rw [h.ground.used] at hunused
        cases hunused
  | release c =>
      obtain ⟨hused, hzero, hcore⟩ := hx.release_table
      refine h.cores hl hg fun q => ?_
      by_cases hqc : q = c
      · exact Or.inr ⟨hqc ▸ h.ground.release_ne hx, hqc ▸ hzero⟩
      · exact Or.inl (hcore q hqc)
  | exit p => exact h.tame hl (hx.tame (Or.inl trivial))
  | waitFor parent pid => exact h.tame hl (hx.tame (Or.inr ⟨parent, pid, rfl⟩))
  | other => exact h.tame hl (hx.tame (Or.inl trivial))

/-- Effects that create nothing. -/
theorem Housed.effects {effects : List Effect} (h : Housed k)
    (hrun : Run KernelEffect k effects k')
    (hcreates : ∀ p parent base, .spawn p parent base ∉ effects) : Housed k' := by
  refine hrun.invariant_trace (I := fun xs k' =>
    (∀ p parent base, .spawn p parent base ∉ xs) → Housed k') (fun _ => h) ?_ hcreates
  intro xs k1 x k2 ih hx hnot
  refine (ih fun p parent base hmem =>
    hnot p parent base (List.mem_append_left _ hmem)).effect hx ?_
  rintro p s base rfl
  exact absurd (List.mem_append_right _ (List.mem_singleton_self _)) (hnot p (some s) base)

theorem Housed.mild (h : Housed k) (hrun : MildRun k k') : Housed k' := by
  obtain ⟨effects, hrun, hmild⟩ := hrun
  exact h.effects hrun fun _ _ _ hmem => hmild _ hmem

/-- A call by a process that is alive. -/
theorem Housed.exec {e : Event} {r : Reply} (h : Housed k) (hexec : e.exec k = .ok (r, k'))
    (hcurrent : ∀ s, k.currentProcess = some s → (k.processTable s).used = true) : Housed k' := by
  obtain ⟨effects, hrun, hshape⟩ := exec_shape h.ground.kernel hexec
  obtain ⟨s, hs, hsused⟩ := h.ground.current_creator hcurrent
  cases hshape with
  | mild hmild => exact h.mild ⟨effects, hrun, hmild⟩
  | @spawned e p effects one hmild =>
      obtain ⟨s', hs', hsused'⟩ := h.ground.creator_used (Or.inr hcurrent) one hexec
      obtain ⟨k1, hspawn, hrest⟩ := hrun.uncons
      refine (h.effect hspawn ?_).mild ⟨effects, hrest, hmild⟩
      rintro p' s1 base heq
      obtain ⟨-, heq, -⟩ := Effect.spawn.inj heq
      obtain rfl := Option.some.inj (hs'.symm.trans heq)
      exact hsused'
  | missed one => exact h.effects hrun (by simp)
  | @pair owner value a b effects hmild =>
      obtain ⟨k1, hfirst, hrest⟩ := hrun.uncons
      obtain ⟨k2, hsecond, hrest⟩ := hrest.uncons
      have h1 : Housed k1 := by
        refine h.effect hfirst ?_
        rintro p' s1 base heq
        obtain ⟨-, heq, -⟩ := Effect.spawn.inj heq
        obtain rfl := Option.some.inj (hs.symm.trans heq)
        exact hsused
      refine (h1.effect hsecond ?_).mild ⟨effects, hrest, hmild⟩
      rintro p' s1 base heq
      obtain ⟨-, heq, -⟩ := Effect.spawn.inj heq
      obtain rfl := Option.some.inj (hs.symm.trans heq)
      exact (hfirst.lives h.ground.kernel hsused fun heq => by cases heq).1
  | pairMissed => exact h.effects hrun (by simp)
  | @pairUndone owner value a =>
      obtain ⟨k1, hfirst, hrest⟩ := hrun.uncons
      refine (h.effect hfirst ?_).effects hrest (by simp)
      rintro p' s1 base heq
      obtain ⟨-, heq, -⟩ := Effect.spawn.inj heq
      obtain rfl := Option.some.inj (hs.symm.trans heq)
      exact hsused
  | waiting found kin alive => exact h.effects hrun (by simp)
  | reaped zombie found kin => exact h.effects hrun (by simp)

end Effects

theorem housed_processInit {vm : Vm} (hvm : vm.currentDirectory = some .kernel) :
    Housed (processInit vm) := by
  refine ⟨linkage_processInit vm, grounded_processInit vm, hvm, rfl, ?_, ?_⟩
  · intro q hq hused
    have hzero : (processInit vm).processTable q
        = { Process.zero with memory := processResetMemory } := if_neg hq
    rw [hzero] at hused
    cases hused
  · intro q
    by_cases hq : q = 0
    · subst hq
      exact fun heq => by cases heq
    · have hzero : (processInit vm).processTable q
          = { Process.zero with memory := processResetMemory } := if_neg hq
      rw [hzero]
      exact fun heq => by cases heq

theorem processInit_status (vm : Vm) (q : Slot) :
    ((processInit vm).processTable q).status = if q = 0 then .thread else .ready := by
  by_cases hq : q = 0
  · subst hq
    rfl
  · rw [show (processInit vm).processTable q = { Process.zero with memory := processResetMemory }
      from if_neg hq, if_neg hq]
    rfl

/-! ## Control -/

theorem schedulerAdvance_tame {k k' : Kernel} {c c' : Control}
    (hcall : schedulerAdvance k c = .ok (k', c')) : Tame k k' := by
  cases c with
  | kernelCode | process =>
      obtain ⟨rfl, -⟩ := Prod.mk.inj (Except.ok.inj hcall)
      exact .refl _
  | forceTicks index count =>
      simp only [schedulerAdvance] at hcall
      split at hcall
      · obtain ⟨rfl, -⟩ := Prod.mk.inj (Except.ok.inj hcall)
        exact (schedulerTick_retarget k).tame
      · obtain ⟨rfl, -⟩ := Prod.mk.inj (Except.ok.inj hcall)
        exact .refl _
  | runPending loop =>
      simp only [schedulerAdvance] at hcall
      split at hcall
      · obtain ⟨k1, hall, hcall⟩ := bind_eq_ok.mp hcall
        obtain ⟨rfl, -⟩ := Prod.mk.inj (Except.ok.inj hcall)
        have hcounted : Retarget k
            { k with pendingSchedulerTicks := sub32 k.pendingSchedulerTicks 1 } :=
          ⟨rfl, rfl, rfl, rfl, rfl, Or.inl rfl, Or.inl rfl, _, rfl⟩
        exact hcounted.tame.trans (deliverAll_mildRun hall).tame
      · obtain ⟨rfl, -⟩ := Prod.mk.inj (Except.ok.inj hcall)
        exact .refl _
  | delivered loop =>
      obtain ⟨k1, hnext, hcall⟩ := bind_eq_ok.mp hcall
      have ht := (scheduleNextProcess_mildRun hnext).tame
      split at hcall
      · obtain ⟨rfl, -⟩ := Prod.mk.inj (Except.ok.inj hcall)
        exact ht
      · obtain ⟨rfl, -⟩ := Prod.mk.inj (Except.ok.inj hcall)
        exact ht

theorem yieldFrom_mildRun (k : Kernel) (p : Slot) (loop : PendingLoop) :
    MildRun k (yieldFrom k p loop).1 := by
  unfold yieldFrom
  split
  · exact MildRun.refl k
  · exact (processYield_mildRun k).trans (scheduleResume_mildRun _ _)

/-! ## Contexts -/

/-- The kernel has the processor. -/
structure KernelContext (k : Kernel) : Prop where
  current : k.currentProcess = k.kernelProcess
  directory : k.vm.currentDirectory = some .kernel
  run : ∀ q, (k.processTable q).status ≠ .run
  suspended : k.suspended = none

/-- The process in slot `p` has it. -/
structure ProcessContext (k : Kernel) (p : Slot) : Prop where
  current : k.currentProcess = some p
  directory : k.vm.currentDirectory = (k.processTable p).memory.processPageDirectory
  others : ∀ q, q ≠ p → (k.processTable q).status ≠ .run
  used : (k.processTable p).used = true
  user : p ≠ 0

def Context (k : Kernel) : Control → Prop
  | .process p _ => ProcessContext k p
  | .kernelCode => KernelContext k
  | .forceTicks _ _ => KernelContext k
  | .runPending _ => KernelContext k
  | .delivered _ => KernelContext k

section Contexts

variable {k k' : Kernel} {p : Slot}

theorem KernelContext.same (h : KernelContext k) (hs : SameContext k k')
    (hkernel : k'.kernelProcess = k.kernelProcess) : KernelContext k' :=
  ⟨hs.current.trans (h.current.trans hkernel.symm), hs.directory.trans h.directory,
    fun q hq => h.run q (hs.run q hq), hs.suspended.trans h.suspended⟩

theorem ProcessContext.same (h : ProcessContext k p) (hh : Housed k) (hh' : Housed k')
    (hs : SameContext k k') (hused : (k'.processTable p).used = true) : ProcessContext k' p := by
  refine ⟨hs.current.trans h.current, ?_, fun q hqp hq => h.others q hqp (hs.run q hq), hused,
    h.user⟩
  rw [hs.directory, h.directory, hh.spaces p h.user h.used, hh'.spaces p h.user hused]

/-- `schedule_next_process` switches to a process, which has its context and
the status `RUN` then, or comes back with the kernel's. -/
theorem scheduleNextProcess_context (h : Housed k) (hc : KernelContext k)
    (hcall : scheduleNextProcess k = .ok k') :
    (k'.suspended = none ∧ KernelContext k')
      ∨ ∃ p, k'.suspended = some p ∧ ProcessContext k' p
        ∧ (k'.processTable p).status = .run ∧ (k'.processTable p).entry ≠ none := by
  obtain ⟨picked, hpick, hcall⟩ := bind_eq_ok.mp hcall
  cases picked with
  | none =>
      obtain rfl := Except.ok.inj hcall
      exact Or.inl ⟨hc.suspended, hc⟩
  | some p =>
      dsimp only at hcall
      have heligible := pickNextProcess_eligible hpick
      have hused := eligible_used heligible
      have hentry : (k.processTable p).entry ≠ none := (of_decide_eq_true heligible).2.1
      have hmild := (dispatch_retarget hused).mildRun.trans
        (deliverProcessSignal_mildRun _ (some p))
      have hsame := (deliverProcessSignal_moves (P := fun _ => True)
        { k with schedulerCursor := some p, currentProcess := some p } (some p)
        fun _ _ => trivial).sameContext h.ground.kernel
      generalize (deliverProcessSignal
        { k with schedulerCursor := some p, currentProcess := some p } (some p)).2 = k2
        at hcall hmild hsame
      have hframe := hmild.tame.frame p
      have hh2 := h.mild hmild
      have hp : p ≠ 0 := by
        rintro rfl
        exact hentry h.idle
      have hrun2 : ∀ q, (k2.processTable q).status ≠ .run := fun q hq => hc.run q (hsame.run q hq)
      split at hcall
      · obtain rfl := Except.ok.inj hcall
        have hused2 : (k2.processTable p).used = true := (frame_used hframe).trans hused
        refine Or.inr ⟨p, rfl, ⟨hsame.current, ?_, ?_, ?_, hp⟩, ?_, ?_⟩
        · simp only [modify_self, hh2.spaces p hp hused2]
          rfl
        · intro q hqp
          simp only [modify_of_ne _ _ _ hqp]
          exact hrun2 q
        · simp only [modify_self, hused2]
        · simp only [modify_self]
        · simp only [modify_self, frame_entry hframe]
          exact hentry
      · obtain rfl := Except.ok.inj hcall
        exact Or.inl ⟨hsame.suspended.trans hc.suspended, rfl, hsame.directory.trans hc.directory,
          hrun2, hsame.suspended.trans hc.suspended⟩

/-- Taking the status `RUN` from a process. -/
theorem pause_status (k : Kernel) (p : Slot) :
    ∀ q, (q ≠ p → (k.processTable q).status ≠ .run) →
      ((if (k.processTable p).status = .run then k.modify p fun r => { r with status := .ready }
        else k).processTable q).status ≠ .run := by
  intro q hq
  split
  · by_cases hqp : q = p
    · subst hqp
      rw [modify_self]
      exact fun heq => by cases heq
    · rw [modify_of_ne _ _ _ hqp]
      exact hq hqp
  · next hrun =>
      by_cases hqp : q = p
      · subst hqp
        exact hrun
      · exact hq hqp

theorem scheduleResume_context (h : Housed k)
    (hothers : ∀ q, q ≠ p → (k.processTable q).status ≠ .run) :
    KernelContext (scheduleResume k p) := by
  have hspace : processSwitchToKernelSpace k
      = { k with vm := { k.vm with currentDirectory := some .kernel } } := by
    unfold processSwitchToKernelSpace
    rw [h.ground.kernel]
    dsimp only
    rw [h.home]
    rfl
  unfold scheduleResume
  dsimp only
  rw [hspace]
  have hpaused := pause_status { k with vm := { k.vm with currentDirectory := some .kernel } } p
  split
  · next hrun =>
      rw [if_pos hrun] at hpaused
      exact ⟨rfl, rfl, fun q => hpaused q (hothers q), rfl⟩
  · next hrun =>
      rw [if_neg hrun] at hpaused
      exact ⟨rfl, rfl, fun q => hpaused q (hothers q), rfl⟩

/-- `process_yield` by a process gives the processor back. -/
theorem yieldFrom_context (h : Housed k) (hc : ProcessContext k p) (loop : PendingLoop) :
    ∃ k', yieldFrom k p loop = (k', .runPending loop.next) ∧ KernelContext k'
      ∧ MildRun k k' := by
  have hkernel : ¬(k.currentProcess = none ∨ k.currentProcess = k.kernelProcess) := by
    rw [hc.current, h.ground.kernel]
    rintro (heq | heq)
    · cases heq
    · exact hc.user (Option.some.inj heq)
  unfold yieldFrom
  rw [if_neg hkernel]
  refine ⟨_, rfl, scheduleResume_context (h.mild (processYield_mildRun k)) ?_,
    (processYield_mildRun k).trans (scheduleResume_mildRun _ p)⟩
  intro q hqp
  unfold processYield
  rw [hc.current]
  dsimp only
  rw [if_neg fun heq => hkernel (Or.inr (hc.current.trans heq))]
  simp only [modify_of_ne _ _ _ hqp]
  exact pause_status k p q fun _ => hc.others q hqp

/-- The running process does not reap itself. -/
theorem ProcessContext.not_reaps (h : ProcessContext k p) (hh : Housed k) {e : Event} {r : Reply}
    (hby : e.byProcess k) (hexec : e.exec k = .ok (r, k')) : ¬reaps p (e, r) := by
  rintro ⟨exitCode, hr⟩
  have hreply : r = .waited (.reaped p exitCode) := hr
  subst hreply
  cases e with
  | wait parent pid =>
      obtain ⟨result, hresult, call⟩ := map_reply_eq_ok.mp hexec
      obtain rfl := Reply.waited.inj hresult
      have hparent : parent = some p := Eq.trans hby h.current
      subst hparent
      rcases (processWait_reaped call).2.1 with hkernel | hself
      · rw [hh.ground.kernel] at hkernel
        exact h.user (Option.some.inj hkernel)
      · exact hh.parents p hself
  | exit | deliverSignal | socketRecv | schedulerTick | yield =>
      cases (Prod.mk.inj (Except.ok.inj hexec)).1
  | _ =>
      obtain ⟨x, -, heq⟩ := map_eq_ok.mp hexec
      cases (Prod.mk.inj heq).1

end Contexts

/-! ## Runs -/

structure SchedulerInv (s : Kernel × Control) : Prop where
  housed : Housed s.1
  context : Context s.1 s.2

section Steps

variable {k k' : Kernel} {p : Slot} {loop : PendingLoop}

theorem KernelContext.alive (h : KernelContext k) (hh : Housed k) :
    ∀ s, k.currentProcess = some s → (k.processTable s).used = true := by
  intro s hs
  rw [h.current, hh.ground.kernel] at hs
  obtain rfl := Option.some.inj hs
  exact hh.ground.used

theorem KernelContext.caller (h : KernelContext k) (loop : PendingLoop) :
    Context k loop.caller := by
  unfold PendingLoop.caller
  split <;> exact h

/-- Every stretch of the scheduler's own code. -/
theorem SchedulerInv.advance {c c' : Control} (h : SchedulerInv (k, c))
    (hcall : schedulerAdvance k c = .ok (k', c')) : SchedulerInv (k', c') := by
  have hh : Housed k := h.housed
  have hc : Context k c := h.context
  cases c with
  | kernelCode =>
      obtain ⟨rfl, rfl⟩ := Prod.mk.inj (Except.ok.inj hcall)
      exact ⟨hh, hc⟩
  | forceTicks index count =>
      simp only [schedulerAdvance] at hcall
      split at hcall
      · obtain ⟨rfl, rfl⟩ := Prod.mk.inj (Except.ok.inj hcall)
        exact ⟨hh.mild (schedulerTick_retarget k).mildRun,
          KernelContext.same hc ⟨rfl, rfl, rfl, fun _ h => h⟩ rfl⟩
      · obtain ⟨rfl, rfl⟩ := Prod.mk.inj (Except.ok.inj hcall)
        exact ⟨hh, hc⟩
  | runPending loop =>
      simp only [schedulerAdvance] at hcall
      split at hcall
      · obtain ⟨k1, hall, hcall⟩ := bind_eq_ok.mp hcall
        obtain ⟨rfl, rfl⟩ := Prod.mk.inj (Except.ok.inj hcall)
        have hdec : Retarget k
            { k with pendingSchedulerTicks := sub32 k.pendingSchedulerTicks 1 } :=
          ⟨rfl, rfl, rfl, rfl, rfl, Or.inl rfl, Or.inl rfl, _, rfl⟩
        have hmild := hdec.mildRun.trans (deliverAll_mildRun hall)
        have hall' := (deliverAll_moves (P := fun _ => True) (fun _ => trivial) hall).sameContext
          hh.ground.kernel
        have hsame : SameContext k k1 :=
          ⟨hall'.current, hall'.suspended, hall'.directory, hall'.run⟩
        exact ⟨hh.mild hmild, KernelContext.same hc hsame hmild.tame.kernel⟩
      · obtain ⟨rfl, rfl⟩ := Prod.mk.inj (Except.ok.inj hcall)
        exact ⟨hh, KernelContext.caller hc loop⟩
  | delivered loop =>
      obtain ⟨k1, hnext, hcall⟩ := bind_eq_ok.mp hcall
      have hh1 := hh.mild (scheduleNextProcess_mildRun hnext)
      rcases scheduleNextProcess_context hh hc hnext with ⟨hnone, hc1⟩ | ⟨p, hp, hc1, -⟩
      · rw [hnone] at hcall
        obtain ⟨rfl, rfl⟩ := Prod.mk.inj (Except.ok.inj hcall)
        exact ⟨hh1, hc1⟩
      · rw [hp] at hcall
        obtain ⟨rfl, rfl⟩ := Prod.mk.inj (Except.ok.inj hcall)
        exact ⟨hh1, hc1⟩
  | process p loop =>
      obtain ⟨rfl, rfl⟩ := Prod.mk.inj (Except.ok.inj hcall)
      exact ⟨hh, hc⟩

/-- A process gives the processor back. -/
theorem SchedulerInv.back (hh : Housed k) (hc : ProcessContext k p) (loop : PendingLoop) :
    SchedulerInv (yieldFrom k p loop) := by
  obtain ⟨k', heq, hc', hmild⟩ := yieldFrom_context hh hc loop
  rw [heq]
  exact ⟨hh.mild hmild, hc'⟩

theorem SchedulerInv.step {s s' : Kernel × Control} {action : SchedulerAction}
    (h : SchedulerInv s) (hstep : SchedulerStep s action s') : SchedulerInv s' := by
  obtain ⟨hh, hc⟩ := h
  cases hstep with
  | kernelCall hschedule hyield hexec =>
      have hh' := hh.exec hexec (KernelContext.alive hc hh)
      have hsame :=
        (exec_moves hh.ground.kernel hexec hschedule hyield).sameContext hh.ground.kernel
      exact ⟨hh', KernelContext.same hc hsame (hh'.ground.kernel.trans hh.ground.kernel.symm)⟩
  | @processCall k k' e r p loop hby hexec =>
      have hc' : ProcessContext k p := hc
      have hschedule : e ≠ .schedule := by
        rintro rfl
        exact hby
      have hyield : e ≠ .yield := by
        rintro rfl
        exact hby
      have hh' := hh.exec hexec fun s hs => by
        obtain rfl := Option.some.inj (hc'.current.symm.trans hs)
        exact hc'.used
      have hstep : KernelStep k (e, r) k' := ⟨fun he => absurd he hschedule, hexec⟩
      have hused := (hh.links.lives hstep hc'.used (hc'.not_reaps hh hby hexec)).1
      have hsame :=
        (exec_moves hh.ground.kernel hexec hschedule hyield).sameContext hh.ground.kernel
      exact ⟨hh', hc'.same hh hh' hsame hused⟩
  | @interrupt k c =>
      have hh' := hh.mild (schedulerTick_retarget k).mildRun
      have hsame : SameContext k (schedulerTick k) := ⟨rfl, rfl, rfl, fun _ h => h⟩
      refine ⟨hh', ?_⟩
      cases c with
      | process p loop =>
          have hc' : ProcessContext k p := hc
          exact hc'.same hh hh' hsame hc'.used
      | _ => exact KernelContext.same hc hsame rfl
  | runPending maxTicks => exact ⟨hh, hc⟩
  | forceTicks count => exact ⟨hh, hc⟩
  | advance hcall => exact SchedulerInv.advance ⟨hh, hc⟩ hcall
  | yield => exact SchedulerInv.back hh hc _
  | @finish k p loop =>
      have hc' : ProcessContext k p := hc
      have hmild := processExit_mildRun k (some p) (toInt32 (k.processTable p).runtimeValue)
      have hh' := hh.mild hmild
      exact SchedulerInv.back hh' (hc'.same hh hh' (processExit_sameContext k _ _)
        ((hmild.tame.used p).trans hc'.used)) loop

/-- At boot the kernel's code runs. -/
theorem schedulerInv_processInit {vm : Vm} (hvm : vm.currentDirectory = some .kernel) :
    SchedulerInv (processInit vm, .kernelCode) := by
  refine ⟨housed_processInit hvm, rfl, hvm, ?_, rfl⟩
  intro q hq
  rw [processInit_status vm q] at hq
  split at hq <;> cases hq

end Steps

/-- At every point of every run the context is that of the code that has the
processor, and a switch to a process sets `RUN`. -/
theorem schedulerRun_context {vm : Vm} (hvm : vm.currentDirectory = some .kernel)
    {actions : List SchedulerAction} {s : Kernel × Control}
    (hrun : Run SchedulerStep (processInit vm, .kernelCode) actions s) :
    Context s.1 s.2 ∧ ∀ action s' p loop, SchedulerStep s action s' →
      (∀ p loop, s.2 ≠ .process p loop) → s'.2 = .process p loop →
        (s'.1.processTable p).status = .run ∧ (s'.1.processTable p).entry ≠ none := by
  have h : SchedulerInv s :=
    hrun.invariant (I := SchedulerInv) (schedulerInv_processInit hvm) fun h hstep => h.step hstep
  refine ⟨h.context, ?_⟩
  intro action s' p loop hstep hkernel hp
  cases hstep with
  | kernelCall hschedule hyield hexec => cases hp
  | @processCall k k' e r q l hby hexec => exact absurd rfl (hkernel q l)
  | interrupt => exact absurd hp (hkernel p loop)
  | runPending maxTicks => cases hp
  | forceTicks count => cases hp
  | yield => exact absurd rfl (hkernel _ _)
  | finish => exact absurd rfl (hkernel _ _)
  | @advance k k' c c' hcall =>
      have hcontrol : c' = .process p loop := hp
      subst hcontrol
      cases c with
      | process q l => exact absurd rfl (hkernel q l)
      | kernelCode => cases (Prod.mk.inj (Except.ok.inj hcall)).2
      | forceTicks index count =>
          simp only [schedulerAdvance] at hcall
          split at hcall <;> cases (Prod.mk.inj (Except.ok.inj hcall)).2
      | runPending l =>
          simp only [schedulerAdvance] at hcall
          split at hcall
          · obtain ⟨k1, -, hcall⟩ := bind_eq_ok.mp hcall
            cases (Prod.mk.inj (Except.ok.inj hcall)).2
          · have hcaller := (Prod.mk.inj (Except.ok.inj hcall)).2
            unfold PendingLoop.caller at hcaller
            split at hcaller <;> cases hcaller
      | delivered l =>
          obtain ⟨k1, hnext, hcall⟩ := bind_eq_ok.mp hcall
          rcases scheduleNextProcess_context h.housed h.context hnext with
            ⟨hnone, -⟩ | ⟨q, hq, -, hstatus, hentry⟩
          · rw [hnone] at hcall
            cases (Prod.mk.inj (Except.ok.inj hcall)).2
          · rw [hq] at hcall
            obtain ⟨rfl, hcontrol⟩ := Prod.mk.inj (Except.ok.inj hcall)
            obtain ⟨rfl, -⟩ := Control.process.inj hcontrol
            exact ⟨hstatus, hentry⟩

/-- One forced tick, up to the switch to a process that was just created. -/
theorem schedulerRun_context_switch :
    ∃ k, Run SchedulerStep (processInit eightMegabytes, .kernelCode)
        [.call (.createOwned 0 (some .demoCounterProcess) 4096) (.created (some 1)),
          .forceTicks 1, .advance, .advance, .advance] (k, .process 1 ⟨0, 1, some (0, 1)⟩)
      ∧ ProcessContext k 1 := by
  obtain ⟨⟨k, c⟩, hrun, hc⟩ := execSteps_observe schedulerExec_step
    (processInit eightMegabytes, .kernelCode)
    [.call (.createOwned 0 (some .demoCounterProcess) 4096) (.created (some 1)),
      .forceTicks 1, .advance, .advance, .advance]
    (fun s => s.2 = .process 1 ⟨0, 1, some (0, 1)⟩) (by decide +kernel)
  obtain rfl : c = .process 1 ⟨0, 1, some (0, 1)⟩ := hc
  exact ⟨k, hrun, (schedulerRun_context rfl hrun).1⟩

end Kfs
