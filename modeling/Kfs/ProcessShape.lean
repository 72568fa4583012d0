import Kfs.ProcessEffects

/-!
# The effects of each event

`exec_shape` takes the events apart: what `Event.exec` does is a run of
effects, and `Shape` lists the sequences that occur for each event and
result. From here on events are only looked at through their shapes, so a
change in the code of one event is a change in one case of one proof.
-/

namespace Kfs

/-- The effects an event of `k` that returned a given reply can consist
of. -/
inductive Shape (k : Kernel) : Event → Reply → List Effect → Prop where
  | mild {e : Event} {r : Reply} {effects : List Effect} (hmild : ∀ x ∈ effects, x.mild) :
      Shape k e r effects
  | spawned {e : Event} {p : Slot} {effects : List Effect} (one : e.creations = 1)
      (hmild : ∀ x ∈ effects, x.mild) :
      Shape k e (.created (some p)) (.spawn p (e.creator k) e.base :: effects)
  | missed {e : Event} (one : e.creations = 1) : Shape k e (.created none) [.miss e.base]
  | pair {owner value : Nat} {a b : Slot} {effects : List Effect}
      (hmild : ∀ x ∈ effects, x.mild) :
      Shape k (.spawnDemoSocketPair owner value) (.createdPair (some (b, a)))
        (.spawn a k.creator 0 :: .spawn b k.creator 0 :: effects)
  | pairMissed {owner value : Nat} :
      Shape k (.spawnDemoSocketPair owner value) (.createdPair none) [.miss 0]
  | pairUndone {owner value : Nat} {a : Slot} :
      Shape k (.spawnDemoSocketPair owner value) (.createdPair none)
        [.spawn a k.creator 0, .miss 0, .release a]
  | waiting {parent c : Slot} {pid : Nat} (found : processGetByPid k pid = .ok (some c))
      (kin : some parent = k.kernelProcess ∨ (k.processTable c).parent = some parent)
      (alive : (k.processTable c).status ≠ .zombie) :
      Shape k (.wait (some parent) pid) (.waited .running) [.waitFor parent pid]
  | reaped {parent : Option Slot} {pid : Nat} {c : Slot} {exitCode : Int}
      (zombie : (k.processTable c).status = .zombie)
      (found : processGetByPid k pid = .ok (some c))
      (kin : parent = k.kernelProcess ∨ (k.processTable c).parent = parent) :
      Shape k (.wait parent pid) (.waited (.reaped c exitCode)) [.other, .release c]

/-- `e` ran from `k` to `k'` through effects of one of its shapes. -/
def Performs (k : Kernel) (e : Event) (r : Reply) (k' : Kernel) : Prop :=
  ∃ effects, Run KernelEffect k effects k' ∧ Shape k e r effects

theorem mild_not_mem {effects : List Effect} (hmild : ∀ x ∈ effects, x.mild) (p : Slot) :
    .release p ∉ effects ∧ ∀ pid, .waitFor p pid ∉ effects :=
  ⟨fun hx => hmild _ hx, fun _ hx => hmild _ hx⟩

/-- A process is released only when it is reaped: the other release is of a
process the same event has created. -/
theorem Shape.release_not_mem {k k' : Kernel} {e : Event} {r : Reply} {effects : List Effect}
    (h : Shape k e r effects) (hrun : Run KernelEffect k effects k') {p : Slot}
    (hused : (k.processTable p).used = true) (hreap : ¬reaps p (e, r)) :
    .release p ∉ effects := by
  cases h with
  | mild hmild => exact (mild_not_mem hmild p).1
  | spawned _ hmild => simpa using (mild_not_mem hmild p).1
  | missed _ => simp
  | pair hmild => simpa using (mild_not_mem hmild p).1
  | pairMissed => simp
  | @pairUndone owner value a =>
      have hpa : p ≠ a := by
        rintro rfl
        obtain ⟨k1, hx, -⟩ := hrun.uncons
        obtain ⟨-, hunused, -⟩ := hx.spawn_table
        rw [hused] at hunused
        cases hunused
      simp [hpa]
  | waiting _ _ _ => simp
  | @reaped parent pid c exitCode _ _ _ =>
      have hpc : p ≠ c := by
        rintro rfl
        exact hreap ⟨exitCode, rfl⟩
      simp [hpc]

theorem MildRun.performs {k k' : Kernel} (h : MildRun k k') (e : Event) (r : Reply) :
    Performs k e r k' := by
  obtain ⟨effects, hrun, hmild⟩ := h
  exact ⟨effects, hrun, .mild hmild⟩

/-! ## Creation -/

section Create

variable {k k' : Kernel} {parent : Option Slot} {owner base size : Nat}
  {function : Option ExecFn}

/-- An event that calls `process_create_internal` once and then at most
assigns to fields. -/
theorem create_performs {e : Event} {p : Option Slot} (one : e.creations = 1)
    (hparent : parent = e.creator k) (hbase : base = e.base)
    (call : processCreateInternal k parent owner base function size = .ok (p, k')) :
    Performs k e (.created p) k' := by
  subst hparent hbase
  cases p with
  | none => exact ⟨_, .one (.miss call), .missed one⟩
  | some p =>
      exact ⟨_, .one (.spawn call), .spawned one fun _ h => (List.not_mem_nil h).elim⟩

/-- The same with mild effects behind a creation that succeeded. -/
theorem create_mild_performs {e : Event} {p : Slot} {k1 : Kernel} (one : e.creations = 1)
    (hparent : parent = e.creator k) (hbase : base = e.base)
    (call : processCreateInternal k parent owner base function size = .ok (some p, k1))
    (hrest : MildRun k1 k') : Performs k e (.created (some p)) k' := by
  subst hparent hbase
  obtain ⟨effects, hrun, hmild⟩ := hrest
  exact ⟨_, (Run.one (.spawn call)).append hrun, .spawned one hmild⟩

theorem spawn_status {p : Slot}
    (call : processCreateInternal k parent owner base function size = .ok (some p, k')) :
    p ≠ 0 ∧ (k'.processTable p).used = true ∧ (k'.processTable p).status = .ready := by
  obtain ⟨hp, -, vm, memory, table, head, -, rfl, hnew, -⟩ := spawn_eq call
  exact ⟨hp, core_used hnew, core_status hnew⟩

end Create

theorem inheritFields_vitals {source child : Process} (heapBreak : Nat)
    (hready : child.status = .ready) :
    (inheritFields source child heapBreak).vitals = child.vitals := by
  unfold Process.vitals inheritFields
  rw [hready]

/-- Behind the creation `fork_process` only copies pages and fields. -/
theorem inherit_mildRun {k : Kernel} {child source : Slot} {vm : Vm} (hne : child ≠ 0)
    (hused : (k.processTable child).used = true)
    (hready : (k.processTable child).status = .ready)
    (hvm : vm = copyPages (k.processTable child).memory (k.processTable source).memory k.vm) :
    MildRun k (({ k with vm := vm }).modify child (inheritFrom (k.processTable source))) := by
  refine ((KernelEffect.copy hne hused hvm).mildRun trivial).trans (MildRun.quiet _ child ?_)
  exact inheritFields_vitals _ hready

theorem forkProcess_performs {k k' : Kernel} {source p : Option Slot}
    (h : forkProcess k source = .ok (p, k')) : Performs k (.fork source) (.created p) k' := by
  unfold forkProcess at h
  cases source with
  | none =>
      obtain ⟨rfl, rfl⟩ := Prod.mk.inj (Except.ok.inj h)
      exact (MildRun.refl k).performs _ _
  | some source =>
      dsimp only at h
      split at h
      · obtain ⟨rfl, rfl⟩ := Prod.mk.inj (Except.ok.inj h)
        exact (MildRun.refl k).performs _ _
      · obtain ⟨⟨child, k1⟩, call, h⟩ := bind_eq_ok.mp h
        cases child with
        | none =>
            obtain ⟨rfl, rfl⟩ := Prod.mk.inj (Except.ok.inj h)
            exact create_performs rfl rfl rfl call
        | some child =>
            obtain ⟨hne, hused, hready⟩ := spawn_status call
            have hrest := @inherit_mildRun _ _ source _ hne hused hready rfl
            obtain ⟨rfl, rfl⟩ := Prod.mk.inj (Except.ok.inj h)
            exact create_mild_performs rfl rfl rfl call hrest

theorem processSpawnDemoCounter_performs {k k' : Kernel} {owner seed limit : Nat}
    {p : Option Slot} (h : processSpawnDemoCounter k owner seed limit = .ok (p, k')) :
    Performs k (.spawnDemoCounter owner seed limit) (.created p) k' := by
  obtain ⟨⟨child, k1⟩, call, h⟩ := bind_eq_ok.mp h
  cases child with
  | none =>
      obtain ⟨rfl, rfl⟩ := Prod.mk.inj (Except.ok.inj h)
      exact create_performs rfl rfl rfl call
  | some child =>
      obtain ⟨rfl, rfl⟩ := Prod.mk.inj (Except.ok.inj h)
      exact create_mild_performs rfl rfl rfl call (MildRun.quiet k1 child rfl)

/-- A creation leaves `current_process` and `kernel_process` alone, so the
second process of a pair has the parent of the first. -/
theorem spawn_creator {k k' : Kernel} {parent : Option Slot} {owner base size : Nat}
    {function : Option ExecFn} {p : Slot}
    (call : processCreateInternal k parent owner base function size = .ok (some p, k')) :
    k'.creator = k.creator := by
  obtain ⟨-, -, vm, memory, table, head, -, rfl, -⟩ := spawn_eq call
  rfl

theorem processSpawnDemoSocketPair_performs {k k' : Kernel} {owner value : Nat}
    {pair : Option (Slot × Slot)} (hk : k.kernelProcess = some 0)
    (h : processSpawnDemoSocketPair k owner value = .ok (pair, k')) :
    Performs k (.spawnDemoSocketPair owner value) (.createdPair pair) k' := by
  obtain ⟨⟨receiver, k1⟩, call1, h⟩ := bind_eq_ok.mp h
  cases receiver with
  | none =>
      obtain ⟨rfl, rfl⟩ := Prod.mk.inj (Except.ok.inj h)
      exact ⟨_, .one (.miss call1), .pairMissed⟩
  | some a =>
      obtain ⟨⟨sender, k2⟩, call2, h⟩ := bind_eq_ok.mp h
      have hspawn1 : Run KernelEffect k [.spawn a k.creator 0] k1 := .one (.spawn call1)
      unfold processCreateOwned at call2
      rw [spawn_creator call1] at call2
      cases sender with
      | none =>
          obtain ⟨k3, call3, h⟩ := bind_eq_ok.mp h
          obtain ⟨rfl, rfl⟩ := Prod.mk.inj (Except.ok.inj h)
          have hrun : Run KernelEffect k [.spawn a k.creator 0, .miss 0] k2 :=
            hspawn1.snoc (.miss call2)
          obtain ⟨ha, hused, -⟩ := spawn_status call1
          have hk1 : k1.kernelProcess = some 0 := by
            obtain ⟨-, -, vm, memory, table, head, -, rfl, -⟩ := spawn_eq call1
            exact hk
          -- the receiver survives the failed creation of the sender
          have hsame : k2.kernelProcess = some 0 ∧ (k2.processTable a).used = true := by
            rcases miss_eq hk1 call2 with rfl | ⟨p, vm, table, head, -, hunused, -, rfl, -, hcore⟩
            · exact ⟨hk1, hused⟩
            · have hap : a ≠ p := by
                rintro rfl
                rw [hused] at hunused
                cases hunused
              exact ⟨hk1, (core_used (hcore a hap)).trans hused⟩
          refine ⟨_, hrun.snoc (.release ?_ hsame.2 call3), .pairUndone⟩
          rw [hsame.1]
          exact fun heq => ha (Option.some.inj heq)
      | some b =>
          obtain ⟨rfl, rfl⟩ := Prod.mk.inj (Except.ok.inj h)
          obtain ⟨effects, hrun, hmild⟩ := MildRun.quiet k2 b (f := fun r =>
            { r with runtimeArg0 := (k2.processTable a).pid, runtimeArg1 := value }) rfl
          exact ⟨_, (hspawn1.snoc (.spawn call2)).append hrun, .pair hmild⟩

/-! ## Wait -/

theorem processGetByPid_some {k : Kernel} {pid : Nat} {c : Slot}
    (h : processGetByPid k pid = .ok (some c)) :
    (k.processTable c).used = true ∧ (k.processTable c).pid = pid := by
  unfold processGetByPid at h
  have htest := search_test h
  exact of_decide_eq_true htest

/-- When `process_wait` reports a reaped child. -/
theorem processWait_reaped {k k' : Kernel} {parent : Option Slot} {pid : Nat} {c : Slot}
    {exitCode : Int} (h : processWait k parent pid = .ok (.reaped c exitCode, k')) :
    processGetByPid k pid = .ok (some c)
      ∧ (parent = k.kernelProcess ∨ (k.processTable c).parent = parent)
      ∧ processRelease (stopWaiting k parent) c = .ok k' := by
  obtain ⟨child, hget, h⟩ := bind_eq_ok.mp h
  cases child with
  | none => cases (Prod.mk.inj (Except.ok.inj h)).1
  | some d =>
      dsimp only at h
      split at h
      · cases (Prod.mk.inj (Except.ok.inj h)).1
      · rename_i hkin
        split at h
        · cases (Prod.mk.inj (Except.ok.inj h)).1
        · obtain ⟨k1, hrel, h⟩ := bind_eq_ok.mp h
          obtain ⟨hresult, rfl⟩ := Prod.mk.inj (Except.ok.inj h)
          obtain ⟨rfl, -⟩ := WaitResult.reaped.inj hresult
          refine ⟨hget, ?_, hrel⟩
          rcases Decidable.not_and_iff_not_or_not.mp hkin with h | h
          · exact Or.inl (Decidable.not_not.mp h)
          · exact Or.inr (Decidable.not_not.mp h)

theorem processWait_performs {k k' : Kernel} {parent : Option Slot} {pid : Nat}
    {result : WaitResult} (h : processWait k parent pid = .ok (result, k')) :
    Performs k (.wait parent pid) (.waited result) k' := by
  obtain ⟨child, hget, h⟩ := bind_eq_ok.mp h
  cases child with
  | none =>
      obtain ⟨rfl, rfl⟩ := Prod.mk.inj (Except.ok.inj h)
      exact (MildRun.refl k).performs _ _
  | some c =>
      obtain ⟨hused, hpid⟩ := processGetByPid_some hget
      dsimp only at h
      split at h
      · obtain ⟨rfl, rfl⟩ := Prod.mk.inj (Except.ok.inj h)
        exact (MildRun.refl k).performs _ _
      · rename_i hkin
        have hkin' : parent = k.kernelProcess ∨ (k.processTable c).parent = parent := by
          rcases Decidable.not_and_iff_not_or_not.mp hkin with h | h
          · exact Or.inl (Decidable.not_not.mp h)
          · exact Or.inr (Decidable.not_not.mp h)
        split at h
        · rename_i halive
          obtain ⟨rfl, rfl⟩ := Prod.mk.inj (Except.ok.inj h)
          cases parent with
          | none => exact (MildRun.refl k).performs _ _
          | some parent =>
              exact ⟨_, .one (.waitFor hused hpid halive hkin'), .waiting hget hkin' halive⟩
        · rename_i hzombie
          obtain ⟨k1, hrel, h⟩ := bind_eq_ok.mp h
          obtain ⟨rfl, rfl⟩ := Prod.mk.inj (Except.ok.inj h)
          have htame := stopWaiting_tame k parent
          by_cases hc : some c = (stopWaiting k parent).kernelProcess
          · unfold processRelease at hrel
            rw [if_pos hc] at hrel
            obtain rfl := Except.ok.inj hrel
            exact ((KernelEffect.stopWaiting parent).mildRun trivial).performs _ _
          · refine ⟨_, (Run.one (.stopWaiting parent)).snoc
              (.release hc ((htame.used c).trans hused) hrel), .reaped ?_ hget hkin'⟩
            exact Decidable.not_not.mp hzombie

/-! ## All events -/

/-- Every event is a run of effects of one of its shapes. -/
theorem exec_shape {k k' : Kernel} {e : Event} {r : Reply} (hk : k.kernelProcess = some 0)
    (h : e.exec k = .ok (r, k')) : Performs k e r k' := by
  cases e with
  | createOwned owner function size =>
      obtain ⟨p, rfl, call⟩ := map_reply_eq_ok.mp h
      exact create_performs rfl rfl rfl call
  | execFn addr function size =>
      obtain ⟨p, rfl, call⟩ := map_reply_eq_ok.mp h
      exact create_performs rfl rfl rfl call
  | fork source =>
      obtain ⟨p, rfl, call⟩ := map_reply_eq_ok.mp h
      exact forkProcess_performs call
  | spawnDemoCounter owner seed limit =>
      obtain ⟨p, rfl, call⟩ := map_reply_eq_ok.mp h
      exact processSpawnDemoCounter_performs call
  | spawnDemoSocketPair owner value =>
      obtain ⟨p, rfl, call⟩ := map_reply_eq_ok.mp h
      exact processSpawnDemoSocketPair_performs hk call
  | exit process exitCode =>
      obtain ⟨rfl, rfl⟩ := Prod.mk.inj (Except.ok.inj h)
      exact (processExit_mildRun k process exitCode).performs _ _
  | wait parent pid =>
      obtain ⟨result, rfl, call⟩ := map_reply_eq_ok.mp h
      exact processWait_performs call
  | sendSignal sender pid signal value =>
      obtain ⟨ok, rfl, call⟩ := map_reply_eq_ok.mp h
      exact (sendSignalToProcess_mildRun call).performs _ _
  | deliverSignal process =>
      obtain ⟨rfl, rfl⟩ := Prod.mk.inj (Except.ok.inj h)
      exact (deliverProcessSignal_mildRun k process).performs _ _
  | socketSend sender pid value =>
      obtain ⟨ok, rfl, call⟩ := map_reply_eq_ok.mp h
      exact (socketSend_mildRun call).performs _ _
  | socketRecv process =>
      obtain ⟨rfl, rfl⟩ := Prod.mk.inj (Except.ok.inj h)
      exact (socketRecv_mildRun k process).performs _ _
  | schedulerTick =>
      obtain ⟨rfl, rfl⟩ := Prod.mk.inj (Except.ok.inj h)
      exact (schedulerTick_retarget k).mildRun.performs _ _
  | schedule =>
      obtain ⟨k1, call, heq⟩ := map_eq_ok.mp h
      obtain ⟨rfl, rfl⟩ := Prod.mk.inj heq
      exact (scheduleEvent_mildRun call).performs _ _
  | yield =>
      obtain ⟨rfl, rfl⟩ := Prod.mk.inj (Except.ok.inj h)
      exact (yieldEvent_mildRun k).performs _ _

/-! ## Creators -/

/-- `fork_process` returns a child of a process that has an entry. -/
theorem forkProcess_source {k k' : Kernel} {source : Option Slot} {p : Slot}
    (h : forkProcess k source = .ok (some p, k')) :
    ∃ s, source = some s ∧ (k.processTable s).entry ≠ none := by
  unfold forkProcess at h
  cases source with
  | none => cases (Prod.mk.inj (Except.ok.inj h)).1
  | some s =>
      dsimp only at h
      split at h
      · cases (Prod.mk.inj (Except.ok.inj h)).1
      · rename_i hcond
        exact ⟨s, rfl, fun hnone => hcond (Or.inr hnone)⟩

theorem Grounded.current_creator {k : Kernel} (h : Grounded k)
    (hcur : ∀ s, k.currentProcess = some s → (k.processTable s).used = true) :
    ∃ s, k.creator = some s ∧ (k.processTable s).used = true := by
  unfold Kernel.creator
  cases hc : k.currentProcess with
  | none => exact ⟨0, h.kernel, h.used⟩
  | some s => exact ⟨s, rfl, hcur s hc⟩

/-- A process is created by a living one, provided the current process is
alive. -/
theorem Grounded.creator_used {k k' : Kernel} (h : Grounded k) {e : Event} {p : Slot}
    (hcur : (∃ source, e = .fork source)
      ∨ ∀ s, k.currentProcess = some s → (k.processTable s).used = true)
    (hone : e.creations = 1) (hexec : e.exec k = .ok (.created (some p), k')) :
    ∃ s, e.creator k = some s ∧ (k.processTable s).used = true := by
  have hcurrent : (∀ source, e ≠ .fork source) →
      ∃ s, k.creator = some s ∧ (k.processTable s).used = true := fun hne =>
    h.current_creator (hcur.resolve_left fun ⟨source, heq⟩ => hne source heq)
  cases e with
  | createOwned owner function size => exact hcurrent fun _ => Event.noConfusion
  | execFn addr function size => exact hcurrent fun _ => Event.noConfusion
  | spawnDemoCounter owner seed limit => exact hcurrent fun _ => Event.noConfusion
  | fork source =>
      obtain ⟨⟨p', k1⟩, call, heq⟩ := map_eq_ok.mp hexec
      obtain ⟨hp, rfl⟩ := Prod.mk.inj heq
      obtain rfl := Reply.created.inj hp
      obtain ⟨s, rfl, hentry⟩ := forkProcess_source call
      refine ⟨s, rfl, ?_⟩
      by_contra hunused
      exact hentry (h.blank s (Bool.eq_false_iff.mpr hunused))
  | _ => cases hone

end Kfs
