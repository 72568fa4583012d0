import Kfs.ProcessWalks

/-!
# Parents and children

Who is whose child. A run is tracked with the pid of the process that
created each slot's occupant, since the parent pointer of a process is only
a slot and slots are reused. `KinOk` says that parent pointers, children
lists and creators agree.

`process_release` takes a process out of its parent's children but leaves
its own children alone. A process that is reaped before them leaves them
with a parent pointer to a free slot, and the next process created there
inherits them (`trackedRun_kinOk_fails`). As long as no process with children
is reaped, and nothing is created in the name of a process that is gone,
kinship holds along every run (`trackedRun_kinOk`).
-/

namespace Kfs

/-! ## Tracking creators -/

structure Tracked where
  kernel : Kernel
  creatorPid : Slot → Nat

/-- The pid of the process that an event creates others for. -/
def Event.creatorPid (k : Kernel) (e : Event) : Nat :=
  match e.creator k with
  | none => 0
  | some s => (k.processTable s).pid

/-- The creators after the event `e` led to `k`: a slot that was free and is
used now has been filled by `e`. -/
def Tracked.after (t : Tracked) (e : Event) (k : Kernel) : Tracked where
  kernel := k
  creatorPid q :=
    if (t.kernel.processTable q).used = false ∧ (k.processTable q).used = true then
      e.creatorPid t.kernel
    else t.creatorPid q

def TrackedStep (t : Tracked) (label : Event × Reply) (t' : Tracked) : Prop :=
  KernelStep t.kernel label t'.kernel ∧ t' = t.after label.1 t'.kernel

def trackedExec (t : Tracked) (e : Event) : Option (Reply × Tracked) :=
  (kernelExec t.kernel e).map fun x => (x.1, t.after e x.2)

theorem trackedExec_step ⦃t : Tracked⦄ ⦃e : Event⦄ ⦃r : Reply⦄ ⦃t' : Tracked⦄
    (h : trackedExec t e = some (r, t')) : TrackedStep t (e, r) t' := by
  obtain ⟨⟨r', k'⟩, hexec, heq⟩ := Option.map_eq_some_iff.mp h
  obtain ⟨rfl, rfl⟩ := Prod.mk.inj heq
  exact ⟨kernelExec_step hexec, rfl⟩

/-- The tracked state after `process_init`: no process has been created. -/
def trackedInit (vm : Vm) : Tracked := ⟨processInit vm, fun _ => 0⟩

/-! ## Kinship -/

structure KinOk (t : Tracked) : Prop where
  /-- The parent of a process lives, created it or is the kernel process, and
  has it once among its children. -/
  parents : ∀ p, some p ≠ t.kernel.kernelProcess → (t.kernel.processTable p).used = true →
    ∃ s, (t.kernel.processTable p).parent = some s ∧ (t.kernel.processTable s).used = true
      ∧ ((t.kernel.processTable s).pid = t.creatorPid p ∨ some s = t.kernel.kernelProcess)
      ∧ ∃ l, Linked t.kernel.siblingOf (t.kernel.processTable s).children l none ∧ l.count p = 1
  /-- The children of a process live and point back to it. -/
  children : ∀ s, ∃ l, Linked t.kernel.siblingOf (t.kernel.processTable s).children l none
    ∧ ∀ c ∈ l, (t.kernel.processTable c).used = true
      ∧ (t.kernel.processTable c).parent = some s
  /-- Only the kernel process reaps what it has not created. -/
  waits : ∀ w pid c exitCode k', some w ≠ t.kernel.kernelProcess →
    processWait t.kernel (some w) pid = .ok (.reaped c exitCode, k') →
    t.creatorPid c = (t.kernel.processTable w).pid

theorem LinkInv.kids_eq_nil {k : Kernel} {l : List Slot} {kids : Slot → List Slot}
    (h : LinkInv k l kids) {c : Slot} (hc : (k.processTable c).children = none) :
    kids c = [] := by
  have hlinked := h.kidsLinked c
  rw [hc] at hlinked
  cases hkids : kids c with
  | nil => rfl
  | cons x l =>
      rw [hkids] at hlinked
      cases hlinked.1

structure KinInv (k : Kernel) (creatorPid : Slot → Nat) (l : List Slot)
    (kids : Slot → List Slot) : Prop where
  links : LinkInv k l kids
  kin : ∀ p, p ≠ 0 → (k.processTable p).used = true →
    ∃ s, (k.processTable p).parent = some s ∧ (k.processTable s).used = true
      ∧ (k.processTable s).pid = creatorPid p ∧ p ∈ kids s
  ground : Grounded k

section Effects

variable {k k' : Kernel} {creatorPid : Slot → Nat} {l : List Slot} {kids : Slot → List Slot}
  (h : KinInv k creatorPid l kids)

include h

/-- Creators of free slots do not matter. -/
theorem KinInv.congr {creatorPid' : Slot → Nat}
    (hsame : ∀ p, (k.processTable p).used = true → creatorPid' p = creatorPid p) :
    KinInv k creatorPid' l kids := by
  refine ⟨h.links, ?_, h.ground⟩
  intro p hp hused
  rw [hsame p hused]
  exact h.kin p hp hused

theorem KinInv.tame (ht : Tame k k') : KinInv k' creatorPid l kids := by
  refine ⟨h.links.tame ht, ?_, h.ground.tame ht⟩
  intro p hp hused
  obtain ⟨s, hparent, hs, hpid, hmem⟩ := h.kin p hp ((ht.used p).symm.trans hused)
  exact ⟨s, (frame_parent (ht.frame p)).trans hparent, (ht.used s).trans hs,
    (frame_pid (ht.frame s)).trans hpid, hmem⟩

/-- A process created by a living one. -/
theorem KinInv.spawn {p s : Slot} {base : Nat} (hs : (k.processTable s).used = true)
    (hx : KernelEffect k (.spawn p (some s) base) k') :
    KinInv k' (Function.update creatorPid p (k.processTable s).pid) (l ++ [p])
      (kidsWith kids (some s) p) := by
  obtain ⟨-, hunused, ⟨owner, function, memory, hnew⟩, hcore⟩ := hx.spawn_table
  have hne : ∀ {q : Slot}, (k.processTable q).used = true → q ≠ p := by
    rintro q hq rfl
    rw [hq] at hunused
    cases hunused
  refine ⟨(h.links.spawned hx).2, ?_, h.ground.effect hx⟩
  intro q hq hused
  by_cases hqp : q = p
  · subst hqp
    refine ⟨s, core_parent hnew, (core_used (hcore s (hne hs))).trans hs, ?_, ?_⟩
    · rw [core_pid (hcore s (hne hs)), Function.update_self]
    · simp [kidsWith]
  · have hold := hcore q hqp
    obtain ⟨s', hparent, hs', hpid, hmem⟩ := h.kin q hq ((core_used hold).symm.trans hused)
    have hs'core := hcore s' (hne hs')
    refine ⟨s', (core_parent hold).trans hparent, (core_used hs'core).trans hs', ?_, ?_⟩
    · rw [core_pid hs'core, Function.update_of_ne hqp]
      exact hpid
    · unfold kidsWith
      rw [if_neg (hne hs')]
      split
      · exact List.mem_cons_of_mem p hmem
      · exact hmem

/-- A failed creation: nobody is a child of the slot it used. -/
theorem KinInv.miss {base : Nat} (hx : KernelEffect k (.miss base) k') :
    ∃ kids', KinInv k' creatorPid l kids' ∧ ∀ s, kids s = [] → kids' s = [] := by
  rcases h.links.missed hx with rfl | ⟨p, hunused, hlinks⟩
  · exact ⟨kids, h, fun _ hs => hs⟩
  · have hk := h.links.kernel
    have hcore : ∀ q, (k.processTable q).used = true →
        (k'.processTable q).core = (k.processTable q).core := fun q hq => hx.miss_core hk hq
    refine ⟨_, ⟨hlinks, ?_, h.ground.effect hx⟩, ?_⟩
    · intro q hq hused
      have hq' := (hx.miss_used hk q).symm.trans hused
      obtain ⟨s, hparent, hs, hpid, hmem⟩ := h.kin q hq hq'
      have hsp : s ≠ p := by
        rintro rfl
        rw [hs] at hunused
        cases hunused
      refine ⟨s, (core_parent (hcore q hq')).trans hparent, (core_used (hcore s hs)).trans hs,
        (core_pid (hcore s hs)).trans hpid, ?_⟩
      rw [if_neg hsp]
      exact hmem
    · intro s hs
      show (if s = p then [] else kids s) = []
      rw [hs]
      exact ite_self _

/-- A process without children is released. -/
theorem KinInv.release {c : Slot} (hkids : kids c = []) (hx : KernelEffect k (.release c) k') :
    KinInv k' creatorPid (l.erase c) (kidsWithout kids c) := by
  obtain ⟨hc, hzero, hcore⟩ := hx.release_table
  refine ⟨(h.links.released hx).2, ?_, h.ground.effect hx⟩
  intro q hq hused
  have hqc : q ≠ c := by
    rintro rfl
    rw [hzero] at hused
    cases hused
  have hold := hcore q hqc
  obtain ⟨s, hparent, hs, hpid, hmem⟩ := h.kin q hq ((core_used hold).symm.trans hused)
  have hsc : s ≠ c := by
    rintro rfl
    rw [hkids] at hmem
    cases hmem
  refine ⟨s, (core_parent hold).trans hparent, (core_used (hcore s hsc)).trans hs,
    (core_pid (hcore s hsc)).trans hpid, ?_⟩
  unfold kidsWithout
  rw [if_neg hsc]
  exact (List.mem_erase_of_ne hqc).mpr hmem

end Effects

/-! ## Steps -/

/-- Whether an event keeps kinship: it reaps no process that has children,
and creates none for a process that is gone. -/
def Event.keepsKin (k : Kernel) : Event → Prop
  | .wait parent pid => ∀ c, processGetByPid k pid = .ok (some c) →
      (parent = k.kernelProcess ∨ (k.processTable c).parent = parent) →
      (k.processTable c).status = .zombie → (k.processTable c).children = none
  | .createOwned .. => ∀ s, k.currentProcess = some s → (k.processTable s).used = true
  | .execFn .. => ∀ s, k.currentProcess = some s → (k.processTable s).used = true
  | .spawnDemoCounter .. => ∀ s, k.currentProcess = some s → (k.processTable s).used = true
  | .spawnDemoSocketPair .. => ∀ s, k.currentProcess = some s → (k.processTable s).used = true
  | _ => True

/-- A tracked step of an event that keeps kinship. -/
def KinStep (t : Tracked) (label : Event × Reply) (t' : Tracked) : Prop :=
  TrackedStep t label t' ∧ label.1.keepsKin t.kernel

/-! The creators are brought up to date effect by effect: `k1` is a state in
the middle of the event `e`. -/

section During

variable {t : Tracked} {e : Event} {k1 k2 : Kernel} {l : List Slot} {kids : Slot → List Slot}

theorem KinInv.start (h : KinInv t.kernel t.creatorPid l kids) :
    KinInv t.kernel (t.after e t.kernel).creatorPid l kids := by
  refine h.congr fun q _ => if_neg ?_
  intro hcond
  rw [hcond.1] at hcond
  cases hcond.2

/-- An effect that fills no slot. -/
theorem KinInv.after_shrink (h : KinInv k2 (t.after e k1).creatorPid l kids)
    (hused : ∀ q, (k2.processTable q).used = true → (k1.processTable q).used = true) :
    KinInv k2 (t.after e k2).creatorPid l kids := by
  refine h.congr ?_
  intro q hq
  unfold Tracked.after
  dsimp only
  rw [hq, hused q hq]

theorem KinInv.after_tame (h : KinInv k1 (t.after e k1).creatorPid l kids) (ht : Tame k1 k2) :
    KinInv k2 (t.after e k2).creatorPid l kids :=
  (h.tame ht).after_shrink fun q hq => (ht.used q).symm.trans hq

theorem KinInv.after_miss {base : Nat} (h : KinInv k1 (t.after e k1).creatorPid l kids)
    (hx : KernelEffect k1 (.miss base) k2) :
    ∃ kids', KinInv k2 (t.after e k2).creatorPid l kids' ∧ ∀ s, kids s = [] → kids' s = [] := by
  obtain ⟨kids', h', hnil⟩ := h.miss hx
  exact ⟨kids', h'.after_shrink fun q hq => (hx.miss_used h.links.kernel q).symm.trans hq, hnil⟩

theorem KinInv.after_release {c : Slot} (h : KinInv k1 (t.after e k1).creatorPid l kids)
    (hkids : kids c = []) (hx : KernelEffect k1 (.release c) k2) :
    KinInv k2 (t.after e k2).creatorPid (l.erase c) (kidsWithout kids c) := by
  obtain ⟨hc, -, hcore⟩ := hx.release_table
  refine (h.release hkids hx).after_shrink ?_
  intro q hq
  by_cases hqc : q = c
  · rw [hqc, hc]
  · exact (core_used (hcore q hqc)).symm.trans hq

theorem KinInv.after_spawn {p s : Slot} {base : Nat}
    (h : KinInv k1 (t.after e k1).creatorPid l kids)
    (hgrown : ∀ q, (t.kernel.processTable q).used = true → (k1.processTable q).used = true)
    (hs : (k1.processTable s).used = true)
    (hpid : (k1.processTable s).pid = e.creatorPid t.kernel)
    (hx : KernelEffect k1 (.spawn p (some s) base) k2) :
    KinInv k2 (t.after e k2).creatorPid (l ++ [p]) (kidsWith kids (some s) p) := by
  obtain ⟨-, hunused, -, hcore⟩ := hx.spawn_table
  refine (h.spawn hs hx).congr ?_
  intro q hq
  by_cases hqp : q = p
  · have hfree : (t.kernel.processTable p).used = false := by
      by_contra hused
      rw [hgrown p (Bool.not_eq_false _ ▸ hused)] at hunused
      cases hunused
    rw [hqp, Function.update_self, hpid]
    exact if_pos ⟨hfree, hqp ▸ hq⟩
  · rw [Function.update_of_ne hqp]
    unfold Tracked.after
    dsimp only
    rw [hq, (core_used (hcore q hqp)).symm.trans hq]

end During

theorem KinInv.step {t t' : Tracked} {l : List Slot} {kids : Slot → List Slot}
    {label : Event × Reply} (h : KinInv t.kernel t.creatorPid l kids)
    (hstep : KinStep t label t') : ∃ l' kids', KinInv t'.kernel t'.creatorPid l' kids' := by
  obtain ⟨⟨hkernel, htracked⟩, hsafe⟩ := hstep
  obtain ⟨e, r⟩ := label
  have hexec := hkernel.2
  rw [htracked]
  show ∃ l' kids', KinInv t'.kernel (t.after e t'.kernel).creatorPid l' kids'
  generalize t'.kernel = k' at *
  obtain ⟨effects, hrun, hshape⟩ := exec_shape h.links.kernel hexec
  have h0 := h.start (e := e)
  -- a creator keeps its slot and its pid while it creates
  have hcreate : ∀ {s : Slot}, e.creator t.kernel = some s →
      (t.kernel.processTable s).pid = e.creatorPid t.kernel := fun hs => by
    unfold Event.creatorPid
    rw [hs]
  cases hshape with
  | mild hmild => exact ⟨l, kids, h0.after_tame (MildRun.tame ⟨effects, hrun, hmild⟩)⟩
  | @spawned e p effects one hmild =>
      obtain ⟨k1, hx, hrest⟩ := hrun.uncons
      have hcur : (∃ source, e = .fork source)
          ∨ ∀ s, t.kernel.currentProcess = some s → (t.kernel.processTable s).used = true := by
        cases e <;> first | exact Or.inr hsafe | exact Or.inl ⟨_, rfl⟩ | cases one
      obtain ⟨s, hcreator, hs⟩ := h.ground.creator_used hcur one hexec
      rw [hcreator] at hx
      have h1 := h0.after_spawn (fun _ hq => hq) hs (hcreate hcreator) hx
      exact ⟨_, _, h1.after_tame (MildRun.tame ⟨effects, hrest, hmild⟩)⟩
  | missed one =>
      obtain ⟨k1, hx, hnil⟩ := hrun.uncons
      obtain rfl := hnil.eq_of_nil
      obtain ⟨kids', h1, -⟩ := h0.after_miss hx
      exact ⟨l, kids', h1⟩
  | @pair owner value a b effects hmild =>
      obtain ⟨k1, hx1, hrun⟩ := hrun.uncons
      obtain ⟨k2, hx2, hrest⟩ := hrun.uncons
      obtain ⟨s, hcreator, hs⟩ := h.ground.current_creator hsafe
      rw [hcreator] at hx1 hx2
      obtain ⟨-, hfree, -, hcore⟩ := hx1.spawn_table
      have hsame : ∀ q, (t.kernel.processTable q).used = true →
          (k1.processTable q).core = (t.kernel.processTable q).core := fun q hq => by
        refine hcore q ?_
        rintro rfl
        rw [hq] at hfree
        cases hfree
      have h1 := h0.after_spawn (fun _ hq => hq) hs (hcreate hcreator) hx1
      have h2 := h1.after_spawn (fun q hq => (core_used (hsame q hq)).trans hq)
        ((core_used (hsame s hs)).trans hs) ((core_pid (hsame s hs)).trans (hcreate hcreator)) hx2
      exact ⟨_, _, h2.after_tame (MildRun.tame ⟨effects, hrest, hmild⟩)⟩
  | pairMissed =>
      obtain ⟨k1, hx, hnil⟩ := hrun.uncons
      obtain rfl := hnil.eq_of_nil
      obtain ⟨kids', h1, -⟩ := h0.after_miss hx
      exact ⟨l, kids', h1⟩
  | @pairUndone owner value a =>
      obtain ⟨k1, hx1, hrun⟩ := hrun.uncons
      obtain ⟨k2, hx2, hrun⟩ := hrun.uncons
      obtain ⟨k3, hx3, hnil⟩ := hrun.uncons
      obtain rfl := hnil.eq_of_nil
      obtain ⟨s, hcreator, hs⟩ := h.ground.current_creator hsafe
      rw [hcreator] at hx1
      have h1 := h0.after_spawn (fun _ hq => hq) hs (hcreate hcreator) hx1
      obtain ⟨kids2, h2, hnil2⟩ := h1.after_miss hx2
      refine ⟨_, _, h2.after_release (hnil2 a ?_) hx3⟩
      have hsa : some s ≠ some a := by
        rintro ⟨⟩
        obtain ⟨-, hfree, -⟩ := hx1.spawn_table
        rw [hs] at hfree
        cases hfree
      unfold kidsWith
      rw [if_neg hsa, if_pos rfl]
  | waiting =>
      obtain ⟨k1, hx, hnil⟩ := hrun.uncons
      obtain rfl := hnil.eq_of_nil
      exact ⟨l, kids, h0.after_tame (hx.tame (Or.inr ⟨_, _, rfl⟩))⟩
  | @reaped parent pid c exitCode zombie found kin =>
      obtain ⟨k1, hx1, hrun⟩ := hrun.uncons
      obtain ⟨k2, hx2, hnil⟩ := hrun.uncons
      obtain rfl := hnil.eq_of_nil
      have h1 := h0.after_tame (hx1.tame (Or.inl trivial))
      exact ⟨_, _, h1.after_release (h.links.kids_eq_nil (hsafe c found kin zombie)) hx2⟩

/-! ## Runs -/

theorem kinInv_trackedInit (vm : Vm) :
    ∃ l kids, KinInv (trackedInit vm).kernel (trackedInit vm).creatorPid l kids := by
  obtain ⟨l, kids, hlinks⟩ := linkage_processInit vm
  refine ⟨l, kids, hlinks, ?_, grounded_processInit vm⟩
  intro p hp hused
  simp [trackedInit, processInit, hp, Process.zero] at hused

theorem KinInv.ok {t : Tracked} {l : List Slot} {kids : Slot → List Slot}
    (h : KinInv t.kernel t.creatorPid l kids) : KinOk t where
  parents p hp hused := by
    have hp0 : p ≠ 0 := by
      rintro rfl
      exact hp h.links.kernel.symm
    obtain ⟨s, hparent, hs, hpid, hmem⟩ := h.kin p hp0 hused
    exact ⟨s, hparent, hs, Or.inl hpid, kids s, h.links.kidsLinked s,
      List.count_eq_one_of_mem (h.links.kidsNodup s) hmem⟩
  children s := ⟨kids s, h.links.kidsLinked s, h.links.kidsMem s⟩
  waits w pid c exitCode k' hw hwait := by
    obtain ⟨hget, hkin, -⟩ := processWait_reaped hwait
    have hparent := hkin.resolve_left hw
    have hc0 : c ≠ 0 := by
      rintro rfl
      rw [h.ground.root] at hparent
      cases hparent
    obtain ⟨s, hs, -, hpid, -⟩ := h.kin c hc0 (processGetByPid_some hget).1
    obtain rfl := Option.some.inj (hparent.symm.trans hs)
    exact hpid.symm

/-- Kinship holds along every run of events that keep it. -/
theorem trackedRun_kinOk {vm : Vm} {labels : List (Event × Reply)} {t : Tracked}
    (hrun : Run KinStep (trackedInit vm) labels t) : KinOk t := by
  have hinv : ∃ l kids, KinInv t.kernel t.creatorPid l kids := by
    refine hrun.invariant (I := fun t => ∃ l kids, KinInv t.kernel t.creatorPid l kids)
      (kinInv_trackedInit vm) ?_
    rintro t label t' ⟨l, kids, h⟩ hstep
    exact h.step hstep
  obtain ⟨l, kids, h⟩ := hinv
  exact h.ok

instance (k : Kernel) : (e : Event) → Decidable (e.keepsKin k)
  | .wait parent pid => inferInstanceAs (Decidable (∀ c, processGetByPid k pid = .ok (some c) →
      (parent = k.kernelProcess ∨ (k.processTable c).parent = parent) →
      (k.processTable c).status = .zombie → (k.processTable c).children = none))
  | .createOwned .. => inferInstanceAs (Decidable (∀ s, k.currentProcess = some s → _))
  | .execFn .. => inferInstanceAs (Decidable (∀ s, k.currentProcess = some s → _))
  | .spawnDemoCounter .. => inferInstanceAs (Decidable (∀ s, k.currentProcess = some s → _))
  | .spawnDemoSocketPair .. => inferInstanceAs (Decidable (∀ s, k.currentProcess = some s → _))
  | .fork _ => .isTrue trivial
  | .exit _ _ => .isTrue trivial
  | .sendSignal .. => .isTrue trivial
  | .deliverSignal _ => .isTrue trivial
  | .socketSend .. => .isTrue trivial
  | .socketRecv _ => .isTrue trivial
  | .schedulerTick => .isTrue trivial
  | .schedule => .isTrue trivial
  | .yield => .isTrue trivial

def kinExec (t : Tracked) (e : Event) : Option (Reply × Tracked) :=
  if e.keepsKin t.kernel then trackedExec t e else none

theorem kinExec_step ⦃t : Tracked⦄ ⦃e : Event⦄ ⦃r : Reply⦄ ⦃t' : Tracked⦄
    (h : kinExec t e = some (r, t')) : KinStep t (e, r) t' := by
  unfold kinExec at h
  split at h
  · next hsafe => exact ⟨trackedExec_step h, hsafe⟩
  · cases h

/-- A process forks, and reaps its child before it is reaped itself. -/
theorem trackedRun_kinOk_fork :
    ∃ labels t, Run KinStep (trackedInit eightMegabytes) labels t ∧ KinOk t
      ∧ (t.kernel.processTable 3).parent = some 1 ∧ t.creatorPid 3 = 2 := by
  obtain ⟨t, hrun, hparent, hcreator⟩ := execRun_observe kinExec_step
    (trackedInit eightMegabytes)
    [.createOwned 0 (some (.other 0x150000)) 4096, .fork (some 1), .fork (some 1),
      .exit (some 2) 7, .wait (some 1) 3]
    [.created (some 1), .created (some 2), .created (some 3), .done, .waited (.reaped 2 7)]
    (fun t => (t.kernel.processTable 3).parent = some 1 ∧ t.creatorPid 3 = 2)
    (by decide +kernel)
  exact ⟨_, t, hrun, trackedRun_kinOk hrun, hparent, hcreator⟩

/-- A process forks and is reaped; another one is created in its slot and
becomes the parent of the orphan. -/
theorem trackedRun_kinOk_fails :
    ¬∀ (vm : Vm) (labels : List (Event × Reply)) (t : Tracked),
      Run TrackedStep (trackedInit vm) labels t → KinOk t := by
  intro hall
  obtain ⟨t, hrun, hused, hparent, hpid, hcreator, hkernel⟩ := execRun_observe trackedExec_step
    (trackedInit eightMegabytes)
    [.createOwned 0 (some (.other 0x150000)) 4096, .fork (some 1), .exit (some 1) 0,
      .wait (some 0) 2, .createOwned 0 (some (.other 0x150000)) 4096]
    [.created (some 1), .created (some 2), .done, .waited (.reaped 1 0), .created (some 1)]
    (fun t => (t.kernel.processTable 2).used = true
      ∧ (t.kernel.processTable 2).parent = some 1 ∧ (t.kernel.processTable 1).pid = 4
      ∧ t.creatorPid 2 = 2 ∧ t.kernel.kernelProcess = some 0) (by decide +kernel)
  obtain ⟨s, hs, -, hcreated, -⟩ :=
    (hall _ _ t hrun).parents 2 (by rw [hkernel]; decide) hused
  obtain rfl := Option.some.inj (hparent.symm.trans hs)
  rw [hpid, hcreator, hkernel] at hcreated
  rcases hcreated with hcreated | hcreated
  · cases hcreated
  · cases hcreated

end Kfs
