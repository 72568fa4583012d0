import Kfs.ProcessFork
import Kfs.Undisturbed

/-!
# What a command of the shell does to a slot

`fork_process`, the two demos, `process_wait` and `send_signal_to_process`
are all the shell calls. `SlotOutcome` has the three things such a call can
do to a slot: leave its process undisturbed, reap it, or start a process in a
free one; `shellCall_slot` says that there is no fourth.
-/

namespace Kfs

/-- How a process that a call started came to its function and to its
arguments. -/
inductive Starts (k k' : Kernel) (q : Slot) : Event × Reply → Prop where
  | counter {owner seed limit : Nat}
      (entry : (k'.processTable q).entry = some .demoCounterProcess)
      (arg0 : (k'.processTable q).runtimeArg0 = seed)
      (arg1 : (k'.processTable q).runtimeArg1 = limit) :
      Starts k k' q (.spawnDemoCounter owner seed limit, .created (some q))
  | receiver {owner value : Nat} {sender : Slot}
      (entry : (k'.processTable q).entry = some .demoSocketReceiverProcess) :
      Starts k k' q (.spawnDemoSocketPair owner value, .createdPair (some (sender, q)))
  | sender {owner value : Nat} {receiver : Slot}
      (entry : (k'.processTable q).entry = some .demoSocketSenderProcess)
      (arg0 : (k'.processTable q).runtimeArg0 = (k'.processTable receiver).pid)
      (arg1 : (k'.processTable q).runtimeArg1 = value) :
      Starts k k' q (.spawnDemoSocketPair owner value, .createdPair (some (q, receiver)))
  | fork {source : Slot} (live : k.Live source)
      (entry : (k'.processTable q).entry = (k.processTable source).entry)
      (arg0 : (k'.processTable q).runtimeArg0 = (k.processTable source).runtimeArg0)
      (arg1 : (k'.processTable q).runtimeArg1 = (k.processTable source).runtimeArg1) :
      Starts k k' q (.fork (some source), .created (some q))

/-- A process that has not run. -/
structure Unstarted (r : Process) : Prop where
  status : r.status = .ready
  runCount : r.runCount = 0
  lastSocketValue : r.lastSocketValue = 0
  sockets : r.processSocket = Process.zero.processSocket

inductive SlotOutcome (k k' : Kernel) (q : Slot) (label : Event × Reply) : Prop where
  | kept (undisturbed : Undisturbed k k' q)
  | reaped (reaps : reaps q label) (gone : ¬k'.Live q)
  | absent (before : ¬k.Live q) (after : ¬k'.Live q)
  | started (before : ¬k.Live q) (live : k'.Live q) (unstarted : Unstarted (k'.processTable q))
      (starts : Starts k k' q label)

section Frames

variable {base : Finset Nat} {total : Nat} {k k' : Kernel} {p q c : Slot}

/-- Bytes are written in frames that the process does not have. -/
theorem Touches.undisturbed {d : Directory} {touched : Finset Nat}
    (ht : Touches d touched k.vm k'.vm)
    (hapart : Disjoint (k.processTable q).memory.frames touched)
    (hcore : (k'.processTable q).core = (k.processTable q).core) : Undisturbed k k' q :=
  ⟨program_core hcore, .core hcore, fun x hx =>
    ht.mem x fun hin => Finset.disjoint_left.mp hapart hx hin⟩

/-! ## Creation -/

section Create

variable {parent : Option Slot} {owner b size : Nat} {function : Option ExecFn}

/-- A new process leaves the others undisturbed. -/
theorem Regions.spawn_undisturbed (h : Regions base total k)
    (call : processCreateInternal k parent owner b function size = .ok (some p, k'))
    (hfree : FreeWindow k.vm (baseOf b p)) (hq : k.Live q) : Undisturbed k k' q := by
  obtain ⟨-, hunused, vm, memory, table, head, -, heq, -, hcore⟩ := spawn_eq call
  obtain rfl : k'.processTable = table := congrArg Kernel.processTable heq
  obtain ⟨w, start, tab, frames, hspawned⟩ := h.spawned call hfree
  have hqp : q ≠ p := by
    rintro rfl
    exact not_live hunused hq
  exact hspawned.touches.undisturbed
    (Finset.disjoint_of_subset_left (h.used hq) hspawned.takes.fresh) (hcore q hqp)

/-- So does a creation that failed. -/
theorem Regions.miss_undisturbed (h : Regions base total k) (hk : k.kernelProcess = some 0)
    (call : processCreateInternal k parent owner b function size = .ok (none, k'))
    (hfree : ∀ p, FreeWindow k.vm (baseOf b p)) (hq : k.Live q) : Undisturbed k k' q := by
  rcases miss_eq hk call with rfl | ⟨p, vm, table, head, -, hunused, hmap, heq, -, hcore⟩
  · exact .refl _ q
  obtain rfl : k'.vm = vm := congrArg Kernel.vm heq
  obtain rfl : k'.processTable = table := congrArg Kernel.processTable heq
  rcases processMemoryMap_at h.ok h.lowUsed h.kernelDirectory (inWindow_of (hfree p).1)
    (hfree p).2 hmap with ⟨-, -, touched, hfresh, -, ht⟩ | ⟨htrue, -⟩
  · have hqp : q ≠ p := by
      rintro rfl
      exact not_live hunused hq
    exact ht.undisturbed (Finset.disjoint_of_subset_left (h.used hq) hfresh) (hcore q hqp)
  · cases htrue

theorem miss_live (hk : k.kernelProcess = some 0)
    (call : processCreateInternal k parent owner b function size = .ok (none, k')) :
    k'.Live q ↔ k.Live q := by
  unfold Kernel.Live
  rw [(KernelEffect.miss call).miss_used hk q]

theorem spawn_live
    (call : processCreateInternal k parent owner b function size = .ok (some p, k')) :
    k'.Live q ↔ k.Live q ∨ q = p := by
  obtain ⟨hp, hunused, ⟨_, _, _, hnew⟩, hcore⟩ := (KernelEffect.spawn call).spawn_table
  by_cases hqp : q = p
  · subst hqp
    exact ⟨fun _ => Or.inr rfl, fun _ => ⟨hp, core_used hnew⟩⟩
  · unfold Kernel.Live
    rw [core_used (hcore q hqp)]
    exact ⟨Or.inl, fun h => h.resolve_right hqp⟩

/-- The record of a new process. -/
theorem spawn_record
    (call : processCreateInternal k parent owner b function size = .ok (some p, k')) :
    Unstarted (k'.processTable p) ∧ (k'.processTable p).entry = function := by
  obtain ⟨-, -, vm, memory, table, head, -, heq, hnew, -⟩ := spawn_eq call
  obtain rfl : k'.processTable = table := congrArg Kernel.processTable heq
  have hfield {α : Type} (g : Process → α) (hg : ∀ r : Process, g r.core = g r) :=
    core_field g hg hnew
  exact ⟨⟨hfield Process.status fun _ => rfl, hfield Process.runCount fun _ => rfl,
    hfield Process.lastSocketValue fun _ => rfl, hfield Process.processSocket fun _ => rfl⟩,
    hfield Process.entry fun _ => rfl⟩

end Create

/-! ## Reaping -/

/-- A release writes in the page table of the process that goes. -/
theorem Regions.release_undisturbed (h : Regions base total k) (hk : k.kernelProcess = some 0)
    (hc : k.Live c) (call : processRelease k c = .ok k') (hq : k.Live q) (hqc : q ≠ c) :
    Undisturbed k k' q := by
  have hkernel : some c ≠ k.kernelProcess := by
    rw [hk]
    exact fun heq => hc.1 (Option.some.inj heq)
  obtain ⟨table, head, heq, -, hcore⟩ := processRelease_eq hkernel call
  have hvm : k'.vm = vmWithout k c := congrArg Kernel.vm heq
  obtain rfl : k'.processTable = table := congrArg Kernel.processTable heq
  obtain ⟨b, w, start, tab, frames, hspace⟩ := h.spaces c hc
  have hlt := (hspace.small tab List.mem_cons_self).2
  have ht := (processReleaseMemory_spec h.ok hspace.placed hspace.window
    hspace.frames_eq.2 hspace.mounted.entry (by omega)).1
  rw [show (processReleaseMemory k.vm (k.processTable c).memory).1 = k'.vm from hvm.symm] at ht
  refine ht.undisturbed ?_ (hcore q hqc)
  rw [Finset.disjoint_singleton_right]
  exact fun hin => Finset.disjoint_left.mp (h.apart hq hc hqc) hin hspace.table_mem

theorem release_live (hk : k.kernelProcess = some 0) (hc : c ≠ 0)
    (call : processRelease k c = .ok k') : k'.Live q ↔ k.Live q ∧ q ≠ c := by
  have hkernel : some c ≠ k.kernelProcess := by
    rw [hk]
    exact fun heq => hc (Option.some.inj heq)
  obtain ⟨table, head, rfl, hzero, hcore⟩ := processRelease_eq hkernel call
  unfold Kernel.Live
  by_cases hqc : q = c
  · subst hqc
    dsimp only
    rw [hzero]
    exact ⟨fun ⟨_, hused⟩ => (by cases hused), fun hlive => absurd rfl hlive.2⟩
  · dsimp only
    rw [core_used (hcore q hqc)]
    exact ⟨fun hlive => ⟨hlive, hqc⟩, And.left⟩

theorem waitFor_undisturbed (k : Kernel) (hk : k.kernelProcess = some 0) (pid : Nat) (q : Slot) :
    Undisturbed k (waitFor k (some 0) pid) q := by
  unfold waitFor
  dsimp only
  rw [if_pos hk.symm]
  exact .assign k q 0 rfl (Or.inl rfl) rfl

theorem stopWaiting_undisturbed (k : Kernel) (parent : Option Slot) (q : Slot) :
    Undisturbed k (stopWaiting k parent) q := by
  unfold stopWaiting
  cases parent with
  | none => exact .refl k q
  | some p =>
      dsimp only
      split
      · next hwaiting =>
          refine Undisturbed.assign k q p rfl (Or.inr ⟨rfl, ?_⟩) rfl
          rw [hwaiting]
          exact fun heq => by cases heq
      · exact .refl k q

end Frames

/-! ## The calls -/

section Calls

variable {base : Finset Nat} {total : Nat} {k k' : Kernel}

/-- Processes at the default bases. -/
theorem freeWindow_default (h : k.vm.directories .kernel 8 &&& pagePresent = 0) (p : Slot) :
    FreeWindow k.vm (baseOf 0 p) := by
  rw [baseOf_zero]
  exact freeWindow_slot h p

/-- A slot whose process is undisturbed if there is one, and that gets
none. -/
theorem SlotOutcome.of_live {q : Slot} {label : Event × Reply} (hlive : k'.Live q ↔ k.Live q)
    (h : k.Live q → Undisturbed k k' q) : SlotOutcome k k' q label := by
  by_cases hq : k.Live q
  · exact .kept (h hq)
  · exact .absent hq (hlive.not.mpr hq)

section Spawns

variable {owner : Nat}

theorem processSpawnDemoCounter_slot (h : Regions base total k) (hk : k.kernelProcess = some 0)
    (hvacant : k.vm.directories .kernel 8 &&& pagePresent = 0) {seed limit : Nat}
    {p : Option Slot} (call : processSpawnDemoCounter k owner seed limit = .ok (p, k')) (q : Slot) :
    SlotOutcome k k' q (.spawnDemoCounter owner seed limit, .created p) := by
  have hfree := freeWindow_default hvacant
  obtain ⟨⟨child, k1⟩, hcreate, call⟩ := bind_eq_ok.mp call
  cases child with
  | none =>
      obtain ⟨rfl, rfl⟩ := Prod.mk.inj (Except.ok.inj call)
      exact .of_live (miss_live hk hcreate) fun hq => h.miss_undisturbed hk hcreate hfree hq
  | some child =>
      obtain ⟨rfl, rfl⟩ := Prod.mk.inj (Except.ok.inj call)
      have hlive := fun q => spawn_live (q := q) hcreate
      have hunused := (KernelEffect.spawn hcreate).spawn_table.2.1
      by_cases hqc : q = child
      · subst hqc
        obtain ⟨hunstarted, hentry⟩ := spawn_record hcreate
        have hchild := (hlive q).mpr (Or.inr rfl)
        refine .started (not_live hunused) ⟨hchild.1, ?_⟩ ?_ (.counter ?_ ?_ ?_) <;>
          rw [modify_self]
        · exact hchild.2
        · exact ⟨hunstarted.status, hunstarted.runCount, hunstarted.lastSocketValue,
            hunstarted.sockets⟩
        · exact hentry
      · refine .of_live ?_ fun hq => (h.spawn_undisturbed hcreate (hfree child) hq).trans
          (.modify_ne k1 hqc _)
        rw [(Undisturbed.modify_ne k1 hqc _).live, hlive]
        simp [hqc]

section Pair

variable {value : Nat} {receiver : Slot} {k1 k2 : Kernel}

/-- Without a sender the receiver goes again. -/
theorem receiver_released (h : Regions base total k) (hk : k.kernelProcess = some 0)
    (hvacant : k.vm.directories .kernel 8 &&& pagePresent = 0)
    (hfirst : processCreateOwned k owner (some .demoSocketReceiverProcess) 4096
      = .ok (some receiver, k1))
    (hsecond : processCreateOwned k1 owner (some .demoSocketSenderProcess) 4096 = .ok (none, k2))
    (hrelease : processRelease k2 receiver = .ok k') (q : Slot) :
    (k'.Live q ↔ k.Live q) ∧ (k.Live q → Undisturbed k k' q) := by
  have hfree := freeWindow_default hvacant
  have hspawn := KernelEffect.spawn hfirst
  have hout := h.spawn hspawn (hfree receiver)
  have hk1 : k1.kernelProcess = some 0 := (Move.create hfirst).kernel hk
  have hk2 : k2.kernelProcess = some 0 := (Move.create hsecond).kernel hk1
  have hfree1 := freeWindow_default (hout.spares.kernel ▸ hvacant)
  have hlive1 := fun q => spawn_live (q := q) hfirst
  have hlive2 := fun q => miss_live (q := q) hk1 hsecond
  have hreceiver := (hlive1 receiver).mpr (Or.inr rfl)
  have hne : k.Live q → q ≠ receiver := by
    rintro hq rfl
    exact not_live hspawn.spawn_table.2.1 hq
  obtain ⟨base2, hout2⟩ := hout.regions.miss hk1 (.miss hsecond) hfree1
  refine ⟨?_, fun hq => ?_⟩
  · rw [release_live hk2 hreceiver.1 hrelease, hlive2, hlive1]
    exact ⟨fun hq => hq.1.resolve_right hq.2, fun hq => ⟨Or.inl hq, hne hq⟩⟩
  · have hq1 := (hlive1 q).mpr (Or.inl hq)
    exact ((h.spawn_undisturbed hfirst (hfree receiver) hq).trans
      (hout.regions.miss_undisturbed hk1 hsecond hfree1 hq1)).trans
      (hout2.regions.release_undisturbed hk2 ((hlive2 receiver).mpr hreceiver) hrelease
        ((hlive2 q).mpr hq1) (hne hq))

/-- Both processes start, and the sender knows the receiver. -/
theorem pair_started (h : Regions base total k)
    (hvacant : k.vm.directories .kernel 8 &&& pagePresent = 0) {sender : Slot}
    (hfirst : processCreateOwned k owner (some .demoSocketReceiverProcess) 4096
      = .ok (some receiver, k1))
    (hsecond : processCreateOwned k1 owner (some .demoSocketSenderProcess) 4096
      = .ok (some sender, k2)) (q : Slot) :
    SlotOutcome k
      (k2.modify sender fun r => { r with
        runtimeArg0 := (k2.processTable receiver).pid
        runtimeArg1 := value }) q
      (.spawnDemoSocketPair owner value, .createdPair (some (sender, receiver))) := by
  have hfree := freeWindow_default hvacant
  have hspawn := KernelEffect.spawn hfirst
  have hout := h.spawn hspawn (hfree receiver)
  have hfree1 := freeWindow_default (hout.spares.kernel ▸ hvacant)
  have hlive1 := fun q => spawn_live (q := q) hfirst
  have hunused := hspawn.spawn_table.2.1
  have hreceiver := (hlive1 receiver).mpr (Or.inr rfl)
  have hspawn2 := KernelEffect.spawn hsecond
  have hunused2 := hspawn2.spawn_table.2.1
  have hlive2 := fun q => spawn_live (q := q) hsecond
  have hsr : receiver ≠ sender := by
    rintro rfl
    exact not_live hunused2 hreceiver
  by_cases hqs : q = sender
  · subst hqs
    obtain ⟨hunstarted, hentry⟩ := spawn_record hsecond
    have hsender := (hlive2 q).mpr (Or.inr rfl)
    refine .started (fun hq => not_live hunused2 ((hlive1 q).mpr (Or.inl hq)))
      ⟨hsender.1, ?_⟩ ?_ (.sender ?_ ?_ ?_)
    · rw [modify_self]
      exact hsender.2
    · rw [modify_self]
      exact ⟨hunstarted.status, hunstarted.runCount, hunstarted.lastSocketValue,
        hunstarted.sockets⟩
    · rw [modify_self]
      exact hentry
    · rw [modify_self, modify_of_ne _ _ _ hsr]
    · rw [modify_self]
  have hlast := Undisturbed.modify_ne k2 hqs
    fun r => { r with
      runtimeArg0 := (k2.processTable receiver).pid
      runtimeArg1 := value }
  by_cases hqr : q = receiver
  · subst hqr
    obtain ⟨hunstarted, hentry⟩ := spawn_record hfirst
    have hkept := hspawn2.spawn_table.2.2.2 q hsr
    have hfield {α : Type} (g : Process → α) (hg : ∀ r : Process, g r.core = g r) :=
      core_field g hg hkept
    refine .started (not_live hunused)
      (hlast.live.mpr ((hlive2 q).mpr (Or.inl hreceiver))) ?_ (.receiver ?_)
    · rw [modify_of_ne _ _ _ hsr]
      exact ⟨(hfield Process.status fun _ => rfl).trans hunstarted.status,
        (hfield Process.runCount fun _ => rfl).trans hunstarted.runCount,
        (hfield Process.lastSocketValue fun _ => rfl).trans hunstarted.lastSocketValue,
        (hfield Process.processSocket fun _ => rfl).trans hunstarted.sockets⟩
    · rw [modify_of_ne _ _ _ hsr]
      exact (core_entry hkept).trans hentry
  · refine .of_live ?_ fun hq => ?_
    · rw [hlast.live, hlive2, hlive1]
      simp [hqs, hqr]
    · exact ((h.spawn_undisturbed hfirst (hfree receiver) hq).trans
        (hout.regions.spawn_undisturbed hsecond (hfree1 sender)
          ((hlive1 q).mpr (Or.inl hq)))).trans hlast

end Pair

theorem processSpawnDemoSocketPair_slot (h : Regions base total k) (hk : k.kernelProcess = some 0)
    (hvacant : k.vm.directories .kernel 8 &&& pagePresent = 0) {value : Nat}
    {pair : Option (Slot × Slot)}
    (call : processSpawnDemoSocketPair k owner value = .ok (pair, k')) (q : Slot) :
    SlotOutcome k k' q (.spawnDemoSocketPair owner value, .createdPair pair) := by
  obtain ⟨⟨first, k1⟩, hfirst, call⟩ := bind_eq_ok.mp call
  cases first with
  | none =>
      obtain ⟨rfl, rfl⟩ := Prod.mk.inj (Except.ok.inj call)
      exact .of_live (miss_live hk hfirst) fun hq =>
        h.miss_undisturbed hk hfirst (freeWindow_default hvacant) hq
  | some receiver =>
      obtain ⟨⟨second, k2⟩, hsecond, call⟩ := bind_eq_ok.mp call
      cases second with
      | none =>
          obtain ⟨k3, hrelease, call⟩ := bind_eq_ok.mp call
          obtain ⟨rfl, rfl⟩ := Prod.mk.inj (Except.ok.inj call)
          obtain ⟨hlive, hundisturbed⟩ := receiver_released h hk hvacant hfirst hsecond hrelease q
          exact .of_live hlive hundisturbed
      | some sender =>
          obtain ⟨rfl, rfl⟩ := Prod.mk.inj (Except.ok.inj call)
          exact pair_started h hvacant hfirst hsecond q

end Spawns

/-! ### Fork -/

theorem forkProcess_none {source : Option Slot} (call : forkProcess k source = .ok (none, k')) :
    k' = k ∨ ∃ parent owner function size,
      processCreateInternal k parent owner 0 function size = .ok (none, k') := by
  unfold forkProcess at call
  cases source with
  | none => exact Or.inl (Prod.mk.inj (Except.ok.inj call)).2.symm
  | some source =>
      dsimp only at call
      split at call
      · exact Or.inl (Prod.mk.inj (Except.ok.inj call)).2.symm
      · obtain ⟨⟨child, k1⟩, hcreate, call⟩ := bind_eq_ok.mp call
        cases child with
        | none =>
            obtain ⟨-, rfl⟩ := Prod.mk.inj (Except.ok.inj call)
            exact Or.inr ⟨_, _, _, _, hcreate⟩
        | some child => cases (Prod.mk.inj (Except.ok.inj call)).1

theorem live_withVm (k : Kernel) (vm : Vm) (q : Slot) :
    ({ k with vm := vm } : Kernel).Live q ↔ k.Live q := Iff.rfl

/-- The pages of the child are written, and they are new. -/
theorem Regions.copy_undisturbed {c q : Slot} {source : ProcessMemory} {b w start table : Nat}
    {frames : List Nat} {vm : Vm} (h : Regions base total k)
    (hspawned : Spawned k k' c b w start table frames) (hq : k.Live q)
    (hkept : Undisturbed k k' q)
    (hvm : vm = copyPages (k'.processTable c).memory source k'.vm) :
    Undisturbed k' { k' with vm := vm } q := by
  subst hvm
  refine ⟨rfl, .refl _, fun x hx => copyPages_outside fun hin => ?_⟩
  rw [frames_layout hkept.layout] at hx
  exact Finset.disjoint_left.mp
    (Finset.disjoint_of_subset_left (h.used hq) hspawned.takes.fresh) hx
    (hspawned.space.inPages hin).1

theorem forkProcess_slot (h : Regions base total k) (hg : Grounded k)
    (hvacant : k.vm.directories .kernel 8 &&& pagePresent = 0) {source p : Option Slot}
    (call : forkProcess k source = .ok (p, k')) (q : Slot) :
    SlotOutcome k k' q (.fork source, .created p) := by
  have hk := hg.kernel
  have hfree := freeWindow_default hvacant
  cases p with
  | none =>
      rcases forkProcess_none call with rfl | ⟨_, _, _, _, hcreate⟩
      · exact .of_live Iff.rfl fun _ => .refl _ q
      · exact .of_live (miss_live hk hcreate) fun hq => h.miss_undisturbed hk hcreate hfree hq
  | some c =>
      obtain ⟨s, rfl, hentry⟩ := forkProcess_source call
      have hsource : k.Live s := by
        refine ⟨?_, ?_⟩
        · rintro rfl
          unfold forkProcess at call
          dsimp only at call
          rw [if_pos (Or.inl hk.symm)] at call
          cases (Prod.mk.inj (Except.ok.inj call)).1
        · by_contra hunused
          exact hentry (hg.blank s (Bool.eq_false_iff.mpr hunused))
      obtain ⟨k1, hcreate, rfl⟩ := forkProcess_some call
      obtain ⟨w, start, tab, frames, hspawned⟩ := h.spawned hcreate (hfree c)
      have hspawn := KernelEffect.spawn hcreate
      have hunused := hspawn.spawn_table.2.1
      have hlive := fun q => spawn_live (q := q) hcreate
      have hcs : s ≠ c := by
        rintro rfl
        exact not_live hunused hsource
      by_cases hqc : q = c
      · subst hqc
        obtain ⟨hunstarted, hfunction⟩ := spawn_record hcreate
        have hchild := (hlive q).mpr (Or.inr rfl)
        have hsame := program_core (hspawn.spawn_table.2.2.2 s hcs)
        refine .started (not_live hunused) ⟨hchild.1, ?_⟩ ?_ (.fork hsource ?_ ?_ ?_) <;>
          rw [modify_self]
        · exact hchild.2
        · exact ⟨rfl, hunstarted.runCount, hunstarted.lastSocketValue, hunstarted.sockets⟩
        · exact hfunction
        · exact program_field hsame Process.runtimeArg0 fun _ => rfl
        · exact program_field hsame Process.runtimeArg1 fun _ => rfl
      · refine .of_live ?_ fun hq => ?_
        · rw [(Undisturbed.modify_ne _ hqc _).live, live_withVm, hlive]
          simp [hqc]
        · have hkept := h.spawn_undisturbed hcreate (hfree c) hq
          exact (hkept.trans (h.copy_undisturbed hspawned hq hkept rfl)).trans
            (.modify_ne _ hqc _)

/-! ### Wait and signals -/

theorem processWait_slot (h : Regions base total k) (hk : k.kernelProcess = some 0) {pid : Nat}
    {result : WaitResult} (call : processWait k (some 0) pid = .ok (result, k')) (q : Slot) :
    SlotOutcome k k' q (.wait (some 0) pid, .waited result) := by
  obtain ⟨child, hget, call⟩ := bind_eq_ok.mp call
  cases child with
  | none =>
      obtain ⟨rfl, rfl⟩ := Prod.mk.inj (Except.ok.inj call)
      exact .kept (.refl _ q)
  | some c =>
      have hused := (processGetByPid_some hget).1
      dsimp only at call
      split at call
      · obtain ⟨rfl, rfl⟩ := Prod.mk.inj (Except.ok.inj call)
        exact .kept (.refl _ q)
      · split at call
        · obtain ⟨rfl, rfl⟩ := Prod.mk.inj (Except.ok.inj call)
          exact .kept (waitFor_undisturbed k hk pid q)
        · obtain ⟨k1, hrelease, call⟩ := bind_eq_ok.mp call
          obtain ⟨rfl, rfl⟩ := Prod.mk.inj (Except.ok.inj call)
          have htame := stopWaiting_tame k (some 0)
          have hk1 := htame.kernel.trans hk
          have hstopped := fun q => stopWaiting_undisturbed k (some 0) q
          by_cases hc : c = 0
          · -- the kernel process is not released
            unfold processRelease at hrelease
            rw [if_pos (by rw [hc, hk1])] at hrelease
            obtain rfl := Except.ok.inj hrelease
            exact .kept (hstopped q)
          · have hlive : (stopWaiting k (some 0)).Live c := (hstopped c).live.mpr ⟨hc, hused⟩
            have hgone := release_live (q := q) hk1 hc hrelease
            by_cases hqc : q = c
            · subst hqc
              exact .reaped ⟨_, rfl⟩ fun hq => (hgone.mp hq).2 rfl
            · refine .of_live ?_ fun hq => ?_
              · rw [hgone, (hstopped q).live]
                simp [hqc]
              · exact (hstopped q).trans ((h.tame htame fun _ => False).regions.release_undisturbed
                  hk1 hlive hrelease ((hstopped q).live.mpr hq) hqc)

/-- The outcomes of a command of the shell. -/
theorem shellCall_slot (h : Regions base total k) (hg : Grounded k)
    (hvacant : k.vm.directories .kernel 8 &&& pagePresent = 0) {e : Event} {r : Reply}
    (hshell : e.byShell) (hexec : e.exec k = .ok (r, k')) (q : Slot) :
    SlotOutcome k k' q (e, r) := by
  cases e with
  | fork source =>
      obtain ⟨p, rfl, call⟩ := map_reply_eq_ok.mp hexec
      exact forkProcess_slot h hg hvacant call q
  | spawnDemoCounter owner seed limit =>
      obtain ⟨p, rfl, call⟩ := map_reply_eq_ok.mp hexec
      exact processSpawnDemoCounter_slot h hg.kernel hvacant call q
  | spawnDemoSocketPair owner value =>
      obtain ⟨pair, rfl, call⟩ := map_reply_eq_ok.mp hexec
      exact processSpawnDemoSocketPair_slot h hg.kernel hvacant call q
  | wait parent pid =>
      obtain ⟨result, rfl, call⟩ := map_reply_eq_ok.mp hexec
      obtain rfl : parent = some 0 := hshell
      exact processWait_slot h hg.kernel call q
  | sendSignal sender pid signal value =>
      obtain ⟨ok, rfl, call⟩ := map_reply_eq_ok.mp hexec
      exact .kept (sendSignalToProcess_undisturbed call)
  | _ => cases hshell

/-! ### Replies -/

/-- A process that a call returned is new. -/
theorem shellCall_created {e : Event} {p : Slot} (hshell : e.byShell)
    (hexec : e.exec k = .ok (.created (some p), k')) : ¬k.Live p ∧ k'.Live p := by
  have hnew : ∀ {k1 : Kernel} {parent : Option Slot} {owner size : Nat}
      {function : Option ExecFn}, processCreateInternal k parent owner 0 function size
        = .ok (some p, k1) → ¬k.Live p ∧ k1.Live p := fun hcreate =>
    ⟨not_live (KernelEffect.spawn hcreate).spawn_table.2.1, (spawn_live hcreate).mpr (Or.inr rfl)⟩
  cases e with
  | fork source =>
      obtain ⟨q, hq, call⟩ := map_reply_eq_ok.mp hexec
      obtain rfl := Reply.created.inj hq
      obtain ⟨s, rfl, -⟩ := forkProcess_source call
      obtain ⟨k1, hcreate, rfl⟩ := forkProcess_some call
      obtain ⟨hbefore, hafter⟩ := hnew hcreate
      refine ⟨hbefore, hafter.1, ?_⟩
      rw [modify_self]
      exact hafter.2
  | spawnDemoCounter owner seed limit =>
      obtain ⟨q, hq, call⟩ := map_reply_eq_ok.mp hexec
      obtain rfl := Reply.created.inj hq
      obtain ⟨⟨child, k1⟩, hcreate, call⟩ := bind_eq_ok.mp call
      cases child with
      | none => cases (Prod.mk.inj (Except.ok.inj call)).1
      | some child =>
          obtain ⟨hchild, rfl⟩ := Prod.mk.inj (Except.ok.inj call)
          obtain rfl := Option.some.inj hchild
          obtain ⟨hbefore, hafter⟩ := hnew hcreate
          refine ⟨hbefore, hafter.1, ?_⟩
          rw [modify_self]
          exact hafter.2
  | spawnDemoSocketPair owner value =>
      obtain ⟨pair, hpair, -⟩ := map_reply_eq_ok.mp hexec
      cases hpair
  | wait parent pid =>
      obtain ⟨result, hresult, -⟩ := map_reply_eq_ok.mp hexec
      cases hresult
  | sendSignal sender pid signal value =>
      obtain ⟨ok, hok, -⟩ := map_reply_eq_ok.mp hexec
      cases hok
  | _ => cases hshell

/-- The pair of processes that a call returned; the receiver has the next
pid. -/
theorem shellCall_createdPair {e : Event} {sender receiver : Slot} (hshell : e.byShell)
    (hexec : e.exec k = .ok (.createdPair (some (sender, receiver)), k')) :
    sender ≠ receiver ∧ (¬k.Live sender ∧ k'.Live sender) ∧ (¬k.Live receiver ∧ k'.Live receiver)
      ∧ (k'.processTable receiver).pid = k.nextPid := by
  cases e with
  | spawnDemoSocketPair owner value =>
      obtain ⟨pair, hpair, call⟩ := map_reply_eq_ok.mp hexec
      obtain rfl := Reply.createdPair.inj hpair
      obtain ⟨⟨first, k1⟩, hfirst, call⟩ := bind_eq_ok.mp call
      cases first with
      | none => cases (Prod.mk.inj (Except.ok.inj call)).1
      | some r =>
          obtain ⟨⟨second, k2⟩, hsecond, call⟩ := bind_eq_ok.mp call
          cases second with
          | none =>
              obtain ⟨k3, -, call⟩ := bind_eq_ok.mp call
              cases (Prod.mk.inj (Except.ok.inj call)).1
          | some s =>
              obtain ⟨hs, rfl⟩ := Prod.mk.inj (Except.ok.inj call)
              obtain ⟨rfl, rfl⟩ := Prod.mk.inj (Option.some.inj hs)
              have hspawn := (KernelEffect.spawn hfirst).spawn_table
              have hspawn2 := (KernelEffect.spawn hsecond).spawn_table
              have hlive1 := fun q => spawn_live (q := q) hfirst
              have hlive2 := fun q => spawn_live (q := q) hsecond
              have hreceiver := (hlive1 r).mpr (Or.inr rfl)
              have hne : s ≠ r := by
                rintro rfl
                exact not_live hspawn2.2.1 hreceiver
              have hafter : ∀ {q : Slot}, k2.Live q →
                  (k2.modify s fun record => { record with
                    runtimeArg0 := (k2.processTable r).pid
                    runtimeArg1 := value }).Live q := fun {q} hq => by
                refine ⟨hq.1, ?_⟩
                rw [modify_keeps Process.used rfl]
                exact hq.2
              refine ⟨hne, ⟨fun hq => not_live hspawn2.2.1 ((hlive1 _).mpr (Or.inl hq)),
                hafter ((hlive2 _).mpr (Or.inr rfl))⟩, ⟨not_live hspawn.2.1,
                hafter ((hlive2 _).mpr (Or.inl hreceiver))⟩, ?_⟩
              obtain ⟨_, _, _, hnew⟩ := hspawn.2.2.1
              rw [modify_of_ne _ _ _ hne.symm, core_pid (hspawn2.2.2.2 _ hne.symm)]
              exact core_pid hnew
  | fork source =>
      obtain ⟨q, hq, -⟩ := map_reply_eq_ok.mp hexec
      cases hq
  | spawnDemoCounter owner seed limit =>
      obtain ⟨q, hq, -⟩ := map_reply_eq_ok.mp hexec
      cases hq
  | wait parent pid =>
      obtain ⟨result, hresult, -⟩ := map_reply_eq_ok.mp hexec
      cases hresult
  | sendSignal sender pid signal value =>
      obtain ⟨ok, hok, -⟩ := map_reply_eq_ok.mp hexec
      cases hok
  | _ => cases hshell

end Calls

end Kfs
