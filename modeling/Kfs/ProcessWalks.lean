import Mathlib.Logic.Function.Iterate
import Kfs.ProcessTable

/-!
# Every walk ends

Each loop of the process code walks a list of the table. On a table that is
linked up the walks end, so no event gets caught in a loop
(`Linkage.returns`); the only way an event does not come back is the panic
of the paging code. The scheduler's loop is the one walk in a circle: it
follows `next` and goes on at the head of the list, and meets its starting
point after as many rounds as the list has members.
-/

namespace Kfs

/-- The computation comes back or panics. -/
def Returns {α : Type} (x : Except Fault α) : Prop := x ≠ .error .diverge

theorem returns_ok {α : Type} (a : α) : Returns (.ok a : Except Fault α) := by
  intro h
  cases h

theorem returns_of_eq {α : Type} {x : Except Fault α} {a : α} (h : x = .ok a) : Returns x := by
  rw [h]
  exact returns_ok a

theorem Returns.bind {α β : Type} {x : Except Fault α} {f : α → Except Fault β} (hx : Returns x)
    (hf : ∀ a, x = .ok a → Returns (f a)) : Returns (x >>= f) := by
  cases x with
  | error e =>
      intro h
      cases h
      exact hx rfl
  | ok a => exact hf a rfl

theorem Returns.map {α β : Type} {x : Except Fault α} {f : α → β} (hx : Returns x) :
    Returns (x.map f) := by
  cases x with
  | error e =>
      intro h
      cases h
      exact hx rfl
  | ok a => exact returns_ok _

/-! ## Creation -/

theorem pagingMapPageInDirectory_returns (vm : Vm) (directory : Option Directory)
    (virt phys flags : Nat) : Returns (pagingMapPageInDirectory vm directory virt phys flags) := by
  cases directory with
  | none => exact returns_ok _
  | some d =>
      refine Returns.bind ?_ fun _ _ => returns_ok _
      unfold pagingGetOrCreateTable
      dsimp only
      split
      · split
        · intro h
          cases h
        · exact returns_ok _
      · exact returns_ok _

theorem allocProcessPage_returns (vm : Vm) (memory : ProcessMemory) (virtualPage : Nat) :
    Returns (allocProcessPage vm memory virtualPage) := by
  unfold allocProcessPage
  dsimp only
  split
  · exact returns_ok _
  · exact (pagingMapPageInDirectory_returns _ _ _ _ _).bind fun _ _ => returns_ok _

theorem mapOrRelease_returns {start : Nat} {field : ProcessMemory → Nat → ProcessMemory} {vm : Vm}
    {memory : ProcessMemory}
    {next : Vm → ProcessMemory → Except Fault (Bool × Vm × ProcessMemory)}
    (hnext : ∀ vm memory, Returns (next vm memory)) :
    Returns (mapOrRelease start field vm memory next) := by
  refine (allocProcessPage_returns vm memory start).bind ?_
  rintro ⟨page, vm1⟩ _
  cases page with
  | none => exact returns_ok _
  | some page => exact hnext _ _

theorem processMemoryMap_returns (vm : Vm) (slot : Slot) (memory : ProcessMemory) :
    Returns (processMemoryMap vm slot memory) := by
  unfold processMemoryMap
  refine mapOrRelease_returns ?_
  intro _ _
  refine mapOrRelease_returns ?_
  intro _ _
  refine mapOrRelease_returns ?_
  intro _ _
  refine mapOrRelease_returns ?_
  intro _ _
  exact returns_ok _

section Linked

variable {k : Kernel} {l : List Slot} {kids : Slot → List Slot} (h : LinkInv k l kids)

include h

theorem LinkInv.create_returns (parent : Option Slot) (owner base : Nat)
    (function : Option ExecFn) (size : Nat) :
    Returns (processCreateInternal k parent owner base function size) := by
  unfold processCreateInternal
  split
  · exact returns_ok _
  · rename_i p k0 halloc
    obtain ⟨hp, hunused, rfl⟩ := processAllocateSlot_some halloc
    rw [prepare_eq k p owner base function size]
    refine Returns.bind ?_ ?_
    · exact (processMemoryMap_returns _ _ _).bind fun _ _ => returns_ok _
    · rintro ⟨ok, k1⟩ hmap
      obtain ⟨vm, memory, -, rfl⟩ := memoryMapOf_ok hmap
      cases ok with
      | false =>
          obtain ⟨k2, hrel, -⟩ :=
            h.scrap (r := freshProcess k.nextPid owner function memory) hp hunused rfl
          exact (returns_of_eq hrel).bind fun _ _ => returns_ok _
      | true =>
          obtain ⟨k2, hlink, -⟩ := h.link hunused (processLinkChild_childLinked
            (r := freshProcess k.nextPid owner function memory) parent rfl rfl rfl)
          refine Returns.bind ?_ fun _ _ => returns_ok _
          exact (returns_of_eq hlink).bind fun _ _ => returns_ok _

theorem LinkInv.release_returns {c : Slot} (hused : (k.processTable c).used = true) :
    Returns (processRelease k c) := by
  by_cases hc0 : c = 0
  · unfold processRelease
    rw [if_pos (by rw [hc0, h.kernel])]
    exact returns_ok k
  · obtain ⟨k1, hrel, -⟩ := h.release ((h.mem c).mpr hused) hc0
    exact returns_of_eq hrel

/-! ## Waiting and delivering -/

theorem LinkInv.getByPid_returns (pid : Nat) : Returns (processGetByPid k pid) :=
  returns_of_eq (h.getByPid pid)

theorem LinkInv.wait_returns (parent : Option Slot) (pid : Nat) :
    Returns (processWait k parent pid) := by
  refine (h.getByPid_returns pid).bind ?_
  intro child hget
  cases child with
  | none => exact returns_ok _
  | some c =>
      dsimp only
      split
      · exact returns_ok _
      · split
        · exact returns_ok _
        · have htame := stopWaiting_tame k parent
          have hused := (htame.used c).trans (processGetByPid_some hget).1
          exact ((h.tame htame).release_returns hused).bind fun _ _ => returns_ok _

end Linked

theorem MildRun.tame {k k' : Kernel} (h : MildRun k k') : Tame k k' := by
  obtain ⟨effects, hrun, hmild⟩ := h
  refine hrun.invariant_trace (I := fun xs k' => (∀ x ∈ xs, x.mild) → Tame k k')
    (fun _ => Tame.refl k) ?_ hmild
  intro xs k1 x k2 ih hx hmild
  have hlast : x.mild := hmild x (by simp)
  exact (ih fun y hy => hmild y (List.mem_append_left _ hy)).trans (hx.tame (Or.inl hlast))

theorem deliverAll_some (fuel : Nat) (p : Slot) (k : Kernel) :
    ∃ k1, Tame k k1 ∧ deliverAll (fuel + 1) (some p) k = deliverAll fuel (k1.nextOf p) k1 := by
  refine ⟨_, ?_, rfl⟩
  split
  · exact (deliverProcessSignal_mildRun k (some p)).tame
  · exact Tame.refl k

/-- The walk that delivers all pending signals: delivering changes no
`next`. -/
theorem deliverAll_returns {l : List Slot} {fuel : Nat} {p : Option Slot} {k : Kernel}
    (hl : Linked k.nextOf p l none) (hlen : l.length < fuel) : Returns (deliverAll fuel p k) := by
  induction l generalizing fuel p k with
  | nil =>
      obtain ⟨fuel, rfl⟩ := Nat.exists_eq_succ_of_ne_zero (Nat.ne_of_gt hlen)
      obtain rfl : p = none := hl
      exact returns_ok k
  | cons x l ih =>
      obtain ⟨rfl, hl⟩ := hl
      obtain ⟨fuel, rfl⟩ := Nat.exists_eq_succ_of_ne_zero (Nat.ne_zero_of_lt hlen)
      obtain ⟨k1, htame, heq⟩ := deliverAll_some fuel x k
      have hnext : ∀ q, k1.nextOf q = k.nextOf q := fun q => frame_next (htame.frame q)
      rw [heq, hnext x]
      exact ih (hl.congr fun q _ => hnext q) (Nat.lt_of_succ_lt_succ hlen)

/-! ## The scheduler's circle -/

/-- Where `pick_next_process` goes from a slot. -/
def Kernel.circle (k : Kernel) (head p : Slot) : Slot := (k.nextOf p).getD head

theorem pickLoop_returns {k : Kernel} {head start : Slot} : ∀ {n fuel : Nat} {candidate : Slot},
    n ≤ fuel → (k.circle head)^[n + 1] candidate = start →
    Returns (pickLoop k head start (fuel + 1) candidate)
  | n, fuel, candidate, hn, hmeets => by
      rw [pickLoop]
      rw [Function.iterate_succ_apply] at hmeets
      split
      · exact returns_ok _
      · split
        · exact returns_ok _
        · rename_i hstart
          cases n with
          | zero => exact absurd hmeets hstart
          | succ n =>
              obtain ⟨fuel, rfl⟩ : ∃ fuel', fuel = fuel' + 1 := ⟨fuel - 1, by omega⟩
              exact pickLoop_returns (by omega) hmeets

/-- Following a chain takes as many steps as it has links. -/
theorem circle_chain {k : Kernel} {head d : Slot} {q : Option Slot} :
    ∀ {zs : List Slot} {c : Slot} {p : Option Slot},
      Linked k.nextOf p (c :: zs ++ [d]) q → (k.circle head)^[zs.length + 1] c = d
  | [], c, _, ⟨_, hd, _⟩ => by
      show k.circle head c = d
      unfold Kernel.circle
      rw [hd]
      rfl
  | z :: zs, c, _, ⟨_, hrest⟩ => by
      have hz : k.circle head c = z := by
        unfold Kernel.circle
        rw [hrest.1]
        rfl
      rw [List.length_cons, Function.iterate_succ_apply, hz]
      exact circle_chain hrest

/-- From a member of the list the circle comes back after one round. -/
theorem circle_returns {k : Kernel} {head start : Slot} {xs ys : List Slot}
    (hl : Linked k.nextOf (some head) (xs ++ start :: ys) none) :
    (k.circle head)^[xs.length + ys.length + 1] start = start := by
  -- first to the end of the list and round to its head
  have hround : (k.circle head)^[ys.length + 1] start = head := by
    obtain ⟨r, -, hr, htail⟩ := linked_append.mp hl
    rcases List.eq_nil_or_concat ys with rfl | ⟨zs, d, rfl⟩
    · show k.circle head start = head
      unfold Kernel.circle
      rw [show k.nextOf start = none from htail]
      rfl
    · rw [List.concat_eq_append] at *
      have hd : (k.circle head)^[zs.length + 1] start = d :=
        circle_chain (p := r) (q := none) ⟨hr, htail⟩
      have hnext : k.nextOf d = none := htail.next_last
      rw [List.length_append, List.length_singleton, Function.iterate_succ_apply', hd]
      unfold Kernel.circle
      rw [hnext]
      rfl
  -- then along the first part of the list
  have hback : (k.circle head)^[xs.length] head = start := by
    cases xs with
    | nil =>
        obtain rfl := Option.some.inj hl.1
        rfl
    | cons x xs =>
        obtain rfl := Option.some.inj hl.1
        obtain ⟨r, hxs, hr, -⟩ := linked_append.mp hl
        subst hr
        have : Linked k.nextOf (some head) (head :: xs ++ [start]) (k.nextOf start) :=
          linked_append.mpr ⟨some start, hxs, rfl, rfl⟩
        exact circle_chain this
  rw [Nat.add_assoc, Function.iterate_add_apply, hround, hback]

theorem LinkInv.pick_returns {k : Kernel} {l : List Slot} {kids : Slot → List Slot}
    (h : LinkInv k l kids) : Returns (pickNextProcess k) := by
  obtain ⟨c, hc, hcur⟩ := h.cursor
  obtain ⟨xs, ys, rfl⟩ := List.append_of_mem hc
  have hlen := nodup_length_lt h.nodup
  rw [List.length_append, List.length_cons] at hlen
  have hlinked := h.linked
  unfold pickNextProcess
  rw [h.head] at hlinked
  rw [h.enabled, h.head, hcur]
  exact pickLoop_returns (n := xs.length + ys.length) (by omega) (circle_returns hlinked)

theorem LinkInv.scheduleNext_returns {k : Kernel} {l : List Slot} {kids : Slot → List Slot}
    (h : LinkInv k l kids) : Returns (scheduleNextProcess k) := by
  refine h.pick_returns.bind ?_
  intro picked _
  cases picked with
  | none => exact returns_ok k
  | some p =>
      dsimp only
      generalize (deliverProcessSignal
        { k with schedulerCursor := some p, currentProcess := some p } (some p)).2 = k1
      split <;> exact returns_ok _

theorem LinkInv.schedule_returns {k : Kernel} {l : List Slot} {kids : Slot → List Slot}
    (h : LinkInv k l kids) : Returns (scheduleEvent k) := by
  unfold scheduleEvent
  split
  · exact returns_ok k
  · have hdec : Retarget k { k with pendingSchedulerTicks := sub32 k.pendingSchedulerTicks 1 } :=
      ⟨rfl, rfl, rfl, rfl, rfl, Or.inl rfl, Or.inl rfl, _, rfl⟩
    have h0 := h.tame hdec.tame
    unfold schedulerRound
    generalize { k with pendingSchedulerTicks := sub32 k.pendingSchedulerTicks 1 } = k0 at h0 ⊢
    refine (deliverAll_returns h0.linked (nodup_length_lt h0.nodup)).bind ?_
    intro k1 hall
    exact (h0.tame (deliverAll_mildRun hall).tame).scheduleNext_returns

/-! ## All events -/

theorem Linkage.returns {k : Kernel} (h : Linkage k) (e : Event) : Returns (e.exec k) := by
  obtain ⟨l, kids, hl⟩ := h
  cases e with
  | createOwned owner function size => exact (hl.create_returns _ _ _ _ _).map
  | execFn addr function size => exact (hl.create_returns _ _ _ _ _).map
  | fork source =>
      refine Returns.map ?_
      unfold forkProcess
      cases source with
      | none => exact returns_ok _
      | some source =>
          dsimp only
          split
          · exact returns_ok _
          · refine (hl.create_returns _ _ _ _ _).bind ?_
            rintro ⟨child, k1⟩ _
            cases child with
            | none => exact returns_ok _
            | some child => exact returns_ok _
  | spawnDemoCounter owner seed limit =>
      refine Returns.map ((hl.create_returns _ _ _ _ _).bind ?_)
      rintro ⟨child, k1⟩ _
      cases child with
      | none => exact returns_ok _
      | some child => exact returns_ok _
  | spawnDemoSocketPair owner value =>
      refine Returns.map ((hl.create_returns _ _ _ _ _).bind ?_)
      rintro ⟨receiver, k1⟩ call1
      cases receiver with
      | none => exact returns_ok _
      | some a =>
          have hspawn := KernelEffect.spawn call1
          obtain ⟨kids1, h1⟩ := hl.effect hspawn
          refine (h1.create_returns _ _ _ _ _).bind ?_
          rintro ⟨sender, k2⟩ call2
          cases sender with
          | none =>
              obtain ⟨kids2, h2⟩ := h1.effect (.miss call2)
              have ha : (k2.processTable a).used = true :=
                (h2.mem a).mp (List.mem_append_right _ (List.mem_singleton_self a))
              exact (h2.release_returns ha).bind fun _ _ => returns_ok _
          | some b => exact returns_ok _
  | exit process exitCode => exact returns_ok _
  | wait parent pid => exact (hl.wait_returns parent pid).map
  | sendSignal sender pid signal value =>
      refine Returns.map ((hl.getByPid_returns pid).bind ?_)
      intro target _
      split
      · exact returns_ok _
      · exact returns_ok _
  | deliverSignal process => exact returns_ok _
  | socketSend sender pid value =>
      refine Returns.map ((hl.getByPid_returns pid).bind ?_)
      intro target _
      cases target with
      | none => exact returns_ok _
      | some t =>
          dsimp only
          split
          · exact returns_ok _
          · exact returns_ok _
  | socketRecv process => exact returns_ok _
  | schedulerTick => exact returns_ok _
  | schedule => exact hl.schedule_returns.map
  | yield => exact returns_ok _

/-! ## Table and list -/

/-- `l` is the list of processes, and it and the table say the same. -/
structure ProcessListOk (k : Kernel) (l : List Slot) : Prop where
  linked : Linked k.nextOf k.processHead l none
  first : l.head? = some 0 ∧ k.kernelProcess = some 0
  nodup : l.Nodup
  mem : ∀ s, s ∈ l ↔ (k.processTable s).used = true
  pids : ∀ s ∈ l, ∀ t ∈ l, (k.processTable s).pid = (k.processTable t).pid → s = t
  cursor : ∃ c ∈ l, k.schedulerCursor = some c
  found : ∀ pid s, processGetByPid k pid = .ok (some s) ↔
    (k.processTable s).used = true ∧ (k.processTable s).pid = pid
  missing : ∀ pid, processGetByPid k pid = .ok none ↔
    ∀ s, (k.processTable s).used = true → (k.processTable s).pid ≠ pid

theorem LinkInv.listOk {n : Nat} {k : Kernel} {l : List Slot} {kids : Slot → List Slot}
    (h : LinkInv k l kids) (hpid : PidInv n k) : ProcessListOk k l where
  linked := h.linked
  first := by
    refine ⟨?_, h.kernel⟩
    have hlinked := h.linked
    rw [h.head] at hlinked
    cases l with
    | nil => cases hlinked
    | cons x l => exact hlinked.1.symm
  nodup := h.nodup
  mem := h.mem
  pids s hs t ht := hpid.inj s t ((h.mem s).mp hs) ((h.mem t).mp ht)
  cursor := h.cursor
  found := h.getByPid_some hpid.inj
  missing := h.getByPid_none

/-- Table and list agree in every state the kernel can reach before the pid
counter comes round, and no call gets caught in a loop there. -/
theorem kernelRun_processListOk {vm : Vm} {labels : List (Event × Reply)} {k : Kernel}
    (hrun : Run KernelStep (processInit vm) labels k) (hc : creations labels < 4294967295) :
    (∃ l, ProcessListOk k l) ∧ ∀ e : Event, e.exec k ≠ .error .diverge := by
  obtain ⟨hl, hpids⟩ := kernelRun_linkage hrun
  obtain ⟨n, -, hpid⟩ := hpids hc
  obtain ⟨l, kids, h⟩ := id hl
  exact ⟨⟨l, h.listOk hpid⟩, hl.returns⟩

/-- Two processes are created, the first exits and is reaped, and a third
takes its slot. -/
theorem kernelRun_processListOk_reuse :
    ∃ labels k, Run KernelStep (processInit eightMegabytes) labels k
      ∧ creations labels = 3 ∧ (∃ l, ProcessListOk k l) ∧ (k.processTable 1).pid = 4 := by
  obtain ⟨k, hrun, hpid⟩ := execRun_observe kernelExec_step (processInit eightMegabytes)
    [.createOwned 0 none 0, .createOwned 0 none 0, .exit (some 1) 7, .wait (some 0) 2,
      .createOwned 0 none 0]
    [.created (some 1), .created (some 2), .done, .waited (.reaped 1 7), .created (some 1)]
    (fun k => (k.processTable 1).pid = 4) (by decide +kernel)
  exact ⟨_, k, hrun, by decide, (kernelRun_processListOk hrun (by decide)).1, hpid⟩

end Kfs
