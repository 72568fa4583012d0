import Kfs.DemoCounters

/-!
# The pair of the socket demo

A sender tries until `socket_send` says that it delivered its value, and the
receiver ends with the first value it finds. `socket_send` can put a value
into the socket and still report that it failed, so a value can get there
more than once, and a fork of a sender sends it again; but every value that
the receiver of a pair finds is the one of the pair, and once the sender
ended it has been received or still waits in the socket.
-/

namespace Kfs

/-! ## Pids -/

def MachineAction.creations : MachineAction → Nat
  | .call e _ => e.creations
  | _ => 0

/-- The calls of `process_create_internal` along a run. -/
def machineCreations (actions : List MachineAction) : Nat :=
  (actions.map MachineAction.creations).sum

theorem machineCreations_append (actions : List MachineAction) (a : MachineAction) :
    machineCreations (actions ++ [a]) = machineCreations actions + a.creations := by
  simp [machineCreations]

section Pids

variable {k k' : Kernel} {n : Nat}

/-- How far an effect takes the pid counter. -/
theorem KernelEffect.nextPid {x : Effect} (hx : KernelEffect k x k')
    (hk : k.kernelProcess = some 0) :
    ∃ c ≤ x.attempts, k'.nextPid % 4294967296 = (k.nextPid + c) % 4294967296 := by
  cases x with
  | spawn p parent base =>
      cases hx with
      | spawn call =>
          obtain ⟨-, -, vm, memory, table, head, -, rfl, -⟩ := spawn_eq call
          exact ⟨1, Nat.le_refl 1, by rw [add32_eq, Nat.mod_mod]⟩
  | miss base =>
      cases hx with
      | miss call =>
          rcases miss_eq hk call with rfl | ⟨p, vm, table, head, -, -, -, rfl, -⟩
          · exact ⟨0, Nat.zero_le 1, rfl⟩
          · exact ⟨1, Nat.le_refl 1, by rw [add32_eq, Nat.mod_mod]⟩
  | release c =>
      cases hx with
      | release hkernel _ call =>
          obtain ⟨table, head, rfl, -⟩ := processRelease_eq hkernel call
          exact ⟨0, Nat.le_refl 0, rfl⟩
  | exit p => exact ⟨0, Nat.le_refl 0, by rw [(hx.tame (Or.inl trivial)).nextPid]; rfl⟩
  | waitFor parent pid =>
      exact ⟨0, Nat.le_refl 0, by rw [(hx.tame (Or.inr ⟨parent, pid, rfl⟩)).nextPid]; rfl⟩
  | other => exact ⟨0, Nat.le_refl 0, by rw [(hx.tame (Or.inl trivial)).nextPid]; rfl⟩

theorem effects_nextPid {effects : List Effect} (hl : Linkage k)
    (hrun : Run KernelEffect k effects k') :
    ∃ c ≤ attempts effects, k'.nextPid % 4294967296 = (k.nextPid + c) % 4294967296 := by
  refine (hrun.invariant_trace (I := fun xs k' => Linkage k' ∧ ∃ c ≤ attempts xs,
    k'.nextPid % 4294967296 = (k.nextPid + c) % 4294967296)
    ⟨hl, 0, Nat.zero_le _, rfl⟩ ?_).2
  rintro xs k1 x k2 ⟨hl1, c, hc, hnext⟩ hx
  obtain ⟨d, hd, hnext'⟩ := hx.nextPid hl1.kernel
  refine ⟨hl1.effect hx, c + d, ?_, by omega⟩
  rw [attempts_append]
  omega

/-- Pids only grow until the counter comes round. -/
theorem PidInv.call {e : Event} {r : Reply} (h : PidInv n k) (hl : Linkage k)
    (hshell : e.byShell) (hexec : e.exec k = .ok (r, k')) (hn : n + e.creations < 4294967295) :
    ∃ n', n ≤ n' ∧ n' ≤ n + e.creations ∧ PidInv n' k' := by
  have hstep : KernelStep k (e, r) k' := by
    refine ⟨fun hschedule => ?_, hexec⟩
    obtain rfl : e = .schedule := hschedule
    cases hshell
  obtain ⟨effects, heffects, hshape⟩ := hl.performs hstep
  have hle : attempts effects ≤ e.creations := hshape.attempts_le
  obtain ⟨n', hn', hpid⟩ := h.effects hl (by omega) heffects
  obtain ⟨c, hc, hnext⟩ := effects_nextPid hl heffects
  have hbefore := h.next
  have hafter := hpid.next
  exact ⟨n', by omega, by omega, hpid⟩

theorem PidInv.same (h : PidInv n k) (hsame : SamePids k k') : PidInv n k' :=
  h.shrink hsame.nextPid fun q hq => ⟨(hsame.used q).symm.trans hq, hsame.pid q⟩

theorem MachineInv.samePids {m m' : Machine} {a : MachineAction} (h : MachineInv m)
    (hstep : MachineStep m a m') (hcall : ∀ e r, a ≠ .call e r) :
    SamePids m.kernel m'.kernel := by
  cases hstep with
  | call => exact absurd rfl (hcall _ _)
  | mmap => exact (processMmap_tame _ _ _).1.samePids
  | @interrupt k => exact (schedulerTick_retarget k).tame.samePids
  | runPending | forceTicks => exact .refl _
  | advance call => exact (schedulerAdvance_tame call).samePids
  | @run k k1 p loop threads thread code =>
      obtain ⟨k2, thread2, hcode, hturn⟩ := h.turn
      obtain ⟨rfl, rfl⟩ := Prod.mk.inj (Except.ok.inj (hcode.symm.trans code))
      obtain ⟨k', heq, -, hmild⟩ := yieldFrom_context hturn.ran.running.housed
        hturn.ran.running.context loop
      rw [heq]
      exact hturn.ran.pids.trans hmild.tame.samePids

theorem MachineInv.pids {m m' : Machine} {a : MachineAction} (h : MachineInv m)
    (hstep : MachineStep m a m') (hpid : PidInv n m.kernel) (hn : n + a.creations < 4294967295) :
    ∃ n', n ≤ n' ∧ n' ≤ n + a.creations ∧ PidInv n' m'.kernel := by
  by_cases hcall : ∃ e r, a = .call e r
  · obtain ⟨e, r, rfl⟩ := hcall
    cases hstep with
    | call shell call => exact hpid.call h.scheduler.housed.links shell call hn
  · exact ⟨n, Nat.le_refl n, Nat.le_add_right n _,
      hpid.same (h.samePids hstep fun e r heq => hcall ⟨e, r, heq⟩)⟩

end Pids

/-! ## Senders -/

/-- Process `s` sends `value` to the process that has this pid. -/
structure Sends (k : Kernel) (s : Slot) (pid value : Nat) : Prop where
  live : k.Live s
  entry : (k.processTable s).entry = some .demoSocketSenderProcess
  arg0 : (k.processTable s).runtimeArg0 = pid
  arg1 : (k.processTable s).runtimeArg1 = value

section Senders

variable {m m' : Machine} {a : MachineAction} {s : Slot} {pid value n : Nat}

/-- Where the sender of a state comes from: it was one before, it is the fork
of one, or it was created with a receiver. -/
inductive SenderOrigin (k k' : Kernel) (s : Slot) (pid value : Nat) : MachineAction → Prop where
  | kept {a : MachineAction} (sends : Sends k s pid value) : SenderOrigin k k' s pid value a
  | forked {source : Slot} (sends : Sends k source pid value) :
      SenderOrigin k k' s pid value (.call (.fork (some source)) (.created (some s)))
  | paired {owner : Nat} {receiver : Slot} (before : ¬k.Live receiver) (after : k'.Live receiver)
      (fresh : pid = k.nextPid) (receiverPid : (k'.processTable receiver).pid = pid) :
      SenderOrigin k k' s pid value
        (.call (.spawnDemoSocketPair owner value) (.createdPair (some (s, receiver))))

theorem MachineInv.senderOrigin (h : MachineInv m) (hstep : MachineStep m a m')
    (hsends : Sends m'.kernel s pid value) : SenderOrigin m.kernel m'.kernel s pid value a := by
  obtain ⟨hlive, hentry, harg0, harg1⟩ := hsends
  have hslot := h.slot hstep s
  by_cases hbefore : m.kernel.Live s
  · have hjob := hslot.survives hbefore hlive
    exact .kept ⟨hbefore, hjob.entry.symm.trans hentry, hjob.arg0.symm.trans harg0,
      hjob.arg1.symm.trans harg1⟩
  · cases hslot with
    | kept live => exact absurd live hbefore
    | gone hgone => exact absurd hlive hgone
    | dispatched live => exact absurd live hbefore
    | ran live => exact absurd live hbefore
    | started hshell _ _ hstarts =>
        cases hstarts with
        | counter entry =>
            rw [entry] at hentry
            cases hentry
        | receiver entry =>
            rw [entry] at hentry
            cases hentry
        | sender entry arg0 arg1 =>
            obtain rfl := arg1.symm.trans harg1
            cases hstep with
            | call shell call =>
                obtain ⟨-, -, ⟨hbefore, hafter⟩, hnext⟩ := shellCall_createdPair shell call
                have hpid := arg0.symm.trans harg0
                exact .paired hbefore hafter (hpid.symm.trans hnext) hpid
        | fork live entry arg0 arg1 =>
            exact .forked ⟨live, entry.symm.trans hentry, arg0.symm.trans harg0,
              arg1.symm.trans harg1⟩

/-- Pids are distinct, and no sender is for a process that does not exist
yet. -/
structure PidsKnown (n : Nat) (k : Kernel) : Prop where
  pids : PidInv n k
  senders : ∀ s pid value, Sends k s pid value → pid ≤ n + 1

theorem PidsKnown.step (h : MachineInv m) (hstep : MachineStep m a m')
    (hknown : PidsKnown n m.kernel) (hn : n + a.creations < 4294967295) :
    ∃ n', n' ≤ n + a.creations ∧ PidsKnown n' m'.kernel := by
  obtain ⟨n', hle, hle', hpids⟩ := h.pids hstep hknown.pids hn
  refine ⟨n', hle', hpids, fun s pid value hsends => ?_⟩
  cases h.senderOrigin hstep hsends with
  | kept hbefore => exact (hknown.senders _ _ _ hbefore).trans (by omega)
  | forked hbefore => exact (hknown.senders _ _ _ hbefore).trans (by omega)
  | paired _ after _ hpid => exact hpid ▸ (hpids.range _ after.2).2

theorem machineRun_pidsKnown {vm : Vm} {actions : List MachineAction} (hready : VmReady vm)
    (hvm : vm.currentDirectory = some .kernel)
    (hrun : Run MachineStep (machineInit vm) actions m)
    (hc : machineCreations actions < 4294967295) :
    MachineInv m ∧ ∃ n ≤ machineCreations actions, PidsKnown n m.kernel := by
  have hinit := machineInv_init hready hvm
  have hnone : ∀ q, ¬(processInit vm).Live q := by
    rintro q ⟨hne, hused⟩
    simp [processInit, hne, Process.zero] at hused
  refine hrun.invariant_trace (I := fun actions m => machineCreations actions < 4294967295 →
    MachineInv m ∧ ∃ n ≤ machineCreations actions, PidsKnown n m.kernel) (fun _ => ⟨hinit, 0,
      Nat.zero_le _, pidInv_processInit vm, fun s _ _ hs => absurd hs.live (hnone s)⟩) ?_ hc
  intro actions m1 a m2 ih hstep hc
  rw [machineCreations_append] at hc ⊢
  obtain ⟨h1, n, hn, hknown⟩ := ih (by omega)
  obtain ⟨n', hn', hknown'⟩ := hknown.step h1 hstep (by omega)
  exact ⟨h1.step hstep, n', by omega, hknown'⟩

end Senders

/-! ## The pair -/

/-- All that reaches the receiver is `value`. -/
structure PairInv (receiver : Slot) (pid value : Nat) (m : Machine) : Prop where
  machine : MachineInv m
  live : m.kernel.Live receiver
  entry : (m.kernel.processTable receiver).entry = some .demoSocketReceiverProcess
  receiverPid : (m.kernel.processTable receiver).pid = pid
  senders : ∀ s v, Sends m.kernel s pid v → v = value
  waiting : ∀ v ∈ (m.kernel.processTable receiver).processSocket.contents, v = value
  received : m.threads receiver = .spinning →
    (m.kernel.processTable receiver).lastSocketValue = value

/-- The sender has ended, and the receiver has its value or will have it. -/
structure PairDelivers (sender receiver : Slot) (pid value : Nat) (m : Machine) : Prop where
  sends : Sends m.kernel sender pid value
  delivered : m.threads sender = .spinning →
    (m.kernel.processTable receiver).status = .zombie
      ∨ (m.kernel.processTable receiver).processSocket.contents ≠ []

section Pair

variable {m m' : Machine} {a : MachineAction} {sender receiver : Slot} {pid value n : Nat}

theorem MachineInv.busy {q : Slot} (h : MachineInv m) (hruns : m.control.runs q = true) :
    Running m.kernel q ∧ Task m.kernel q true (m.threads q) := by
  obtain ⟨k, c, threads⟩ := m
  obtain ⟨loop, rfl⟩ := Control.runs_eq hruns
  exact ⟨h.isRunning, h.busyTask⟩

theorem MachineInv.receiverWork {q : Slot} (h : MachineInv m) (hlive : m.kernel.Live q)
    (hentry : (m.kernel.processTable q).entry = some .demoSocketReceiverProcess) :
    ReceiverWork m.kernel q (m.threads q) := by
  cases (h.tasks q hlive).work with
  | receiver work => exact work
  | counter work =>
      rw [work.entry] at hentry
      cases hentry
  | sender work =>
      rw [work.entry] at hentry
      cases hentry

theorem MachineInv.senderWork {q : Slot} (h : MachineInv m) (hlive : m.kernel.Live q)
    (hentry : (m.kernel.processTable q).entry = some .demoSocketSenderProcess) :
    SenderWork m.kernel q (m.threads q) := by
  cases (h.tasks q hlive).work with
  | sender work => exact work
  | counter work =>
      rw [work.entry] at hentry
      cases hentry
  | receiver work =>
      rw [work.entry] at hentry
      cases hentry

/-- The receiver's turn. -/
theorem PairInv.turn {k1 : Kernel} {thread : Thread} (h : PairInv receiver pid value m)
    (hruns : m.control.runs receiver = true)
    (hcode : runThread m.kernel receiver (m.threads receiver) = .ok (k1, thread)) :
    (thread = .receiving ∧ (m.kernel.processTable receiver).processSocket.contents = [])
      ∨ (thread = .spinning ∧ (k1.processTable receiver).lastSocketValue = value
        ∧ (k1.processTable receiver).status = .zombie) := by
  obtain ⟨hrunning, htask⟩ := h.machine.busy hruns
  rcases (h.machine.receiverWork h.live h.entry).outcome htask hrunning
    (h.machine.sockets receiver h.live) with ⟨hempty, heq⟩ | ⟨k', heq, hreceived⟩
  · obtain ⟨-, rfl⟩ := Prod.mk.inj (Except.ok.inj (heq.symm.trans hcode))
    exact Or.inl ⟨rfl, Ring.contents_eq_nil hempty⟩
  · obtain ⟨rfl, rfl⟩ := Prod.mk.inj (Except.ok.inj (heq.symm.trans hcode))
    refine Or.inr ⟨rfl, ?_, hreceived.status⟩
    rw [hreceived.field Process.lastSocketValue fun _ => rfl]
    refine h.waiting _ ?_
    rw [Ring.contents_drop hreceived.pending]
    exact List.mem_cons_self

theorem PairInv.heard {k' : Kernel} (h : PairInv receiver pid value m)
    (hheard : Heard m.kernel k' receiver) :
    ∀ v ∈ (k'.processTable receiver).processSocket.contents, v = value := by
  intro v hv
  rcases hheard v hv with hold | ⟨s, hs, hentry, hpid, rfl⟩
  · exact h.waiting v hold
  · exact h.senders s _ ⟨hs, hentry, hpid.symm.trans h.receiverPid, rfl⟩

theorem PairInv.step (h : PairInv receiver pid value m) (hstep : MachineStep m a m')
    (hpids : PidInv n m'.kernel) (hreap : ¬a.reaps receiver) :
    PairInv receiver pid value m' := by
  have hslot := h.machine.slot hstep receiver
  have hlive := hslot.live h.live hreap
  have hjob := hslot.survives h.live hlive
  have hpid := hjob.pid.trans h.receiverPid
  refine ⟨h.machine.step hstep, hlive, hjob.entry.trans h.entry, hpid, fun s v hsends => ?_, ?_, ?_⟩
  · cases h.machine.senderOrigin hstep hsends with
    | kept hbefore => exact h.senders _ _ hbefore
    | forked hbefore => exact h.senders _ _ hbefore
    | @paired owner other before after _ hother =>
        obtain rfl := hpids.inj other receiver after.2 hlive.2 (hother.trans hpid.symm)
        exact absurd h.live before
  · cases hslot with
    | kept _ _ _ _ hlistens => exact h.heard hlistens.heard
    | gone hgone => exact absurd hlive hgone
    | started _ hbefore => exact absurd h.live hbefore
    | dispatched _ _ _ _ _ _ _ _ hlistens => exact h.heard hlistens.heard
    | ran _ _ _ _ _ _ _ hheard => exact h.heard hheard
  · intro hspin
    cases hslot with
    | kept _ hkept hthread =>
        rw [program_field hkept.program Process.lastSocketValue fun _ => rfl]
        exact h.received (hthread.symm.trans hspin)
    | gone hgone => exact absurd hlive hgone
    | started _ hbefore => exact absurd h.live hbefore
    | dispatched _ _ hsignals _ hrecord _ hthread =>
        rw [hrecord]
        exact (program_field hsignals.program Process.lastSocketValue fun _ => rfl).trans
          (h.received (hthread.symm.trans hspin))
    | ran _ hruns hcode _ hback hsame =>
        rcases h.turn hruns hcode with ⟨hwaits, -⟩ | ⟨-, hlast, -⟩
        · rw [hsame, hwaits] at hspin
          cases hspin
        · exact (program_field hback.program Process.lastSocketValue fun _ => rfl).trans hlast

/-- What was delivered stays in the socket until the receiver has it. -/
theorem PairInv.keeps (h : PairInv receiver pid value m) (hstep : MachineStep m a m')
    (hlive : m'.kernel.Live receiver)
    (hdelivered : (m.kernel.processTable receiver).status = .zombie
      ∨ (m.kernel.processTable receiver).processSocket.contents ≠ []) :
    (m'.kernel.processTable receiver).status = .zombie
      ∨ (m'.kernel.processTable receiver).processSocket.contents ≠ [] := by
  have hheld : Held m.kernel m'.kernel receiver →
      (m.kernel.processTable receiver).processSocket.contents ≠ [] →
      (m'.kernel.processTable receiver).processSocket.contents ≠ [] := fun hheld hne hnil =>
    hne (List.prefix_nil.mp (hnil ▸ hheld))
  cases h.machine.slot hstep receiver with
  | kept _ hkept _ _ hlistens =>
      exact hdelivered.imp (fun hz => (hkept.lives.ended hz).1) (hheld hlistens.held)
  | gone hgone => exact absurd hlive hgone
  | started _ hbefore => exact absurd h.live hbefore
  | dispatched _ _ hsignals halive _ _ _ _ hlistens =>
      exact Or.inr (hheld hlistens.held
        (hdelivered.resolve_left fun hz => halive (hsignals.lives.ended hz).1))
  | ran _ hruns hcode _ hback =>
      rcases h.turn hruns hcode with ⟨-, hnil⟩ | ⟨-, -, hz⟩
      · have halive := (h.machine.busy hruns).2.alive rfl
        exact absurd hnil (hdelivered.resolve_left halive)
      · exact Or.inl (hback.lives.ended hz).1

theorem PairDelivers.step (hd : PairDelivers sender receiver pid value m)
    (h : PairInv receiver pid value m) (hstep : MachineStep m a m') (hpids : PidInv n m.kernel)
    (hreceiver : ¬a.reaps receiver) (hsender : ¬a.reaps sender) :
    PairDelivers sender receiver pid value m' := by
  have hslot := h.machine.slot hstep sender
  have hlive := hslot.live hd.sends.live hsender
  have hjob := hslot.survives hd.sends.live hlive
  have hlive' := (h.machine.slot hstep receiver).live h.live hreceiver
  refine ⟨⟨hlive, hjob.entry.trans hd.sends.entry, hjob.arg0.trans hd.sends.arg0,
    hjob.arg1.trans hd.sends.arg1⟩, fun hspin => ?_⟩
  cases hslot with
  | kept _ _ hthread =>
      exact h.keeps hstep hlive' (hd.delivered (hthread.symm.trans hspin))
  | gone hgone => exact absurd hlive hgone
  | started _ hbefore => exact absurd hd.sends.live hbefore
  | dispatched _ _ _ _ _ _ hthread =>
      exact h.keeps hstep hlive' (hd.delivered (hthread.symm.trans hspin))
  | @ran k1 thread _ hruns hcode _ _ hsame _ _ hsockets =>
      obtain ⟨hrunning, htask⟩ := h.machine.busy hruns
      obtain ⟨k', ⟨heq, -⟩ | ⟨heq, hsent⟩⟩ :=
        (h.machine.senderWork hd.sends.live hd.sends.entry).outcome htask hrunning
      · obtain ⟨-, rfl⟩ := Prod.mk.inj (Except.ok.inj (heq.symm.trans hcode))
        rw [hsame] at hspin
        cases hspin
      · obtain ⟨rfl, -⟩ := Prod.mk.inj (Except.ok.inj (heq.symm.trans hcode))
        obtain ⟨t, hused, hpid, hroom, hput⟩ := hsent.delivered
        obtain rfl := hpids.inj t receiver hused h.live.2
          (hpid.trans (hd.sends.arg0.trans h.receiverPid.symm))
        refine Or.inr ?_
        rw [hsockets, hput, Ring.contents_put hroom]
        exact List.append_ne_nil_of_right_ne_nil _ (List.cons_ne_nil _ _)

/-- A new pair. -/
theorem PairInv.started {owner : Nat} (h : MachineInv m) (hknown : PidsKnown n m.kernel)
    (hn : n < 4294967294)
    (hstep : MachineStep m (.call (.spawnDemoSocketPair owner value)
      (.createdPair (some (sender, receiver)))) m') :
    ∃ pid, PairInv receiver pid value m' ∧ PairDelivers sender receiver pid value m' := by
  have h' := h.step hstep
  have hreceiver := h.slot hstep receiver
  have hsender := h.slot hstep sender
  have hnext := hknown.pids.next
  have hnew : sender ≠ receiver ∧ (¬m.kernel.Live sender ∧ m'.kernel.Live sender)
      ∧ (¬m.kernel.Live receiver ∧ m'.kernel.Live receiver)
      ∧ (m'.kernel.processTable receiver).pid = m.kernel.nextPid := by
    cases hstep with
    | call shell call => exact shellCall_createdPair shell call
  obtain ⟨hne, ⟨hs, hs'⟩, ⟨hr, hr'⟩, hpid⟩ := hnew
  refine ⟨m.kernel.nextPid, ?_, ?_⟩
  · cases hreceiver with
    | kept live => exact absurd live hr
    | gone hgone => exact absurd hr' hgone
    | started _ _ hunstarted hstarts hthread =>
        cases hstarts with
        | sender => exact absurd rfl hne
        | receiver entry =>
            refine ⟨h', hr', entry, hpid, fun s v hsends => ?_, ?_, fun hspin => ?_⟩
            · cases h.senderOrigin hstep hsends with
              | kept hbefore =>
                  have := hknown.senders _ _ _ hbefore
                  omega
              | paired => rfl
            · rw [hunstarted.sockets]
              exact fun v hv => absurd hv (by
                simp [Ring.contents_eq_nil (r := Process.zero.processSocket) rfl])
            · rw [hthread] at hspin
              cases hspin
  · cases hsender with
    | kept live => exact absurd live hs
    | gone hgone => exact absurd hs' hgone
    | started _ _ _ hstarts hthread =>
        cases hstarts with
        | receiver => exact absurd rfl hne
        | sender entry arg0 arg1 =>
            refine ⟨⟨hs', entry, arg0.trans hpid, arg1⟩, fun hspin => ?_⟩
            rw [hthread] at hspin
            cases hspin

/-- Until the receiver is reaped the pair stays one; what was delivered stays
so, whatever becomes of the sender. -/
theorem PairInv.run {actions : List MachineAction} (h : PairInv receiver pid value m)
    (sender : Slot) (hknown : PidsKnown n m.kernel) (hrun : Run MachineStep m actions m')
    (hreap : ∀ a ∈ actions, ¬a.reaps receiver) (hc : n + machineCreations actions < 4294967295) :
    PairInv receiver pid value m' ∧ (∃ n' ≤ n + machineCreations actions, PidsKnown n' m'.kernel)
      ∧ ((m.kernel.processTable receiver).status = .zombie
          ∨ (m.kernel.processTable receiver).processSocket.contents ≠ [] →
        (m'.kernel.processTable receiver).status = .zombie
          ∨ (m'.kernel.processTable receiver).processSocket.contents ≠ [])
      ∧ (PairDelivers sender receiver pid value m → (∀ a ∈ actions, ¬a.reaps sender) →
        PairDelivers sender receiver pid value m') := by
  refine hrun.invariant_trace (I := fun actions m' =>
      (∀ a ∈ actions, ¬a.reaps receiver) → n + machineCreations actions < 4294967295 →
        PairInv receiver pid value m'
        ∧ (∃ n' ≤ n + machineCreations actions, PidsKnown n' m'.kernel)
        ∧ ((m.kernel.processTable receiver).status = .zombie
            ∨ (m.kernel.processTable receiver).processSocket.contents ≠ [] →
          (m'.kernel.processTable receiver).status = .zombie
            ∨ (m'.kernel.processTable receiver).processSocket.contents ≠ [])
        ∧ (PairDelivers sender receiver pid value m → (∀ a ∈ actions, ¬a.reaps sender) →
          PairDelivers sender receiver pid value m'))
    (fun _ _ => ⟨h, ⟨n, Nat.le_refl _, hknown⟩, id, fun hd _ => hd⟩) ?_ hreap hc
  intro actions m2 a m3 ih hstep hreap hc
  rw [machineCreations_append] at hc ⊢
  have hlast := hreap a (by simp)
  obtain ⟨hpair, ⟨n2, hn2, hknown2⟩, hkeeps, hdelivers⟩ :=
    ih (fun a ha => hreap a (List.mem_append_left _ ha)) (by omega)
  obtain ⟨n3, hn3, hknown3⟩ := hknown2.step hpair.machine hstep (by omega)
  have hpair3 := hpair.step hstep hknown3.pids hlast
  refine ⟨hpair3, ⟨n3, by omega, hknown3⟩,
    fun hdelivered => hpair.keeps hstep hpair3.live (hkeeps hdelivered), fun hd hall => ?_⟩
  have hd2 := hdelivers hd fun a ha => hall a (List.mem_append_left _ ha)
  exact hd2.step hpair hstep hknown2.pids hlast (hall a (by simp))

/-- A sender that has ended. -/
theorem PairDelivers.ended (hd : PairDelivers sender receiver pid value m)
    (h : PairInv receiver pid value m) (hz : (m.kernel.processTable sender).status = .zombie) :
    FatalCode (m.kernel.processTable sender).exitCode
      ∨ ((m.kernel.processTable sender).exitCode = 0
        ∧ ((m.kernel.processTable receiver).status = .zombie
          ∨ (m.kernel.processTable receiver).processSocket.contents ≠ [])) := by
  rcases (h.machine.tasks sender hd.sends.live).ended hz with hspin | hfatal
  · have hwork := h.machine.senderWork hd.sends.live hd.sends.entry
    exact Or.inr ⟨hwork.exitCode hspin, hd.delivered hspin⟩
  · exact Or.inl hfatal

/-- What waits in the socket is the value of the pair. -/
theorem PairInv.waits (h : PairInv receiver pid value m)
    (hdelivered : (m.kernel.processTable receiver).status = .zombie
      ∨ (m.kernel.processTable receiver).processSocket.contents ≠ []) :
    (m.kernel.processTable receiver).status = .zombie
      ∨ value ∈ (m.kernel.processTable receiver).processSocket.contents := by
  refine hdelivered.imp_right fun hne => ?_
  obtain ⟨v, rest, hcontents⟩ := List.exists_cons_of_ne_nil hne
  have hv := h.waiting v (hcontents ▸ List.mem_cons_self)
  rw [hcontents, hv]
  exact List.mem_cons_self

end Pair

/-- From its start until the receiver is reaped, the pair of the socket demo
passes its value on: the receiver finds no other, and none gets lost. Once the
sender ended by itself, at `m`, that is so in every later state `m'`, also
after the sender was reaped. -/
theorem machineRun_socketPair {vm : Vm} {before after : List MachineAction} {m0 m1 m : Machine}
    {owner value : Nat} {sender receiver : Slot} (hready : VmReady vm)
    (hvm : vm.currentDirectory = some .kernel)
    (hbefore : Run MachineStep (machineInit vm) before m0)
    (hstep : MachineStep m0 (.call (.spawnDemoSocketPair owner value)
      (.createdPair (some (sender, receiver)))) m1)
    (hafter : Run MachineStep m1 after m) (hreap : ∀ a ∈ after, ¬a.reaps receiver)
    (hpids : machineCreations before + 2 + machineCreations after < 4294967295) :
    (∀ v ∈ (m.kernel.processTable receiver).processSocket.contents, v = value)
      ∧ ((m.kernel.processTable receiver).status = .zombie →
        FatalCode (m.kernel.processTable receiver).exitCode
          ∨ ((m.kernel.processTable receiver).exitCode = toInt32 (value &&& 0xFFFF)
            ∧ (m.kernel.processTable receiver).lastSocketValue = value
            ∧ m.kernel.ownWord receiver 0 = value))
      ∧ ((∀ a ∈ after, ¬a.reaps sender) → (m.kernel.processTable sender).status = .zombie →
        FatalCode (m.kernel.processTable sender).exitCode
          ∨ ((m.kernel.processTable sender).exitCode = 0
            ∧ ∀ later m', Run MachineStep m later m' → (∀ a ∈ later, ¬a.reaps receiver) →
              machineCreations before + 2 + machineCreations after + machineCreations later
                < 4294967295 →
              (m'.kernel.processTable receiver).status = .zombie
                ∨ value ∈ (m'.kernel.processTable receiver).processSocket.contents)) := by
  obtain ⟨h0, n, hn, hknown⟩ := machineRun_pidsKnown hready hvm hbefore (by omega)
  obtain ⟨pid, hpair1, hdelivers1⟩ := PairInv.started h0 hknown (by omega) hstep
  obtain ⟨n1, hn1, hknown1⟩ := hknown.step h0 hstep (by
    show n + 2 < 4294967295
    omega)
  replace hn1 : n1 ≤ n + 2 := hn1
  obtain ⟨hpair, ⟨n2, hn2, hknown2⟩, -, hdelivers⟩ :=
    hpair1.run sender hknown1 hafter hreap (by omega)
  refine ⟨hpair.waiting, fun hz => ?_, fun hall hz => ?_⟩
  · rcases (hpair.machine.tasks receiver hpair.live).ended hz with hspin | hfatal
    · have hwork := hpair.machine.receiverWork hpair.live hpair.entry
      have hlast := hpair.received hspin
      exact Or.inr ⟨hlast ▸ hwork.exitCode hspin, hlast, (hwork.data hspin).trans hlast⟩
    · exact Or.inl hfatal
  · refine ((hdelivers hdelivers1 hall).ended hpair hz).imp_right fun ⟨hcode, hdelivered⟩ => ?_
    refine ⟨hcode, fun later m' hlater hreap' hc => ?_⟩
    obtain ⟨hpair', -, hkeeps, -⟩ :=
      hpair.run sender hknown2 hlater hreap' (by omega)
    exact hpair'.waits (hkeeps hdelivered)

/-- The sender ends before the receiver has its value, and is reaped; then the
receiver ends with the value. -/
theorem machineRun_socketPair_received : ∃ m1 after m later m',
    MachineStep (machineInit eightMegabytes) (.call (.spawnDemoSocketPair 0 0xABCD1234)
        (.createdPair (some (2, 1)))) m1
      ∧ Run MachineStep m1 after m ∧ (m.kernel.processTable 2).status = .zombie
      ∧ (m.kernel.processTable 1).status ≠ .zombie
      ∧ Run MachineStep m later m' ∧ (∃ a ∈ later, a.reaps 2)
      ∧ (FatalCode (m.kernel.processTable 2).exitCode
        ∨ (m'.kernel.processTable 1).status = .zombie
        ∨ 0xABCD1234 ∈ (m'.kernel.processTable 1).processSocket.contents)
      ∧ (m'.kernel.processTable 1).status = .zombie
      ∧ (FatalCode (m'.kernel.processTable 1).exitCode
          ∨ ((m'.kernel.processTable 1).exitCode = toInt32 (0xABCD1234 &&& 0xFFFF)
            ∧ (m'.kernel.processTable 1).lastSocketValue = 0xABCD1234
            ∧ m'.kernel.ownWord 1 0 = 0xABCD1234)) := by
  obtain ⟨m1, m, hstep, hafter, hz, halive, hrest⟩ := execSteps_observe_two machineExec_step
    (machineInit eightMegabytes)
    [.call (.spawnDemoSocketPair 0 0xABCD1234) (.createdPair (some (2, 1)))]
    [.forceTicks 2, .advance, .advance, .advance, .run, .advance, .advance, .advance, .advance,
      .run, .advance, .advance]
    (fun _ m => (m.kernel.processTable 2).status = .zombie
      ∧ (m.kernel.processTable 1).status ≠ .zombie
      ∧ (execSteps machineExec m [.call (.wait (some 0) 3) (.waited (.reaped 2 0)), .forceTicks 1,
        .advance, .advance, .advance, .run]).map
          (fun m' => decide ((m'.kernel.processTable 1).status = .zombie)) = some true)
    (by decide +kernel)
  obtain ⟨m', hlater, hz'⟩ := execSteps_observe machineExec_step _ _ _ hrest
  have hreap : ∀ a ∈ [MachineAction.forceTicks 2, .advance, .advance, .advance, .run, .advance,
      .advance, .advance, .advance, .run, .advance, .advance], ¬a.reaps 1 ∧ ¬a.reaps 2 := by
    simp [MachineAction.reaps]
  have hreap' : ∀ a ∈ [MachineAction.call (.wait (some 0) 3) (.waited (.reaped 2 0)), .forceTicks 1,
      .advance, .advance, .advance, .run], ¬a.reaps 1 := by
    simp [MachineAction.reaps, reaps]
  have hpair := machineRun_socketPair eightMegabytes_ready rfl .nil hstep.of_one hafter
    (fun a ha => (hreap a ha).1) (by decide)
  have hpair' := machineRun_socketPair eightMegabytes_ready rfl .nil hstep.of_one
    (hafter.append hlater) (fun a ha => (List.mem_append.mp ha).elim (fun ha => (hreap a ha).1)
      (hreap' a)) (by decide)
  refine ⟨m1, _, m, _, m', hstep.of_one, hafter, hz, halive, hlater, ⟨_, List.mem_cons_self, ?_⟩,
    ?_, hz', hpair'.2.1 hz'⟩
  · exact ⟨0, rfl⟩
  · refine (hpair.2.2 (fun a ha => (hreap a ha).2) hz).imp_right fun hsent => ?_
    exact hsent.2 _ m' hlater hreap' (by decide)

end Kfs
