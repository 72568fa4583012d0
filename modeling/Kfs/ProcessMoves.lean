import Kfs.ProcessWalks

/-!
# The moves of a call

Every call of the process interface but `schedule` and `yield` is a sequence
of moves: it creates or releases a process, assigns to a record, delivers,
queues or exits. `exec_moves` is that sequence with, for each move, the calls
it can come from. What a call keeps is then one lemma about moves: `Run.along`
turns it into one about calls.
-/

namespace Kfs

/-- The moves that matter for signals and sockets; the rest is `other`. -/
inductive MoveLabel where
  | exit (process : Slot)
  | deliver (process : Slot)
  | queue (process : Slot) (pending : PendingSignal)
  | socket (process : Slot)
  | other

inductive Move : Kernel → MoveLabel → Kernel → Prop where
  | create {k k' : Kernel} {parent p : Option Slot} {owner base size : Nat}
      {function : Option ExecFn}
      (call : processCreateInternal k parent owner base function size = .ok (p, k')) :
      Move k .other k'
  | release {k k' : Kernel} {c : Slot} (notKernel : some c ≠ k.kernelProcess)
      (call : processRelease k c = .ok k') : Move k .other k'
  /-- An assignment to a record that makes nothing run and nothing a zombie. -/
  | assign {k : Kernel} (p : Slot) {f : Process → Process}
      (owner : (f (k.processTable p)).owner = (k.processTable p).owner)
      (signals : (f (k.processTable p)).signals = (k.processTable p).signals)
      (socket : (f (k.processTable p)).processSocket = (k.processTable p).processSocket)
      (run : (f (k.processTable p)).status = .run → (k.processTable p).status = .run)
      (zombie : (f (k.processTable p)).status = .zombie → (k.processTable p).status = .zombie) :
      Move k .other (k.modify p f)
  | copy {k : Kernel} (child source : ProcessMemory) :
      Move k .other { k with vm := copyPages child source k.vm }
  | tick {k : Kernel} : Move k .other (schedulerTick k)
  | exit {k : Kernel} (p : Slot) (exitCode : Int) :
      Move k (.exit p) (processExit k (some p) exitCode)
  | deliver {k : Kernel} {p : Slot} (pending : ¬(k.processTable p).signals.Empty) :
      Move k (.deliver p) (deliverOne k p)
  | queue {k : Kernel} {p : Slot} (pending : PendingSignal)
      (room : ¬(k.processTable p).signals.Full) :
      Move k (.queue p pending)
        (k.modify p fun r => { r with signals := r.signals.put pending })
  /-- An assignment to `process_socket`. -/
  | socket {k : Kernel} (p : Slot) {f : Process → Process}
      (keeps : ∀ r : Process, ∃ s v, f r = { r with processSocket := s, lastSocketValue := v }) :
      Move k (.socket p) (k.modify p f)

/-- The calls a move can be part of. -/
def MoveLabel.of (e : Event) : MoveLabel → Prop
  | .exit p => ∃ exitCode, e = .exit (some p) exitCode
  | .deliver p => e = .deliverSignal (some p)
  | .queue .. => (∃ sender pid signal value, e = .sendSignal sender pid signal value)
      ∨ ∃ sender pid value, e = .socketSend sender pid value
  | .socket p => (∃ sender pid value, e = .socketSend sender pid value)
      ∨ e = .socketRecv (some p)
  | .other => True

/-- A sequence of moves, all of kind `P`. -/
def Moves (P : MoveLabel → Prop) (k k' : Kernel) : Prop :=
  ∃ moves, Run Move k moves k' ∧ ∀ m ∈ moves, P m

section Moves

variable {P : MoveLabel → Prop} {k k' k'' : Kernel}

theorem Moves.refl (k : Kernel) : Moves P k k := ⟨[], .nil, by simp⟩

theorem Moves.trans (h : Moves P k k') (h' : Moves P k' k'') : Moves P k k'' := by
  obtain ⟨moves, hrun, hall⟩ := h
  obtain ⟨moves', hrun', hall'⟩ := h'
  refine ⟨moves ++ moves', hrun.append hrun', ?_⟩
  intro m hm
  rcases List.mem_append.mp hm with hm | hm
  · exact hall m hm
  · exact hall' m hm

theorem Move.moves {m : MoveLabel} (h : Move k m k') (hm : P m) : Moves P k k' :=
  ⟨[m], Run.one h, fun _ hmem => List.mem_singleton.mp hmem ▸ hm⟩

/-- No move assigns `kernel_process`. -/
theorem Move.kernel {m : MoveLabel} (h : Move k m k') (hk : k.kernelProcess = some 0) :
    k'.kernelProcess = some 0 := by
  cases h with
  | @create _ parent p owner base size function call =>
      cases p with
      | some p => exact ((KernelEffect.spawn call).pointers hk (Or.inl ⟨_, _, _, rfl⟩)).2.trans hk
      | none => exact ((KernelEffect.miss call).pointers hk (Or.inr (Or.inl ⟨_, rfl⟩))).2.trans hk
  | release hc call =>
      obtain ⟨table, head, rfl, -⟩ := processRelease_eq hc call
      exact hk
  | exit p exitCode => exact (processExit_tame k p exitCode).kernel.trans hk
  | deliver _ => exact (deliverOne_mildRun k _).tame.kernel.trans hk
  | _ => exact hk

/-- The rule for calls: what is reflexive and transitive and holds of every
move of kind `P`. -/
theorem Moves.along {R : Kernel → Kernel → Prop} (h : Moves P k k')
    (hk : k.kernelProcess = some 0) (hrefl : R k k)
    (htrans : ∀ {k1 k2}, R k k1 → R k1 k2 → R k k2)
    (hmove : ∀ {k1 m k2}, k1.kernelProcess = some 0 → P m → Move k1 m k2 → R k1 k2) :
    R k k' := by
  obtain ⟨moves, hrun, hall⟩ := h
  refine (hrun.invariant_trace (I := fun moves k' => (∀ m ∈ moves, P m) →
    k'.kernelProcess = some 0 ∧ R k k') (fun _ => ⟨hk, hrefl⟩) ?_ hall).2
  intro moves k1 m k2 ih hm hall
  obtain ⟨hk1, h1⟩ := ih fun m hm => hall m (List.mem_append_left _ hm)
  have hP : P m := hall m (List.mem_append_right _ (List.mem_singleton_self m))
  exact ⟨hm.kernel hk1, htrans h1 (hmove hk1 hP hm)⟩

end Moves

/-! ## Creation, exit and wait -/

section Calls

variable {k k' : Kernel} {P : MoveLabel → Prop}

theorem forkProcess_moves {source p : Option Slot} (hother : P .other)
    (h : forkProcess k source = .ok (p, k')) : Moves P k k' := by
  unfold forkProcess at h
  cases source with
  | none =>
      obtain ⟨-, rfl⟩ := Prod.mk.inj (Except.ok.inj h)
      exact Moves.refl _
  | some source =>
      dsimp only at h
      split at h
      · obtain ⟨-, rfl⟩ := Prod.mk.inj (Except.ok.inj h)
        exact Moves.refl _
      · obtain ⟨⟨child, k1⟩, hcreate, h⟩ := bind_eq_ok.mp h
        have hcreated := (Move.create hcreate).moves hother
        cases child with
        | none =>
            obtain ⟨-, rfl⟩ := Prod.mk.inj (Except.ok.inj h)
            exact hcreated
        | some child =>
            obtain ⟨-, rfl⟩ := Prod.mk.inj (Except.ok.inj h)
            have hcopied := (@Move.copy k1 (k1.processTable child).memory
              (k1.processTable source).memory).moves hother
            refine (hcreated.trans hcopied).trans (Move.moves ?_ hother)
            exact Move.assign child rfl rfl rfl (fun hready => by cases hready)
              fun hready => by cases hready

theorem processSpawnDemoCounter_moves {owner seed limit : Nat} {p : Option Slot}
    (hother : P .other) (h : processSpawnDemoCounter k owner seed limit = .ok (p, k')) :
    Moves P k k' := by
  obtain ⟨⟨child, k1⟩, hcreate, h⟩ := bind_eq_ok.mp h
  have hcreated := (Move.create hcreate).moves hother
  cases child with
  | none =>
      obtain ⟨-, rfl⟩ := Prod.mk.inj (Except.ok.inj h)
      exact hcreated
  | some child =>
      obtain ⟨-, rfl⟩ := Prod.mk.inj (Except.ok.inj h)
      exact hcreated.trans (Move.moves (Move.assign child rfl rfl rfl id id) hother)

theorem processSpawnDemoSocketPair_moves {owner value : Nat} {pair : Option (Slot × Slot)}
    (hk : k.kernelProcess = some 0) (hother : P .other)
    (h : processSpawnDemoSocketPair k owner value = .ok (pair, k')) : Moves P k k' := by
  obtain ⟨⟨receiver, k1⟩, hfirst, h⟩ := bind_eq_ok.mp h
  have hcreated := (Move.create hfirst).moves hother
  cases receiver with
  | none =>
      obtain ⟨-, rfl⟩ := Prod.mk.inj (Except.ok.inj h)
      exact hcreated
  | some receiver =>
      obtain ⟨⟨sender, k2⟩, hsecond, h⟩ := bind_eq_ok.mp h
      have hboth := hcreated.trans ((Move.create hsecond).moves hother)
      cases sender with
      | some sender =>
          obtain ⟨-, rfl⟩ := Prod.mk.inj (Except.ok.inj h)
          exact hboth.trans (Move.moves (Move.assign sender rfl rfl rfl id id) hother)
      | none =>
          obtain ⟨k3, hrelease, h⟩ := bind_eq_ok.mp h
          obtain ⟨-, rfl⟩ := Prod.mk.inj (Except.ok.inj h)
          refine hboth.trans (Move.moves (Move.release ?_ hrelease) hother)
          rw [(Move.create hsecond).kernel ((Move.create hfirst).kernel hk)]
          exact fun heq => (spawn_status hfirst).1 (Option.some.inj heq)

theorem waitFor_moves (k : Kernel) (parent : Option Slot) (pid : Nat) (hother : P .other) :
    Moves P k (waitFor k parent pid) := by
  unfold waitFor
  cases parent with
  | none => exact Moves.refl k
  | some p =>
      have htarget : Moves P k (k.modify p fun r => { r with waitTargetPid := pid }) :=
        Move.moves (Move.assign p rfl rfl rfl id id) hother
      dsimp only
      split
      · exact htarget
      · refine htarget.trans (Move.moves (Move.assign p rfl rfl rfl ?_ ?_) hother)
        · exact fun hwaiting => by cases hwaiting
        · exact fun hwaiting => by cases hwaiting

theorem stopWaiting_moves (k : Kernel) (parent : Option Slot) (hother : P .other) :
    Moves P k (stopWaiting k parent) := by
  unfold stopWaiting
  cases parent with
  | none => exact Moves.refl k
  | some p =>
      dsimp only
      split
      · refine Move.moves (Move.assign p rfl rfl rfl ?_ ?_) hother
        · exact fun hthread => by cases hthread
        · exact fun hthread => by cases hthread
      · exact Moves.refl k

theorem processWait_moves {parent : Option Slot} {pid : Nat} {result : WaitResult}
    (hother : P .other) (h : processWait k parent pid = .ok (result, k')) : Moves P k k' := by
  obtain ⟨child, -, h⟩ := bind_eq_ok.mp h
  cases child with
  | none =>
      obtain ⟨-, rfl⟩ := Prod.mk.inj (Except.ok.inj h)
      exact Moves.refl _
  | some c =>
      dsimp only at h
      split at h
      · obtain ⟨-, rfl⟩ := Prod.mk.inj (Except.ok.inj h)
        exact Moves.refl _
      · split at h
        · obtain ⟨-, rfl⟩ := Prod.mk.inj (Except.ok.inj h)
          exact waitFor_moves k parent pid hother
        · obtain ⟨k1, hrelease, h⟩ := bind_eq_ok.mp h
          obtain ⟨-, rfl⟩ := Prod.mk.inj (Except.ok.inj h)
          have hstop : Moves P k (stopWaiting k parent) := stopWaiting_moves k parent hother
          by_cases hc : some c = (stopWaiting k parent).kernelProcess
          · unfold processRelease at hrelease
            rw [if_pos hc] at hrelease
            obtain rfl := Except.ok.inj hrelease
            exact hstop
          · exact hstop.trans ((Move.release hc hrelease).moves hother)

/-! ## Signals and sockets -/

theorem deliverLoop_moves {p : Slot} (hp : P (.deliver p)) : ∀ (fuel delivered : Nat) (k : Kernel),
    Moves P k (deliverLoop p fuel delivered k).2
  | 0, _, k => Moves.refl k
  | fuel + 1, delivered, k => by
      rw [deliverLoop]
      split
      · exact Moves.refl k
      · next hpending =>
          dsimp only
          split
          · exact (Move.deliver hpending).moves hp
          · exact ((Move.deliver hpending).moves hp).trans (deliverLoop_moves hp fuel _ _)

theorem deliverProcessSignal_moves (k : Kernel) (process : Option Slot)
    (hp : ∀ p, process = some p → P (.deliver p)) :
    Moves P k (deliverProcessSignal k process).2 := by
  cases process with
  | none => exact Moves.refl k
  | some p => exact deliverLoop_moves (hp p rfl) 16 0 k

theorem deliverAll_moves {fuel : Nat} {process : Option Slot} (hp : ∀ p, P (.deliver p))
    (h : deliverAll fuel process k = .ok k') : Moves P k k' := by
  induction fuel generalizing process k with
  | zero => cases h
  | succ fuel ih =>
      cases process with
      | none =>
          obtain rfl := Except.ok.inj h
          exact Moves.refl k
      | some p =>
          simp only [deliverAll] at h
          refine Moves.trans ?_ (ih h)
          split
          · exact deliverProcessSignal_moves k (some p) fun q _ => hp q
          · exact Moves.refl k

theorem queueProcessSignal_moves (k : Kernel) {process : Option Slot} {signal : Int} {value : Nat}
    (hp : ∀ p, process = some p → P (.queue p ⟨signal, value⟩)) :
    Moves P k (queueProcessSignal k process signal value).2 := by
  unfold queueProcessSignal
  cases process with
  | none => exact Moves.refl k
  | some p =>
      dsimp only
      split
      · exact Moves.refl k
      · next hroom => exact (Move.queue _ hroom).moves (hp p rfl)

end Calls

/-- Every call but the two that switch contexts. -/
theorem exec_moves {k k' : Kernel} {e : Event} {r : Reply} (hk : k.kernelProcess = some 0)
    (h : e.exec k = .ok (r, k')) (hschedule : e ≠ .schedule) (hyield : e ≠ .yield) :
    Moves (MoveLabel.of e) k k' := by
  cases e with
  | createOwned owner function size =>
      obtain ⟨p, -, call⟩ := map_reply_eq_ok.mp h
      exact (Move.create call).moves trivial
  | execFn addr function size =>
      obtain ⟨p, -, call⟩ := map_reply_eq_ok.mp h
      exact (Move.create call).moves trivial
  | fork source =>
      obtain ⟨p, -, call⟩ := map_reply_eq_ok.mp h
      exact forkProcess_moves trivial call
  | spawnDemoCounter owner seed limit =>
      obtain ⟨p, -, call⟩ := map_reply_eq_ok.mp h
      exact processSpawnDemoCounter_moves trivial call
  | spawnDemoSocketPair owner value =>
      obtain ⟨pair, -, call⟩ := map_reply_eq_ok.mp h
      exact processSpawnDemoSocketPair_moves hk trivial call
  | exit process exitCode =>
      obtain ⟨-, rfl⟩ := Prod.mk.inj (Except.ok.inj h)
      cases process with
      | none => exact Moves.refl _
      | some p => exact (Move.exit p exitCode).moves ⟨exitCode, rfl⟩
  | wait parent pid =>
      obtain ⟨result, -, call⟩ := map_reply_eq_ok.mp h
      exact processWait_moves trivial call
  | sendSignal sender pid signal value =>
      obtain ⟨ok, -, call⟩ := map_reply_eq_ok.mp h
      obtain ⟨target, -, call⟩ := bind_eq_ok.mp call
      split at call
      · have hk1 : (queueProcessSignal k target signal value).2 = k' :=
          congrArg Prod.snd (Except.ok.inj call)
        rw [← hk1]
        exact queueProcessSignal_moves k fun _ _ => Or.inl ⟨sender, pid, signal, value, rfl⟩
      · obtain ⟨-, rfl⟩ := Prod.mk.inj (Except.ok.inj call)
        exact Moves.refl _
  | deliverSignal process =>
      obtain ⟨-, rfl⟩ := Prod.mk.inj (Except.ok.inj h)
      exact deliverProcessSignal_moves k process fun p hp => congrArg Event.deliverSignal hp
  | socketSend sender pid value =>
      obtain ⟨ok, -, call⟩ := map_reply_eq_ok.mp h
      obtain ⟨target, -, call⟩ := bind_eq_ok.mp call
      cases target with
      | none =>
          obtain ⟨-, rfl⟩ := Prod.mk.inj (Except.ok.inj call)
          exact Moves.refl _
      | some t =>
          dsimp only at call
          split at call
          · obtain ⟨-, rfl⟩ := Prod.mk.inj (Except.ok.inj call)
            exact Moves.refl _
          · have hk1 := congrArg Prod.snd (Except.ok.inj call)
            dsimp only at hk1
            rw [← hk1]
            refine Moves.trans (Move.moves (Move.socket t fun r => ⟨_, _, rfl⟩) ?_)
              (queueProcessSignal_moves _ fun _ _ => Or.inr ⟨sender, pid, value, rfl⟩)
            exact Or.inl ⟨sender, pid, value, rfl⟩
  | socketRecv process =>
      obtain ⟨-, rfl⟩ := Prod.mk.inj (Except.ok.inj h)
      unfold socketRecv
      cases process with
      | none => exact Moves.refl _
      | some p =>
          dsimp only
          split
          · exact Moves.refl _
          · exact Move.moves (Move.socket p fun r => ⟨_, _, rfl⟩) (Or.inr rfl)
  | schedulerTick =>
      obtain ⟨-, rfl⟩ := Prod.mk.inj (Except.ok.inj h)
      exact Move.tick.moves trivial
  | schedule => exact absurd rfl hschedule
  | yield => exact absurd rfl hyield

end Kfs
