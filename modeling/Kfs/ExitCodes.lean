import Kfs.ProcessMoves
import Kfs.Syscalls

/-!
# Exit codes

`sys_wait` folds three outcomes into one word: `0xFFFFFFFF` when there is no
such child, `0` when it still runs, and else the exit code of the child. The
code is the one `process_exit` was called with, or `128 + signal` for a signal
that ends a process, and no call of the process interface records another one
(`EndsWith.exec`). The word tells the outcomes apart except where the code is
`0` or `0xFFFFFFFF`.
-/

namespace Kfs

/-! ## What zombies have recorded -/

/-- The exit code of every zombie satisfies `P`. -/
def EndsWith (P : Int → Prop) (k : Kernel) : Prop :=
  ∀ q, (k.processTable q).status = .zombie → P (k.processTable q).exitCode

section EndsWith

variable {P : Int → Prop} {k k' : Kernel}

theorem EndsWith.modify (h : EndsWith P k) (p : Slot) {f : Process → Process}
    (hf : (f (k.processTable p)).status = .zombie → P (f (k.processTable p)).exitCode) :
    EndsWith P (k.modify p f) := by
  intro q
  rw [modify_apply]
  split
  · exact hf
  · exact h q

/-- An assignment that leaves `status` and `exit_code` alone. -/
theorem EndsWith.keep (h : EndsWith P k) (p : Slot) {f : Process → Process}
    (hstatus : (f (k.processTable p)).status = (k.processTable p).status)
    (hcode : (f (k.processTable p)).exitCode = (k.processTable p).exitCode) :
    EndsWith P (k.modify p f) :=
  h.modify p fun hzombie => hcode ▸ h p (hstatus ▸ hzombie)

theorem EndsWith.of_core {r : Process} {q : Slot} (h : EndsWith P k)
    (hcore : r.core = (k.processTable q).core) (hzombie : r.status = .zombie) : P r.exitCode := by
  rw [core_exitCode hcore]
  exact h q ((core_status hcore).symm.trans hzombie)

/-! ### Creation and release -/

theorem EndsWith.create (h : EndsWith P k) (hk : k.kernelProcess = some 0)
    {parent p : Option Slot} {owner base size : Nat} {function : Option ExecFn}
    (call : processCreateInternal k parent owner base function size = .ok (p, k')) :
    EndsWith P k' := by
  cases p with
  | some p =>
      obtain ⟨-, -, vm, memory, table, head, -, rfl, hnew, hcore⟩ := spawn_eq call
      intro q hzombie
      by_cases hq : q = p
      · subst hq
        cases (core_status hnew).symm.trans hzombie
      · exact h.of_core (hcore q hq) hzombie
  | none =>
      rcases miss_eq hk call with rfl | ⟨p, vm, table, head, -, -, -, rfl, hzero, hcore⟩
      · exact h
      · intro q hzombie
        by_cases hq : q = p
        · subst hq
          cases (congrArg Process.status hzero).symm.trans hzombie
        · exact h.of_core (hcore q hq) hzombie

theorem EndsWith.release (h : EndsWith P k) {c : Slot} (hc : some c ≠ k.kernelProcess)
    (call : processRelease k c = .ok k') : EndsWith P k' := by
  obtain ⟨table, head, rfl, hzero, hcore⟩ := processRelease_eq hc call
  intro q hzombie
  by_cases hq : q = c
  · subst hq
    cases (congrArg Process.status hzero).symm.trans hzombie
  · exact h.of_core (hcore q hq) hzombie

theorem EndsWith.fork (h : EndsWith P k) (hk : k.kernelProcess = some 0) {source p : Option Slot}
    (call : forkProcess k source = .ok (p, k')) : EndsWith P k' := by
  unfold forkProcess at call
  cases source with
  | none =>
      obtain ⟨-, rfl⟩ := Prod.mk.inj (Except.ok.inj call)
      exact h
  | some source =>
      dsimp only at call
      split at call
      · obtain ⟨-, rfl⟩ := Prod.mk.inj (Except.ok.inj call)
        exact h
      · obtain ⟨⟨child, k1⟩, hcreate, call⟩ := bind_eq_ok.mp call
        have hcreated := h.create hk hcreate
        cases child with
        | none =>
            obtain ⟨-, rfl⟩ := Prod.mk.inj (Except.ok.inj call)
            exact hcreated
        | some child =>
            obtain ⟨-, rfl⟩ := Prod.mk.inj (Except.ok.inj call)
            have hcopied : ∀ vm, EndsWith P { k1 with vm := vm } := fun _ q => hcreated q
            exact (hcopied _).modify child fun hready => by cases hready

theorem EndsWith.spawnDemoCounter (h : EndsWith P k) (hk : k.kernelProcess = some 0)
    {owner seed limit : Nat} {p : Option Slot}
    (call : processSpawnDemoCounter k owner seed limit = .ok (p, k')) : EndsWith P k' := by
  obtain ⟨⟨child, k1⟩, hcreate, call⟩ := bind_eq_ok.mp call
  have hcreated := h.create hk hcreate
  cases child with
  | none =>
      obtain ⟨-, rfl⟩ := Prod.mk.inj (Except.ok.inj call)
      exact hcreated
  | some child =>
      obtain ⟨-, rfl⟩ := Prod.mk.inj (Except.ok.inj call)
      exact hcreated.keep child rfl rfl

theorem EndsWith.spawnDemoSocketPair (h : EndsWith P k) (hk : k.kernelProcess = some 0)
    {owner value : Nat} {pair : Option (Slot × Slot)}
    (call : processSpawnDemoSocketPair k owner value = .ok (pair, k')) : EndsWith P k' := by
  obtain ⟨⟨receiver, k1⟩, hfirst, call⟩ := bind_eq_ok.mp call
  have hcreated := h.create hk hfirst
  cases receiver with
  | none =>
      obtain ⟨-, rfl⟩ := Prod.mk.inj (Except.ok.inj call)
      exact hcreated
  | some receiver =>
      obtain ⟨⟨sender, k2⟩, hsecond, call⟩ := bind_eq_ok.mp call
      have hk1 := (Move.create hfirst).kernel hk
      have hboth := hcreated.create hk1 hsecond
      cases sender with
      | some sender =>
          obtain ⟨-, rfl⟩ := Prod.mk.inj (Except.ok.inj call)
          exact hboth.keep sender rfl rfl
      | none =>
          obtain ⟨k3, hrelease, call⟩ := bind_eq_ok.mp call
          obtain ⟨-, rfl⟩ := Prod.mk.inj (Except.ok.inj call)
          refine hboth.release ?_ hrelease
          rw [(Move.create hsecond).kernel hk1]
          exact fun heq => (spawn_status hfirst).1 (Option.some.inj heq)

theorem EndsWith.wait (h : EndsWith P k) {parent : Option Slot} {pid : Nat} {result : WaitResult}
    (call : processWait k parent pid = .ok (result, k')) : EndsWith P k' := by
  have hwaiting : EndsWith P (waitFor k parent pid) := by
    unfold waitFor
    cases parent with
    | none => exact h
    | some p =>
        have htarget := h.keep p (f := fun r => { r with waitTargetPid := pid }) rfl rfl
        dsimp only
        split
        · exact htarget
        · exact htarget.modify p fun hwait => by cases hwait
  have hstopped : EndsWith P (stopWaiting k parent) := by
    unfold stopWaiting
    cases parent with
    | none => exact h
    | some p =>
        dsimp only
        split
        · exact h.modify p fun hthread => by cases hthread
        · exact h
  obtain ⟨child, -, call⟩ := bind_eq_ok.mp call
  cases child with
  | none =>
      obtain ⟨-, rfl⟩ := Prod.mk.inj (Except.ok.inj call)
      exact h
  | some c =>
      dsimp only at call
      split at call
      · obtain ⟨-, rfl⟩ := Prod.mk.inj (Except.ok.inj call)
        exact h
      · split at call
        · obtain ⟨-, rfl⟩ := Prod.mk.inj (Except.ok.inj call)
          exact hwaiting
        · obtain ⟨k1, hrelease, call⟩ := bind_eq_ok.mp call
          obtain ⟨-, rfl⟩ := Prod.mk.inj (Except.ok.inj call)
          by_cases hc : some c = (stopWaiting k parent).kernelProcess
          · unfold processRelease at hrelease
            rw [if_pos hc] at hrelease
            obtain rfl := Except.ok.inj hrelease
            exact hstopped
          · exact hstopped.release hc hrelease

/-! ### Exits -/

theorem EndsWith.exit (h : EndsWith P k) (process : Option Slot) {exitCode : Int}
    (hcode : P exitCode) : EndsWith P (processExit k process exitCode) := by
  cases process with
  | none => exact h
  | some p =>
      have hended := h.modify p (f := fun r => { r with exitCode := exitCode, status := .zombie })
        fun _ => hcode
      rcases processExit_cases k p exitCode with ⟨-, heq⟩ | ⟨-, -, ⟨heq, -⟩ | ⟨q, -, -, -, heq⟩⟩
      · rw [heq]
        exact h
      · rw [heq]
        exact hended
      · rw [heq]
        exact hended.modify q fun hready => by cases hready

/-- The codes of the signals that end a process. -/
def FatalCodes (P : Int → Prop) : Prop :=
  ∀ signal, signal = processSignalTerm ∨ signal = processSignalKill → P (128 + signal)

variable (hfatal : FatalCodes P)

include hfatal

theorem EndsWith.deliverOne (h : EndsWith P k) (p : Slot) : EndsWith P (deliverOne k p) := by
  have hhandler : ∀ (k : Kernel) (signal : Int) (value : Nat), EndsWith P k →
      EndsWith P (processDefaultSignalHandler k p signal value) := by
    intro k signal value h
    have hlast := h.keep p (f := fun r => { r with
      lastSignal := toUInt32 signal, lastSignalValue := value }) rfl rfl
    unfold processDefaultSignalHandler
    dsimp only
    split
    · next hends => exact hlast.exit (some p) (hfatal signal hends)
    · exact hlast
  unfold Kfs.deliverOne
  dsimp only
  split
  · exact hhandler _ _ _ (h.keep p rfl rfl)
  · exact hhandler _ _ _ (h.keep p rfl rfl)

theorem EndsWith.deliverLoop (p : Slot) : ∀ (fuel delivered : Nat) {k : Kernel}, EndsWith P k →
    EndsWith P (deliverLoop p fuel delivered k).2
  | 0, _, _, h => h
  | fuel + 1, delivered, k, h => by
      have hone := h.deliverOne hfatal p
      rw [Kfs.deliverLoop]
      split
      · exact h
      · dsimp only
        split
        · exact hone
        · exact EndsWith.deliverLoop p fuel _ hone

theorem EndsWith.deliver (h : EndsWith P k) (process : Option Slot) :
    EndsWith P (deliverProcessSignal k process).2 := by
  cases process with
  | none => exact h
  | some p => exact EndsWith.deliverLoop hfatal p 16 0 h

theorem EndsWith.deliverAll {fuel : Nat} {process : Option Slot} (h : EndsWith P k)
    (call : deliverAll fuel process k = .ok k') : EndsWith P k' := by
  induction fuel generalizing process k with
  | zero => cases call
  | succ fuel ih =>
      cases process with
      | none =>
          obtain rfl := Except.ok.inj call
          exact h
      | some p =>
          simp only [Kfs.deliverAll] at call
          refine ih ?_ call
          split
          · exact h.deliver hfatal (some p)
          · exact h

omit hfatal

/-! ### Signals and sockets -/

theorem EndsWith.queue (h : EndsWith P k) (process : Option Slot) (signal : Int) (value : Nat) :
    EndsWith P (queueProcessSignal k process signal value).2 := by
  unfold queueProcessSignal
  cases process with
  | none => exact h
  | some p =>
      dsimp only
      split
      · exact h
      · exact h.keep p (f := fun r => { r with signals := r.signals.put ⟨signal, value⟩ }) rfl rfl

theorem EndsWith.sendSignal (h : EndsWith P k) {sender : Option Slot} {pid value : Nat}
    {signal : Int} {ok : Bool}
    (call : sendSignalToProcess k sender pid signal value = .ok (ok, k')) : EndsWith P k' := by
  obtain ⟨target, -, call⟩ := bind_eq_ok.mp call
  split at call
  · have hqueue : (queueProcessSignal k target signal value).2 = k' :=
      congrArg Prod.snd (Except.ok.inj call)
    rw [← hqueue]
    exact h.queue target signal value
  · obtain ⟨-, rfl⟩ := Prod.mk.inj (Except.ok.inj call)
    exact h

theorem EndsWith.socketSend (h : EndsWith P k) {sender : Option Slot} {pid value : Nat} {ok : Bool}
    (call : socketSend k sender pid value = .ok (ok, k')) : EndsWith P k' := by
  obtain ⟨target, -, call⟩ := bind_eq_ok.mp call
  cases target with
  | none =>
      obtain ⟨-, rfl⟩ := Prod.mk.inj (Except.ok.inj call)
      exact h
  | some t =>
      dsimp only at call
      split at call
      · obtain ⟨-, rfl⟩ := Prod.mk.inj (Except.ok.inj call)
        exact h
      · have hqueue := congrArg Prod.snd (Except.ok.inj call)
        dsimp only at hqueue
        rw [← hqueue]
        exact (h.keep t (f := fun r => { r with processSocket := r.processSocket.put value })
          rfl rfl).queue _ _ _

theorem EndsWith.socketRecv (h : EndsWith P k) (process : Option Slot) :
    EndsWith P (socketRecv k process).2 := by
  unfold Kfs.socketRecv
  cases process with
  | none => exact h
  | some p =>
      dsimp only
      split
      · exact h
      · exact h.keep p (f := fun r => { r with
          processSocket := r.processSocket.drop
          lastSocketValue := (k.processTable p).processSocket.front }) rfl rfl

/-! ### The scheduler -/

/-- `if (status == RUN) status = READY`. -/
theorem EndsWith.pause (h : EndsWith P k) (p : Slot) :
    EndsWith P (if (k.processTable p).status = .run then
      k.modify p fun r => { r with status := .ready } else k) := by
  split
  · exact h.modify p fun hready => by cases hready
  · exact h

theorem EndsWith.scheduleEvent (hfatal : FatalCodes P) (h : EndsWith P k)
    (call : scheduleEvent k = .ok k') : EndsWith P k' := by
  unfold Kfs.scheduleEvent at call
  split at call
  · obtain rfl := Except.ok.inj call
    exact h
  · obtain ⟨k1, hall, call⟩ := bind_eq_ok.mp call
    have hticked : EndsWith P { k with
      pendingSchedulerTicks := sub32 k.pendingSchedulerTicks 1 } := fun q => h q
    have h1 := hticked.deliverAll hfatal hall
    obtain ⟨picked, -, call⟩ := bind_eq_ok.mp call
    cases picked with
    | none =>
        obtain rfl := Except.ok.inj call
        exact h1
    | some p =>
        have hpicked : EndsWith P { k1 with
          schedulerCursor := some p, currentProcess := some p } := fun q => h1 q
        have hdelivered := hpicked.deliver hfatal (some p)
        dsimp only at call
        generalize (deliverProcessSignal
          { k1 with schedulerCursor := some p, currentProcess := some p } (some p)).2 = k2
          at call hdelivered
        split at call
        · obtain rfl := Except.ok.inj call
          have hrun := hdelivered.modify p (f := fun r => { r with
            status := .run
            cpuTicks := add32 r.cpuTicks 1
            runCount := add32 r.runCount 1
            switchCount := add32 r.switchCount 1 }) fun hrun => by cases hrun
          exact fun q => hrun q
        · obtain rfl := Except.ok.inj call
          exact fun q => hdelivered q

theorem EndsWith.yieldEvent (h : EndsWith P k) : EndsWith P (yieldEvent k) := by
  have hyield : EndsWith P (processYield k) := by
    unfold processYield
    split
    · exact h
    · next p _ =>
        split
        · exact h
        · exact EndsWith.keep (fun q => h.pause p q) p
            (f := fun r => { r with switchCount := add32 r.switchCount 1 }) rfl rfl
  have hspace : EndsWith P (processSwitchToKernelSpace (processYield k)) := by
    unfold processSwitchToKernelSpace
    split
    · exact hyield
    · exact fun q => hyield q
  unfold Kfs.yieldEvent
  split
  · exact h
  · next p _ => exact fun q => hspace.pause p q

end EndsWith

/-! ## Runs -/

/-- A call of `process_exit` with a code that satisfies `P`; other calls have
none. -/
def Event.CodeIn (P : Int → Prop) : Event → Prop
  | .exit _ exitCode => P exitCode
  | _ => True

instance (P : Int → Prop) [DecidablePred P] : (e : Event) → Decidable (e.CodeIn P)
  | .exit _ exitCode => inferInstanceAs (Decidable (P exitCode))
  | .createOwned .. | .execFn .. | .fork _ | .spawnDemoCounter .. | .spawnDemoSocketPair ..
  | .wait .. | .sendSignal .. | .deliverSignal _ | .socketSend .. | .socketRecv _
  | .schedulerTick | .schedule | .yield => inferInstanceAs (Decidable True)

/-- No call of the process interface records another code. -/
theorem EndsWith.exec {P : Int → Prop} {k k' : Kernel} (hfatal : FatalCodes P)
    (h : EndsWith P k) (hk : k.kernelProcess = some 0) {e : Event} {r : Reply}
    (he : e.CodeIn P) (hexec : e.exec k = .ok (r, k')) : EndsWith P k' := by
  cases e with
  | createOwned owner function size =>
      obtain ⟨p, -, call⟩ := map_reply_eq_ok.mp hexec
      exact h.create hk call
  | execFn addr function size =>
      obtain ⟨p, -, call⟩ := map_reply_eq_ok.mp hexec
      exact h.create hk call
  | fork source =>
      obtain ⟨p, -, call⟩ := map_reply_eq_ok.mp hexec
      exact h.fork hk call
  | spawnDemoCounter owner seed limit =>
      obtain ⟨p, -, call⟩ := map_reply_eq_ok.mp hexec
      exact h.spawnDemoCounter hk call
  | spawnDemoSocketPair owner value =>
      obtain ⟨pair, -, call⟩ := map_reply_eq_ok.mp hexec
      exact h.spawnDemoSocketPair hk call
  | exit process exitCode =>
      obtain ⟨-, rfl⟩ := Prod.mk.inj (Except.ok.inj hexec)
      exact h.exit process he
  | wait parent pid =>
      obtain ⟨result, -, call⟩ := map_reply_eq_ok.mp hexec
      exact h.wait call
  | sendSignal sender pid signal value =>
      obtain ⟨ok, -, call⟩ := map_reply_eq_ok.mp hexec
      exact h.sendSignal call
  | deliverSignal process =>
      obtain ⟨-, rfl⟩ := Prod.mk.inj (Except.ok.inj hexec)
      exact h.deliver hfatal process
  | socketSend sender pid value =>
      obtain ⟨ok, -, call⟩ := map_reply_eq_ok.mp hexec
      exact h.socketSend call
  | socketRecv process =>
      obtain ⟨-, rfl⟩ := Prod.mk.inj (Except.ok.inj hexec)
      exact h.socketRecv process
  | schedulerTick =>
      obtain ⟨-, rfl⟩ := Prod.mk.inj (Except.ok.inj hexec)
      exact fun q => h q
  | schedule =>
      obtain ⟨k1, call, heq⟩ := map_eq_ok.mp hexec
      obtain ⟨-, rfl⟩ := Prod.mk.inj heq
      exact h.scheduleEvent hfatal call
  | yield =>
      obtain ⟨-, rfl⟩ := Prod.mk.inj (Except.ok.inj hexec)
      exact h.yieldEvent

/-- A code of a C `int`. -/
def IntCode (c : Int) : Prop := -2147483648 ≤ c ∧ c < 2147483648

/-- A code that is neither of the words with a meaning of their own. -/
def PlainCode (c : Int) : Prop := IntCode c ∧ c ≠ 0 ∧ c ≠ -1

instance : DecidablePred IntCode := fun _ => inferInstanceAs (Decidable (_ ∧ _))

instance : DecidablePred PlainCode := fun _ => inferInstanceAs (Decidable (_ ∧ _ ∧ _))

theorem intCode_fatal : FatalCodes IntCode := by
  rintro signal (rfl | rfl) <;> exact ⟨by decide, by decide⟩

theorem plainCode_fatal : FatalCodes PlainCode := by
  rintro signal (rfl | rfl) <;> exact ⟨⟨by decide, by decide⟩, by decide, by decide⟩

theorem endRun_endsWith {P : Int → Prop} (hfatal : FatalCodes P) {vm : Vm}
    {labels : List (Event × Reply)} {k : Kernel}
    (hrun : Run (fun k label k' => KernelStep k label k' ∧ label.1.CodeIn P) (processInit vm)
      labels k) : EndsWith P k := by
  have hinit : EndsWith P (processInit vm) := by
    intro q hzombie
    unfold processInit at hzombie
    dsimp only at hzombie
    split at hzombie <;> cases hzombie
  refine (hrun.invariant (I := fun k => Linkage k ∧ EndsWith P k)
    ⟨linkage_processInit vm, hinit⟩ ?_).2
  rintro k label k' ⟨hl, h⟩ ⟨hstep, hcode⟩
  exact ⟨hl.step hstep, h.exec hfatal hl.kernel hcode hstep.2⟩

/-! ## What `sys_wait` tells -/

/-- What happened in `process_wait`, for its caller. -/
inductive WaitOutcome where
  | failed
  | running
  | ended (exitCode : Int)
  deriving DecidableEq

def WaitResult.outcome : WaitResult → WaitOutcome
  | .refused => .failed
  | .running => .running
  | .reaped _ exitCode => .ended exitCode

/-- The word `sys_wait` makes of an outcome. -/
def WaitOutcome.word : WaitOutcome → Nat
  | .failed => 0xFFFFFFFF
  | .running => 0
  | .ended exitCode => toUInt32 exitCode

/-- What happens in the `process_wait` that `sys_wait` calls. -/
def sysWaitOutcome (k : Kernel) (pid : Nat) : Except Fault WaitOutcome :=
  (processWait k k.creator pid).map fun r => r.1.outcome

/-- The child the current process may wait for under the identifier `pid`. -/
def WaitChild (k : Kernel) (pid : Nat) (child : Slot) : Prop :=
  processGetByPid k pid = .ok (some child)
    ∧ (k.creator = k.kernelProcess ∨ (k.processTable child).parent = k.creator)

def NoChild (k : Kernel) (pid : Nat) : Prop := ∀ child, ¬WaitChild k pid child

def RunningChild (k : Kernel) (pid : Nat) : Prop :=
  ∃ child, WaitChild k pid child ∧ (k.processTable child).status ≠ .zombie

def ZombieChild (k : Kernel) (pid : Nat) (exitCode : Int) : Prop :=
  ∃ child, WaitChild k pid child ∧ (k.processTable child).status = .zombie
    ∧ (k.processTable child).exitCode = exitCode

/-- A child that ended with `0` and one that runs, or a child that ended with
`-1` and none. -/
def Confusable (k : Kernel) (pid : Nat) (k' : Kernel) (pid' : Nat) : Prop :=
  ZombieChild k pid 0 ∧ RunningChild k' pid' ∨ ZombieChild k pid (-1) ∧ NoChild k' pid'

/-- The outcome is settled by the process table. -/
structure Foretold (k : Kernel) (pid : Nat) (o : WaitOutcome) : Prop where
  failed : o = .failed ↔ NoChild k pid
  running : o = .running ↔ RunningChild k pid
  ended : ∀ exitCode, o = .ended exitCode ↔ ZombieChild k pid exitCode

section Outcome

variable {k k' k1 : Kernel} {pid pid' result : Nat}

theorem WaitChild.unique {child child' : Slot} (h : WaitChild k pid child)
    (h' : WaitChild k pid child') : child = child' :=
  Option.some.inj (Except.ok.inj (h.1.symm.trans h'.1))

theorem NoChild.foretold (h : NoChild k pid) : Foretold k pid .failed where
  failed := iff_of_true rfl h
  running := iff_of_false nofun fun ⟨child, hchild, _⟩ => h child hchild
  ended _ := iff_of_false nofun fun ⟨child, hchild, _⟩ => h child hchild

theorem WaitChild.foretold_running {child : Slot} (h : WaitChild k pid child)
    (halive : (k.processTable child).status ≠ .zombie) : Foretold k pid .running where
  failed := iff_of_false nofun fun hnone => hnone child h
  running := iff_of_true rfl ⟨child, h, halive⟩
  ended _ := iff_of_false nofun fun ⟨_, hchild, hzombie, _⟩ => halive (h.unique hchild ▸ hzombie)

theorem WaitChild.foretold_ended {child : Slot} (h : WaitChild k pid child)
    (hzombie : (k.processTable child).status = .zombie) :
    Foretold k pid (.ended (k.processTable child).exitCode) where
  failed := iff_of_false nofun fun hnone => hnone child h
  running := iff_of_false nofun fun ⟨_, hchild, halive⟩ => halive (h.unique hchild ▸ hzombie)
  ended exitCode := by
    constructor
    · intro heq
      exact ⟨child, h, hzombie, WaitOutcome.ended.inj heq⟩
    · rintro ⟨child', hchild, -, rfl⟩
      rw [h.unique hchild]

/-- `sys_wait` returns the word of the outcome. -/
theorem sysWait_outcome (h : sysWait k pid = .ok (result, k1)) :
    ∃ o, sysWaitOutcome k pid = .ok o ∧ result = o.word ∧ Foretold k pid o := by
  obtain ⟨waited, hwait, hresult⟩ := sysWait_call h
  refine ⟨waited.outcome, map_of_ok hwait, by rw [hresult]; cases waited <;> rfl, ?_⟩
  obtain ⟨found, hget, hwait⟩ := bind_eq_ok.mp hwait
  cases found with
  | none =>
      obtain ⟨rfl, -⟩ := Prod.mk.inj (Except.ok.inj hwait)
      exact NoChild.foretold fun child hchild => (nomatch hget.symm.trans hchild.1)
  | some child =>
      dsimp only at hwait
      split at hwait
      · next hother =>
          obtain ⟨rfl, -⟩ := Prod.mk.inj (Except.ok.inj hwait)
          refine NoChild.foretold fun child' hchild => ?_
          obtain rfl := Option.some.inj (Except.ok.inj (hget.symm.trans hchild.1))
          exact hchild.2.elim hother.1 hother.2
      · next hkin =>
          have hchild : WaitChild k pid child := ⟨hget, Classical.or_iff_not_imp_left.mpr
            fun hcreator => not_not.mp fun hparent => hkin ⟨hcreator, hparent⟩⟩
          split at hwait
          · next halive =>
              obtain ⟨rfl, -⟩ := Prod.mk.inj (Except.ok.inj hwait)
              exact hchild.foretold_running halive
          · next hzombie =>
              obtain ⟨k2, -, hwait⟩ := bind_eq_ok.mp hwait
              obtain ⟨rfl, -⟩ := Prod.mk.inj (Except.ok.inj hwait)
              exact hchild.foretold_ended (not_not.mp hzombie)

/-- An exit code of the outcome is one of a zombie. -/
theorem Foretold.code {P : Int → Prop} {o : WaitOutcome} (h : Foretold k pid o)
    (hcodes : EndsWith P k) : ∀ c, o = .ended c → P c := by
  intro c heq
  obtain ⟨child, -, hzombie, rfl⟩ := (h.ended c).mp heq
  exact hcodes child hzombie

theorem toUInt32_eq_iff {c d : Int} (hc : IntCode c) (hd : IntCode d) :
    toUInt32 c = toUInt32 d ↔ c = d := by
  unfold IntCode at hc hd
  unfold toUInt32
  omega

/-- The exit code an outcome is taken for. -/
def WaitOutcome.taken : WaitOutcome → Int
  | .failed => -1
  | .running => 0
  | .ended exitCode => exitCode

theorem WaitOutcome.word_taken (o : WaitOutcome) : o.word = toUInt32 o.taken := by
  cases o <;> rfl

/-- Outcomes with the same word. -/
theorem word_eq_iff {o o' : WaitOutcome} (hcode : ∀ c, o = .ended c → IntCode c)
    (hcode' : ∀ c, o' = .ended c → IntCode c) :
    o.word = o'.word ↔ o = o' ∨ (o = .ended 0 ∧ o' = .running ∨ o = .ended (-1) ∧ o' = .failed)
      ∨ (o' = .ended 0 ∧ o = .running ∨ o' = .ended (-1) ∧ o = .failed) := by
  have hint : ∀ {o : WaitOutcome}, (∀ c, o = .ended c → IntCode c) → IntCode o.taken := by
    intro o hcode
    cases o with
    | failed => exact ⟨by decide, by decide⟩
    | running => exact ⟨by decide, by decide⟩
    | ended c => exact hcode c rfl
  rw [o.word_taken, o'.word_taken, toUInt32_eq_iff (hint hcode) (hint hcode')]
  cases o <;> cases o' <;> simp [WaitOutcome.taken, eq_comm]

/-- Two calls that return the same word saw the same outcome, unless they can
be confused. -/
theorem sysWait_told {k1' : Kernel} {result' : Nat} (hcodes : EndsWith IntCode k)
    (hcodes' : EndsWith IntCode k') (h : sysWait k pid = .ok (result, k1))
    (h' : sysWait k' pid' = .ok (result', k1')) :
    (result = result' → sysWaitOutcome k pid = sysWaitOutcome k' pid')
      ↔ ¬Confusable k pid k' pid' ∧ ¬Confusable k' pid' k pid := by
  obtain ⟨o, ho, rfl, hforetold⟩ := sysWait_outcome h
  obtain ⟨o', ho', rfl, hforetold'⟩ := sysWait_outcome h'
  unfold Confusable
  rw [ho, ho', Except.ok.injEq, word_eq_iff (hforetold.code hcodes) (hforetold'.code hcodes'),
    ← hforetold.ended, ← hforetold.ended, ← hforetold'.running, ← hforetold'.failed,
    ← hforetold'.ended, ← hforetold'.ended, ← hforetold.running, ← hforetold.failed, ← not_or]
  constructor
  · rintro htold hconfused
    obtain rfl := htold (Or.inr hconfused)
    rcases hconfused with (⟨rfl, heq⟩ | ⟨rfl, heq⟩) | ⟨rfl, heq⟩ | ⟨rfl, heq⟩ <;> cases heq
  · exact fun hclear hsame => hsame.resolve_right hclear

/-- Codes other than `0` and `-1` are never confused. -/
theorem EndsWith.not_confusable (h : EndsWith PlainCode k) : ¬Confusable k pid k' pid' := by
  rintro (⟨⟨child, -, hzombie, hcode⟩, -⟩ | ⟨⟨child, -, hzombie, hcode⟩, -⟩)
  · exact (h child hzombie).2.1 hcode
  · exact (h child hzombie).2.2 hcode

end Outcome

/-- In any two states the kernel can reach, `sys_wait` tells the outcomes
apart if and only if it does not see, in the one, a child that ended with `0`
or `-1` and, in the other, one that runs or none. When no process of the two
runs exits with `0` or `-1`, that is so in all their states. -/
theorem endRun_told {vm vm' : Vm} {labels labels' : List (Event × Reply)} {k k' : Kernel}
    (hrun : Run KernelStep (processInit vm) labels k)
    (hrun' : Run KernelStep (processInit vm') labels' k')
    (hcodes : ∀ label ∈ labels, label.1.CodeIn IntCode)
    (hcodes' : ∀ label ∈ labels', label.1.CodeIn IntCode) {pid pid' result result' : Nat}
    {k1 k1' : Kernel} (hcall : sysWait k pid = .ok (result, k1))
    (hcall' : sysWait k' pid' = .ok (result', k1')) :
    ((result = result' → sysWaitOutcome k pid = sysWaitOutcome k' pid')
        ↔ ¬Confusable k pid k' pid' ∧ ¬Confusable k' pid' k pid)
      ∧ ((∀ label ∈ labels, label.1.CodeIn PlainCode) →
        (∀ label ∈ labels', label.1.CodeIn PlainCode) →
          ¬Confusable k pid k' pid' ∧ ¬Confusable k' pid' k pid) := by
  have hint := endRun_endsWith intCode_fatal (hrun.restrict hcodes)
  have hint' := endRun_endsWith intCode_fatal (hrun'.restrict hcodes')
  refine ⟨sysWait_told hint hint' hcall hcall', fun hplain hplain' => ⟨?_, ?_⟩⟩
  · exact (endRun_endsWith plainCode_fatal (hrun.restrict hplain)).not_confusable
  · exact (endRun_endsWith plainCode_fatal (hrun'.restrict hplain')).not_confusable

/-- A process that runs, and one that has ended with `7`. -/
theorem endRun_told_seven : ∃ k k' : Kernel,
    Run KernelStep (processInit eightMegabytes)
        [(.createOwned 0 none 4096, .created (some 1)), (.exit (some 1) 7, .done)] k
      ∧ Run KernelStep (processInit eightMegabytes)
        [(.createOwned 0 none 4096, .created (some 1))] k'
      ∧ ¬Confusable k 2 k' 2 ∧ ¬Confusable k' 2 k 2 := by
  obtain ⟨k, hrun, hend⟩ := execRun_observe kernelExec_step (processInit eightMegabytes)
    [.createOwned 0 none 4096, .exit (some 1) 7] [.created (some 1), .done]
    (fun k => (sysWait k 2).toOption.map Prod.fst = some 7) (by decide +kernel)
  obtain ⟨k', hrun', hend'⟩ := execRun_observe kernelExec_step (processInit eightMegabytes)
    [.createOwned 0 none 4096] [.created (some 1)]
    (fun k => (sysWait k 2).toOption.map Prod.fst = some 0) (by decide +kernel)
  obtain ⟨k1, hcall⟩ := eq_ok_of_fst hend
  obtain ⟨k1', hcall'⟩ := eq_ok_of_fst hend'
  exact ⟨k, k', hrun, hrun', (endRun_told hrun hrun' (by decide) (by decide) hcall hcall').2
    (by decide) (by decide)⟩

/-- The word `0` for a child that runs and one that has ended with `0`, the
word `0xFFFFFFFF` for no child and one that has ended with `-1`. -/
theorem endRun_confused : ∃ k k0 k1 : Kernel,
    Run KernelStep (processInit eightMegabytes) [(.createOwned 0 none 4096, .created (some 1))] k
      ∧ Run KernelStep (processInit eightMegabytes)
        [(.createOwned 0 none 4096, .created (some 1)), (.exit (some 1) 0, .done)] k0
      ∧ Run KernelStep (processInit eightMegabytes)
        [(.createOwned 0 none 4096, .created (some 1)), (.exit (some 1) (-1), .done)] k1
      ∧ (∃ r r0, sysWait k 2 = .ok (0, r) ∧ sysWait k0 2 = .ok (0, r0)
        ∧ sysWaitOutcome k 2 = .ok .running ∧ sysWaitOutcome k0 2 = .ok (.ended 0))
      ∧ ∃ r r1, sysWait k 3 = .ok (0xFFFFFFFF, r) ∧ sysWait k1 2 = .ok (0xFFFFFFFF, r1)
        ∧ sysWaitOutcome k 3 = .ok .failed ∧ sysWaitOutcome k1 2 = .ok (.ended (-1)) := by
  obtain ⟨k, hrun, htwo, hthree, hrunning, hfailed⟩ :=
    execRun_observe kernelExec_step (processInit eightMegabytes)
      [.createOwned 0 none 4096] [.created (some 1)]
      (fun k => (sysWait k 2).toOption.map Prod.fst = some 0
        ∧ (sysWait k 3).toOption.map Prod.fst = some 0xFFFFFFFF
        ∧ (sysWaitOutcome k 2).toOption = some .running
        ∧ (sysWaitOutcome k 3).toOption = some .failed) (by decide +kernel)
  obtain ⟨k0, hrun0, hzero, hended0⟩ := execRun_observe kernelExec_step (processInit eightMegabytes)
    [.createOwned 0 none 4096, .exit (some 1) 0] [.created (some 1), .done]
    (fun k => (sysWait k 2).toOption.map Prod.fst = some 0
      ∧ (sysWaitOutcome k 2).toOption = some (.ended 0)) (by decide +kernel)
  obtain ⟨k1, hrun1, hmax, hended1⟩ := execRun_observe kernelExec_step (processInit eightMegabytes)
    [.createOwned 0 none 4096, .exit (some 1) (-1)] [.created (some 1), .done]
    (fun k => (sysWait k 2).toOption.map Prod.fst = some 0xFFFFFFFF
      ∧ (sysWaitOutcome k 2).toOption = some (.ended (-1))) (by decide +kernel)
  obtain ⟨r, hr⟩ := eq_ok_of_fst htwo
  obtain ⟨r0, hr0⟩ := eq_ok_of_fst hzero
  obtain ⟨r', hr'⟩ := eq_ok_of_fst hthree
  obtain ⟨r1, hr1⟩ := eq_ok_of_fst hmax
  exact ⟨k, k0, k1, hrun, hrun0, hrun1,
    ⟨r, r0, hr, hr0, eq_ok_of_toOption hrunning, eq_ok_of_toOption hended0⟩,
    r', r1, hr', hr1, eq_ok_of_toOption hfailed, eq_ok_of_toOption hended1⟩

end Kfs
