import Kfs.ProcessWalks

/-!
# Sockets

`socket_send` writes into the ring of the target and then queues a signal
for it. When the ring has room and the signal queue has none, the value is
in the ring and the sender is told `-1` (`socketRun_exact_fails`); a sender
that tries again delivers it twice. As long as no send meets that state, the
values received are those sent, in order and once, and a send that fails
changes nothing (`socketRun_exact`).
-/

namespace Kfs

/-! ## Who touches a ring -/

/-- No ring changes between `k` and `k'`. -/
def SameSockets (k k' : Kernel) : Prop :=
  ∀ q, (k'.processTable q).processSocket = (k.processTable q).processSocket

theorem SameSockets.refl (k : Kernel) : SameSockets k k := fun _ => rfl

theorem SameSockets.trans {k k' k'' : Kernel} (h : SameSockets k k') (h' : SameSockets k' k'') :
    SameSockets k k'' := fun q => (h' q).trans (h q)

theorem SameSockets.modify (k : Kernel) {p : Slot} {f : Process → Process}
    (hf : (f (k.processTable p)).processSocket = (k.processTable p).processSocket) :
    SameSockets k (k.modify p f) :=
  modify_keeps Process.processSocket hf

theorem processExit_sockets (k : Kernel) (process : Option Slot) (exitCode : Int) :
    SameSockets k (processExit k process exitCode) := by
  cases process with
  | none => exact SameSockets.refl k
  | some p =>
      rcases processExit_cases k p exitCode with ⟨-, heq⟩ | ⟨-, -, ⟨heq, -⟩ | ⟨q, -, -, -, heq⟩⟩
      · rw [heq]
        exact SameSockets.refl k
      · rw [heq]
        exact SameSockets.modify k rfl
      · rw [heq]
        exact (SameSockets.modify k rfl).trans (SameSockets.modify _ rfl)

theorem processDefaultSignalHandler_sockets (k : Kernel) (p : Slot) (signal : Int)
    (value : Nat) : SameSockets k (processDefaultSignalHandler k p signal value) := by
  unfold processDefaultSignalHandler
  dsimp only
  split
  · exact (SameSockets.modify k rfl).trans (processExit_sockets _ _ _)
  · exact SameSockets.modify k rfl

theorem deliverLoop_sockets (p : Slot) : ∀ (fuel delivered : Nat) (k : Kernel),
    SameSockets k (deliverLoop p fuel delivered k).2
  | 0, _, k => SameSockets.refl k
  | fuel + 1, delivered, k => by
      have hone : SameSockets k (deliverOne k p) := by
        unfold deliverOne
        dsimp only
        split <;>
          exact (SameSockets.modify k rfl).trans (processDefaultSignalHandler_sockets _ _ _ _)
      rw [deliverLoop]
      split
      · exact SameSockets.refl k
      · dsimp only
        split
        · exact hone
        · exact hone.trans (deliverLoop_sockets p fuel _ _)

theorem deliverProcessSignal_sockets (k : Kernel) (process : Option Slot) :
    SameSockets k (deliverProcessSignal k process).2 := by
  cases process with
  | none => exact SameSockets.refl k
  | some p => exact deliverLoop_sockets p 16 0 k

theorem deliverAll_sockets {fuel : Nat} {process : Option Slot} {k k' : Kernel}
    (h : deliverAll fuel process k = .ok k') : SameSockets k k' := by
  induction fuel generalizing process k with
  | zero => cases h
  | succ fuel ih =>
      cases process with
      | none =>
          obtain rfl := Except.ok.inj h
          exact SameSockets.refl k
      | some p =>
          simp only [deliverAll] at h
          refine SameSockets.trans ?_ (ih h)
          split
          · exact deliverProcessSignal_sockets k (some p)
          · exact SameSockets.refl k

theorem scheduleEvent_sockets {k k' : Kernel} (h : scheduleEvent k = .ok k') :
    SameSockets k k' := by
  unfold scheduleEvent at h
  split at h
  · obtain rfl := Except.ok.inj h
    exact SameSockets.refl k
  · obtain ⟨k1, hall, h⟩ := bind_eq_ok.mp h
    have h1 : SameSockets k k1 := fun q => deliverAll_sockets hall q
    refine h1.trans ?_
    obtain ⟨picked, -, h⟩ := bind_eq_ok.mp h
    cases picked with
    | none =>
        obtain rfl := Except.ok.inj h
        exact SameSockets.refl k1
    | some p =>
        dsimp only at h
        have h2 : SameSockets k1 _ := fun q => deliverProcessSignal_sockets
          { k1 with schedulerCursor := some p, currentProcess := some p } (some p) q
        generalize (deliverProcessSignal
          { k1 with schedulerCursor := some p, currentProcess := some p } (some p)).2 = k2
          at h h2
        refine h2.trans ?_
        split at h
        · obtain rfl := Except.ok.inj h
          intro q
          dsimp only
          exact modify_keeps Process.processSocket rfl q
        · obtain rfl := Except.ok.inj h
          exact SameSockets.refl k2

theorem yieldEvent_sockets (k : Kernel) : SameSockets k (yieldEvent k) := by
  have hpause : ∀ (k1 : Kernel) (p : Slot),
      SameSockets k1 (if (k1.processTable p).status = .run then
        k1.modify p fun r => { r with status := .ready } else k1) := fun k1 p => by
    split
    · exact SameSockets.modify k1 rfl
    · exact SameSockets.refl k1
  have hyield : SameSockets k (processYield k) := by
    unfold processYield
    split
    · exact SameSockets.refl k
    · split
      · exact SameSockets.refl k
      · exact (hpause k _).trans (SameSockets.modify _ rfl)
  have hspace : ∀ k1 : Kernel, SameSockets k1 (processSwitchToKernelSpace k1) := fun k1 q => by
    rw [(processSwitchToKernelSpace_retarget k1).table]
  unfold yieldEvent
  split
  · exact SameSockets.refl k
  · exact (hyield.trans (hspace _)).trans (hpause _ _)

theorem waitFor_sockets (k : Kernel) (parent : Option Slot) (pid : Nat) :
    SameSockets k (waitFor k parent pid) := by
  unfold waitFor
  split
  · exact SameSockets.refl k
  · dsimp only
    split
    · exact SameSockets.modify k rfl
    · exact (SameSockets.modify k rfl).trans (SameSockets.modify _ rfl)

theorem stopWaiting_sockets (k : Kernel) (parent : Option Slot) :
    SameSockets k (stopWaiting k parent) := by
  unfold stopWaiting
  split
  · exact SameSockets.refl k
  · split
    · exact SameSockets.modify k rfl
    · exact SameSockets.refl k

theorem queueProcessSignal_sockets (k : Kernel) (process : Option Slot) (signal : Int)
    (value : Nat) : SameSockets k (queueProcessSignal k process signal value).2 := by
  unfold queueProcessSignal
  split
  · exact SameSockets.refl k
  · split
    · exact SameSockets.refl k
    · dsimp only
      exact SameSockets.modify k rfl

/-! ## Creation and release -/

theorem core_processSocket {r s : Process} (h : r.core = s.core) :
    r.processSocket = s.processSocket :=
  core_field Process.processSocket (fun _ => rfl) h

section Create

variable {k k' : Kernel} {parent : Option Slot} {owner base size : Nat}
  {function : Option ExecFn} {t : Slot}

/-- A creation leaves the ring of a living process alone, and does not use
its slot. -/
theorem create_socket {p : Option Slot} (hk : k.kernelProcess = some 0)
    (call : processCreateInternal k parent owner base function size = .ok (p, k'))
    (ht : (k.processTable t).used = true) :
    (k'.processTable t).processSocket = (k.processTable t).processSocket
      ∧ (k'.processTable t).used = true ∧ p ≠ some t ∧ k'.kernelProcess = some 0 := by
  cases p with
  | none =>
      have hx := KernelEffect.miss call
      have hcore := hx.miss_core hk ht
      exact ⟨core_processSocket hcore, (core_used hcore).trans ht, (Option.some_ne_none t).symm,
        (hx.pointers hk (Or.inr (Or.inl ⟨_, rfl⟩))).2.trans hk⟩
  | some p =>
      have hx := KernelEffect.spawn call
      obtain ⟨-, hunused, -, hcore⟩ := hx.spawn_table
      have htp : t ≠ p := by
        rintro rfl
        rw [ht] at hunused
        cases hunused
      exact ⟨core_processSocket (hcore t htp), (core_used (hcore t htp)).trans ht,
        fun heq => htp (Option.some.inj heq).symm,
        (hx.pointers hk (Or.inl ⟨_, _, _, rfl⟩)).2.trans hk⟩

theorem release_socket {c : Slot} (call : processRelease k c = .ok k') (htc : t ≠ c) :
    (k'.processTable t).processSocket = (k.processTable t).processSocket := by
  by_cases hc : some c = k.kernelProcess
  · unfold processRelease at call
    rw [if_pos hc] at call
    obtain rfl := Except.ok.inj call
    rfl
  · obtain ⟨table, head, rfl, -, hcore⟩ := processRelease_eq hc call
    exact core_processSocket (hcore t htc)

theorem fork_socket {source p : Option Slot} (hk : k.kernelProcess = some 0)
    (call : forkProcess k source = .ok (p, k')) (ht : (k.processTable t).used = true) :
    (k'.processTable t).processSocket = (k.processTable t).processSocket := by
  unfold forkProcess at call
  cases source with
  | none =>
      obtain ⟨-, rfl⟩ := Prod.mk.inj (Except.ok.inj call)
      rfl
  | some source =>
      dsimp only at call
      split at call
      · obtain ⟨-, rfl⟩ := Prod.mk.inj (Except.ok.inj call)
        rfl
      · obtain ⟨⟨child, k1⟩, hcreate, call⟩ := bind_eq_ok.mp call
        obtain ⟨hsocket, -, hne, -⟩ := create_socket hk hcreate ht
        cases child with
        | none =>
            obtain ⟨-, rfl⟩ := Prod.mk.inj (Except.ok.inj call)
            exact hsocket
        | some child =>
            obtain ⟨-, rfl⟩ := Prod.mk.inj (Except.ok.inj call)
            have htc : t ≠ child := fun heq => hne (heq ▸ rfl)
            rw [modify_of_ne _ _ _ htc]
            exact hsocket

theorem spawnDemoCounter_socket {seed limit : Nat} {p : Option Slot}
    (hk : k.kernelProcess = some 0)
    (call : processSpawnDemoCounter k owner seed limit = .ok (p, k'))
    (ht : (k.processTable t).used = true) :
    (k'.processTable t).processSocket = (k.processTable t).processSocket := by
  obtain ⟨⟨child, k1⟩, hcreate, call⟩ := bind_eq_ok.mp call
  obtain ⟨hsocket, -⟩ := create_socket hk hcreate ht
  cases child with
  | none =>
      obtain ⟨-, rfl⟩ := Prod.mk.inj (Except.ok.inj call)
      exact hsocket
  | some child =>
      obtain ⟨-, rfl⟩ := Prod.mk.inj (Except.ok.inj call)
      exact (SameSockets.modify k1 rfl t).trans hsocket

theorem spawnDemoSocketPair_socket {value : Nat} {pair : Option (Slot × Slot)}
    (hk : k.kernelProcess = some 0)
    (call : processSpawnDemoSocketPair k owner value = .ok (pair, k'))
    (ht : (k.processTable t).used = true) :
    (k'.processTable t).processSocket = (k.processTable t).processSocket := by
  obtain ⟨⟨receiver, k1⟩, hcreate1, call⟩ := bind_eq_ok.mp call
  obtain ⟨hsocket1, ht1, hne1, hk1⟩ := create_socket hk hcreate1 ht
  cases receiver with
  | none =>
      obtain ⟨-, rfl⟩ := Prod.mk.inj (Except.ok.inj call)
      exact hsocket1
  | some a =>
      obtain ⟨⟨sender, k2⟩, hcreate2, call⟩ := bind_eq_ok.mp call
      obtain ⟨hsocket2, -⟩ := create_socket hk1 hcreate2 ht1
      cases sender with
      | none =>
          obtain ⟨k3, hrel, call⟩ := bind_eq_ok.mp call
          obtain ⟨-, rfl⟩ := Prod.mk.inj (Except.ok.inj call)
          have hta : t ≠ a := fun heq => hne1 (heq ▸ rfl)
          exact (release_socket hrel hta).trans (hsocket2.trans hsocket1)
      | some b =>
          obtain ⟨-, rfl⟩ := Prod.mk.inj (Except.ok.inj call)
          exact (SameSockets.modify k2 rfl t).trans (hsocket2.trans hsocket1)

end Create

theorem wait_socket {k k' : Kernel} {parent : Option Slot} {pid : Nat} {result : WaitResult}
    {t : Slot} (call : processWait k parent pid = .ok (result, k'))
    (hreap : ∀ exitCode, result ≠ .reaped t exitCode) :
    (k'.processTable t).processSocket = (k.processTable t).processSocket := by
  obtain ⟨child, -, h⟩ := bind_eq_ok.mp call
  cases child with
  | none =>
      obtain ⟨-, rfl⟩ := Prod.mk.inj (Except.ok.inj h)
      rfl
  | some c =>
      dsimp only at h
      split at h
      · obtain ⟨-, rfl⟩ := Prod.mk.inj (Except.ok.inj h)
        rfl
      · split at h
        · obtain ⟨-, rfl⟩ := Prod.mk.inj (Except.ok.inj h)
          exact waitFor_sockets k parent pid t
        · obtain ⟨k1, hrel, h⟩ := bind_eq_ok.mp h
          obtain ⟨rfl, rfl⟩ := Prod.mk.inj (Except.ok.inj h)
          have htc : t ≠ c := by
            rintro rfl
            exact hreap _ rfl
          exact (release_socket hrel htc).trans (stopWaiting_sockets k parent t)

/-- No event but a send or a receive touches the ring of a living process. -/
theorem exec_socket {k k' : Kernel} {e : Event} {r : Reply} {t : Slot}
    (hk : k.kernelProcess = some 0) (h : e.exec k = .ok (r, k'))
    (ht : (k.processTable t).used = true) (hreap : ¬reaps t (e, r))
    (hsend : ∀ sender pid value, e ≠ .socketSend sender pid value)
    (hrecv : ∀ process, e ≠ .socketRecv process) :
    (k'.processTable t).processSocket = (k.processTable t).processSocket := by
  cases e with
  | createOwned owner function size =>
      obtain ⟨p, -, call⟩ := map_reply_eq_ok.mp h
      exact (create_socket hk call ht).1
  | execFn addr function size =>
      obtain ⟨p, -, call⟩ := map_reply_eq_ok.mp h
      exact (create_socket hk call ht).1
  | fork source =>
      obtain ⟨p, -, call⟩ := map_reply_eq_ok.mp h
      exact fork_socket hk call ht
  | spawnDemoCounter owner seed limit =>
      obtain ⟨p, -, call⟩ := map_reply_eq_ok.mp h
      exact spawnDemoCounter_socket hk call ht
  | spawnDemoSocketPair owner value =>
      obtain ⟨p, -, call⟩ := map_reply_eq_ok.mp h
      exact spawnDemoSocketPair_socket hk call ht
  | exit process exitCode =>
      obtain ⟨-, rfl⟩ := Prod.mk.inj (Except.ok.inj h)
      exact processExit_sockets k process exitCode t
  | wait parent pid =>
      obtain ⟨result, rfl, call⟩ := map_reply_eq_ok.mp h
      exact wait_socket call fun exitCode hresult => hreap ⟨exitCode, congrArg _ hresult⟩
  | sendSignal sender pid signal value =>
      obtain ⟨ok, -, call⟩ := map_reply_eq_ok.mp h
      obtain ⟨target, -, call⟩ := bind_eq_ok.mp call
      split at call
      · have heq := congrArg Prod.snd (Except.ok.inj call)
        rw [← show _ = k' from heq]
        exact queueProcessSignal_sockets k target signal value t
      · obtain ⟨-, rfl⟩ := Prod.mk.inj (Except.ok.inj call)
        rfl
  | deliverSignal process =>
      obtain ⟨-, rfl⟩ := Prod.mk.inj (Except.ok.inj h)
      exact deliverProcessSignal_sockets k process t
  | socketSend sender pid value => exact absurd rfl (hsend sender pid value)
  | socketRecv process => exact absurd rfl (hrecv process)
  | schedulerTick =>
      obtain ⟨-, rfl⟩ := Prod.mk.inj (Except.ok.inj h)
      rfl
  | schedule =>
      obtain ⟨k1, call, heq⟩ := map_eq_ok.mp h
      obtain ⟨-, rfl⟩ := Prod.mk.inj heq
      exact scheduleEvent_sockets call t
  | yield =>
      obtain ⟨-, rfl⟩ := Prod.mk.inj (Except.ok.inj h)
      exact yieldEvent_sockets k t

/-! ## Sending and receiving -/

/-- What `socket_send` does to the process it finds. -/
theorem socketSend_cases {k k' : Kernel} {sender : Option Slot} {pid value : Nat} {ok : Bool}
    {t : Slot} (h : socketSend k sender pid value = .ok (ok, k'))
    (hget : processGetByPid k pid = .ok (some t)) :
    ((k.processTable t).processSocket.Full ∧ ok = false ∧ k' = k)
      ∨ (¬(k.processTable t).processSocket.Full
        ∧ (ok = true ↔ ¬(k.processTable t).signals.Full)
        ∧ (k'.processTable t).processSocket = (k.processTable t).processSocket.put value) := by
  obtain ⟨target, hget', h⟩ := bind_eq_ok.mp h
  obtain rfl := Except.ok.inj (hget'.symm.trans hget)
  dsimp only at h
  split at h
  · next hfull =>
      obtain ⟨rfl, rfl⟩ := Prod.mk.inj (Except.ok.inj h)
      exact Or.inl ⟨hfull, rfl, rfl⟩
  · next hroom =>
      refine Or.inr ⟨hroom, ?_⟩
      unfold queueProcessSignal at h
      dsimp only at h
      rw [modify_self] at h
      split at h
      · next hfull =>
          obtain ⟨rfl, rfl⟩ := Prod.mk.inj (Except.ok.inj h)
          refine ⟨by simpa using hfull, ?_⟩
          rw [modify_self]
      · next hqueue =>
          obtain ⟨rfl, rfl⟩ := Prod.mk.inj (Except.ok.inj h)
          refine ⟨by simpa using hqueue, ?_⟩
          rw [modify_self, modify_self]

theorem socketSend_other {k k' : Kernel} {sender : Option Slot} {pid value : Nat} {ok : Bool}
    {t : Slot} (h : socketSend k sender pid value = .ok (ok, k'))
    (hget : processGetByPid k pid ≠ .ok (some t)) :
    (k'.processTable t).processSocket = (k.processTable t).processSocket := by
  obtain ⟨target, hget', h⟩ := bind_eq_ok.mp h
  cases target with
  | none =>
      obtain ⟨-, rfl⟩ := Prod.mk.inj (Except.ok.inj h)
      rfl
  | some q =>
      have htq : t ≠ q := by
        rintro rfl
        exact hget hget'
      dsimp only at h
      split at h
      · obtain ⟨-, rfl⟩ := Prod.mk.inj (Except.ok.inj h)
        rfl
      · have heq := congrArg Prod.snd (Except.ok.inj h)
        rw [← show _ = k' from heq, queueProcessSignal_sockets, modify_of_ne _ _ _ htq]

theorem socketRecv_cases (k : Kernel) (t : Slot) :
    ((k.processTable t).processSocket.Empty ∧ socketRecv k (some t) = (none, k))
      ∨ (¬(k.processTable t).processSocket.Empty
        ∧ (socketRecv k (some t)).1 = some (k.processTable t).processSocket.front
        ∧ ((socketRecv k (some t)).2.processTable t).processSocket
          = (k.processTable t).processSocket.drop) := by
  unfold socketRecv
  dsimp only
  split
  · next hempty => exact Or.inl ⟨hempty, rfl⟩
  · next hempty =>
      refine Or.inr ⟨hempty, rfl, ?_⟩
      dsimp only
      rw [modify_self]

theorem socketRecv_other (k : Kernel) {t : Slot} {process : Option Slot}
    (hne : process ≠ some t) :
    ((socketRecv k process).2.processTable t).processSocket
      = (k.processTable t).processSocket := by
  unfold socketRecv
  split
  · rfl
  · rename_i p
    dsimp only
    split
    · rfl
    · have htp : t ≠ p := fun heq => hne (heq ▸ rfl)
      dsimp only
      rw [modify_of_ne _ _ _ htp]

/-! ## Runs -/

/-- Whether a send can keep its promise: it finds the ring full, or room in
the signal queue. -/
def Event.keepsSocket (k : Kernel) : Event → Prop
  | .socketSend _ pid _ => ∀ t, processGetByPid k pid = .ok (some t) →
      (k.processTable t).processSocket.Full ∨ ¬(k.processTable t).signals.Full
  | _ => True

def SocketStep (k : Kernel) (label : Event × Reply) (k' : Kernel) : Prop :=
  KernelStep k label k' ∧ label.1.keepsSocket k

/-- The value of a send to `pid` that returned `0`. -/
def acceptedBy (pid : Nat) : Event × Reply → Option Nat
  | (.socketSend _ pid' value, .sent true) => if pid' = pid then some value else none
  | _ => none

/-- The value of a receive by `t` that returned `0`. -/
def receivedBy (t : Slot) : Event × Reply → Option Nat
  | (.socketRecv process, .received value) => if process = some t then value else none
  | _ => none

def accepted (pid : Nat) (labels : List (Event × Reply)) : List Nat :=
  labels.filterMap (acceptedBy pid)

def received (t : Slot) (labels : List (Event × Reply)) : List Nat :=
  labels.filterMap (receivedBy t)

/-- Along the runs of `step`, from a state in which `t` is alive with an empty
ring and until it is reaped, what `t` receives is what was sent to it, and a
send that fails leaves no trace. -/
def SocketsExact (step : Kernel → Event × Reply → Kernel → Prop) (vm : Vm) : Prop :=
  ∀ before k0 pid t, Run KernelStep (processInit vm) before k0 →
    processGetByPid k0 pid = .ok (some t) → (k0.processTable t).processSocket.Empty →
    ∀ labels k, Run step k0 labels k → creations (before ++ labels) < 4294967295 →
    (∀ label ∈ labels, ¬reaps t label) →
    received t labels <+: accepted pid labels
      ∧ ∀ sender value k', step k (.socketSend sender pid value, .sent false) k' →
        (k'.processTable t).processSocket = (k.processTable t).processSocket
          ∧ (k'.processTable t).signals = (k.processTable t).signals

section Labels

variable {pid : Nat} {t : Slot} {e : Event} {r : Reply}

theorem acceptedBy_other (h : ∀ sender pid value, e ≠ .socketSend sender pid value) :
    acceptedBy pid (e, r) = none := by
  cases e with
  | socketSend sender pid value => exact absurd rfl (h sender pid value)
  | _ => rfl

theorem receivedBy_other (h : ∀ process, e ≠ .socketRecv process) :
    receivedBy t (e, r) = none := by
  cases e with
  | socketRecv process => exact absurd rfl (h process)
  | _ => rfl

end Labels

/-- What was received and what is in the ring is what was accepted. -/
def Balanced (pid : Nat) (t : Slot) (labels : List (Event × Reply)) (k : Kernel) : Prop :=
  received t labels ++ (k.processTable t).processSocket.contents = accepted pid labels

theorem Balanced.same {pid : Nat} {t : Slot} {labels : List (Event × Reply)} {k k' : Kernel}
    {label : Event × Reply} (h : Balanced pid t labels k) (haccept : acceptedBy pid label = none)
    (hreceive : receivedBy t label = none)
    (hring : (k'.processTable t).processSocket = (k.processTable t).processSocket) :
    Balanced pid t (labels ++ [label]) k' := by
  unfold Balanced received accepted at h ⊢
  rw [List.filterMap_append, List.filterMap_append, hring]
  simpa [haccept, hreceive] using h

/-- One step keeps the balance. -/
theorem Balanced.step {pid : Nat} {t : Slot} {labels : List (Event × Reply)} {k k' : Kernel}
    {label : Event × Reply} (h : Balanced pid t labels k) (hk : k.kernelProcess = some 0)
    (hget : processGetByPid k pid = .ok (some t)) (hstep : SocketStep k label k')
    (hreap : ¬reaps t label) : Balanced pid t (labels ++ [label]) k' := by
  obtain ⟨⟨-, hexec⟩, hsafe⟩ := hstep
  obtain ⟨e, r⟩ := label
  obtain ⟨ht, hpid⟩ := processGetByPid_some hget
  by_cases hsend : ∃ sender pid value, e = .socketSend sender pid value
  · obtain ⟨sender, pid', value, rfl⟩ := hsend
    obtain ⟨ok, rfl, call⟩ := map_reply_eq_ok.mp hexec
    by_cases hpid' : pid' = pid
    · subst hpid'
      rcases socketSend_cases call hget with ⟨-, rfl, rfl⟩ | ⟨hroom, hok, hput⟩
      · exact h.same rfl rfl rfl
      · -- the ring has room, so by assumption the queue has
        have htrue : ok = true := hok.mpr ((hsafe t hget).resolve_left hroom)
        unfold Balanced received accepted at h ⊢
        rw [List.filterMap_append, List.filterMap_append, hput, Ring.contents_put hroom]
        simp only [List.filterMap_cons, List.filterMap_nil, acceptedBy, receivedBy, htrue, if_true]
        rw [← h, List.append_nil, List.append_assoc]
    · have hother : processGetByPid k pid' ≠ .ok (some t) := fun hget' =>
        hpid' ((processGetByPid_some hget').2.symm.trans hpid)
      refine h.same ?_ rfl (socketSend_other call hother)
      cases ok with
      | true => exact if_neg hpid'
      | false => rfl
  · have hsend' : ∀ sender pid value, e ≠ .socketSend sender pid value :=
      fun sender pid value heq => hsend ⟨sender, pid, value, heq⟩
    by_cases hrecv : ∃ process, e = .socketRecv process
    · obtain ⟨process, rfl⟩ := hrecv
      obtain ⟨rfl, rfl⟩ := Prod.mk.inj (Except.ok.inj hexec)
      by_cases hprocess : process = some t
      · subst hprocess
        rcases socketRecv_cases k t with ⟨-, heq⟩ | ⟨hsome, hfront, hdrop⟩
        · rw [heq]
          exact h.same rfl (if_pos rfl) rfl
        · unfold Balanced received accepted at h ⊢
          rw [List.filterMap_append, List.filterMap_append, hfront, hdrop, ← h,
            Ring.contents_drop hsome]
          simp [acceptedBy, receivedBy]
      · exact h.same rfl (if_neg hprocess) (socketRecv_other k hprocess)
    · have hrecv' : ∀ process, e ≠ .socketRecv process := fun process heq => hrecv ⟨process, heq⟩
      exact h.same (acceptedBy_other hsend') (receivedBy_other hrecv')
        (exec_socket hk hexec ht hreap hsend' hrecv')

/-- The target stays where it is and the balance holds along the run. -/
theorem balanced_run {vm : Vm} {before labels : List (Event × Reply)} {k0 k : Kernel} {pid : Nat}
    {t : Slot} (hbefore : Run KernelStep (processInit vm) before k0)
    (hget : processGetByPid k0 pid = .ok (some t))
    (hempty : (k0.processTable t).processSocket.Empty) (hrun : Run SocketStep k0 labels k)
    (hc : creations (before ++ labels) < 4294967295)
    (hreap : ∀ label ∈ labels, ¬reaps t label) :
    processGetByPid k pid = .ok (some t) ∧ Balanced pid t labels k := by
  refine (hrun.invariant_trace (I := fun labels k =>
    Run KernelStep (processInit vm) (before ++ labels) k
      ∧ (creations (before ++ labels) < 4294967295 → (∀ label ∈ labels, ¬reaps t label) →
        processGetByPid k pid = .ok (some t) ∧ Balanced pid t labels k))
    ⟨by simpa using hbefore, fun _ _ => ⟨hget, ?_⟩⟩ ?_).2 hc hreap
  · unfold Balanced
    rw [Ring.contents_eq_nil hempty]
    rfl
  · rintro labels k1 label k2 ⟨hrun1, ih⟩ hstep
    have hrun2 : Run KernelStep (processInit vm) (before ++ (labels ++ [label])) k2 := by
      rw [← List.append_assoc]
      exact hrun1.snoc hstep.1
    refine ⟨hrun2, ?_⟩
    intro hc hreap
    have hc1 : creations (before ++ labels) < 4294967295 := by
      rw [← List.append_assoc, creations_append] at hc
      omega
    obtain ⟨hget1, hbal⟩ := ih hc1 fun x hx => hreap x (List.mem_append_left _ hx)
    have hnot := hreap label (by simp)
    obtain ⟨hl1, -⟩ := kernelRun_linkage hrun1
    obtain ⟨⟨l, kids, hl2⟩, hpids⟩ := kernelRun_linkage hrun2
    obtain ⟨n, -, hpid2⟩ := hpids hc
    obtain ⟨ht, hpid⟩ := processGetByPid_some hget1
    obtain ⟨ht2, hsame⟩ := hl1.lives hstep.1 ht hnot
    exact ⟨(hl2.getByPid_some hpid2.inj pid t).mpr ⟨ht2, hsame.trans hpid⟩,
      hbal.step hl1.kernel hget1 hstep hnot⟩

/-- Delivery is exactly once and failures leave no trace, along the runs in
which no send finds room in the ring and none in the signal queue. -/
theorem socketRun_exact (vm : Vm) : SocketsExact SocketStep vm := by
  intro before k0 pid t hbefore hget hempty labels k hrun hc hreap
  obtain ⟨hget1, hbal⟩ := balanced_run hbefore hget hempty hrun hc hreap
  refine ⟨⟨_, hbal⟩, ?_⟩
  intro sender value k' hstep
  obtain ⟨⟨-, hexec⟩, hsafe⟩ := hstep
  obtain ⟨ok, hok, call⟩ := map_reply_eq_ok.mp hexec
  obtain rfl := Reply.sent.inj hok
  rcases socketSend_cases call hget1 with ⟨-, -, rfl⟩ | ⟨hroom, hiff, -⟩
  · exact ⟨rfl, rfl⟩
  · exact absurd (hiff.mpr ((hsafe t hget1).resolve_left hroom)) Bool.false_ne_true

instance (k : Kernel) : (e : Event) → Decidable (e.keepsSocket k)
  | .socketSend _ pid _ => inferInstanceAs (Decidable (∀ t,
      processGetByPid k pid = .ok (some t) →
      (k.processTable t).processSocket.Full ∨ ¬(k.processTable t).signals.Full))
  | .createOwned .. => .isTrue trivial
  | .execFn .. => .isTrue trivial
  | .fork _ => .isTrue trivial
  | .spawnDemoCounter .. => .isTrue trivial
  | .spawnDemoSocketPair .. => .isTrue trivial
  | .exit _ _ => .isTrue trivial
  | .wait _ _ => .isTrue trivial
  | .sendSignal .. => .isTrue trivial
  | .deliverSignal _ => .isTrue trivial
  | .socketRecv _ => .isTrue trivial
  | .schedulerTick => .isTrue trivial
  | .schedule => .isTrue trivial
  | .yield => .isTrue trivial

def socketExec (k : Kernel) (e : Event) : Option (Reply × Kernel) :=
  if e.keepsSocket k then kernelExec k e else none

theorem socketExec_step ⦃k : Kernel⦄ ⦃e : Event⦄ ⦃r : Reply⦄ ⦃k' : Kernel⦄
    (h : socketExec k e = some (r, k')) : SocketStep k (e, r) k' := by
  unfold socketExec at h
  split at h
  · next hsafe => exact ⟨kernelExec_step h, hsafe⟩
  · cases h

/-- Two values are sent, the target is signalled and receives one of them. -/
theorem socketRun_exact_two :
    ∃ before k0 labels k, Run KernelStep (processInit eightMegabytes) before k0
      ∧ Run SocketStep k0 labels k ∧ received 1 labels = [5] ∧ accepted 2 labels = [5, 6]
      ∧ received 1 labels <+: accepted 2 labels := by
  obtain ⟨k0, k, hbefore, hrun, hget, hempty⟩ := execRun_observe_two socketExec_step
    (processInit eightMegabytes) [.createOwned 0 (some .demoSocketReceiverProcess) 4096]
    [.created (some 1)]
    [.socketSend (some 0) 2 5, .sendSignal (some 0) 2 1 0, .socketSend (some 0) 2 6,
      .deliverSignal (some 1), .socketRecv (some 1)]
    [.sent true, .sent true, .sent true, .done, .received (some 5)]
    (fun k0 _ => processGetByPid k0 2 = .ok (some 1) ∧ (k0.processTable 1).processSocket.Empty)
    (by decide +kernel)
  have hbefore' : Run KernelStep (processInit eightMegabytes) _ k0 :=
    hbefore.mono fun hstep => hstep.1
  refine ⟨_, k0, _, k, hbefore', hrun, by decide, by decide, ?_⟩
  exact (socketRun_exact eightMegabytes _ k0 2 1 hbefore' hget hempty _ k hrun (by decide)
    (by decide)).1

/-- The signal queue of the target is full: the send returns `-1`, and the
target receives the value. -/
theorem socketRun_exact_fails : ¬∀ vm : Vm, SocketsExact KernelStep vm := by
  intro hall
  obtain ⟨k0, k, hbefore, hrun, hget, hempty⟩ := execRun_observe_two kernelExec_step
    (processInit eightMegabytes) [.createOwned 0 (some .demoSocketReceiverProcess) 4096]
    [.created (some 1)]
    (List.replicate 15 (.sendSignal (some 0) 2 1 0)
      ++ [.socketSend (some 0) 2 42, .socketRecv (some 1)])
    (List.replicate 15 (.sent true) ++ [.sent false, .received (some 42)])
    (fun k0 _ => processGetByPid k0 2 = .ok (some 1) ∧ (k0.processTable 1).processSocket.Empty)
    (by decide +kernel)
  have hbegins := (hall eightMegabytes _ k0 2 1 hbefore hget hempty _ k hrun (by decide)
    (by decide)).1
  exact absurd hbegins (by decide)

end Kfs
