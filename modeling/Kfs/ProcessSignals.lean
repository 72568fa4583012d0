import Kfs.ProcessMoves

/-!
# What becomes of a queued signal

A signal sits in the queue of its process until it is delivered or the
process is released. `Delivers` says so of a slot, and that a process only
becomes a zombie when it calls `process_exit` or is delivered a signal whose
default handler does. It holds of every move but that which queues.
-/

namespace Kfs

/-- The default handler exits. -/
def PendingSignal.Fatal (x : PendingSignal) : Prop :=
  x.signal = processSignalTerm ∨ x.signal = processSignalKill

/-- The signals queued for slot `q`, oldest first. -/
def Kernel.pendingOf (k : Kernel) (q : Slot) : List PendingSignal :=
  (k.processTable q).signals.contents

/-- Slot `q` while nothing is queued; `actor` is the process that calls
`process_exit`. -/
inductive Delivers (actor : Option Slot) (k k' : Kernel) (q : Slot) : Prop where
  /-- The same process, from whose queue `taken` was delivered. -/
  | kept (taken : List PendingSignal) (queue : k.pendingOf q = taken ++ k'.pendingOf q)
      (owner : (k'.processTable q).owner = (k.processTable q).owner)
      (ends : (k'.processTable q).status = .zombie → (k.processTable q).status = .zombie
        ∨ q ≠ 0 ∧ (actor = some q ∨ ∃ x ∈ taken, x.Fatal))
  /-- No process, or another one. -/
  | fresh (user : q ≠ 0) (queue : k'.pendingOf q = [])
      (ends : (k'.processTable q).status = .zombie → actor = some q)

section Delivers

variable {k k' k'' : Kernel} {actor : Option Slot} {q : Slot}

theorem Delivers.same (howner : (k'.processTable q).owner = (k.processTable q).owner)
    (hsignals : (k'.processTable q).signals = (k.processTable q).signals)
    (hstatus : (k'.processTable q).status = .zombie → (k.processTable q).status = .zombie) :
    Delivers actor k k' q := by
  refine .kept [] ?_ howner fun h => Or.inl (hstatus h)
  unfold Kernel.pendingOf
  rw [hsignals]
  rfl

theorem Delivers.refl (k : Kernel) : Delivers actor k k q := .same rfl rfl id

theorem Delivers.trans (h : Delivers actor k k' q) (h' : Delivers actor k' k'' q) :
    Delivers actor k k'' q := by
  cases h' with
  | fresh huser hqueue hends => exact .fresh huser hqueue hends
  | kept taken' hqueue' howner' hends' =>
      cases h with
      | kept taken hqueue howner hends =>
          refine .kept (taken ++ taken') ?_ (howner'.trans howner) ?_
          · rw [hqueue, hqueue', List.append_assoc]
          · intro hzombie
            rcases hends' hzombie with hzombie | ⟨huser, hactor | ⟨x, hx, hfatal⟩⟩
            · refine (hends hzombie).imp_right fun ⟨huser, hwhy⟩ => ⟨huser, hwhy.imp_right ?_⟩
              exact fun ⟨x, hx, hfatal⟩ => ⟨x, List.mem_append_left _ hx, hfatal⟩
            · exact Or.inr ⟨huser, Or.inl hactor⟩
            · exact Or.inr ⟨huser, Or.inr ⟨x, List.mem_append_right _ hx, hfatal⟩⟩
      | fresh huser hqueue hends =>
          rw [hqueue] at hqueue'
          obtain ⟨rfl, hempty⟩ := List.append_eq_nil_iff.mp hqueue'.symm
          refine .fresh huser hempty fun hzombie => ?_
          rcases hends' hzombie with hzombie | ⟨-, hactor | ⟨x, hx, -⟩⟩
          · exact hends hzombie
          · exact hactor
          · cases hx

/-- An assignment to a record. -/
theorem Delivers.modify {p : Slot} {f : Process → Process}
    (howner : (f (k.processTable p)).owner = (k.processTable p).owner)
    (hsignals : (f (k.processTable p)).signals = (k.processTable p).signals)
    (hstatus : (f (k.processTable p)).status = .zombie → (k.processTable p).status = .zombie) :
    Delivers actor k (k.modify p f) q := by
  refine .same (modify_keeps Process.owner howner q) (modify_keeps Process.signals hsignals q) ?_
  rw [modify_apply]
  split
  · next heq => exact heq ▸ hstatus
  · exact id

theorem core_owner {r s : Process} (h : r.core = s.core) : r.owner = s.owner :=
  core_field Process.owner (fun _ => rfl) h

theorem core_signals {r s : Process} (h : r.core = s.core) : r.signals = s.signals :=
  core_field Process.signals (fun _ => rfl) h

theorem Delivers.core (h : (k'.processTable q).core = (k.processTable q).core) :
    Delivers actor k k' q :=
  .same (core_owner h) (core_signals h) (core_status h).symm.trans

/-- A record without signals that is no zombie. -/
theorem Delivers.fresh_core {r : Process} (hq : q ≠ 0) (h : (k'.processTable q).core = r.core)
    (hsignals : r.signals = Process.zero.signals) (hready : r.status = .ready) :
    Delivers actor k k' q := by
  refine .fresh hq ?_ ?_
  · unfold Kernel.pendingOf
    rw [core_signals h, hsignals]
    rfl
  · rw [core_status h, hready]
    exact fun heq => by cases heq

theorem processCreateInternal_delivers {parent p : Option Slot} {owner base size : Nat}
    {function : Option ExecFn} (hk : k.kernelProcess = some 0)
    (h : processCreateInternal k parent owner base function size = .ok (p, k')) :
    Delivers actor k k' q := by
  cases p with
  | some p =>
      obtain ⟨hp, -, vm, memory, table, head, -, rfl, hnew, hcore⟩ := spawn_eq h
      by_cases hqp : q = p
      · subst hqp
        exact .fresh_core hp hnew rfl rfl
      · exact .core (hcore q hqp)
  | none =>
      rcases miss_eq hk h with rfl | ⟨p, vm, table, head, hp, -, -, rfl, hzero, hcore⟩
      · exact .refl _
      · by_cases hqp : q = p
        · subst hqp
          exact .fresh_core hp (congrArg Process.core hzero) rfl rfl
        · exact .core (hcore q hqp)

theorem processRelease_delivers {c : Slot} (hk : k.kernelProcess = some 0)
    (hc : some c ≠ k.kernelProcess) (h : processRelease k c = .ok k') :
    Delivers actor k k' q := by
  obtain ⟨table, head, rfl, hzero, hcore⟩ := processRelease_eq hc h
  by_cases hqc : q = c
  · subst hqc
    refine .fresh_core ?_ (congrArg Process.core hzero) rfl rfl
    rintro rfl
    exact hc hk.symm
  · exact .core (hcore q hqc)

end Delivers

/-! ## Exits -/

section Exits

variable {k : Kernel}

/-- What `process_exit` may do to slot `q`. -/
theorem processExit_record (hk : k.kernelProcess = some 0) (p q : Slot) (exitCode : Int) :
    ((processExit k (some p) exitCode).processTable q).owner = (k.processTable q).owner
      ∧ ((processExit k (some p) exitCode).processTable q).signals = (k.processTable q).signals
      ∧ (((processExit k (some p) exitCode).processTable q).status = .zombie →
        (k.processTable q).status = .zombie ∨ q = p ∧ q ≠ 0) := by
  rcases processExit_cases k p exitCode with ⟨-, heq⟩ | ⟨-, hkernel, ⟨heq, -⟩ | ⟨s, -, -, -, heq⟩⟩
  · rw [heq]
    exact ⟨rfl, rfl, Or.inl⟩
  · have hp : p ≠ 0 := fun hp => hkernel (hp ▸ hk.symm)
    rw [heq]
    refine ⟨modify_keeps Process.owner rfl q, modify_keeps Process.signals rfl q, ?_⟩
    by_cases hqp : q = p
    · exact fun _ => Or.inr ⟨hqp, hqp ▸ hp⟩
    · rw [modify_of_ne _ _ _ hqp]
      exact Or.inl
  · have hp : p ≠ 0 := fun hp => hkernel (hp ▸ hk.symm)
    rw [heq]
    refine ⟨?_, ?_, ?_⟩
    · rw [modify_keeps Process.owner rfl, modify_keeps Process.owner rfl]
    · rw [modify_keeps Process.signals rfl, modify_keeps Process.signals rfl]
    · by_cases hqp : q = p
      · exact fun _ => Or.inr ⟨hqp, hqp ▸ hp⟩
      · rw [modify_apply]
        split
        · exact fun hready => by cases hready
        · rw [modify_of_ne _ _ _ hqp]
          exact Or.inl

theorem processExit_delivers (hk : k.kernelProcess = some 0) (p q : Slot) (exitCode : Int) :
    Delivers (some p) k (processExit k (some p) exitCode) q := by
  obtain ⟨howner, hsignals, hends⟩ := processExit_record hk p q exitCode
  refine .kept [] ?_ howner fun hzombie => (hends hzombie).imp_right ?_
  · unfold Kernel.pendingOf
    rw [hsignals]
    rfl
  · exact fun ⟨hqp, hq⟩ => ⟨hq, Or.inl (congrArg some hqp.symm)⟩

theorem processDefaultSignalHandler_record (hk : k.kernelProcess = some 0) (p q : Slot)
    (signal : Int) (value : Nat) :
    ((processDefaultSignalHandler k p signal value).processTable q).owner
        = (k.processTable q).owner
      ∧ ((processDefaultSignalHandler k p signal value).processTable q).signals
        = (k.processTable q).signals
      ∧ (((processDefaultSignalHandler k p signal value).processTable q).status = .zombie →
        (k.processTable q).status = .zombie
          ∨ (q = p ∧ q ≠ 0) ∧ (PendingSignal.mk signal value).Fatal) := by
  have hlast : ∀ {α : Type} (g : Process → α),
      (∀ r : Process, g { r with
        lastSignal := toUInt32 signal, lastSignalValue := value } = g r) →
      g ((k.modify p fun r => { r with
        lastSignal := toUInt32 signal, lastSignalValue := value }).processTable q)
        = g (k.processTable q) := fun g hg => modify_keeps g (hg _) q
  unfold processDefaultSignalHandler
  dsimp only
  split
  · next hfatal =>
      obtain ⟨howner, hsignals, hends⟩ := processExit_record (k := k.modify p fun r => { r with
        lastSignal := toUInt32 signal, lastSignalValue := value }) hk p q (128 + signal)
      refine ⟨howner.trans (hlast Process.owner fun _ => rfl),
        hsignals.trans (hlast Process.signals fun _ => rfl), fun hzombie => ?_⟩
      rcases hends hzombie with hzombie | hqp
      · exact Or.inl ((hlast Process.status fun _ => rfl).symm.trans hzombie)
      · exact Or.inr ⟨hqp, hfatal⟩
  · exact ⟨hlast Process.owner fun _ => rfl, hlast Process.signals fun _ => rfl,
      fun hzombie => Or.inl ((hlast Process.status fun _ => rfl).symm.trans hzombie)⟩

/-- One round of the loop of `deliver_process_signal`. -/
theorem deliverOne_delivers {actor : Option Slot} (hk : k.kernelProcess = some 0) {p : Slot}
    (q : Slot) (hpending : ¬(k.processTable p).signals.Empty) :
    Delivers actor k (deliverOne k p) q := by
  obtain ⟨pending, hfront⟩ : ∃ x, (k.processTable p).signals.front = x := ⟨_, rfl⟩
  obtain ⟨k1, hk1⟩ : ∃ k1, k1 = k.modify p fun r => { r with
    signals := r.signals.drop
    lastSignal := toUInt32 pending.signal
    lastSignalValue := pending.value } := ⟨_, rfl⟩
  have hone : deliverOne k p = processDefaultSignalHandler k1 p pending.signal pending.value := by
    unfold deliverOne
    rw [hfront, hk1]
    dsimp only
    split <;> rfl
  have hkernel : k1.kernelProcess = some 0 := by
    rw [hk1]
    exact hk
  obtain ⟨howner, hsignals, hends⟩ :=
    processDefaultSignalHandler_record hkernel p q pending.signal pending.value
  rw [← hone, hk1] at howner hsignals hends
  rw [modify_keeps Process.owner rfl] at howner
  rw [modify_keeps Process.status rfl] at hends
  by_cases hqp : q = p
  · subst hqp
    rw [modify_self] at hsignals
    refine .kept [pending] ?_ howner fun hzombie => ?_
    · unfold Kernel.pendingOf
      rw [hsignals, Ring.contents_drop hpending, hfront]
      rfl
    · refine (hends hzombie).imp_right fun ⟨⟨_, hq⟩, hfatal⟩ => ⟨hq, Or.inr ?_⟩
      exact ⟨pending, List.mem_singleton_self _, hfatal⟩
  · rw [modify_of_ne _ _ _ hqp] at hsignals
    exact .same howner hsignals fun hzombie => (hends hzombie).resolve_right fun h => hqp h.1.1

end Exits

/-! ## Calls -/

section Calls

variable {k k' : Kernel}

/-- The process an event makes call `process_exit`. -/
def Event.actor : Event → Option Slot
  | .exit process _ => process
  | _ => none

/-- A move that queues nothing. -/
theorem Move.delivers {m : MoveLabel} {actor : Option Slot} (hk : k.kernelProcess = some 0)
    (h : Move k m k') (hexit : ∀ p, m = .exit p → actor = some p)
    (hqueue : ∀ p pending, m ≠ .queue p pending) (q : Slot) : Delivers actor k k' q := by
  cases h with
  | create call => exact processCreateInternal_delivers hk call
  | release hc call => exact processRelease_delivers hk hc call
  | assign p howner hsignals _ _ hzombie => exact .modify howner hsignals hzombie
  | copy child source => exact .same rfl rfl id
  | tick => exact .same rfl rfl id
  | exit p exitCode =>
      rw [hexit p rfl]
      exact processExit_delivers hk p q exitCode
  | deliver hpending => exact deliverOne_delivers hk q hpending
  | @queue p pending hroom => exact absurd rfl (hqueue p pending)
  | @socket p f hf =>
      obtain ⟨s, v, heq⟩ := hf (k.processTable p)
      refine .modify ?_ ?_ ?_ <;> rw [heq]
      exact id

theorem Moves.delivers {P : MoveLabel → Prop} {actor : Option Slot} (h : Moves P k k')
    (hk : k.kernelProcess = some 0) (hexit : ∀ p, P (.exit p) → actor = some p)
    (hqueue : ∀ p pending, ¬P (.queue p pending)) (q : Slot) : Delivers actor k k' q := by
  refine h.along (R := fun k k' => Delivers actor k k' q) hk (.refl k) Delivers.trans ?_
  intro k1 m k2 hk1 hm hmove
  exact hmove.delivers hk1 (fun p heq => hexit p (heq ▸ hm))
    (fun p pending heq => hqueue p pending (heq ▸ hm)) q

/-- Every call but those that queue signals or switch contexts. -/
theorem exec_delivers {e : Event} {r : Reply} (hk : k.kernelProcess = some 0)
    (h : e.exec k = .ok (r, k')) (hschedule : e ≠ .schedule) (hyield : e ≠ .yield)
    (hsignal : ∀ sender pid signal value, e ≠ .sendSignal sender pid signal value)
    (hsocket : ∀ sender pid value, e ≠ .socketSend sender pid value) (q : Slot) :
    Delivers e.actor k k' q := by
  refine (exec_moves hk h hschedule hyield).delivers hk ?_ ?_ q
  · rintro p ⟨exitCode, rfl⟩
    rfl
  · rintro p pending (⟨sender, pid, signal, value, heq⟩ | ⟨sender, pid, value, heq⟩)
    · exact hsignal sender pid signal value heq
    · exact hsocket sender pid value heq

end Calls

/-! ## Queueing -/

/-- `x` was queued for the process in slot `target`. -/
structure Queues (k k' : Kernel) (target : Slot) (x : PendingSignal) : Prop where
  owner : ∀ q, (k'.processTable q).owner = (k.processTable q).owner
  status : ∀ q, (k'.processTable q).status = (k.processTable q).status
  queue : k'.pendingOf target = k.pendingOf target ++ [x]
  others : ∀ q, q ≠ target → k'.pendingOf q = k.pendingOf q

section Queues

variable {k k' : Kernel}

theorem queueProcessSignal_cases {process : Option Slot} {signal : Int} {value : Nat} {ok : Bool}
    (h : queueProcessSignal k process signal value = (ok, k')) :
    k' = k ∨ ∃ t, process = some t ∧ Queues k k' t ⟨signal, value⟩ := by
  unfold queueProcessSignal at h
  cases process with
  | none => exact Or.inl (Prod.mk.inj h).2.symm
  | some t =>
      dsimp only at h
      split at h
      · exact Or.inl (Prod.mk.inj h).2.symm
      · next hroom =>
          obtain ⟨-, rfl⟩ := Prod.mk.inj h
          refine Or.inr ⟨t, rfl, ⟨modify_keeps Process.owner rfl, modify_keeps Process.status rfl,
            ?_, ?_⟩⟩
          · unfold Kernel.pendingOf
            rw [modify_self]
            exact Ring.contents_put hroom _
          · intro q hq
            unfold Kernel.pendingOf
            rw [modify_of_ne _ _ _ hq]

theorem sendSignalToProcess_cases {sender : Option Slot} {pid value : Nat} {signal : Int}
    {ok : Bool} (h : sendSignalToProcess k sender pid signal value = .ok (ok, k')) :
    k' = k ∨ ∃ t, processCanSignal k sender (some t) = true ∧ Queues k k' t ⟨signal, value⟩ := by
  obtain ⟨target, -, h⟩ := bind_eq_ok.mp h
  split at h
  · next hcan =>
      rcases queueProcessSignal_cases (Except.ok.inj h) with hsame | ⟨t, rfl, hq⟩
      · exact Or.inl hsame
      · exact Or.inr ⟨t, hcan, hq⟩
  · obtain ⟨-, rfl⟩ := Prod.mk.inj (Except.ok.inj h)
    exact Or.inl rfl

theorem socketSend_signals {sender : Option Slot} {pid value : Nat} {ok : Bool}
    (h : socketSend k sender pid value = .ok (ok, k')) :
    (∀ q, Delivers none k k' q) ∨ ∃ t, Queues k k' t ⟨processSignalSocket, value⟩ := by
  obtain ⟨target, -, h⟩ := bind_eq_ok.mp h
  cases target with
  | none =>
      obtain ⟨-, rfl⟩ := Prod.mk.inj (Except.ok.inj h)
      exact Or.inl fun q => .refl _
  | some t =>
      dsimp only at h
      split at h
      · obtain ⟨-, rfl⟩ := Prod.mk.inj (Except.ok.inj h)
        exact Or.inl fun q => .refl _
      · have hput : ∀ {α : Type} (g : Process → α) (q : Slot),
            (∀ r : Process, g { r with processSocket := r.processSocket.put value } = g r) →
            g ((k.modify t fun r =>
              { r with processSocket := r.processSocket.put value }).processTable q)
              = g (k.processTable q) := fun g q hg => modify_keeps g (hg _) q
        have hpending : ∀ q, (k.modify t fun r =>
            { r with processSocket := r.processSocket.put value }).pendingOf q
              = k.pendingOf q := fun q =>
          congrArg Ring.contents (hput Process.signals q fun _ => rfl)
        rcases queueProcessSignal_cases (Except.ok.inj h) with rfl | ⟨s, heq, hq⟩
        · exact Or.inl fun q => .modify rfl rfl id
        · obtain rfl := Option.some.inj heq
          refine Or.inr ⟨t, ⟨?_, ?_, ?_, ?_⟩⟩
          · exact fun q => (hq.owner q).trans (hput Process.owner q fun _ => rfl)
          · exact fun q => (hq.status q).trans (hput Process.status q fun _ => rfl)
          · rw [hq.queue, hpending]
          · exact fun q hqt => (hq.others q hqt).trans (hpending q)

end Queues

end Kfs
