import Kfs.SchedulerRotation
import Kfs.SignalSteps

/-!
# The delivery of a tick

`process_deliver_all_pending_signals` walks the list of processes and empties
each queue into the default handler, except that a process that exits keeps
what is behind the signal it died of. `handed` is what a tick delivers from a
queue, and `Served` what becomes of its process. A process is only touched at
its place in the list: another that exits may wake it, which is no more than a
new status (`Aside`). `schedule_next_process` delivers once more, but finds no
signals left for the process it picks.
-/

namespace Kfs

/-- A list up to the first element that passes the test. -/
def takeThrough {α : Type} (test : α → Bool) : List α → List α
  | [] => []
  | x :: l => if test x then [x] else x :: takeThrough test l

/-- What a tick delivers from the queue of slot `q`: all signals up to the
first that ends the process. None ends the kernel process. -/
def handed (q : Slot) (queue : List PendingSignal) : List PendingSignal :=
  if q = 0 then queue else takeThrough (fun x => decide x.Fatal) queue

/-- Nothing but deliveries. -/
def Deliveries (calls : List SignalCall) : Prop := ∀ call ∈ calls, ∃ p x, call = .deliver p x

/-- What a delivery to another process leaves slot `q` as. -/
structure Aside (k k' : Kernel) (q : Slot) : Prop where
  signals : (k'.processTable q).signals = (k.processTable q).signals
  lastSignal : (k'.processTable q).lastSignal = (k.processTable q).lastSignal
  lastSignalValue : (k'.processTable q).lastSignalValue = (k.processTable q).lastSignalValue
  exitCode : (k'.processTable q).exitCode = (k.processTable q).exitCode
  zombie : (k'.processTable q).status = .zombie ↔ (k.processTable q).status = .zombie

/-- The process in slot `q` had its signals delivered. -/
structure Served (k k' : Kernel) (q : Slot) (calls : List SignalCall) : Prop where
  delivered : deliveredTo q calls = handed q (k.pendingOf q)
  queue : k.pendingOf q = handed q (k.pendingOf q) ++ k'.pendingOf q
  last : ∀ x, (handed q (k.pendingOf q)).getLast? = some x →
    (k'.processTable q).lastSignal = toUInt32 x.signal
      ∧ (k'.processTable q).lastSignalValue = x.value
  idle : handed q (k.pendingOf q) = [] →
    (k'.processTable q).lastSignal = (k.processTable q).lastSignal
      ∧ (k'.processTable q).lastSignalValue = (k.processTable q).lastSignalValue
  ended : q ≠ 0 → ∀ x, (k.pendingOf q).find? (fun x => decide x.Fatal) = some x →
    (k'.processTable q).status = .zombie ∧ (k'.processTable q).exitCode = 128 + x.signal
  alive : (q = 0 ∨ ∀ x ∈ k.pendingOf q, ¬x.Fatal) →
    (k'.processTable q).status ≠ .zombie ∧ k'.pendingOf q = []

/-! ## The others -/

section Others

variable {k k' k'' : Kernel} {p q : Slot} {calls calls' : List SignalCall}

theorem Aside.refl (k : Kernel) (q : Slot) : Aside k k q := ⟨rfl, rfl, rfl, rfl, Iff.rfl⟩

theorem Aside.trans (h : Aside k k' q) (h' : Aside k' k'' q) : Aside k k'' q :=
  ⟨h'.signals.trans h.signals, h'.lastSignal.trans h.lastSignal,
    h'.lastSignalValue.trans h.lastSignalValue, h'.exitCode.trans h.exitCode,
    h'.zombie.trans h.zombie⟩

theorem Aside.record (h : k'.processTable q = k.processTable q) : Aside k k' q := by
  refine ⟨?_, ?_, ?_, ?_, ?_⟩ <;> rw [h]

theorem Aside.pendingOf (h : Aside k k' q) : k'.pendingOf q = k.pendingOf q := by
  unfold Kernel.pendingOf
  rw [h.signals]

theorem processExit_aside (hqp : q ≠ p) (exitCode : Int) :
    Aside k (processExit k (some p) exitCode) q := by
  rcases processExit_cases k p exitCode with ⟨-, h⟩ | ⟨-, -, ⟨h, -⟩ | ⟨s, -, -, hwaiting, h⟩⟩
  · rw [h]
    exact .refl k q
  · rw [h]
    exact .record (modify_of_ne _ _ _ hqp)
  · rw [h]
    have hfirst : Aside k
        (k.modify p fun r => { r with exitCode := exitCode, status := .zombie }) q :=
      .record (modify_of_ne _ _ _ hqp)
    by_cases hqs : q = s
    · -- the parent that waits is woken
      subst hqs
      refine hfirst.trans ⟨?_, ?_, ?_, ?_, ?_⟩ <;> rw [modify_self]
      rw [hfirst.zombie, hwaiting]
      exact ⟨fun heq => (nomatch heq), fun heq => (nomatch heq)⟩
    · exact hfirst.trans (.record (modify_of_ne _ _ _ hqs))

theorem deliverOne_aside (hqp : q ≠ p) : Aside k (deliverOne k p) q := by
  have htake : Aside k (k.take p) q := .record (modify_of_ne _ _ _ hqp)
  rw [deliverOne_eq]
  split
  · exact htake.trans (processExit_aside hqp _)
  · exact htake

theorem Served.before (h : Aside k k' q) (h' : Served k' k'' q calls')
    (hnone : deliveredTo q calls = []) : Served k k'' q (calls ++ calls') := by
  obtain ⟨hcalls, hqueue, hlast, hidle, hended, halive⟩ := h'
  rw [h.pendingOf] at hcalls hqueue hlast hidle hended halive
  rw [h.lastSignal, h.lastSignalValue] at hidle
  refine ⟨?_, hqueue, hlast, hidle, hended, halive⟩
  rw [deliveredTo_append, hnone]
  exact hcalls

theorem Served.behind (h : Served k k' q calls) (h' : Aside k' k'' q)
    (hnone : deliveredTo q calls' = []) : Served k k'' q (calls ++ calls') := by
  obtain ⟨hcalls, hqueue, hlast, hidle, hended, halive⟩ := h
  refine ⟨?_, ?_, ?_, ?_, ?_, ?_⟩
  · rw [deliveredTo_append, hnone, List.append_nil]
    exact hcalls
  · rw [h'.pendingOf]
    exact hqueue
  · rw [h'.lastSignal, h'.lastSignalValue]
    exact hlast
  · rw [h'.lastSignal, h'.lastSignalValue]
    exact hidle
  · rw [h'.zombie, h'.exitCode]
    exact hended
  · rw [Ne, h'.zombie, h'.pendingOf]
    exact halive

theorem Served.tableEq (h : Served k' k'' q calls)
    (hsame : k'.processTable q = k.processTable q) : Served k k'' q calls :=
  @Served.before k k' k'' q [] calls (.record hsame) h rfl

theorem Served.aside (h : Served k k' q calls) (h' : Aside k' k'' q) :
    Served k k'' q calls := by
  have hbehind := @Served.behind k k' k'' q calls [] h h' rfl
  rw [List.append_nil] at hbehind
  exact hbehind

/-- No signals, nothing to do. -/
theorem Served.nothing (hempty : k.pendingOf q = [])
    (halive : (k.processTable q).status ≠ .zombie) : Served k k q [] := by
  have hhanded : handed q [] = [] := by
    unfold handed
    split <;> rfl
  refine ⟨?_, ?_, ?_, ?_, ?_, ?_⟩ <;> rw [hempty]
  · exact hhanded.symm
  · rw [hhanded]
    rfl
  · rw [hhanded]
    exact fun x hx => (nomatch hx)
  · exact fun _ => ⟨rfl, rfl⟩
  · exact fun _ x hx => (nomatch hx)
  · exact fun _ => ⟨halive, rfl⟩

end Others

/-! ## The process itself -/

section Self

variable {k k' : Kernel} {p : Slot} {calls : List SignalCall}

/-- The record after a round of `deliver_process_signal`. -/
structure Handled (k k' : Kernel) (p : Slot) (x : PendingSignal) : Prop where
  queue : k.pendingOf p = x :: k'.pendingOf p
  lastSignal : (k'.processTable p).lastSignal = toUInt32 x.signal
  lastSignalValue : (k'.processTable p).lastSignalValue = x.value
  ends : p ≠ 0 → x.Fatal →
    (k'.processTable p).status = .zombie ∧ (k'.processTable p).exitCode = 128 + x.signal
  lives : (p = 0 ∨ ¬x.Fatal) → (k'.processTable p).status = (k.processTable p).status

theorem processExit_self (hk : k.kernelProcess = some 0) (hp : p ≠ 0)
    (halive : (k.processTable p).status ≠ .zombie) (exitCode : Int) :
    (processExit k (some p) exitCode).processTable p
      = { k.processTable p with exitCode := exitCode, status := .zombie } := by
  rcases processExit_cases k p exitCode with ⟨hnone, -⟩ | ⟨-, -, ⟨h, -⟩ | ⟨s, hsp, -, -, h⟩⟩
  · rw [hk] at hnone
    rcases hnone with hkernel | hzombie
    · exact absurd (Option.some.inj hkernel) hp
    · exact absurd hzombie halive
  · rw [h, modify_self]
  · rw [h, modify_of_ne _ _ _ (Ne.symm hsp), modify_self]

/-- `process_exit` does nothing for the kernel process. -/
theorem processExit_kernel (hk : k.kernelProcess = some 0) (exitCode : Int) :
    processExit k (some 0) exitCode = k := by
  unfold processExit
  dsimp only
  rw [hk, if_pos (Or.inl rfl)]

theorem deliverOne_pendingOf (hpending : ¬(k.processTable p).signals.Empty) :
    k.pendingOf p = (k.processTable p).signals.front :: (deliverOne k p).pendingOf p := by
  unfold Kernel.pendingOf
  rw [deliverOne_signals, if_pos rfl, Ring.contents_drop hpending]

theorem deliverOne_handled (hk : k.kernelProcess = some 0)
    (hpending : ¬(k.processTable p).signals.Empty)
    (halive : (k.processTable p).status ≠ .zombie) :
    Handled k (deliverOne k p) p (k.processTable p).signals.front := by
  have hqueue := deliverOne_pendingOf hpending
  have hself : (k.take p).processTable p = { k.processTable p with
      signals := (k.processTable p).signals.drop
      lastSignal := toUInt32 (k.processTable p).signals.front.signal
      lastSignalValue := (k.processTable p).signals.front.value } := modify_self _ _ _
  have halive' : ((k.take p).processTable p).status ≠ .zombie := by
    rw [hself]
    exact halive
  have hkeep : ¬(p ≠ 0 ∧ (k.processTable p).signals.front.Fatal) →
      deliverOne k p = k.take p := by
    intro hnot
    rw [deliverOne_eq]
    split
    · next hfatal =>
        obtain rfl : p = 0 := not_not.mp fun hp => hnot ⟨hp, hfatal⟩
        exact processExit_kernel (k := k.take 0) hk _
    · rfl
  by_cases hends : p ≠ 0 ∧ (k.processTable p).signals.front.Fatal
  · have hrecord : (deliverOne k p).processTable p = { (k.take p).processTable p with
        exitCode := 128 + (k.processTable p).signals.front.signal, status := .zombie } := by
      rw [deliverOne_eq, if_pos hends.2]
      exact processExit_self (k := k.take p) hk hends.1 halive' _
    refine ⟨hqueue, ?_, ?_, ?_, ?_⟩
    · rw [hrecord, hself]
    · rw [hrecord, hself]
    · rw [hrecord]
      exact fun _ _ => ⟨rfl, rfl⟩
    · rintro (hp | hmild)
      · exact absurd hp hends.1
      · exact absurd hends.2 hmild
  · refine ⟨hqueue, ?_, ?_, ?_, ?_⟩
    · rw [hkeep hends, hself]
    · rw [hkeep hends, hself]
    · exact fun hp hfatal => absurd ⟨hp, hfatal⟩ hends
    · rw [hkeep hends, hself]
      exact fun _ => rfl

theorem handed_cons_fatal {x : PendingSignal} {l : List PendingSignal} (hp : p ≠ 0)
    (hx : x.Fatal) : handed p (x :: l) = [x] := by
  unfold handed takeThrough
  rw [if_neg hp, if_pos (decide_eq_true hx)]

theorem handed_cons {x : PendingSignal} {l : List PendingSignal} (hx : p = 0 ∨ ¬x.Fatal) :
    handed p (x :: l) = x :: handed p l := by
  unfold handed
  rcases hx with rfl | hx
  · rfl
  · split
    · rfl
    · rw [takeThrough, if_neg (by simpa using hx)]

theorem deliveredTo_cons (x : PendingSignal) :
    deliveredTo p (.deliver p x :: calls) = x :: deliveredTo p calls := by
  unfold deliveredTo
  rw [List.filterMap_cons]
  simp only [if_true]

/-- The signal the process died of is the last it was delivered. -/
theorem Handled.dead {x : PendingSignal} (h : Handled k k' p x) (hp : p ≠ 0) (hx : x.Fatal) :
    Served k k' p [.deliver p x] := by
  obtain ⟨hqueue, hlast, hvalue, hends, -⟩ := h
  have hhanded := @handed_cons_fatal p x (k'.pendingOf p) hp hx
  refine ⟨?_, ?_, ?_, ?_, ?_, ?_⟩ <;> rw [hqueue]
  · rw [hhanded]
    exact deliveredTo_cons x
  · rw [hhanded]
    rfl
  · rw [hhanded]
    rintro y hy
    obtain rfl := Option.some.inj hy
    exact ⟨hlast, hvalue⟩
  · rw [hhanded]
    exact fun heq => (nomatch heq)
  · rintro - y hy
    rw [List.find?_cons_of_pos (by simpa using hx)] at hy
    obtain rfl := Option.some.inj hy
    exact hends hp hx
  · rintro (heq | hmild)
    · exact absurd heq hp
    · exact absurd hx (hmild x List.mem_cons_self)

/-- Otherwise the rest of the queue follows. -/
theorem Handled.next {k'' : Kernel} {x : PendingSignal} (h : Handled k k' p x)
    (hx : p = 0 ∨ ¬x.Fatal) (h' : Served k' k'' p calls) :
    Served k k'' p (.deliver p x :: calls) := by
  obtain ⟨hqueue, hlast, hvalue, -, -⟩ := h
  obtain ⟨hcalls, hrest, hlast', hidle, hended, halive⟩ := h'
  have hhanded := @handed_cons p x (k'.pendingOf p) hx
  refine ⟨?_, ?_, ?_, ?_, ?_, ?_⟩ <;> rw [hqueue]
  · rw [hhanded, deliveredTo_cons, hcalls]
  · rw [hhanded, List.cons_append, ← hrest]
  · rw [hhanded]
    intro y hy
    rcases List.eq_nil_or_concat (handed p (k'.pendingOf p)) with hnil | ⟨l, z, hl⟩
    · rw [hnil] at hy
      obtain rfl := Option.some.inj hy
      obtain ⟨hsignal, hval⟩ := hidle hnil
      exact ⟨hsignal.trans hlast, hval.trans hvalue⟩
    · refine hlast' y ?_
      rw [hl, List.concat_eq_append, ← List.cons_append, List.getLast?_concat] at hy
      rw [hl, List.concat_eq_append, List.getLast?_concat]
      exact hy
  · rw [hhanded]
    exact fun heq => (nomatch heq)
  · intro hp y hy
    have hmild : ¬x.Fatal := hx.resolve_left hp
    rw [List.find?_cons_of_neg (by simpa using hmild)] at hy
    exact hended hp y hy
  · intro hall
    refine halive (hall.imp_right fun hall y hy => hall y (List.mem_cons_of_mem _ hy))

/-- A zombie is not revived by its signals. -/
theorem deliverOne_zombie (q : Slot) (hzombie : (k.processTable q).status = .zombie) :
    ((deliverOne k p).processTable q).status = .zombie := by
  by_cases hqp : q = p
  · subst hqp
    have htake : ((k.take q).processTable q).status = .zombie := by
      unfold Kernel.take
      rw [modify_self]
      exact hzombie
    rw [deliverOne_eq]
    split
    · unfold processExit
      dsimp only
      rw [if_pos (Or.inr htake)]
      exact htake
    · exact htake
  · exact (deliverOne_aside hqp).zombie.mpr hzombie

end Self

/-! ## The walk -/

section Walk

variable {k k' : Kernel} {p : Slot}

/-- What a loop of deliveries does: for the processes of `here` all it has to
do, for the others nothing. -/
structure Delivered (here : Slot → Prop) (k k' : Kernel) (calls : List SignalCall) : Prop where
  run : Run SignalStep k calls k'
  deliveries : Deliveries calls
  kernel : k'.kernelProcess = k.kernelProcess
  aside : ∀ q, ¬here q → Aside k k' q ∧ deliveredTo q calls = []
  served : ∀ q, here q → (k.processTable q).status ≠ .zombie → Served k k' q calls
  zombie : ∀ q, (k.processTable q).status = .zombie → (k'.processTable q).status = .zombie

theorem Delivered.nothing {here : Slot → Prop} (k : Kernel)
    (h : ∀ q, here q → k.pendingOf q = []) : Delivered here k k [] where
  run := .nil
  deliveries := fun _ hmem => (nomatch hmem)
  kernel := rfl
  aside q _ := ⟨.refl k q, rfl⟩
  served q hq halive := .nothing (h q hq) halive
  zombie _ h := h

theorem empty_pendingOf (h : (k.processTable p).signals.Empty) : k.pendingOf p = [] :=
  Ring.contents_eq_nil h

theorem deliver_other {x : PendingSignal} {q : Slot} (hqp : q ≠ p) :
    deliveredTo q [.deliver p x] = [] := by
  unfold deliveredTo
  rw [List.filterMap_cons]
  simp only [if_neg (Ne.symm hqp)]
  rfl

/-- A round that ends the loop. -/
theorem Delivered.last (hk : k.kernelProcess = some 0)
    (hpending : ¬(k.processTable p).signals.Empty)
    (hzombie : ((deliverOne k p).processTable p).status = .zombie) :
    Delivered (· = p) k (deliverOne k p) [.deliver p (k.processTable p).signals.front] where
  run := Run.one (.deliver hpending)
  deliveries call hmem := ⟨p, _, List.mem_singleton.mp hmem⟩
  kernel := (deliverOne_mildRun k p).tame.kernel
  aside q hqp := ⟨deliverOne_aside hqp, deliver_other hqp⟩
  served q hqp halive := by
    subst hqp
    have hhandled := deliverOne_handled hk hpending halive
    by_cases hdead : q ≠ 0 ∧ (k.processTable q).signals.front.Fatal
    · exact hhandled.dead hdead.1 hdead.2
    · rw [hhandled.lives (by tauto)] at hzombie
      exact absurd hzombie halive
  zombie q hq := deliverOne_zombie q hq

/-- A round with others behind it. -/
theorem Delivered.cons {calls : List SignalCall} (hk : k.kernelProcess = some 0)
    (hpending : ¬(k.processTable p).signals.Empty)
    (halive' : ((deliverOne k p).processTable p).status ≠ .zombie)
    (h : Delivered (· = p) (deliverOne k p) k' calls) :
    Delivered (· = p) k k' (.deliver p (k.processTable p).signals.front :: calls) where
  run := (Run.one (.deliver hpending)).append h.run
  deliveries call hmem := by
    rcases List.mem_cons.mp hmem with rfl | hmem
    · exact ⟨p, _, rfl⟩
    · exact h.deliveries call hmem
  kernel := h.kernel.trans (deliverOne_mildRun k p).tame.kernel
  aside q hqp := by
    obtain ⟨hrest, hnone⟩ := h.aside q hqp
    refine ⟨(deliverOne_aside hqp).trans hrest, ?_⟩
    rw [← List.singleton_append, deliveredTo_append, deliver_other hqp, hnone]
    rfl
  served q hqp halive := by
    subst hqp
    have hhandled := deliverOne_handled hk hpending halive
    refine hhandled.next ?_ (h.served q rfl halive')
    by_cases hq : q = 0
    · exact Or.inl hq
    · exact Or.inr fun hfatal => halive' (hhandled.ends hq hfatal).1
  zombie q hq := h.zombie q (deliverOne_zombie q hq)

/-- The loop of `deliver_process_signal`, with enough fuel for the queue. -/
theorem deliverLoop_delivered : ∀ (fuel delivered : Nat) (k : Kernel),
    k.kernelProcess = some 0 → (k.pendingOf p).length ≤ fuel →
    Delivered (· = p) k (deliverLoop p fuel delivered k).2 (deliverLoopCalls p fuel k)
  | 0, delivered, k, _, hfuel =>
      .nothing k fun _ hq => hq ▸ List.eq_nil_of_length_eq_zero (Nat.le_zero.mp hfuel)
  | fuel + 1, delivered, k, hk, hfuel => by
      rw [deliverLoop, deliverLoopCalls]
      split
      · next hempty => exact .nothing k fun _ hq => hq ▸ empty_pendingOf hempty
      · next hpending =>
          dsimp only
          split
          · next hzombie => exact .last hk hpending hzombie
          · next halive' =>
              refine .cons hk hpending halive' (deliverLoop_delivered fuel (delivered + 1) _ ?_ ?_)
              · exact (deliverOne_mildRun k p).tame.kernel.trans hk
              · have hqueue := congrArg List.length (deliverOne_pendingOf hpending)
                rw [List.length_cons] at hqueue
                omega

theorem deliverProcessSignal_delivered (hk : k.kernelProcess = some 0) (p : Slot) :
    Delivered (· = p) k (deliverProcessSignal k (some p)).2
      (deliverProcessSignalCalls k (some p)) := by
  refine deliverLoop_delivered 16 0 k hk ?_
  have := (k.processTable p).signals.count_lt
  unfold Kernel.pendingOf
  rw [Ring.length_contents]
  omega

/-- Two loops, for different processes. -/
theorem Delivered.append {here here' : Slot → Prop} {k'' : Kernel}
    {calls calls' : List SignalCall}
    (h : Delivered here k k' calls) (h' : Delivered here' k' k'' calls')
    (hdisjoint : ∀ q, here q → ¬here' q) :
    Delivered (fun q => here q ∨ here' q) k k'' (calls ++ calls') where
  run := h.run.append h'.run
  deliveries call hmem := by
    rcases List.mem_append.mp hmem with hmem | hmem
    · exact h.deliveries call hmem
    · exact h'.deliveries call hmem
  kernel := h'.kernel.trans h.kernel
  aside q hq := by
    obtain ⟨hfirst, hnone⟩ := h.aside q fun hhere => hq (Or.inl hhere)
    obtain ⟨hsecond, hnone'⟩ := h'.aside q fun hhere => hq (Or.inr hhere)
    refine ⟨hfirst.trans hsecond, ?_⟩
    rw [deliveredTo_append, hnone, hnone']
    rfl
  served q hq halive := by
    by_cases hhere : here q
    · obtain ⟨hsecond, hnone'⟩ := h'.aside q (hdisjoint q hhere)
      exact (h.served q hhere halive).behind hsecond hnone'
    · obtain ⟨hfirst, hnone⟩ := h.aside q hhere
      refine Served.before hfirst (h'.served q (hq.resolve_left hhere) ?_) hnone
      rw [Ne, hfirst.zombie]
      exact halive
  zombie q hq := h'.zombie q (h.zombie q hq)

theorem Delivered.congr {here here' : Slot → Prop} {calls : List SignalCall}
    (h : Delivered here k k' calls) (hsame : ∀ q, here q ↔ here' q) :
    Delivered here' k k' calls := by
  obtain rfl : here = here' := funext fun q => propext (hsame q)
  exact h

/-- One process of the walk. -/
theorem deliverAll_first (fuel : Nat) (hk : k.kernelProcess = some 0)
    (hused : (k.processTable p).used = true) :
    ∃ k1 calls, Tame k k1 ∧ Delivered (· = p) k k1 calls
      ∧ deliverAll (fuel + 1) (some p) k = deliverAll fuel (k1.nextOf p) k1
      ∧ deliverAllCalls (fuel + 1) (some p) k
        = calls ++ deliverAllCalls fuel (k1.nextOf p) k1 := by
  simp only [deliverAll, deliverAllCalls]
  split
  · exact ⟨_, _, (deliverProcessSignal_mildRun k (some p)).tame,
      deliverProcessSignal_delivered hk p, rfl, rfl⟩
  · next hnone =>
      have hempty : (k.processTable p).signals.Empty :=
        not_not.mp fun hne => hnone ⟨hused, hne⟩
      exact ⟨k, [], .refl k, .nothing k fun _ hq => hq ▸ empty_pendingOf hempty, rfl, rfl⟩

/-- The walk of `process_deliver_all_pending_signals`. -/
theorem deliverAll_delivered {l : List Slot} {fuel : Nat} {p : Option Slot} {k : Kernel}
    (hk : k.kernelProcess = some 0) (hl : Linked k.nextOf p l none) (hnodup : l.Nodup)
    (hlen : l.length < fuel) (hused : ∀ q ∈ l, (k.processTable q).used = true) :
    ∃ k', deliverAll fuel p k = .ok k' ∧ Tame k k'
      ∧ Delivered (· ∈ l) k k' (deliverAllCalls fuel p k) := by
  induction l generalizing fuel p k with
  | nil =>
      obtain ⟨fuel, rfl⟩ := Nat.exists_eq_succ_of_ne_zero (Nat.ne_of_gt hlen)
      obtain rfl : p = none := hl
      exact ⟨k, rfl, .refl k, .nothing k fun _ hq => (nomatch hq)⟩
  | cons x l ih =>
      obtain ⟨fuel, rfl⟩ := Nat.exists_eq_succ_of_ne_zero (Nat.ne_zero_of_lt hlen)
      obtain ⟨rfl, hl⟩ := hl
      obtain ⟨hx, hnodup⟩ := List.nodup_cons.mp hnodup
      obtain ⟨k1, calls, htame, hfirst, heq, hcalls⟩ :=
        deliverAll_first fuel hk (hused x List.mem_cons_self)
      have hnext : ∀ q, k1.nextOf q = k.nextOf q := fun q => frame_next (htame.frame q)
      obtain ⟨k', hall, htame', hrest⟩ := ih (hfirst.kernel.trans hk)
        (hl.congr fun q _ => hnext q) hnodup (Nat.lt_of_succ_lt_succ hlen)
        fun q hq => (htame.used q).trans (hused q (List.mem_cons_of_mem _ hq))
      rw [← hnext x] at hall hrest
      rw [heq, hcalls]
      refine ⟨k', hall, htame.trans htame', (hfirst.append hrest ?_).congr fun q => ?_⟩
      · rintro q rfl
        exact hx
      · exact List.mem_cons.symm

end Walk

/-! ## The rest of the tick -/

section Tick

variable {k k' k1 k2 : Kernel} {calls : List SignalCall}

theorem empty_of_pendingOf {p : Slot} (h : k.pendingOf p = []) :
    (k.processTable p).signals.Empty := by
  have hlen := congrArg List.length h
  unfold Kernel.pendingOf at hlen
  rw [Ring.length_contents] at hlen
  exact (k.processTable p).signals.empty_iff.mpr hlen

theorem deliverProcessSignal_empty {p : Slot} (h : (k.processTable p).signals.Empty) :
    deliverProcessSignal k (some p) = (0, k) := by
  unfold deliverProcessSignal
  dsimp only
  rw [deliverLoop, if_pos h]

/-- Where no process that can run has signals, `schedule_next_process`
delivers none. -/
theorem scheduleNextProcess_aside (hsuspended : k.suspended = none)
    (hquiet : ∀ p, (k.processTable p).eligible = true → k.pendingOf p = [])
    (h : scheduleNextProcess k = .ok k') :
    (∀ q, Aside k k' q)
      ∧ ∀ p, k'.suspended = some p → (k'.processTable p).status ≠ .zombie := by
  obtain ⟨picked, hpick, h⟩ := bind_eq_ok.mp h
  cases picked with
  | none =>
      obtain rfl := Except.ok.inj h
      refine ⟨.refl k, fun p hp => ?_⟩
      rw [hsuspended] at hp
      cases hp
  | some p =>
      have heligible := pickNextProcess_eligible hpick
      obtain ⟨-, -, hstatus⟩ := of_decide_eq_true heligible
      have hempty := empty_of_pendingOf (hquiet p heligible)
      have hnone := @deliverProcessSignal_empty
        { k with schedulerCursor := some p, currentProcess := some p } p hempty
      dsimp only at h
      rw [hnone] at h
      have halive : (k.processTable p).status ≠ .zombie := by
        rintro heq
        rw [heq] at hstatus
        simp at hstatus
      split at h
      · obtain rfl := Except.ok.inj h
        refine ⟨fun q => ?_, fun q hq => ?_⟩
        · by_cases hqp : q = p
          · subst hqp
            refine ⟨?_, ?_, ?_, ?_, ?_⟩ <;> simp only [modify_self]
            exact ⟨fun heq => (nomatch heq), fun heq => absurd heq halive⟩
          · refine .record ?_
            simp only [modify_of_ne _ _ _ hqp]
        · obtain rfl := Option.some.inj hq
          simp only [modify_self]
          exact fun heq => (nomatch heq)
      · obtain rfl := Except.ok.inj h
        refine ⟨fun q => .record rfl, fun q hq => ?_⟩
        rw [hsuspended] at hq
        cases hq

theorem LinkInv.scheduleNext {l : List Slot} {kids : Slot → List Slot} (h : LinkInv k l kids) :
    ∃ k', scheduleNextProcess k = .ok k' := by
  obtain ⟨c, hpick⟩ := h.pickExact
  unfold scheduleNextProcess
  rw [bind_of_ok hpick.pick]
  split
  · exact ⟨k, rfl⟩
  · dsimp only
    split <;> exact ⟨_, rfl⟩

/-- Timer interrupts. -/
theorem schedulerTick_iterate (k : Kernel) (n : Nat) :
    (schedulerTick^[n] k).processTable = k.processTable
      ∧ (schedulerTick^[n] k).suspended = k.suspended := by
  induction n with
  | zero => exact ⟨rfl, rfl⟩
  | succ n ih =>
      rw [Function.iterate_succ_apply']
      exact ih

/-- A process that can run after the walk had all its signals delivered. -/
theorem Delivered.quiet {here : Slot → Prop} (h : Delivered here k k1 calls)
    (hhere : ∀ q, (k1.processTable q).used = true → here q)
    (hidle : (k1.processTable 0).entry = none) {p : Slot}
    (heligible : (k1.processTable p).eligible = true) : k1.pendingOf p = [] := by
  obtain ⟨hused, hentry, hstatus⟩ := of_decide_eq_true heligible
  have halive' : (k1.processTable p).status ≠ .zombie := by
    rintro heq
    rw [heq] at hstatus
    simp at hstatus
  have halive : (k.processTable p).status ≠ .zombie := fun heq => halive' (h.zombie p heq)
  have hp : p ≠ 0 := fun hp => hentry (hp ▸ hidle)
  have hserved := h.served p (hhere p hused) halive
  cases hfirst : (k.pendingOf p).find? fun x => decide x.Fatal with
  | some x => exact absurd (hserved.ended hp x hfirst).1 halive'
  | none =>
      refine (hserved.alive (Or.inr fun x hx => ?_)).2
      simpa using List.find?_eq_none.mp hfirst x hx

/-- An iteration of the loop of `scheduler_run_pending` up to the code of a
process: the walk, any number of interrupts, and the switch, which delivers
nothing more. -/
structure TickServes (k : Kernel) (loop : PendingLoop) (k1 : Kernel) : Prop where
  walk : schedulerAdvance k (.runPending loop) = .ok (k1, .delivered loop)
  delivered : Delivered (fun q => (k.processTable q).used = true) k.tickTaken k1
    (schedulerAdvanceCalls k (.runPending loop))
  switch : ∀ n, ∃ k2 c, schedulerAdvance (schedulerTick^[n] k1) (.delivered loop) = .ok (k2, c)
    ∧ schedulerAdvanceCalls (schedulerTick^[n] k1) (.delivered loop) = []
    ∧ ∀ q, (k.processTable q).used = true → (k.processTable q).status ≠ .zombie →
      Served k k2 q (schedulerAdvanceCalls k (.runPending loop))
        ∧ (q ≠ 0 → (∃ x ∈ k.pendingOf q, x.Fatal) → ∀ l, c ≠ .process q l)

theorem tickTaken_processTable (k : Kernel) : k.tickTaken.processTable = k.processTable := by
  unfold Kernel.tickTaken
  rfl

theorem TickServes.served {loop : PendingLoop} (h : TickServes k loop k1) {q : Slot}
    (hused : (k.processTable q).used = true) (halive : (k.processTable q).status ≠ .zombie) :
    Served k k1 q (schedulerAdvanceCalls k (.runPending loop)) := by
  have hserved := h.delivered.served q hused
  rw [tickTaken_processTable] at hserved
  exact (hserved halive).tableEq (congrFun (tickTaken_processTable k) q)

/-- The kernel at the start of the walk. -/
theorem LinkInv.tickTaken {l : List Slot} {kids : Slot → List Slot} (h : LinkInv k l kids) :
    ∃ k0, k0 = k.tickTaken ∧ k0.processTable = k.processTable ∧ k0.processHead = k.processHead
      ∧ LinkInv k0 l kids := by
  have hdec : Retarget k { k with pendingSchedulerTicks := sub32 k.pendingSchedulerTicks 1 } :=
    ⟨rfl, rfl, rfl, rfl, rfl, Or.inl rfl, Or.inl rfl, _, rfl⟩
  exact ⟨{ k with pendingSchedulerTicks := sub32 k.pendingSchedulerTicks 1 }, rfl, rfl, rfl,
    h.tame hdec.tame⟩

theorem deliverProcessSignalCalls_empty {p : Slot} (h : (k.processTable p).signals.Empty) :
    deliverProcessSignalCalls k (some p) = [] := by
  unfold deliverProcessSignalCalls
  dsimp only
  rw [deliverLoopCalls, if_pos h]

theorem scheduleNextProcessCalls_quiet
    (hquiet : ∀ p, (k.processTable p).eligible = true → k.pendingOf p = []) :
    scheduleNextProcessCalls k = [] := by
  unfold scheduleNextProcessCalls
  split
  · next p hpick =>
      exact deliverProcessSignalCalls_empty
        (empty_of_pendingOf (hquiet p (pickNextProcess_eligible hpick)))
  · rfl

/-- The switch. -/
theorem delivered_switch {loop : PendingLoop} (hinv : SchedulerInv (k, .delivered loop))
    (hquiet : ∀ p, (k.processTable p).eligible = true → k.pendingOf p = []) :
    ∃ k2 c, schedulerAdvance k (.delivered loop) = .ok (k2, c) ∧ (∀ q, Aside k k2 q)
      ∧ ∀ q l, c = .process q l → (k2.processTable q).status ≠ .zombie := by
  have hcontext : KernelContext k := hinv.context
  obtain ⟨l, kids, hl⟩ := hinv.housed.links
  obtain ⟨k2, hnext⟩ := hl.scheduleNext
  obtain ⟨haside, halive⟩ := scheduleNextProcess_aside hcontext.suspended hquiet hnext
  simp only [schedulerAdvance]
  rw [bind_of_ok hnext]
  cases hs : k2.suspended with
  | none => exact ⟨k2, _, rfl, haside, fun q l heq => by cases heq⟩
  | some p =>
      refine ⟨k2, _, rfl, haside, fun q l heq => halive q ?_⟩
      rw [hs, (Control.process.inj heq).1]

theorem SchedulerInv.interrupts {c : Control} (h : SchedulerInv (k, c)) (n : Nat) :
    SchedulerInv (schedulerTick^[n] k, c) := by
  induction n with
  | zero => exact h
  | succ n ih =>
      rw [Function.iterate_succ_apply']
      exact ih.step .interrupt

theorem SchedulerInv.tick {loop : PendingLoop} (h : SchedulerInv (k, .runPending loop))
    (hpending : k.pendingSchedulerTicks > 0) (hexecuted : loop.executed < loop.maxTicks) :
    ∃ k1, TickServes k loop k1 := by
  obtain ⟨l, kids, hl⟩ := h.housed.links
  obtain ⟨k0, hk0, htable0, hhead0, hl0⟩ := hl.tickTaken
  obtain ⟨k1, hall, htame, hdelivered⟩ := deliverAll_delivered hl0.kernel hl0.linked
    hl0.nodup (nodup_length_lt hl0.nodup) fun q hq => (hl0.mem q).mp hq
  have hcalls : deliverAllCalls 17 k0.processHead k0
      = schedulerAdvanceCalls k (.runPending loop) := by
    rw [schedulerAdvanceCalls, if_pos ⟨hpending, hexecuted⟩, hhead0, hk0]
  rw [hcalls] at hdelivered
  have hwalk : schedulerAdvance k (.runPending loop) = .ok (k1, .delivered loop) := by
    rw [hhead0] at hall
    rw [runPending_walk hpending hexecuted, ← hk0, hall]
    rfl
  have hinv1 : SchedulerInv (k1, .delivered loop) := h.advance hwalk
  refine ⟨k1, hwalk, hk0 ▸ hdelivered.congr hl.mem, fun n => ?_⟩
  -- an interrupt changes no record
  obtain ⟨htable, -⟩ := schedulerTick_iterate k1 n
  have hinterrupts : ∀ q, Aside k1 (schedulerTick^[n] k1) q := fun q =>
    .record (congrFun htable q)
  have hquiet : ∀ p, ((schedulerTick^[n] k1).processTable p).eligible = true →
      (schedulerTick^[n] k1).pendingOf p = [] := by
    intro p heligible
    rw [(hinterrupts p).pendingOf]
    rw [htable] at heligible
    refine hdelivered.quiet ?_ hinv1.housed.idle heligible
    exact fun q hq => (hl0.mem q).mpr ((htame.used q).symm.trans hq)
  obtain ⟨k2, c, hswitch, haside, halive⟩ := delivered_switch (hinv1.interrupts n) hquiet
  refine ⟨k2, c, hswitch, scheduleNextProcessCalls_quiet hquiet, fun q hused hlive => ?_⟩
  have hwalked : Served k k1 q (schedulerAdvanceCalls k (.runPending loop)) := by
    have hserved := hdelivered.served q ((hl.mem q).mpr hused)
    rw [htable0] at hserved
    exact (hserved hlive).tableEq (congrFun htable0 q)
  have hserved := hwalked.aside ((hinterrupts q).trans (haside q))
  refine ⟨hserved, ?_⟩
  rintro hq ⟨x, hx, hfatal⟩ l hc
  refine halive q l hc ?_
  cases hfirst : (k.pendingOf q).find? fun x => decide x.Fatal with
  | some y => exact (hserved.ended hq y hfirst).1
  | none => exact absurd (decide_eq_true hfatal) (List.find?_eq_none.mp hfirst x hx)

end Tick

/-! ## The signals of a run -/

theorem processInit_pendingOf (vm : Vm) (q : Slot) : (processInit vm).pendingOf q = [] := by
  refine empty_pendingOf ?_
  by_cases hq : q = 0
  · subst hq
    rfl
  · rw [show (processInit vm).processTable q = { Process.zero with memory := processResetMemory }
      from if_neg hq]
    rfl

theorem balanced_processInit (vm : Vm) : SignalLedger.empty.Balanced (processInit vm) := by
  intro q _
  rw [processInit_pendingOf vm q]
  rfl

/-- The pending signals are those queued and not delivered. -/
theorem SignalLedger.Balanced.count {ledger : SignalLedger} {k : Kernel} (h : ledger.Balanced k)
    {q : Slot} (hq : (k.processTable q).used = true) :
    processSignalPendingCount k (some q)
      = (ledger.queued q).length - (ledger.delivered q).length := by
  rw [processSignalPendingCount_eq, h q hq, List.length_append, Nat.add_sub_cancel_left]

/-- In every run of the process interface. -/
theorem kernelRun_balanced {vm : Vm} {events : List (Event × Reply)} {y : Kernel × SignalLedger}
    (hrun : Run (WithRecord KernelStep kernelLedger) (processInit vm, .empty) events y) :
    y.2.Balanced y.1 := by
  refine (WithRecord.invariant (I := Linkage) (J := fun k ledger => ledger.Balanced k)
    (linkage_processInit vm) (balanced_processInit vm) (fun hl hstep => hl.step hstep) ?_ hrun).2
  intro k label k' ledger hl hb hstep
  exact (exec_booked hl.kernel hstep.2).balanced hb

/-- In every run of the scheduler. -/
theorem schedulerRun_balanced {vm : Vm} (hvm : vm.currentDirectory = some .kernel)
    {actions : List SchedulerAction} {y : (Kernel × Control) × SignalLedger}
    (hrun : Run (WithRecord SchedulerStep schedulerLedger) ((processInit vm, .kernelCode), .empty)
      actions y) : y.2.Balanced y.1.1 := by
  refine (WithRecord.invariant (I := SchedulerInv) (J := fun s ledger => ledger.Balanced s.1)
    (schedulerInv_processInit hvm) (balanced_processInit vm) (fun hi hstep => hi.step hstep) ?_
    hrun).2
  intro s action s' ledger hi hb hstep
  exact (schedulerStep_booked hi.housed.ground.kernel hstep).balanced hb

/-- A tick delivers the signals of all processes before one of them runs; a
signal is refused when fifteen are pending; `deliver_process_signal` returns
the number of the deliveries that are recorded of it; and in every run, with
its record, what was queued for a process is what was delivered to it and then
what is pending, which `process_signal_pending_count` counts. -/
theorem scheduler_signals {vm : Vm} (hvm : vm.currentDirectory = some .kernel) :
    (∀ actions k loop, Run SchedulerStep (processInit vm, .kernelCode) actions
        (k, .runPending loop) → k.pendingSchedulerTicks > 0 → loop.executed < loop.maxTicks →
      ∃ k1, TickServes k loop k1)
    ∧ (∀ k p signal value, (queueProcessSignal k (some p) signal value).1 = false
      ↔ processSignalPendingCount k (some p) = 15)
    ∧ (∀ k process, (deliverProcessSignal k process).1
      = (deliverProcessSignalCalls k process).length)
    ∧ (∀ events k, Run KernelStep (processInit vm) events k →
      (∃ ledger, Run (WithRecord KernelStep kernelLedger) (processInit vm, .empty) events
        (k, ledger))
      ∧ ∀ ledger, Run (WithRecord KernelStep kernelLedger) (processInit vm, .empty) events
          (k, ledger) → ∀ q, (k.processTable q).used = true →
        ledger.queued q = ledger.delivered q ++ k.pendingOf q
        ∧ processSignalPendingCount k (some q)
          = (ledger.queued q).length - (ledger.delivered q).length)
    ∧ ∀ actions s, Run SchedulerStep (processInit vm, .kernelCode) actions s →
      (∃ ledger, Run (WithRecord SchedulerStep schedulerLedger)
        ((processInit vm, .kernelCode), .empty) actions (s, ledger))
      ∧ ∀ ledger, Run (WithRecord SchedulerStep schedulerLedger)
          ((processInit vm, .kernelCode), .empty) actions (s, ledger) →
        ∀ q, (s.1.processTable q).used = true →
          ledger.queued q = ledger.delivered q ++ s.1.pendingOf q
          ∧ processSignalPendingCount s.1 (some q)
            = (ledger.queued q).length - (ledger.delivered q).length := by
  refine ⟨?_, queueProcessSignal_refused, deliverProcessSignal_count, ?_, ?_⟩
  · intro actions k loop hrun
    have hinv : SchedulerInv (k, .runPending loop) :=
      hrun.invariant (schedulerInv_processInit hvm) fun hi hstep => hi.step hstep
    exact hinv.tick
  · intro events k hrun
    refine ⟨hrun.recorded _, fun ledger hrecorded q hq => ?_⟩
    have hb : ledger.Balanced k := kernelRun_balanced hrecorded
    exact ⟨hb q hq, hb.count hq⟩
  · intro actions s hrun
    refine ⟨hrun.recorded _, fun ledger hrecorded q hq => ?_⟩
    have hb : ledger.Balanced s.1 := schedulerRun_balanced hvm hrecorded
    exact ⟨hb q hq, hb.count hq⟩

/-- A process with three signals dies of the second: a tick delivers two of
them, and then the record of the run has three signals queued and two
delivered. -/
theorem scheduler_signals_term :
    ∃ k k1 ledger, TickServes k ⟨0, 1, none⟩ k1
      ∧ deliveredTo 1 (schedulerAdvanceCalls k (.runPending ⟨0, 1, none⟩)) = [⟨16, 5⟩, ⟨15, 7⟩]
      ∧ (k1.processTable 1).status = .zombie ∧ (k1.processTable 1).exitCode = 143
      ∧ Run (WithRecord SchedulerStep schedulerLedger)
        ((processInit eightMegabytes, .kernelCode), .empty)
        [.call (.createOwned 0 (some .demoCounterProcess) 4096) (.created (some 1)),
          .call (.sendSignal none 2 16 5) (.sent true),
          .call (.sendSignal none 2 15 7) (.sent true),
          .call (.sendSignal none 2 16 9) (.sent true), .interrupt, .runPending 1, .advance]
        ((k1, .delivered ⟨0, 1, none⟩), ledger)
      ∧ ledger.queued 1 = ledger.delivered 1 ++ [⟨16, 9⟩]
      ∧ processSignalPendingCount k1 (some 1)
        = (ledger.queued 1).length - (ledger.delivered 1).length := by
  obtain ⟨⟨k, c⟩, hrun, hc, hused, halive, hqueue, hticks⟩ := execSteps_observe schedulerExec_step
    (processInit eightMegabytes, .kernelCode)
    [.call (.createOwned 0 (some .demoCounterProcess) 4096) (.created (some 1)),
      .call (.sendSignal none 2 16 5) (.sent true), .call (.sendSignal none 2 15 7) (.sent true),
      .call (.sendSignal none 2 16 9) (.sent true), .interrupt, .runPending 1]
    (fun s => s.2 = .runPending ⟨0, 1, none⟩ ∧ (s.1.processTable 1).used = true
      ∧ (s.1.processTable 1).status ≠ .zombie
      ∧ s.1.pendingOf 1 = [⟨16, 5⟩, ⟨15, 7⟩, ⟨16, 9⟩] ∧ s.1.pendingSchedulerTicks = 1)
    (by decide +kernel)
  obtain rfl : c = .runPending ⟨0, 1, none⟩ := hc
  obtain ⟨htick, -, -, -, hrecord⟩ := @scheduler_signals eightMegabytes rfl
  obtain ⟨k1, hserves⟩ := htick _ k _ hrun (by rw [hticks]; decide) (by decide)
  have hserved := hserves.served hused halive
  have hqueue1 := hserved.queue
  have hhanded : handed 1 (k.pendingOf 1) = [⟨16, 5⟩, ⟨15, 7⟩] := by
    rw [hqueue]
    decide
  obtain ⟨hzombie, hcode⟩ := hserved.ended (by decide) ⟨15, 7⟩ (by rw [hqueue]; decide)
  have hrun1 := hrun.snoc (.advance hserves.walk)
  obtain ⟨⟨ledger, hledger⟩, hcounts⟩ := hrecord _ _ hrun1
  have hused1 : (k1.processTable 1).used = true :=
    ((schedulerAdvance_tame hserves.walk).used 1).trans hused
  obtain ⟨hbalanced, hcount⟩ := hcounts ledger hledger 1 hused1
  refine ⟨k, k1, ledger, hserves, ?_, hzombie, hcode, hledger, ?_, hcount⟩
  · rw [hserved.delivered, hhanded]
  · rw [hhanded, hqueue] at hqueue1
    have hsplit : [⟨16, 5⟩, ⟨15, 7⟩] ++ [⟨16, 9⟩] = [⟨16, 5⟩, ⟨15, 7⟩] ++ k1.pendingOf 1 := hqueue1
    rw [hbalanced, ← List.append_cancel_left hsplit]

/-- The kernel process is sent `TERM` and a signal after it: both are
delivered, and it stays as it is. -/
theorem kernelProcess_survives :
    ∃ k k1, Run SchedulerStep (processInit eightMegabytes, .kernelCode)
        [.call (.sendSignal none 1 15 0) (.sent true), .call (.sendSignal none 1 16 0) (.sent true),
          .interrupt, .runPending 1] (k, .runPending ⟨0, 1, none⟩)
      ∧ (k.processTable 0).status = .thread ∧ k.pendingOf 0 = [⟨15, 0⟩, ⟨16, 0⟩]
      ∧ schedulerAdvance k (.runPending ⟨0, 1, none⟩) = .ok (k1, .delivered ⟨0, 1, none⟩)
      ∧ (k1.processTable 0).status = .thread ∧ (k1.processTable 0).exitCode = 0
      ∧ k1.pendingOf 0 = [] := by
  obtain ⟨⟨k, c⟩, ⟨k1, c1⟩, hrun, hwalk, hc, hc1, hobserved⟩ := execSteps_observe_two
    schedulerExec_step (processInit eightMegabytes, .kernelCode)
    [.call (.sendSignal none 1 15 0) (.sent true), .call (.sendSignal none 1 16 0) (.sent true),
      .interrupt, .runPending 1] [.advance]
    (fun s s' => s.2 = .runPending ⟨0, 1, none⟩ ∧ s'.2 = .delivered ⟨0, 1, none⟩
      ∧ (s.1.processTable 0).status = .thread ∧ s.1.pendingOf 0 = [⟨15, 0⟩, ⟨16, 0⟩]
      ∧ (s'.1.processTable 0).status = .thread ∧ (s'.1.processTable 0).exitCode = 0
      ∧ s'.1.pendingOf 0 = []) (by decide +kernel)
  obtain rfl : c = .runPending ⟨0, 1, none⟩ := hc
  obtain rfl : c1 = .delivered ⟨0, 1, none⟩ := hc1
  obtain ⟨hthread, hqueue, hafter⟩ := hobserved
  cases hwalk.of_one with
  | advance call => exact ⟨k, k1, hrun, hthread, hqueue, call, hafter⟩

end Kfs
