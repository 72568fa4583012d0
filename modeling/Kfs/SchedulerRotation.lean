import Kfs.SchedulerContext
import Kfs.Lib.Circle

/-!
# The rotation of the scheduler

`pick_next_process` goes round the list of processes from the scheduler's
cursor and comes back to it, so what it finds is the first of `circleFrom`
that can run. Only `schedule_next_process` moves the cursor while the list
stays the same: it is put on the process that was found, and the others that
can run are in front of it now. That is the queue of `queueFrom`, and a round
of as many calls as the queue is long runs each of its processes once.
-/

namespace Kfs

/-- What `pick_next_process` asks of a process in the list. -/
def Kernel.runnable (k : Kernel) (p : Slot) : Bool :=
  decide ((k.processTable p).entry ≠ none
    ∧ ((k.processTable p).status = .ready ∨ (k.processTable p).status = .run
      ∨ (k.processTable p).status = .thread))

theorem eligible_eq_runnable {k : Kernel} {p : Slot} (hused : (k.processTable p).used = true) :
    (k.processTable p).eligible = k.runnable p := by
  unfold Process.eligible Kernel.runnable
  rw [decide_eq_decide]
  constructor
  · rintro ⟨-, hentry, hready | hthread | hrun⟩
    · exact ⟨hentry, Or.inl hready⟩
    · exact ⟨hentry, Or.inr (Or.inr hthread)⟩
    · exact ⟨hentry, Or.inr (Or.inl hrun)⟩
  · rintro ⟨hentry, hready | hrun | hthread⟩
    · exact ⟨hused, hentry, Or.inl hready⟩
    · exact ⟨hused, hentry, Or.inr (Or.inr hrun)⟩
    · exact ⟨hused, hentry, Or.inr (Or.inl hthread)⟩

/-! ## The choice -/

section Pick

variable {k : Kernel} {head start : Slot}

/-- The loop along a stretch of the circle that leads to its start. -/
theorem pickLoop_circle : ∀ {zs : List Slot} {fuel : Nat} {candidate : Slot},
    (candidate :: zs ++ [start]).IsChain (fun x y => k.circle head x = y) → start ∉ zs →
    zs.length < fuel → pickLoop k head start fuel candidate
      = .ok ((zs ++ [start]).find? fun q => (k.processTable q).eligible)
  | [], fuel + 1, candidate, hchain, _, _ => by
      have hnext : (k.nextOf candidate).getD head = start := (List.isChain_cons_cons.mp hchain).1
      rw [pickLoop, hnext, List.nil_append, List.find?_cons]
      cases (k.processTable start).eligible with
      | true => rfl
      | false =>
          rw [if_neg (by decide), if_pos rfl]
          rfl
  | z :: zs, fuel + 1, candidate, hchain, hstart, hfuel => by
      obtain ⟨hfirst, hrest⟩ := List.isChain_cons_cons.mp hchain
      have hnext : (k.nextOf candidate).getD head = z := hfirst
      rw [List.mem_cons, not_or] at hstart
      rw [pickLoop, hnext, List.cons_append, List.find?_cons]
      cases (k.processTable z).eligible with
      | true => rfl
      | false =>
          rw [if_neg (by decide), if_neg (Ne.symm hstart.1)]
          exact pickLoop_circle hrest hstart.2 (Nat.lt_of_succ_lt_succ hfuel)

/-- The circle of a list goes from one of its processes to the end, and from
the head on to the process. -/
theorem circle_isChain {xs ys : List Slot}
    (hl : Linked k.nextOf (some head) (xs ++ start :: ys) none) :
    (start :: (ys ++ xs) ++ [start]).IsChain fun x y => k.circle head x = y := by
  have hcircle : (xs ++ start :: ys).IsChain fun x y => k.circle head x = y :=
    hl.isChain.imp fun x y hxy => by
      unfold Kernel.circle
      rw [hxy]
      rfl
  obtain ⟨-, hback, -⟩ := List.isChain_append.mp hcircle
  have hfront : (xs ++ [start]).IsChain fun x y => k.circle head x = y := by
    have hsplit : xs ++ start :: ys = (xs ++ [start]) ++ ys := by simp
    rw [hsplit] at hcircle
    exact (List.isChain_append.mp hcircle).1
  have hassoc : start :: (ys ++ xs) ++ [start] = (start :: ys) ++ (xs ++ [start]) := by simp
  rw [hassoc]
  refine List.isChain_append.mpr ⟨hback, hfront, ?_⟩
  intro last hlast first hfirst
  -- behind the last process of the list comes the first
  obtain ⟨init, hinit⟩ := List.getLast?_eq_some_iff.mp hlast
  have hend : k.nextOf last = none := by
    rw [hinit, ← List.append_assoc] at hl
    exact hl.next_last
  have hhead : head = first := by
    cases xs with
    | nil => exact (Option.some.inj hl.1).trans (Option.some.inj hfirst)
    | cons x xs => exact (Option.some.inj hl.1).trans (Option.some.inj hfirst)
  unfold Kernel.circle
  rw [hend]
  exact hhead

end Pick

/-- `pick_next_process` returns the first process behind the cursor that can
run, the cursor's own coming last, and `NULL` if no process can. -/
structure PickExact (k : Kernel) (l : List Slot) (c : Slot) : Prop where
  linked : Linked k.nextOf k.processHead l none
  cursor : k.schedulerCursor = some c
  listed : c ∈ l
  pick : pickNextProcess k = .ok ((circleFrom c l).find? k.runnable)
  idle : pickNextProcess k = .ok none ↔ ∀ q ∈ l, k.runnable q = false

theorem LinkInv.pickExact {k : Kernel} {l : List Slot} {kids : Slot → List Slot}
    (h : LinkInv k l kids) : ∃ c, PickExact k l c := by
  obtain ⟨c, hc, hcur⟩ := h.cursor
  have hpick : pickNextProcess k = .ok ((circleFrom c l).find? k.runnable) := by
    have hsame : ∀ q ∈ circleFrom c l, k.runnable q = (k.processTable q).eligible := fun q hq =>
      (eligible_eq_runnable ((h.mem q).mp ((circleFrom_perm hc).mem_iff.mp hq))).symm
    obtain ⟨xs, ys, rfl, hxs⟩ := List.eq_append_cons_of_mem hc
    have hlen := nodup_length_lt h.nodup
    rw [List.length_append, List.length_cons] at hlen
    have hys : c ∉ ys := (List.nodup_cons.mp (List.nodup_append.mp h.nodup).2.1).1
    have hlinked := h.linked
    rw [h.head] at hlinked
    rw [find?_congr hsame, circleFrom_append hxs]
    unfold pickNextProcess
    rw [h.enabled, h.head, hcur]
    refine pickLoop_circle (circle_isChain hlinked) ?_ ?_
    · rw [List.mem_append, not_or]
      exact ⟨hys, hxs⟩
    · rw [List.length_append]
      omega
  refine ⟨c, h.linked, hcur, hc, hpick, ?_⟩
  rw [hpick, Except.ok.injEq, List.find?_eq_none]
  constructor
  · intro hnone q hq
    exact Bool.eq_false_iff.mpr (hnone q ((circleFrom_perm hc).mem_iff.mpr hq))
  · intro hnone q hq
    exact Bool.eq_false_iff.mp (hnone q ((circleFrom_perm hc).mem_iff.mp hq))

/-! ## The cursor -/

section Cursor

variable {k k' : Kernel} {l l' : List Slot} {kids kids' : Slot → List Slot}

theorem LinkInv.create_cursor {parent p : Option Slot} {owner base size : Nat}
    {function : Option ExecFn} (h : LinkInv k l kids)
    (call : processCreateInternal k parent owner base function size = .ok (p, k')) :
    k'.schedulerCursor = k.schedulerCursor := by
  cases p with
  | some p =>
      obtain ⟨-, -, vm, memory, table, head, -, rfl, -⟩ := spawn_eq call
      rfl
  | none =>
      rcases miss_eq h.kernel call with rfl | ⟨p, vm, table, head, -, hunused, -, rfl, -⟩
      · rfl
      · exact if_neg (h.cursor_ne hunused)

theorem processExit_cursor (k : Kernel) (process : Option Slot) (exitCode : Int) :
    (processExit k process exitCode).schedulerCursor = k.schedulerCursor := by
  cases process with
  | none => rfl
  | some p =>
      rcases processExit_cases k p exitCode with ⟨-, h⟩ | ⟨-, -, ⟨h, -⟩ | ⟨q, -, -, -, h⟩⟩ <;>
        rw [h] <;> rfl

theorem Move.cursor {m : MoveLabel} (hm : m ≠ .other) (h : Move k m k') :
    k'.schedulerCursor = k.schedulerCursor := by
  cases h with
  | create | release | assign | copy | tick => exact absurd rfl hm
  | exit p exitCode => exact processExit_cursor k (some p) exitCode
  | deliver pending =>
      unfold deliverOne processDefaultSignalHandler
      dsimp only
      split <;> split
      all_goals
        first
        | rfl
        | exact processExit_cursor _ _ _
  | queue pending room => rfl
  | socket p keeps => rfl

theorem Moves.cursor (h : Moves (fun m => m ≠ .other) k k') (hk : k.kernelProcess = some 0) :
    k'.schedulerCursor = k.schedulerCursor :=
  h.along (R := fun k k' => k'.schedulerCursor = k.schedulerCursor) hk rfl
    (fun h1 h2 => h2.trans h1) fun _ hm hmove => hmove.cursor hm

theorem queueProcessSignal_cursor (k : Kernel) (process : Option Slot) (signal : Int)
    (value : Nat) : (queueProcessSignal k process signal value).2.schedulerCursor
      = k.schedulerCursor := by
  unfold queueProcessSignal
  cases process with
  | none => rfl
  | some p =>
      dsimp only
      split <;> rfl

theorem sendSignalToProcess_cursor {sender : Option Slot} {pid value : Nat} {signal : Int}
    {ok : Bool} (call : sendSignalToProcess k sender pid signal value = .ok (ok, k')) :
    k'.schedulerCursor = k.schedulerCursor := by
  obtain ⟨target, -, call⟩ := bind_eq_ok.mp call
  split at call
  · have hqueue : (queueProcessSignal k target signal value).2 = k' :=
      congrArg Prod.snd (Except.ok.inj call)
    rw [← hqueue]
    exact queueProcessSignal_cursor k target signal value
  · obtain ⟨-, rfl⟩ := Prod.mk.inj (Except.ok.inj call)
    rfl

theorem socketSend_cursor {sender : Option Slot} {pid value : Nat} {ok : Bool}
    (call : socketSend k sender pid value = .ok (ok, k')) :
    k'.schedulerCursor = k.schedulerCursor := by
  obtain ⟨target, -, call⟩ := bind_eq_ok.mp call
  cases target with
  | none =>
      obtain ⟨-, rfl⟩ := Prod.mk.inj (Except.ok.inj call)
      rfl
  | some t =>
      dsimp only at call
      split at call
      · obtain ⟨-, rfl⟩ := Prod.mk.inj (Except.ok.inj call)
        rfl
      · have hqueue := congrArg Prod.snd (Except.ok.inj call)
        dsimp only at hqueue
        rw [← hqueue]
        exact queueProcessSignal_cursor _ (some t) processSignalSocket value

theorem socketRecv_cursor (k : Kernel) (process : Option Slot) :
    (socketRecv k process).2.schedulerCursor = k.schedulerCursor := by
  unfold socketRecv
  cases process with
  | none => rfl
  | some p =>
      dsimp only
      split <;> rfl

theorem LinkInv.fork_cursor {source p : Option Slot} (h : LinkInv k l kids)
    (call : forkProcess k source = .ok (p, k')) : k'.schedulerCursor = k.schedulerCursor := by
  unfold forkProcess at call
  cases source with
  | none =>
      obtain ⟨-, rfl⟩ := Prod.mk.inj (Except.ok.inj call)
      rfl
  | some source =>
      dsimp only at call
      split at call
      · obtain ⟨-, rfl⟩ := Prod.mk.inj (Except.ok.inj call)
        rfl
      · obtain ⟨⟨child, k1⟩, hcreate, call⟩ := bind_eq_ok.mp call
        have hcreated := h.create_cursor hcreate
        cases child with
        | none =>
            obtain ⟨-, rfl⟩ := Prod.mk.inj (Except.ok.inj call)
            exact hcreated
        | some child =>
            obtain ⟨-, rfl⟩ := Prod.mk.inj (Except.ok.inj call)
            rw [modify_schedulerCursor]
            exact hcreated

theorem LinkInv.spawnDemoCounter_cursor {owner seed limit : Nat} {p : Option Slot}
    (h : LinkInv k l kids) (call : processSpawnDemoCounter k owner seed limit = .ok (p, k')) :
    k'.schedulerCursor = k.schedulerCursor := by
  obtain ⟨⟨child, k1⟩, hcreate, call⟩ := bind_eq_ok.mp call
  have hcreated := h.create_cursor hcreate
  cases child with
  | none =>
      obtain ⟨-, rfl⟩ := Prod.mk.inj (Except.ok.inj call)
      exact hcreated
  | some child =>
      obtain ⟨-, rfl⟩ := Prod.mk.inj (Except.ok.inj call)
      exact hcreated

/-- A receiver that is released again was never under the cursor. -/
theorem LinkInv.spawnDemoSocketPair_cursor {owner value : Nat} {pair : Option (Slot × Slot)}
    (h : LinkInv k l kids) (call : processSpawnDemoSocketPair k owner value = .ok (pair, k')) :
    k'.schedulerCursor = k.schedulerCursor := by
  obtain ⟨⟨receiver, k1⟩, hfirst, call⟩ := bind_eq_ok.mp call
  have hcursor1 := h.create_cursor hfirst
  cases receiver with
  | none =>
      obtain ⟨-, rfl⟩ := Prod.mk.inj (Except.ok.inj call)
      exact hcursor1
  | some receiver =>
      obtain ⟨⟨sender, k2⟩, hsecond, call⟩ := bind_eq_ok.mp call
      obtain ⟨l1, kids1, h1⟩ := Linkage.effect ⟨l, kids, h⟩ (.spawn hfirst)
      have hcursor2 := (h1.create_cursor hsecond).trans hcursor1
      cases sender with
      | some sender =>
          obtain ⟨-, rfl⟩ := Prod.mk.inj (Except.ok.inj call)
          exact hcursor2
      | none =>
          obtain ⟨k3, hrelease, call⟩ := bind_eq_ok.mp call
          obtain ⟨-, rfl⟩ := Prod.mk.inj (Except.ok.inj call)
          have hkernel : some receiver ≠ k2.kernelProcess := by
            rw [(Move.create hsecond).kernel h1.kernel]
            exact fun heq => (spawn_eq hfirst).1 (Option.some.inj heq)
          obtain ⟨table, head, rfl, -⟩ := processRelease_eq hkernel hrelease
          refine (if_neg ?_).trans hcursor2
          rw [hcursor2]
          exact h.cursor_ne (spawn_eq hfirst).2.1

theorem waitFor_cursor (k : Kernel) (parent : Option Slot) (pid : Nat) :
    (waitFor k parent pid).schedulerCursor = k.schedulerCursor := by
  unfold waitFor
  cases parent with
  | none => rfl
  | some p =>
      dsimp only
      split <;> rfl

theorem stopWaiting_cursor (k : Kernel) (parent : Option Slot) :
    (stopWaiting k parent).schedulerCursor = k.schedulerCursor := by
  unfold stopWaiting
  cases parent with
  | none => rfl
  | some p =>
      dsimp only
      split <;> rfl

/-- Reaping takes a process from the list. -/
theorem LinkInv.wait_cursor {parent : Option Slot} {pid : Nat} {result : WaitResult}
    (h : LinkInv k l kids) (h' : LinkInv k' l kids')
    (call : processWait k parent pid = .ok (result, k')) :
    k'.schedulerCursor = k.schedulerCursor := by
  obtain ⟨child, -, call⟩ := bind_eq_ok.mp call
  cases child with
  | none =>
      obtain ⟨-, rfl⟩ := Prod.mk.inj (Except.ok.inj call)
      rfl
  | some c =>
      dsimp only at call
      split at call
      · obtain ⟨-, rfl⟩ := Prod.mk.inj (Except.ok.inj call)
        rfl
      · split at call
        · obtain ⟨-, rfl⟩ := Prod.mk.inj (Except.ok.inj call)
          exact waitFor_cursor k parent pid
        · obtain ⟨k1, hrelease, call⟩ := bind_eq_ok.mp call
          obtain ⟨-, rfl⟩ := Prod.mk.inj (Except.ok.inj call)
          by_cases hc : some c = (stopWaiting k parent).kernelProcess
          · unfold processRelease at hrelease
            rw [if_pos hc] at hrelease
            obtain rfl := Except.ok.inj hrelease
            exact stopWaiting_cursor k parent
          · obtain ⟨table, head, rfl, hzero, -⟩ := processRelease_eq hc hrelease
            have hgone : c ∉ l := fun hmem => by
              have hused : (table c).used = true := (h'.mem c).mp hmem
              rw [hzero] at hused
              cases hused
            refine (if_neg ?_).trans (stopWaiting_cursor k parent)
            rw [stopWaiting_cursor]
            obtain ⟨d, hd, hcur⟩ := h.cursor
            rw [hcur]
            rintro heq
            exact hgone (Option.some.inj heq ▸ hd)

/-- No call but `schedule` moves the cursor while the list stays the same. -/
theorem LinkInv.exec_cursor {e : Event} {r : Reply} (h : LinkInv k l kids)
    (h' : LinkInv k' l kids') (hexec : e.exec k = .ok (r, k')) (hschedule : e ≠ .schedule)
    (hyield : e ≠ .yield) : k'.schedulerCursor = k.schedulerCursor := by
  cases e with
  | createOwned owner function size =>
      obtain ⟨p, -, call⟩ := map_reply_eq_ok.mp hexec
      exact h.create_cursor call
  | execFn addr function size =>
      obtain ⟨p, -, call⟩ := map_reply_eq_ok.mp hexec
      exact h.create_cursor call
  | fork source =>
      obtain ⟨p, -, call⟩ := map_reply_eq_ok.mp hexec
      exact h.fork_cursor call
  | spawnDemoCounter owner seed limit =>
      obtain ⟨p, -, call⟩ := map_reply_eq_ok.mp hexec
      exact h.spawnDemoCounter_cursor call
  | spawnDemoSocketPair owner value =>
      obtain ⟨pair, -, call⟩ := map_reply_eq_ok.mp hexec
      exact h.spawnDemoSocketPair_cursor call
  | wait parent pid =>
      obtain ⟨result, -, call⟩ := map_reply_eq_ok.mp hexec
      exact h.wait_cursor h' call
  | schedulerTick =>
      obtain ⟨-, rfl⟩ := Prod.mk.inj (Except.ok.inj hexec)
      rfl
  | exit process exitCode =>
      obtain ⟨-, rfl⟩ := Prod.mk.inj (Except.ok.inj hexec)
      exact processExit_cursor k process exitCode
  | deliverSignal process =>
      obtain ⟨-, rfl⟩ := Prod.mk.inj (Except.ok.inj hexec)
      exact (deliverProcessSignal_moves k process fun p _ => nofun).cursor h.kernel
  | sendSignal sender pid signal value =>
      obtain ⟨ok, -, call⟩ := map_reply_eq_ok.mp hexec
      exact sendSignalToProcess_cursor call
  | socketSend sender pid value =>
      obtain ⟨ok, -, call⟩ := map_reply_eq_ok.mp hexec
      exact socketSend_cursor call
  | socketRecv process =>
      obtain ⟨-, rfl⟩ := Prod.mk.inj (Except.ok.inj hexec)
      exact socketRecv_cursor k process
  | schedule => exact absurd rfl hschedule
  | yield => exact absurd rfl hyield

end Cursor

/-! ## Turns -/

/-- The process that has the processor. -/
def Control.runner : Control → Option Slot
  | .process p _ => some p
  | _ => none

/-- The call of `schedule_next_process` in a step, if there is one, as the
process it switched to. -/
def turnOf (s : Kernel × Control) (action : SchedulerAction) (s' : Kernel × Control) :
    Option (Option Slot) :=
  match s.2, action with
  | .delivered _, .advance => some s'.2.runner
  | _, _ => none

/-- The list is `l`, and those of its processes that can run are `R`. -/
structure Rotating (l : List Slot) (R : Finset Slot) (k : Kernel) : Prop where
  linked : Linked k.nextOf k.processHead l none
  ready : ∀ p, p ∈ R ↔ p ∈ l ∧ k.runnable p = true

instance (l : List Slot) (R : Finset Slot) (k : Kernel) : Decidable (Rotating l R k) :=
  decidable_of_iff (Linked k.nextOf k.processHead l none
      ∧ ∀ p, p ∈ R ↔ p ∈ l ∧ k.runnable p = true)
    ⟨fun h => ⟨h.1, h.2⟩, fun h => ⟨h.linked, h.ready⟩⟩

/-- A step into such a state, labelled with its call of
`schedule_next_process`. -/
def RotatingStep (l : List Slot) (R : Finset Slot) (s : Kernel × Control)
    (turn : Option (Option Slot)) (s' : Kernel × Control) : Prop :=
  ∃ action, SchedulerStep s action s' ∧ turn = turnOf s action s' ∧ Rotating l R s'.1

/-- What the calls of `schedule_next_process` switched to, in order. -/
def calls (turns : List (Option (Option Slot))) : List (Option Slot) := turns.filterMap id

theorem calls_snoc_none (turns : List (Option (Option Slot))) :
    calls (turns ++ [none]) = calls turns := by
  simp [calls]

theorem calls_snoc_some (turns : List (Option (Option Slot))) (x : Option Slot) :
    calls (turns ++ [some x]) = calls turns ++ [x] := by
  simp [calls]

section Turns

variable {k k' : Kernel} {l : List Slot} {R : Finset Slot} {kids : Slot → List Slot}

theorem Rotating.linkInv (h : Rotating l R k) (hl : Linkage k) : ∃ kids, LinkInv k l kids := by
  obtain ⟨l', kids, hl⟩ := hl
  obtain rfl := h.linked.unique hl.linked
  exact ⟨kids, hl⟩

/-- A call of `schedule_next_process` that changes neither the list nor who
can run: it puts the cursor on the process it picks, and runs it. -/
theorem Rotating.turn {c : Slot} (h : Rotating l R k) (h' : Rotating l R k')
    (hpick : PickExact k l c) (hk : k.kernelProcess = some 0) (hsuspended : k.suspended = none)
    (hcall : scheduleNextProcess k = .ok k') :
    (R = ∅ ∧ k'.suspended = none ∧ k'.schedulerCursor = some c)
      ∨ ∃ p, (circleFrom c l).find? (fun q => decide (q ∈ R)) = some p
        ∧ k'.suspended = some p ∧ k'.schedulerCursor = some p := by
  have htest : ∀ q ∈ circleFrom c l, k.runnable q = decide (q ∈ R) := by
    intro q hq
    have hmem := (circleFrom_perm hpick.listed).mem_iff.mp hq
    have hready := h.ready q
    cases hrun : k.runnable q with
    | true => exact (decide_eq_true (hready.mpr ⟨hmem, hrun⟩)).symm
    | false =>
        refine (decide_eq_false fun hR => ?_).symm
        rw [(hready.mp hR).2] at hrun
        cases hrun
  obtain ⟨picked, hpicked, hcall⟩ := bind_eq_ok.mp hcall
  rw [hpick.pick, find?_congr htest] at hpicked
  have hfound := Except.ok.inj hpicked
  cases picked with
  | none =>
      obtain rfl := Except.ok.inj hcall
      refine Or.inl ⟨?_, hsuspended, hpick.cursor⟩
      refine Finset.eq_empty_of_forall_notMem fun q hq => ?_
      have hq' : q ∈ circleFrom c l :=
        (circleFrom_perm hpick.listed).mem_iff.mpr ((h.ready q).mp hq).1
      have := List.find?_eq_none.mp hfound q hq'
      exact this (decide_eq_true hq)
  | some p =>
      have htested := List.find?_some hfound
      have hp : p ∈ R := of_decide_eq_true htested
      dsimp only at hcall
      have hmoves : Moves (fun m => m ≠ .other)
          { k with schedulerCursor := some p, currentProcess := some p }
          (deliverProcessSignal
            { k with schedulerCursor := some p, currentProcess := some p } (some p)).2 :=
        deliverProcessSignal_moves _ _ fun _ _ => nofun
      have hcursor := hmoves.cursor hk
      generalize (deliverProcessSignal
        { k with schedulerCursor := some p, currentProcess := some p } (some p)).2 = k2
        at hcall hcursor
      refine Or.inr ⟨p, hfound, ?_⟩
      split at hcall
      · obtain rfl := Except.ok.inj hcall
        exact ⟨rfl, hcursor⟩
      · next hstop =>
          -- a process that died or waits can not run any more
          obtain rfl := Except.ok.inj hcall
          have hrun : k2.runnable p = true := ((h'.ready p).mp hp).2
          obtain ⟨-, hstatus⟩ := of_decide_eq_true hrun
          refine absurd ⟨?_, ?_⟩ hstop
          · rintro heq
            rw [heq] at hstatus
            simp at hstatus
          · rintro heq
            rw [heq] at hstatus
            simp at hstatus

theorem processYield_cursor (k : Kernel) :
    (processYield k).schedulerCursor = k.schedulerCursor := by
  unfold processYield
  split
  · rfl
  · split
    · rfl
    · dsimp only
      split <;> rfl

theorem scheduleResume_cursor (k : Kernel) (p : Slot) :
    (scheduleResume k p).schedulerCursor = k.schedulerCursor := by
  unfold scheduleResume processSwitchToKernelSpace
  dsimp only
  split <;> split <;> rfl

theorem yieldFrom_cursor (k : Kernel) (p : Slot) (loop : PendingLoop) :
    (yieldFrom k p loop).1.schedulerCursor = k.schedulerCursor := by
  unfold yieldFrom
  split
  · rfl
  · exact (scheduleResume_cursor _ p).trans (processYield_cursor k)

/-- A step that keeps the list is a call of `schedule_next_process`, or leaves
the cursor where it is. -/
theorem Rotating.step {s s' : Kernel × Control} {action : SchedulerAction} (h : Rotating l R s.1)
    (h' : Rotating l R s'.1) (hinv : SchedulerInv s) (hinv' : SchedulerInv s')
    (hstep : SchedulerStep s action s') :
    (turnOf s action s' = none ∧ s'.1.schedulerCursor = s.1.schedulerCursor)
      ∨ turnOf s action s' = some s'.1.suspended ∧ s.1.suspended = none
        ∧ scheduleNextProcess s.1 = .ok s'.1 := by
  obtain ⟨kids, hl⟩ := h.linkInv hinv.housed.links
  obtain ⟨kids', hl'⟩ := h'.linkInv hinv'.housed.links
  cases hstep with
  | kernelCall hschedule hyield hexec =>
      exact Or.inl ⟨rfl, hl.exec_cursor hl' hexec hschedule hyield⟩
  | @processCall k k' e r p loop hby hexec =>
      refine Or.inl ⟨rfl, hl.exec_cursor hl' hexec ?_ ?_⟩ <;>
        · rintro rfl
          exact hby
  | @interrupt k c => exact Or.inl ⟨by cases c <;> rfl, rfl⟩
  | runPending maxTicks => exact Or.inl ⟨rfl, rfl⟩
  | forceTicks count => exact Or.inl ⟨rfl, rfl⟩
  | @yield k p loop => exact Or.inl ⟨rfl, yieldFrom_cursor k p loop⟩
  | @finish k p loop =>
      exact Or.inl ⟨rfl, (yieldFrom_cursor _ p loop).trans (processExit_cursor k (some p) _)⟩
  | @advance k k' c c' hcall =>
      cases c with
      | kernelCode | process =>
          obtain ⟨rfl, rfl⟩ := Prod.mk.inj (Except.ok.inj hcall)
          exact Or.inl ⟨rfl, rfl⟩
      | forceTicks index count =>
          simp only [schedulerAdvance] at hcall
          split at hcall <;>
            obtain ⟨rfl, rfl⟩ := Prod.mk.inj (Except.ok.inj hcall) <;>
            exact Or.inl ⟨rfl, rfl⟩
      | runPending loop =>
          simp only [schedulerAdvance] at hcall
          split at hcall
          · obtain ⟨k1, hall, hcall⟩ := bind_eq_ok.mp hcall
            obtain ⟨rfl, rfl⟩ := Prod.mk.inj (Except.ok.inj hcall)
            have hmoves : Moves (fun m => m ≠ .other)
                { k with pendingSchedulerTicks := sub32 k.pendingSchedulerTicks 1 } k1 :=
              deliverAll_moves (fun _ hother => by cases hother) hall
            exact Or.inl ⟨rfl, hmoves.cursor hl.kernel⟩
          · obtain ⟨rfl, rfl⟩ := Prod.mk.inj (Except.ok.inj hcall)
            exact Or.inl ⟨rfl, rfl⟩
      | delivered loop =>
          have hcontext : KernelContext k := hinv.context
          obtain ⟨k1, hnext, hcall⟩ := bind_eq_ok.mp hcall
          refine Or.inr ?_
          cases hs : k1.suspended with
          | none =>
              rw [hs] at hcall
              obtain ⟨rfl, rfl⟩ := Prod.mk.inj (Except.ok.inj hcall)
              exact ⟨congrArg some hs.symm, hcontext.suspended, hnext⟩
          | some p =>
              rw [hs] at hcall
              obtain ⟨rfl, rfl⟩ := Prod.mk.inj (Except.ok.inj hcall)
              exact ⟨congrArg some hs.symm, hcontext.suspended, hnext⟩

/-- The calls so far took the first processes of the queue `q0`, and these
stand at its end now. -/
structure Turned (l : List Slot) (R : Finset Slot) (q0 : List Slot)
    (turns : List (Option (Option Slot))) (s : Kernel × Control) : Prop where
  inv : SchedulerInv s
  rotating : Rotating l R s.1
  queue : (calls turns).length ≤ R.card → ∃ served c, calls turns = served.map some
    ∧ served = q0.take served.length ∧ s.1.schedulerCursor = some c ∧ c ∈ l
    ∧ queueFrom (fun q => decide (q ∈ R)) c l = q0.drop served.length ++ q0.take served.length

theorem Turned.step {q0 : List Slot} {turns : List (Option (Option Slot))}
    {turn : Option (Option Slot)} {s s' : Kernel × Control} (hq0 : q0.length = R.card)
    (h : Turned l R q0 turns s) (hstep : RotatingStep l R s turn s') :
    Turned l R q0 (turns ++ [turn]) s' := by
  obtain ⟨action, hstep, rfl, hrotating⟩ := hstep
  have hinv := h.inv.step hstep
  refine ⟨hinv, hrotating, ?_⟩
  rcases h.rotating.step hrotating h.inv hinv hstep with
    ⟨hnone, hcursor⟩ | ⟨hturn, hsuspended, hcall⟩
  · rw [hnone, calls_snoc_none, hcursor]
    exact h.queue
  · rw [hturn, calls_snoc_some]
    intro hlen
    rw [List.length_append, List.length_singleton] at hlen
    obtain ⟨served, c, hcalls, hserved, hcur, hc, hqueue⟩ := h.queue (by omega)
    rw [hcalls, List.length_map] at hlen
    obtain ⟨kids, hl⟩ := h.rotating.linkInv h.inv.housed.links
    obtain ⟨c', hpick⟩ := hl.pickExact
    obtain rfl := Option.some.inj (hcur.symm.trans hpick.cursor)
    rcases h.rotating.turn hrotating hpick hl.kernel hsuspended hcall with
      ⟨rfl, -⟩ | ⟨p, hfound, hran, hcur'⟩
    · simp at hlen
    · obtain ⟨rest, hnow, hafter⟩ := queueFrom_next hl.nodup hc hfound
      obtain ⟨htake, hdrop⟩ := queue_served (by omega) hserved (hnow.symm.trans hqueue)
      have hp : p ∈ l := (circleFrom_perm hc).mem_iff.mp (List.mem_of_find?_eq_some hfound)
      refine ⟨served ++ [p], p, ?_, htake, hcur', hp, hafter.trans hdrop⟩
      rw [hcalls, hran, List.map_append]
      rfl

/-- A round of as many calls as there are processes that can run. -/
theorem Rotating.round {s s' : Kernel × Control} {turns : List (Option (Option Slot))}
    (hinv : SchedulerInv s) (h : Rotating l R s.1) (hrun : Run (RotatingStep l R) s turns s')
    (hround : (calls turns).length = R.card) : ∀ p ∈ R, (calls turns).count (some p) = 1 := by
  obtain ⟨kids, hl⟩ := h.linkInv hinv.housed.links
  obtain ⟨c, hpick⟩ := hl.pickExact
  generalize hq0 : queueFrom (fun q => decide (q ∈ R)) c l = q0
  have hperm : q0.Perm (l.filter fun q => decide (q ∈ R)) := hq0 ▸ queueFrom_perm hpick.listed
  have hnodup : q0.Nodup := hperm.nodup_iff.mpr (hl.nodup.filter _)
  have hmem : ∀ p, p ∈ q0 ↔ p ∈ R := by
    intro p
    rw [hperm.mem_iff, List.mem_filter, decide_eq_true_eq]
    exact ⟨fun hp => hp.2, fun hp => ⟨((h.ready p).mp hp).1, hp⟩⟩
  have hlen : q0.length = R.card := by
    rw [← List.toFinset_card_of_nodup hnodup]
    congr 1
    ext p
    rw [List.mem_toFinset, hmem]
  have hturned : Turned l R q0 turns s' :=
    hrun.invariant_trace (I := Turned l R q0) ⟨hinv, h, fun _ => ⟨[], c, rfl, rfl, hpick.cursor,
      hpick.listed, by simpa using hq0⟩⟩ fun ht hs => ht.step hlen hs
  obtain ⟨served, -, hcalls, hserved, -⟩ := hturned.queue (Nat.le_of_eq hround)
  have hall : served = q0 := by
    rw [hcalls, List.length_map, ← hlen] at hround
    rw [hserved, hround, List.take_length]
  intro p hp
  rw [hcalls, hall, List.count_map_of_injective _ _ (Option.some_injective _)]
  exact List.count_eq_one_of_mem hnodup ((hmem p).mpr hp)

end Turns

/-- In every reachable state the choice is that of a round robin, and while
neither the list nor the processes that can run change, each of these runs
once in as many calls of `schedule_next_process` as there are of them. -/
theorem scheduler_roundRobin {vm : Vm} (hvm : vm.currentDirectory = some .kernel) :
    (∀ labels k, Run KernelStep (processInit vm) labels k → ∃ l c, PickExact k l c)
      ∧ ∀ actions s, Run SchedulerStep (processInit vm, .kernelCode) actions s →
        (∃ l c, PickExact s.1 l c)
        ∧ ∀ l R turns s', Rotating l R s.1 → Run (RotatingStep l R) s turns s' →
          (calls turns).length = R.card → ∀ p ∈ R, (calls turns).count (some p) = 1 := by
  refine ⟨?_, ?_⟩
  · intro labels k hrun
    obtain ⟨l, kids, hl⟩ := (kernelRun_linkage hrun).1
    exact ⟨l, hl.pickExact⟩
  · intro actions s hrun
    have hinv : SchedulerInv s :=
      hrun.invariant (I := SchedulerInv) (schedulerInv_processInit hvm) fun h hstep => h.step hstep
    obtain ⟨l, kids, hl⟩ := hinv.housed.links
    exact ⟨⟨l, hl.pickExact⟩, fun l R turns s' hrotating hrun' hround =>
      hrotating.round hinv hrun' hround⟩

/-- `RotatingStep` as a function, with what it called. -/
def rotatingExec (l : List Slot) (R : Finset Slot) (s : Kernel × Control)
    (action : SchedulerAction) : Option (Option (Option Slot) × Kernel × Control) :=
  (schedulerExec s action).bind fun s' =>
    if Rotating l R s'.1 then some (turnOf s action s', s') else none

theorem rotatingExec_step {l : List Slot} {R : Finset Slot} ⦃s : Kernel × Control⦄
    ⦃action : SchedulerAction⦄ ⦃turn : Option (Option Slot)⦄ ⦃s' : Kernel × Control⦄
    (h : rotatingExec l R s action = some (turn, s')) : RotatingStep l R s turn s' := by
  obtain ⟨s1, hstep, h⟩ := Option.bind_eq_some_iff.mp h
  split at h
  · next hrotating =>
      obtain ⟨rfl, rfl⟩ := Prod.mk.inj (Option.some.inj h)
      exact ⟨action, schedulerExec_step hstep, rfl, hrotating⟩
  · cases h

theorem rotatingExec_run {l : List Slot} {R : Finset Slot} {actions : List SchedulerAction}
    {turns : List (Option (Option Slot))} {s s' : Kernel × Control}
    (h : execRun (rotatingExec l R) s actions = some (turns, s')) :
    Run (RotatingStep l R) s ((actions.zip turns).map Prod.snd) s' := by
  have hlabelled : Run (fun s label s' => RotatingStep l R s label.2 s') s (actions.zip turns) s' :=
    execRun_run rotatingExec_step h
  obtain ⟨t, hturns, rfl⟩ := hlabelled.simulates (R := Eq) (f := Prod.snd)
    (fun hstep heq => ⟨_, heq ▸ hstep, rfl⟩) rfl
  exact hturns

/-- The round of two counters, in two forced ticks; each has the processor
until it yields. -/
theorem scheduler_roundRobin_two :
    ∃ actions s, Run SchedulerStep (processInit eightMegabytes, .kernelCode) actions s
      ∧ ∃ turns s', Rotating [0, 1, 2] {1, 2} s.1 ∧ Run (RotatingStep [0, 1, 2] {1, 2}) s turns s'
        ∧ calls turns = [some 1, some 2]
        ∧ (calls turns).count (some 1) = 1 ∧ (calls turns).count (some 2) = 1 := by
  obtain ⟨s, hstart, hs⟩ := execSteps_observe schedulerExec_step
    (processInit eightMegabytes, .kernelCode)
    [.call (.createOwned 0 (some .demoCounterProcess) 4096) (.created (some 1)),
      .call (.createOwned 0 (some .demoCounterProcess) 4096) (.created (some 2))]
    (fun s => Rotating [0, 1, 2] {1, 2} s.1 ∧
      (execRun (rotatingExec [0, 1, 2] {1, 2}) s
        [.forceTicks 2, .advance, .advance, .advance, .yield, .advance, .advance, .advance,
          .advance]).map Prod.fst
        = some [none, none, none, some (some 1), none, none, none, none, some (some 2)])
    (by decide +kernel)
  obtain ⟨hrotating, hround⟩ := hs
  obtain ⟨⟨turns, s'⟩, hexec, heq⟩ := Option.map_eq_some_iff.mp hround
  obtain rfl : turns = _ := heq
  have hturns := rotatingExec_run hexec
  have hone := ((scheduler_roundRobin rfl).2 _ _ hstart).2 _ _ _ _ hrotating hturns rfl
  exact ⟨_, s, hstart, _, _, hrotating, hturns, rfl, hone 1 (by decide), hone 2 (by decide)⟩

end Kfs
