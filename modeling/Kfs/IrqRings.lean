import Kfs.Lib.Run
import Kfs.Signals

/-!
# Queues between interrupts and the kernel

Runs of the two queues of `Signals`, with the atomic sections of producers
and consumers in any order: an interrupt between two rounds of a dispatch
and a callback that schedules further signals are among them.

What was accepted is what was taken out, followed by what is queued
(`IrqInv`). Order, no loss and no duplication are this one equation, and so
are the counts, since a full ring has all but one of its slots in use.
-/

namespace Kfs

structure Irq where
  signals : Signals
  keyboard : KeyboardQueue

inductive IrqEvent where
  | queueChar (c : Nat)
  | tryReadChar (outChar : Bool)
  | registerHandler (signal : Int) (handler : SignalCallback)
  | scheduleSignal (signal : Int) (value context : Nat)
  | dispatchNext
  deriving DecidableEq

/-- What a section gives back; that a character was queued is not reported by
the code, but known to the reader of a run. -/
inductive IrqReply where
  | accepted (ok : Bool)
  | char (c : Option Nat)
  | dispatched (pending : Option (PendingKernelSignal × SignalCallback))
  deriving DecidableEq

def IrqEvent.exec (s : Irq) : IrqEvent → IrqReply × Irq
  | .queueChar c =>
      let (ok, keyboard) := keyboardQueueChar s.keyboard c
      (.accepted ok, { s with keyboard := keyboard })
  | .tryReadChar outChar =>
      let (c, keyboard) := keyboardTryReadChar s.keyboard outChar
      (.char c, { s with keyboard := keyboard })
  | .registerHandler signal handler =>
      let (ok, signals) := registerSignalHandler s.signals signal handler
      (.accepted ok, { s with signals := signals })
  | .scheduleSignal signal value context =>
      let (ok, signals) := Kfs.scheduleSignal s.signals signal value context
      (.accepted ok, { s with signals := signals })
  | .dispatchNext =>
      let (pending, signals) := signalDispatchNext s.signals
      (.dispatched pending, { s with signals := signals })

def IrqStep (s : Irq) (label : IrqEvent × IrqReply) (s' : Irq) : Prop :=
  label.1.exec s = (label.2, s')

/-- After `signals_init` and `init_keyboard`. -/
def irqInit (s : Irq) : Irq where
  signals := signalsInit s.signals
  keyboard := initKeyboard s.keyboard

/-! ## What a run says -/

/-- `signal`, `value` and `context`. -/
abbrev SignalTriple := Int × Nat × Nat

def PendingKernelSignal.triple (p : PendingKernelSignal) : SignalTriple :=
  (p.signal, p.value, p.context)

/-- The characters that were queued. -/
def charsAccepted (labels : List (IrqEvent × IrqReply)) : List Nat :=
  labels.filterMap fun
    | (.queueChar c, .accepted true) => some c
    | _ => none

/-- The characters that were read. -/
def charsRead (labels : List (IrqEvent × IrqReply)) : List Nat :=
  labels.filterMap fun
    | (_, .char c) => c
    | _ => none

/-- The signals that were scheduled. -/
def signalsAccepted (labels : List (IrqEvent × IrqReply)) : List SignalTriple :=
  labels.filterMap fun
    | (.scheduleSignal signal value context, .accepted true) => some (signal, value, context)
    | _ => none

/-- The signals that were dispatched. -/
def signalsDispatched (labels : List (IrqEvent × IrqReply)) : List SignalTriple :=
  labels.filterMap fun
    | (_, .dispatched (some (pending, _))) => some pending.triple
    | _ => none

/-! ## The invariant -/

structure IrqInv (labels : List (IrqEvent × IrqReply)) (s : Irq) : Prop where
  chars : charsAccepted labels = charsRead labels ++ s.keyboard.contents
  signals : signalsAccepted labels
    = signalsDispatched labels ++ s.signals.pending.contents.map PendingKernelSignal.triple
  queued : ∀ p ∈ s.signals.pending.contents, 0 < p.signal ∧ p.signal < 32
  past : ∀ t ∈ signalsDispatched labels, 0 < t.1 ∧ t.1 < 32

theorem keyboardQueueChar_cases (q : KeyboardQueue) (c : Nat) :
    (q.Full ∧ keyboardQueueChar q c = (false, q))
      ∨ (¬q.Full ∧ keyboardQueueChar q c = (true, q.put c)) := by
  unfold keyboardQueueChar
  by_cases h : q.Full
  · exact Or.inl ⟨h, if_pos h⟩
  · exact Or.inr ⟨h, if_neg h⟩

theorem keyboardTryReadChar_cases (q : KeyboardQueue) (outChar : Bool) :
    keyboardTryReadChar q outChar = (none, q)
      ∨ (¬q.Empty ∧ keyboardTryReadChar q outChar = (some q.front, q.drop)) := by
  unfold keyboardTryReadChar
  by_cases hnull : outChar = false
  · exact Or.inl (if_pos hnull)
  · rw [if_neg hnull]
    by_cases h : q.Empty
    · exact Or.inl (if_pos h)
    · exact Or.inr ⟨h, if_neg h⟩

/-- What `schedule_signal` queues is the triple it was called with: a valid
signal fits into a byte. -/
theorem scheduleSignal_cases (s : Signals) (signal : Int) (value context : Nat) :
    (scheduleSignal s signal value context = (false, s)
        ∧ (ValidSignal signal → s.pending.Full))
      ∨ ∃ p : PendingKernelSignal, ¬s.pending.Full ∧ p.triple = (signal, value, context)
        ∧ (0 < p.signal ∧ p.signal < 32)
        ∧ scheduleSignal s signal value context
          = (true, { s with pending := s.pending.put p }) := by
  unfold scheduleSignal ValidSignal maxKernelSignals
  by_cases hrange : signal ≤ 0 ∨ signal ≥ 32
  · exact Or.inl ⟨if_pos hrange, fun hvalid => by omega⟩
  · rw [if_neg hrange]
    by_cases hfull : s.pending.Full
    · exact Or.inl ⟨if_pos hfull, fun _ => hfull⟩
    · have hbyte : (toUInt32 signal % 256 : Nat) = signal.toNat := by
        unfold toUInt32
        omega
      refine Or.inr ⟨_, hfull, ?_, ?_, if_neg hfull⟩
      · show (((toUInt32 signal % 256 : Nat) : Int), value, context) = (signal, value, context)
        rw [hbyte, Int.toNat_of_nonneg (by omega)]
      · show 0 < toUInt32 signal % 256 ∧ toUInt32 signal % 256 < 32
        rw [hbyte]
        omega

theorem signalDispatchNext_cases (s : Signals) :
    (s.pending.Empty ∧ signalDispatchNext s = (none, s))
      ∨ (¬s.pending.Empty ∧ signalDispatchNext s
        = (some (s.pending.front, s.signalHandlers s.pending.front.signal),
          { s with pending := s.pending.drop })) := by
  unfold signalDispatchNext
  by_cases h : s.pending.Empty
  · exact Or.inl ⟨h, if_pos h⟩
  · exact Or.inr ⟨h, if_neg h⟩

/-! ## Steps -/

section Labels

variable (labels : List (IrqEvent × IrqReply)) (label : IrqEvent × IrqReply)

theorem charsAccepted_append :
    charsAccepted (labels ++ [label]) = charsAccepted labels ++ charsAccepted [label] :=
  List.filterMap_append

theorem charsRead_append :
    charsRead (labels ++ [label]) = charsRead labels ++ charsRead [label] :=
  List.filterMap_append

theorem signalsAccepted_append :
    signalsAccepted (labels ++ [label]) = signalsAccepted labels ++ signalsAccepted [label] :=
  List.filterMap_append

theorem signalsDispatched_append :
    signalsDispatched (labels ++ [label])
      = signalsDispatched labels ++ signalsDispatched [label] :=
  List.filterMap_append

end Labels

/-- The keyboard queue moves and the signals do not. -/
theorem IrqInv.keyboard {labels : List (IrqEvent × IrqReply)} {label : IrqEvent × IrqReply}
    {s : Irq} (h : IrqInv labels s) (keyboard : KeyboardQueue)
    (hchars : charsAccepted labels ++ charsAccepted [label]
      = charsRead labels ++ charsRead [label] ++ keyboard.contents)
    (hsignals : signalsAccepted [label] = []) (hdispatched : signalsDispatched [label] = []) :
    IrqInv (labels ++ [label]) { s with keyboard := keyboard } where
  chars := by rw [charsAccepted_append, charsRead_append, hchars]
  signals := by
    rw [signalsAccepted_append, signalsDispatched_append, hsignals, hdispatched, List.append_nil,
      List.append_nil]
    exact h.signals
  queued := h.queued
  past := by
    rw [signalsDispatched_append, hdispatched, List.append_nil]
    exact h.past

/-- The signal queue moves and the keyboard does not. -/
theorem IrqInv.signalQueue {labels : List (IrqEvent × IrqReply)} {label : IrqEvent × IrqReply}
    {s : Irq} (h : IrqInv labels s) (signals : Signals)
    (haccepted : charsAccepted [label] = []) (hread : charsRead [label] = [])
    (hsignals : signalsAccepted labels ++ signalsAccepted [label]
      = signalsDispatched labels ++ signalsDispatched [label]
        ++ signals.pending.contents.map PendingKernelSignal.triple)
    (hqueued : ∀ p ∈ signals.pending.contents, 0 < p.signal ∧ p.signal < 32)
    (hpast : ∀ t ∈ signalsDispatched [label], 0 < t.1 ∧ t.1 < 32) :
    IrqInv (labels ++ [label]) { s with signals := signals } where
  chars := by
    rw [charsAccepted_append, charsRead_append, haccepted, hread, List.append_nil, List.append_nil]
    exact h.chars
  signals := by rw [signalsAccepted_append, signalsDispatched_append, hsignals]
  queued := hqueued
  past := by
    rw [signalsDispatched_append]
    intro t ht
    rcases List.mem_append.mp ht with ht | ht
    · exact h.past t ht
    · exact hpast t ht

theorem IrqInv.step {labels : List (IrqEvent × IrqReply)} {label : IrqEvent × IrqReply}
    {s s' : Irq} (h : IrqInv labels s) (hstep : IrqStep s label s') :
    IrqInv (labels ++ [label]) s' := by
  obtain ⟨e, r⟩ := label
  unfold IrqStep at hstep
  cases e with
  | queueChar c =>
      rcases keyboardQueueChar_cases s.keyboard c with ⟨-, he⟩ | ⟨hfull, he⟩
      · simp only [IrqEvent.exec, he, Prod.mk.injEq] at hstep
        obtain ⟨rfl, rfl⟩ := hstep
        refine h.keyboard s.keyboard ?_ rfl rfl
        rw [h.chars]
        simp [charsAccepted, charsRead]
      · simp only [IrqEvent.exec, he, Prod.mk.injEq] at hstep
        obtain ⟨rfl, rfl⟩ := hstep
        refine h.keyboard (s.keyboard.put c) ?_ rfl rfl
        rw [Ring.contents_put hfull, h.chars]
        simp [charsAccepted, charsRead]
  | tryReadChar outChar =>
      rcases keyboardTryReadChar_cases s.keyboard outChar with he | ⟨hempty, he⟩
      · simp only [IrqEvent.exec, he, Prod.mk.injEq] at hstep
        obtain ⟨rfl, rfl⟩ := hstep
        refine h.keyboard s.keyboard ?_ rfl rfl
        rw [h.chars]
        simp [charsAccepted, charsRead]
      · simp only [IrqEvent.exec, he, Prod.mk.injEq] at hstep
        obtain ⟨rfl, rfl⟩ := hstep
        refine h.keyboard s.keyboard.drop ?_ rfl rfl
        rw [h.chars, Ring.contents_drop hempty]
        simp [charsAccepted, charsRead]
  | registerHandler signal handler =>
      have hring : (registerSignalHandler s.signals signal handler).2.pending
          = s.signals.pending := by
        unfold registerSignalHandler
        split <;> rfl
      simp only [IrqEvent.exec, Prod.mk.injEq] at hstep
      obtain ⟨rfl, rfl⟩ := hstep
      refine h.signalQueue _ rfl rfl ?_ (by rw [hring]; exact h.queued) (by
        simp [signalsDispatched])
      rw [hring, h.signals]
      simp [signalsAccepted, signalsDispatched]
  | scheduleSignal signal value context =>
      rcases scheduleSignal_cases s.signals signal value context with
        ⟨he, -⟩ | ⟨p, hfull, htriple, hvalid, he⟩
      · simp only [IrqEvent.exec, he, Prod.mk.injEq] at hstep
        obtain ⟨rfl, rfl⟩ := hstep
        refine h.signalQueue s.signals rfl rfl ?_ h.queued (by simp [signalsDispatched])
        rw [h.signals]
        simp [signalsAccepted, signalsDispatched]
      · simp only [IrqEvent.exec, he, Prod.mk.injEq] at hstep
        obtain ⟨rfl, rfl⟩ := hstep
        refine h.signalQueue { s.signals with pending := s.signals.pending.put p } rfl rfl ?_
          ?_ (by simp [signalsDispatched])
        · rw [Ring.contents_put hfull, h.signals]
          simp [signalsAccepted, signalsDispatched, htriple]
        · intro x hx
          rw [Ring.contents_put hfull, List.mem_append, List.mem_singleton] at hx
          rcases hx with hx | rfl
          · exact h.queued x hx
          · exact hvalid
  | dispatchNext =>
      rcases signalDispatchNext_cases s.signals with ⟨-, he⟩ | ⟨hempty, he⟩
      · simp only [IrqEvent.exec, he, Prod.mk.injEq] at hstep
        obtain ⟨rfl, rfl⟩ := hstep
        refine h.signalQueue s.signals rfl rfl ?_ h.queued (by simp [signalsDispatched])
        rw [h.signals]
        simp [signalsAccepted, signalsDispatched]
      · simp only [IrqEvent.exec, he, Prod.mk.injEq] at hstep
        obtain ⟨rfl, rfl⟩ := hstep
        have hcontents := Ring.contents_drop hempty
        have hfront := h.queued s.signals.pending.front
          (by rw [hcontents]; exact List.mem_cons_self)
        refine h.signalQueue { s.signals with pending := s.signals.pending.drop } rfl rfl ?_
          (fun x hx => h.queued x (by rw [hcontents]; exact List.mem_cons_of_mem _ hx)) ?_
        · rw [h.signals, hcontents]
          simp [signalsAccepted, signalsDispatched]
        · intro t ht
          obtain rfl : t = s.signals.pending.front.triple := List.mem_singleton.mp ht
          show 0 < (s.signals.pending.front.signal : Int)
            ∧ (s.signals.pending.front.signal : Int) < 32
          omega

theorem irqInv_init (s : Irq) : IrqInv [] (irqInit s) := by
  have hchars : (irqInit s).keyboard.contents = [] := Ring.contents_eq_nil rfl
  have hsignals : (irqInit s).signals.pending.contents = [] := Ring.contents_eq_nil rfl
  refine ⟨by rw [hchars]; rfl, by rw [hsignals]; rfl, ?_, fun t ht => (List.not_mem_nil ht).elim⟩
  rw [hsignals]
  exact fun p hp => (List.not_mem_nil hp).elim

/-! ## Bounded queues -/

theorem signalPendingCount_eq (s : Signals) : signalPendingCount s = s.pending.count := by
  have hh := s.pending.head.isLt
  have ht := s.pending.tail.isLt
  have hc := s.pending.count_cases
  unfold signalPendingCount
  split
  · rw [sub32_of_le (by omega) (by omega)]
    omega
  · rw [sub32_of_le (by omega) (by omega), add32_of_lt (by omega)]
    omega

/-- Both queues are bounded queues. -/
structure FifoOk (labels : List (IrqEvent × IrqReply)) (s : Irq) : Prop where
  chars : charsAccepted labels = charsRead labels ++ s.keyboard.contents
  signals : signalsAccepted labels
    = signalsDispatched labels ++ s.signals.pending.contents.map PendingKernelSignal.triple
  charRefused : ∀ c, (keyboardQueueChar s.keyboard c).1 = false ↔
    (charsAccepted labels).length = (charsRead labels).length + 255
  signalRefused : ∀ signal value context, ValidSignal signal →
    ((scheduleSignal s.signals signal value context).1 = false ↔
      (signalsAccepted labels).length = (signalsDispatched labels).length + 63)
  pending : (signalsDispatched labels).length + signalPendingCount s.signals
    = (signalsAccepted labels).length
  inRange : ∀ t ∈ signalsDispatched labels, 1 ≤ t.1 ∧ t.1 ≤ 31

theorem IrqInv.fifo {labels : List (IrqEvent × IrqReply)} {s : Irq} (h : IrqInv labels s) :
    FifoOk labels s := by
  have hchars := congrArg List.length h.chars
  have hsignals := congrArg List.length h.signals
  rw [List.length_append, Ring.length_contents] at hchars
  rw [List.length_append, List.length_map, Ring.length_contents] at hsignals
  refine ⟨h.chars, h.signals, ?_, ?_, ?_, ?_⟩
  · intro c
    have hiff := s.keyboard.full_iff
    rcases keyboardQueueChar_cases s.keyboard c with ⟨hfull, he⟩ | ⟨hfull, he⟩
    · have hcount := hiff.mp hfull
      rw [he]
      exact ⟨fun _ => by omega, fun _ => rfl⟩
    · have hcount := mt hiff.mpr hfull
      rw [he]
      exact ⟨nofun, fun hlen => absurd (by omega) hcount⟩
  · intro signal value context hvalid
    have hiff := s.signals.pending.full_iff
    rcases scheduleSignal_cases s.signals signal value context with
      ⟨he, hfull⟩ | ⟨p, hfull, -, -, he⟩
    · have hcount := hiff.mp (hfull hvalid)
      rw [he]
      exact ⟨fun _ => by omega, fun _ => rfl⟩
    · have hcount := mt hiff.mpr hfull
      rw [he]
      exact ⟨nofun, fun hlen => absurd (by omega) hcount⟩
  · rw [signalPendingCount_eq]
    omega
  · intro t ht
    have hpast := h.past t ht
    omega

/-- Whatever the order of producers and consumers, characters and signals
come out in the order they were accepted in, each once. -/
theorem irqRun_fifo {s0 s : Irq} {labels : List (IrqEvent × IrqReply)}
    (hrun : Run IrqStep (irqInit s0) labels s) : FifoOk labels s :=
  IrqInv.fifo (hrun.invariant_trace (irqInv_init s0) IrqInv.step)

/-- A callback schedules a signal in the middle of a dispatch. -/
theorem irqRun_fifo_callback :
    ∃ s0 s labels, Run IrqStep (irqInit s0) labels s
      ∧ signalsDispatched labels = [(2, 65, 0), (1, 7, 8)] ∧ charsRead labels = [65]
      ∧ FifoOk labels s := by
  let s0 : Irq :=
    { signals := { signalHandlers := fun _ => none, pending := ⟨fun _ => ⟨0, 0, 0⟩, 5, 9⟩ }
      keyboard := ⟨fun _ => 0, 3, 1⟩ }
  have hexec : ∀ ⦃s e r t⦄, some (IrqEvent.exec s e) = some (r, t) → IrqStep s (e, r) t :=
    fun _ _ _ _ h => Option.some.inj h
  obtain ⟨s, hrun, -⟩ := execRun_observe hexec (irqInit s0)
    [.queueChar 65, .scheduleSignal 2 65 0, .dispatchNext, .scheduleSignal 1 7 8,
      .tryReadChar true, .dispatchNext, .dispatchNext]
    [.accepted true, .accepted true, .dispatched (some (⟨2, 65, 0⟩, none)), .accepted true,
      .char (some 65), .dispatched (some (⟨1, 7, 8⟩, none)), .dispatched none]
    (fun _ => True) (by decide +kernel)
  exact ⟨s0, s, _, hrun, by decide, by decide, irqRun_fifo hrun⟩

end Kfs
