import Kfs.Lib.Ring
import Kfs.Lib.Word

/-!
# Kernel signals and the keyboard queue

`kernel/src/signals.c` and the queue of `kernel/src/keyboard.c`. Both are
rings that interrupt handlers fill and kernel code empties:
`pending_signals` with 64 slots and `keyboard_buffer` with 256.

Every function here is one section that runs with interrupts disabled (or
inside an interrupt handler), so each is atomic. `signal_dispatch_pending`
is a loop around such a section, `signalDispatchNext`; between two rounds,
and while the callback of a round runs, anything may happen.
-/

namespace Kfs

/-- `MAX_KERNEL_SIGNALS`. -/
def maxKernelSignals : Int := 32

/-- The address of a `signal_callback_t`; `none` is `NULL`. -/
abbrev SignalCallback := Option Nat

/-- `pending_signal_t`. -/
structure PendingKernelSignal where
  signal : Nat
  value : Nat
  context : Nat
  deriving DecidableEq, Repr

/-- `pending` holds `pending_signals`, `signal_head` and `signal_tail`. -/
structure Signals where
  signalHandlers : Nat → SignalCallback
  pending : Ring 64 PendingKernelSignal

def signalsInit (s : Signals) : Signals where
  signalHandlers := fun index => if index < 32 then none else s.signalHandlers index
  pending := { s.pending with head := 0, tail := 0 }

/-- A signal number that can be registered and scheduled. -/
def ValidSignal (signal : Int) : Prop := 0 < signal ∧ signal < maxKernelSignals

instance (signal : Int) : Decidable (ValidSignal signal) := inferInstanceAs (Decidable (_ ∧ _))

/-- Whether `register_signal_handler` returned `0`. -/
def registerSignalHandler (s : Signals) (signal : Int) (handler : SignalCallback) :
    Bool × Signals :=
  if signal ≤ 0 ∨ signal ≥ maxKernelSignals then (false, s)
  else (true, { s with signalHandlers := Function.update s.signalHandlers signal.toNat handler })

/-- Whether `schedule_signal` returned `0`. -/
def scheduleSignal (s : Signals) (signal : Int) (value context : Nat) : Bool × Signals :=
  if signal ≤ 0 ∨ signal ≥ maxKernelSignals then (false, s)
  else if s.pending.Full then (false, s)
  else
    (true, { s with
      pending := s.pending.put
        { signal := toUInt32 signal % 256, value := value, context := context } })

/-- One round of `signal_dispatch_pending`: the signal it takes out of the
queue and the callback it calls with it. -/
def signalDispatchNext (s : Signals) : Option (PendingKernelSignal × SignalCallback) × Signals :=
  if s.pending.Empty then (none, s)
  else
    let pending := s.pending.front
    (some (pending, s.signalHandlers pending.signal), { s with pending := s.pending.drop })

def signalPendingCount (s : Signals) : Nat :=
  if s.pending.tail.val ≥ s.pending.head.val then
    sub32 s.pending.tail.val s.pending.head.val
  else add32 (sub32 64 s.pending.head.val) s.pending.tail.val

/-! ## The keyboard queue -/

/-- `keyboard_buffer`, `keyboard_head` and `keyboard_tail`. -/
abbrev KeyboardQueue := Ring 256 Nat

/-- The assignments of `init_keyboard`. -/
def initKeyboard (q : KeyboardQueue) : KeyboardQueue := { q with head := 0, tail := 0 }

/-- `keyboard_queue_char`, with whether the character was queued. -/
def keyboardQueueChar (q : KeyboardQueue) (c : Nat) : Bool × KeyboardQueue :=
  if q.Full then (false, q) else (true, q.put c)

def keyboardHasChar (q : KeyboardQueue) : Bool := decide (¬q.Empty)

/-- The character `keyboard_try_read_char` stored, or `none` when it returned
`0`; `outChar` tells that its argument is not `NULL`. -/
def keyboardTryReadChar (q : KeyboardQueue) (outChar : Bool) : Option Nat × KeyboardQueue :=
  if outChar = false then (none, q)
  else if q.Empty then (none, q)
  else (some q.front, q.drop)

end Kfs
